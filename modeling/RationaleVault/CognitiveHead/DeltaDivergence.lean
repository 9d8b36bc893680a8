import RationaleVault.CognitiveHead.Continuation
import RationaleVault.CognitiveHead.DeltaReplay

/-!
# Where delta replay diverges

An item stored under an id that is not a string is not found again after the
snapshot was read back from JSON text: object keys are always strings. Such a
state and the one recovered from its snapshot are told apart by some
continuation of the stream. With string ids no continuation tells them apart.
-/

namespace RationaleVault

/-- Delta replay from `P`, read back from JSON text, gives what full replay gives. -/
def DeltaAgrees (p : UUID) (P : SnapshotPayload) (db : EventDb) : Prop :=
  ∀ now now', (ReplayEngine.buildProjection (.accepted P.reload) db db p now).map
      (fun r => (r.mode, r.head.content)) =
    (ReplayEngine.fullReplay p (db.getProjectStream p 0) now').map
      (fun H => (ReplayMode.delta, H.content))

section Continuation

variable {p : UUID} {db db' : EventDb} {P : SnapshotPayload} {s : ReducerState}
  {added : List EventRecord}

/-- A stale snapshot of a nonempty stream is continued by the added events. -/
theorem buildProjection_delta (hseq : P.sequence = db.getLatestSequence p)
    (hrows : db.projectRows p ≠ []) (hext : EventDb.Extends db db' p added) (hne : added ≠ [])
    (now : String) :
    (ReplayEngine.buildProjection (.accepted P.reload) db' db' p now).map
        (fun r => (r.mode, r.head.content)) =
      (ReplayEngine.deltaReplay p P.reload added now).map
        (fun H => (ReplayMode.delta, H.content)) := by
  have hlt := hext.latest_lt hne
  have hpos := EventDb.getLatestSequence_pos hrows
  have hstale : ¬ ((db'.getLatestSequence p : Int) ≤ P.sequence) := by rw [hseq]; omega
  have hzero : 0 < P.sequence := by rw [hseq]; omega
  simp only [ReplayEngine.buildProjection, ReplayEngine.usablePayload,
    SnapshotValidationResult.accepted, if_true, Option.map_some, Option.getD_some,
    SnapshotPayload.reload_sequence, ge_iff_le, hstale, if_false, gt_iff_lt, hzero]
  rw [hseq, hext.stream_since]
  cases ReplayEngine.deltaReplay p P.reload added now <;> rfl

/-- The two replays disagree on a continuation that tells the stored state and the state of the
snapshot apart. -/
theorem not_deltaAgrees (hs : SnapshotState (db.projectRows p) P s)
    (hseq : P.sequence = db.getLatestSequence p) {s₀ : ReducerState}
    (hs₀ : ∀ s', ReplayEngine.stateOfPayload P.reload = .ok s' → s' = s₀)
    {contents : List (EventType × JsonObj)} (hne : contents ≠ [])
    (hdist : Distinguishes contents s s₀) :
    ¬ DeltaAgrees p P (db.appendAll (contents.map (requestFor p))) := by
  intro hagree
  obtain ⟨added, hext, hmap⟩ := extends_requestFor db p contents
  obtain ⟨s₁, hs₁, hheads, hdiff⟩ := hdist added hmap
  have hadded : added ≠ [] := fun h => hne (by rw [← hmap, h]; rfl)
  generalize db.appendAll (contents.map (requestFor p)) = db' at hagree hext
  have hboot : HasBootstrap (db'.projectRows p) := hext.rows ▸ hs.bootstrap.append added
  obtain ⟨head, hhead⟩ := hheads p "" (db'.projectRows p)
  have hfull : ReplayEngine.fullReplay p (db'.getProjectStream p 0) "" = .ok head := by
    rw [EventDb.getProjectStream_zero, ReplayEngine.fullReplay_eq "" hboot, hext.rows,
      ReducerState.reduce_append added hs.state, hs₁, ← hext.rows]
    exact hhead
  have hboth := hagree "" ""
  rw [hfull, buildProjection_delta hseq hs.bootstrap.ne_nil hext hadded] at hboth
  cases hdelta : ReplayEngine.deltaReplay p P.reload added "" with
  | error e => rw [hdelta] at hboth; cases hboth
  | ok head' =>
      rw [hdelta] at hboth
      have hcontent : head'.content = head.content := by simpa [Except.map] using hboth
      simp only [ReplayEngine.deltaReplay, Except.bind_eq_ok_iff] at hdelta
      obtain ⟨s', hs', s₂, hs₂, hhead'⟩ := hdelta
      rw [hs₀ s' hs'] at hs₂
      exact hdiff s₂ hs₂ (sameLists_of_content hhead' hhead hcontent)

/-! ## Keys after a reload -/

theorem normKeys_convertItems {α : Type} {f : JsonObj → Except Exc α} {d : ItemDicts}
    {d' : OrdDict Atom α} (h : ReplayEngine.convertItems f d = .ok d') :
    d'.normKeys = d.normKeys := by
  simp only [ReplayEngine.convertItems, Except.bind_eq_ok_iff, Except.pure_eq_ok_iff] at h
  obtain ⟨entries, hentries, rfl⟩ := h
  have hkeys : entries.map (fun e => (DictKey.norm e.1 : AtomNorm)) = d.normKeys := by
    have hall := Fold.forall₂_of_mapM hentries
    unfold OrdDict.normKeys
    clear hentries
    generalize d.entries = stored at hall
    induction hall with
    | nil => rfl
    | cons hxy _ ih =>
        simp only [Except.bind_eq_ok_iff, Except.pure_eq_ok_iff] at hxy
        obtain ⟨_, _, rfl⟩ := hxy
        rw [List.map_cons, List.map_cons, ih]
  have hnodup : (entries.map fun e => (DictKey.norm e.1 : AtomNorm)).Nodup :=
    hkeys ▸ d.normKeys_nodup
  rw [← hkeys, OrdDict.normKeys, OrdDict.entries_ofList hnodup]

/-- A key that is not a string is absent after a reload. -/
theorem ItemDicts.not_mem_reload (d : ItemDicts) {k : Atom} (hk : k.isStr = false) :
    DictKey.norm k ∉ d.reload.normKeys := by
  intro hmem
  obtain ⟨e, he, hn⟩ := List.mem_map.mp hmem
  have hstr := d.isStr_keys_reload e.1 (List.mem_map.mpr ⟨e, he, rfl⟩)
  rw [Atom.isStr_congr hn, hk] at hstr
  cases hstr

theorem normKeys_of_stateOfPayload {s₀ : ReducerState}
    (h : ReplayEngine.stateOfPayload P.reload = .ok s₀) :
    s₀.tasks.normKeys = P.tasks.reload.normKeys ∧
      s₀.decisions.normKeys = P.decisions.reload.normKeys ∧
      s₀.questions.normKeys = P.questions.reload.normKeys := by
  simp only [ReplayEngine.stateOfPayload, Except.bind_eq_ok_iff, Except.pure_eq_ok_iff] at h
  obtain ⟨ts, ht, ds, hd, qs, hq, rfl⟩ := h
  exact ⟨normKeys_convertItems ht, normKeys_convertItems hd, normKeys_convertItems hq⟩

/-- If every continuation agrees, the state of the snapshot lacks no item. -/
theorem stringIds_of_not_separable (hs : SnapshotState (db.projectRows p) P s)
    (h : ∀ s₀, (∀ s', ReplayEngine.stateOfPayload P.reload = .ok s' → s' = s₀) →
      ¬ Separable s s₀) : s.StringIds := by
  have hfiled : s.Filed := ReducerState.filed_initial.reduce hs.state
  -- Where the snapshot cannot be decoded at all, any state stands for it, also an empty one.
  obtain ⟨s₀, hs₀, hkeys⟩ : ∃ s₀ : ReducerState,
      (∀ s', ReplayEngine.stateOfPayload P.reload = .ok s' → s' = s₀) ∧
      ∀ k : Atom, k.isStr = false → DictKey.norm k ∉ s₀.tasks.normKeys ∧
        DictKey.norm k ∉ s₀.decisions.normKeys ∧ DictKey.norm k ∉ s₀.questions.normKeys := by
    cases hdecode : ReplayEngine.stateOfPayload P.reload with
    | error e =>
        refine ⟨.initial, nofun, fun k _ => ?_⟩
        simp [ReducerState.initial, OrdDict.normKeys]
    | ok s₀ =>
        refine ⟨s₀, fun s' h => (Except.ok.inj h).symm, fun k hk => ?_⟩
        obtain ⟨ht, hd, hq⟩ := normKeys_of_stateOfPayload hdecode
        rw [ht, hd, hq]
        exact ⟨ItemDicts.not_mem_reload _ hk, ItemDicts.not_mem_reload _ hk,
          ItemDicts.not_mem_reload _ hk⟩
  constructor
  · intro k hk
    by_contra hstr
    apply h s₀ hs₀
    exact separable_of_missing_task hfiled hk (hkeys k (by simpa using hstr)).1
  · intro k hk
    by_contra hstr
    apply h s₀ hs₀
    exact separable_of_missing_decision hfiled hk (hkeys k (by simpa using hstr)).2.1
  · intro k hk
    by_contra hstr
    apply h s₀ hs₀
    exact separable_of_missing_question hfiled hk (hkeys k (by simpa using hstr)).2.2

end Continuation

/-- Delta replay from the compiler's snapshot, read back from JSON text, agrees with full replay
on every continuation of the stream exactly when all ids in the snapshot are strings. -/
theorem deltaReplay_agrees_iff {p : UUID} {db : EventDb} {P : SnapshotPayload}
    (hP : CompiledSnapshot p db P) (htyped : ∀ e ∈ db.projectRows p, e.Typed) :
    (∀ reqs : List AppendRequest,
      (∀ e ∈ (db.appendAll reqs).projectRows p, e.Typed) →
      (db.appendAll reqs).projectRows p ≠ db.projectRows p →
      DeltaAgrees p P (db.appendAll reqs)) ↔
    ∃ s, ReducerState.initial.reduce (db.getProjectStream p 0) = .ok s ∧ s.StringIds := by
  obtain ⟨hseq, s, hs⟩ := hP.spec
  rw [EventDb.getProjectStream_zero]
  constructor
  · intro hagree
    refine ⟨s, hs.state, ?_⟩
    apply stringIds_of_not_separable hs
    rintro s₀ hs₀ ⟨contents, hne, hmut, hdist⟩
    apply not_deltaAgrees hs hseq hs₀ hne hdist
    obtain ⟨added, hext, hmap⟩ := extends_requestFor db p contents
    apply hagree
    · intro e he
      rw [hext.rows] at he
      rcases List.mem_append.mp he with he | he
      · exact htyped e he
      · have hc : e.content ∈ contents := hmap ▸ List.mem_map_of_mem he
        exact fun htype => absurd htype (hmut _ hc)
    · rw [hext.rows]
      have hadded : added ≠ [] := fun h => hne (by rw [← hmap, h]; rfl)
      simpa using hadded
  · rintro ⟨s', hs', hids⟩ reqs _ hgrown now now'
    obtain rfl : s' = s := Except.ok.inj (hs'.symm.trans hs.state)
    obtain ⟨added, hext⟩ := EventDb.extends_appendAll db reqs p
    have hne : added ≠ [] := by
      rintro rfl
      exact hgrown (by simpa using hext.rows)
    have hboot : HasBootstrap ((db.appendAll reqs).projectRows p) :=
      hext.rows ▸ hs.bootstrap.append added
    rw [buildProjection_delta hseq hs.bootstrap.ne_nil hext hne,
      ReplayEngine.deltaReplay_eq_fullReplay hs htyped hids hext hne now,
      EventDb.getProjectStream_zero, ReplayEngine.fullReplay_eq now hboot,
      ReplayEngine.fullReplay_eq now' hboot]
    cases ReducerState.initial.reduce ((db.appendAll reqs).projectRows p) with
    | error e => rfl
    | ok t =>
        have hcontent := buildHead_content p now now' t ((db.appendAll reqs).projectRows p)
        simp only [Except.ok_bind_eq]
        cases h₁ : buildHead p now t ((db.appendAll reqs).projectRows p) <;>
          cases h₂ : buildHead p now' t ((db.appendAll reqs).projectRows p) <;>
          simp_all [Except.map]

/-- A project whose only task has a string id. -/
def stringIdDb : EventDb := sampleDb [sampleTask (.str "t") "T" "high"]

/-- A project whose only task has a number as its id. -/
def numberIdDb : EventDb := sampleDb [sampleTask (.int 5) "T" "high"]

theorem deltaReplay_agrees_stringId :
    ∃ P, CompiledSnapshot .zero stringIdDb P ∧
      DeltaAgrees .zero P (stringIdDb.appendAll [sampleRequest (sampleCompletion (.str "t"))]) := by
  have htyped : ∀ e ∈ stringIdDb.projectRows .zero, e.Typed := by
    have hmut : ∀ e ∈ stringIdDb.projectRows .zero, e.eventType ≠ .taskMutated := by decide
    exact fun e he htype => absurd htype (hmut e he)
  refine ⟨_, @CompiledSnapshot.first _ _ (.rejected .notFound) "now" _ _ rfl rfl, ?_⟩
  refine (deltaReplay_agrees_iff
    (@CompiledSnapshot.first _ _ (.rejected .notFound) "now" _ _ rfl rfl) htyped).mpr
    ⟨_, rfl, ?_⟩ _ ?_ ?_
  · constructor <;> decide
  · have hmut : ∀ e ∈ (stringIdDb.appendAll
        [sampleRequest (sampleCompletion (.str "t"))]).projectRows .zero,
        e.eventType ≠ .taskMutated := by decide
    exact fun e he htype => absurd htype (hmut e he)
  · decide

/-- A completion of the task with the number as its id is lost by delta replay. -/
theorem deltaReplay_loses_completion :
    ∃ P, CompiledSnapshot .zero numberIdDb P ∧
      ¬ DeltaAgrees .zero P (numberIdDb.appendAll [sampleRequest (sampleCompletion (.int 5))]) := by
  refine ⟨_, @CompiledSnapshot.first _ _ (.rejected .notFound) "now" _ _ rfl rfl, ?_⟩
  intro h
  -- The number of active tasks differs: the delta replay still shows the completed one.
  have hcount : (Except.ok 1 : Except Exc Nat) = .ok 0 :=
    congrArg (Except.map fun x : ReplayMode × CognitiveHead => x.2.activeTasks.length) (h "" "")
  cases hcount

end RationaleVault
