import RationaleVault.CognitiveHead.ListCopy
import RationaleVault.CognitiveHead.SnapshotRoundTrip

/-!
# Consistent cuts

`compile_cognitive_head` reads the event store several times, and other
clients append between the reads. The head comes from one read, the stored
items from a second and the stored sequence from a third, so a snapshot is a
consistent cut of the ledger only if no event of the project arrives between
the read that fixes the head and the last read.
-/

namespace RationaleVault

/-! ## Running compilations -/

/-- The reads a running call has made after loading a snapshot; each keeps the database it saw. -/
inductive Progress
  | loaded
  | latest (dbLatest : EventDb)
  | stream (dbLatest dbStream : EventDb)
  | again (dbLatest dbStream dbAgain : EventDb)

/-- A running `compile_cognitive_head` call. -/
structure Call where
  project : UUID
  now : String
  loaded : SnapshotValidationResult
  progress : Progress

/-- The shared store and the calls that run on it. -/
structure World where
  db : EventDb
  table : SnapshotTable
  calls : List Call

/-- One atomic store access. -/
inductive Action
  | append (req : AppendRequest)
  | start (p : UUID) (now : String)
  | advance (i : Nat)

namespace World

def initial : World := ⟨.empty, [], []⟩

section Step

variable (stored : SnapshotPayload → SnapshotDict) (policy : SnapshotPolicy)

/-- The last read of a call, after which it may save its snapshot. A call that raises saves
nothing. -/
def finish (w : World) (c : Call) (dbLatest dbStream dbAgain : EventDb) : SnapshotTable :=
  match compileReads c.loaded ⟨dbLatest, dbStream, dbAgain, w.db⟩ c.project c.now with
  | .ok (_, payload) =>
      refreshSnapshot stored policy w.table c.project "cognitive_head" payload
        (w.db.getLatestSequence c.project)
  | .error _ => w.table

/-- The next store read of call `i`. -/
def advance (w : World) (i : Nat) : World :=
  match w.calls[i]? with
  | none => w
  | some c =>
      match c.progress with
      | .loaded => { w with calls := w.calls.set i { c with progress := .latest w.db } }
      | .latest d₂ => { w with calls := w.calls.set i { c with progress := .stream d₂ w.db } }
      | .stream d₂ d₃ => { w with calls := w.calls.set i { c with progress := .again d₂ d₃ w.db } }
      | .again d₂ d₃ d₄ =>
          { w with table := finish stored policy w c d₂ d₃ d₄, calls := w.calls.eraseIdx i }

def step (w : World) : Action → World
  | .append req => { w with db := w.db.appendEvent req }
  | .start p now =>
      match loadValidSnapshot w.table (w.db.getLatestSequence p) p "cognitive_head" with
      | .ok loaded => { w with calls := w.calls ++ [⟨p, now, loaded, .loaded⟩] }
      | .error _ => w
  | .advance i => advance stored policy w i

def run (w : World) (actions : List Action) : World := actions.foldl (step stored policy) w

end Step

end World

/-! ## The condition -/

/-- The call is on the fast path: its snapshot is not behind the sequence it read. -/
def Call.OnFastPath (c : Call) (dbLatest : EventDb) : Prop :=
  ∃ P, ReplayEngine.usablePayload c.loaded = some P ∧
    (dbLatest.getLatestSequence c.project : Int) ≤ P.sequence

/-- The read that fixes the head of the call has been made. -/
def Call.HeadRead (c : Call) : Prop :=
  match c.progress with
  | .loaded => False
  | .latest d₂ => c.OnFastPath d₂
  | .stream _ _ => True
  | .again _ _ _ => True

/-- Appends wait for the calls of their project whose head is fixed already. -/
def Action.Orderly (w : World) : Action → Prop
  | .append req => ∀ c ∈ w.calls, c.project = req.projectId → ¬ c.HeadRead
  | .start _ _ => True
  | .advance _ => True

/-- Every step of the run is orderly in the state before it. -/
def OrderlyRun (stored : SnapshotPayload → SnapshotDict) (policy : SnapshotPolicy) :
    World → List Action → Prop
  | _, [] => True
  | w, a :: rest => a.Orderly w ∧ OrderlyRun stored policy (w.step stored policy a) rest

/-- The payload stores what the project's events up to its sequence reduce to. -/
def ConsistentCut (db : EventDb) (p : UUID) (P : SnapshotPayload) : Prop :=
  ∃ s, SnapshotState (db.upTo p P.sequence) P s ∧
    ∃ head, buildHead p "" s (db.upTo p P.sequence) = .ok head ∧ P.blockers = head.blockers

/-- Later appends do not disturb a cut. -/
theorem ConsistentCut.extend {db db' : EventDb} {p : UUID} {P : SnapshotPayload}
    {added : List EventRecord} (h : ConsistentCut db p P) (hext : EventDb.Extends db db' p added)
    (hseq : P.sequence ≤ db.lastSequence) : ConsistentCut db' p P := by
  unfold ConsistentCut
  rw [hext.upTo_eq hseq]
  exact h

/-- A cut does not depend on the hash of the payload. -/
theorem ConsistentCut.congr_hash {db : EventDb} {p : UUID} {P : SnapshotPayload}
    (h : ConsistentCut db p P) (hash : String) :
    ConsistentCut db p { P with snapshotHash := hash } := by
  obtain ⟨s, hs, hhead⟩ := h
  exact ⟨s, ⟨hs.bootstrap, hs.state, hs.project, hs.tasks, hs.decisions, hs.questions⟩, hhead⟩

/-! ## The head of a call -/

/-- The head shows the project fields and the blockers of the events. -/
def HeadOf (p : UUID) (events : List EventRecord) (H : CognitiveHead) : Prop :=
  ∃ s, ReducerState.initial.reduce events = .ok s ∧ HasBootstrap events ∧
    (H.projectName, H.projectGoal, H.currentFocus) = s.project.shown ∧
    ∃ head, buildHead p "" s events = .ok head ∧ H.blockers = head.blockers

/-- The blockers of a head depend on the tasks and the questions only. -/
theorem buildHead_blockers_congr {p : UUID} {now now' : String} {s s' : ReducerState}
    {events events' : List EventRecord} (htasks : s.tasks = s'.tasks)
    (hquestions : s.questions = s'.questions) :
    (buildHead p now s events).map CognitiveHead.blockers =
      (buildHead p now' s' events').map CognitiveHead.blockers := by
  simp only [buildHead, htasks, hquestions]
  cases sortByPriority QuestionState.priority (openQuestionsOf s'.questions) with
  | error e => rfl
  | ok qs =>
      cases sortByPriority TaskState.priority (activeTasksOf s'.tasks) with
      | error e => rfl
      | ok ts =>
          simp only [Except.ok_bind_eq]
          cases blockerMap s'.tasks ts qs with
          | error e => rfl
          | ok m =>
              simp only [Except.ok_bind_eq]
              cases blockerEntries s'.tasks m.entries <;> rfl

theorem exists_blockers {x y : Except Exc CognitiveHead} {H : CognitiveHead}
    (h : x.map CognitiveHead.blockers = y.map CognitiveHead.blockers) (hx : x = .ok H) :
    ∃ head, y = .ok head ∧ H.blockers = head.blockers := by
  subst hx
  cases y with
  | error e => cases h
  | ok head => exact ⟨head, rfl, Except.ok.inj h⟩

/-- Decoding every stored item. -/
theorem convertItems_eq_ok {α : Type} {encode : α → JsonObj} {decode : JsonObj → Except Exc α}
    {g : α → α} (hdecode : ∀ x y, decode (encode x) = .ok y → y = g x) {d d' : OrdDict Atom α}
    (h : ReplayEngine.convertItems decode (d.mapVals encode) = .ok d') : d' = d.mapVals g := by
  simp only [ReplayEngine.convertItems, Except.bind_eq_ok_iff, Except.pure_eq_ok_iff] at h
  obtain ⟨entries, hentries, rfl⟩ := h
  have hmap : entries = (d.mapVals g).entries := by
    rw [OrdDict.entries_mapVals]
    rw [OrdDict.entries_mapVals, List.mapM_map] at hentries
    have hall := Fold.forall₂_of_mapM hentries
    clear hentries
    generalize d.entries = stored at hall
    induction hall with
    | nil => rfl
    | cons hxy _ ih =>
        simp only [Function.comp_apply, Except.bind_eq_ok_iff, Except.pure_eq_ok_iff] at hxy
        obtain ⟨y, hy, rfl⟩ := hxy
        rw [List.map_cons, ih, hdecode _ _ hy]
  rw [hmap]
  exact OrdDict.ofList_entries _

/-- The state of a payload has the stored tasks with their list fields copied. -/
theorem stateOfPayload_copied {events : List EventRecord} {Q : SnapshotPayload}
    {s s' : ReducerState} (hs : SnapshotState events Q s)
    (h : ReplayEngine.stateOfPayload Q = .ok s') :
    s'.project.shown = s.project.shown ∧ s'.tasks = s.tasks.mapVals TaskState.copied ∧
      s'.decisions = s.decisions ∧ s'.questions = s.questions := by
  have hlists := QuestionReducer.hasLists_reduce (by simp [ReducerState.initial])
    (ReducerState.reduce_eq_ok_iff.mp hs.state).2.2.2
  simp only [ReplayEngine.stateOfPayload, hs.tasks, hs.decisions, hs.questions,
    Except.bind_eq_ok_iff, Except.pure_eq_ok_iff] at h
  obtain ⟨ts, ht, ds, hd, qs, hq, rfl⟩ := h
  refine ⟨hs.project, convertItems_eq_ok (fun t t' => TaskState.dictToTaskState_eq_ok) ht, ?_, ?_⟩
  · have hd' := ReplayEngine.convertItems_mapVals (d := s.decisions)
      (fun e _ => DecisionState.dictToDecisionState_toDict e.2)
    exact Except.ok.inj (hd.symm.trans hd')
  · have hq' := ReplayEngine.convertItems_mapVals (d := s.questions)
      (fun e he => QuestionState.dictToQuestionState_toDict (hlists e he))
    exact Except.ok.inj (hq.symm.trans hq')

/-- A delta replay from a cut shows the project fields and blockers of the whole stream. -/
theorem headOf_deltaReplay {db : EventDb} {p : UUID} {now : String} {Q : SnapshotPayload}
    {H : CognitiveHead} {s : ReducerState} (hcut : ConsistentCut db p Q)
    (hs : ReducerState.initial.reduce (db.projectRows p) = .ok s)
    (h : ReplayEngine.deltaReplay p Q (db.getProjectStream p Q.sequence) now = .ok H) :
    HeadOf p (db.projectRows p) H := by
  obtain ⟨s₀, hs₀, _⟩ := hcut
  have hsplit := db.upTo_append_stream p Q.sequence
  have hboot : HasBootstrap (db.projectRows p) := hsplit ▸ hs₀.bootstrap.append _
  have hrest : s₀.reduce (db.getProjectStream p Q.sequence) = .ok s := by
    rw [← ReducerState.reduce_append _ hs₀.state, hsplit, hs]
  simp only [ReplayEngine.deltaReplay, Except.bind_eq_ok_iff] at h
  obtain ⟨s₁, hs₁, s₂, hs₂, hhead⟩ := h
  obtain ⟨hproject, htasks, hdecisions, hquestions⟩ := stateOfPayload_copied hs₀ hs₁
  obtain ⟨hp, ht, _, hq⟩ := ReducerState.reduce_eq_ok_iff.mp hrest
  obtain ⟨hp₂, ht₂, _, hq₂⟩ := ReducerState.reduce_eq_ok_iff.mp hs₂
  have hshown : s₂.project.shown = s.project.shown := by
    rw [← hp, ← hp₂]
    exact ProjectReducer.shown_reduce _ hproject
  have hcopies : s₂.tasks.mapVals TaskState.copied = s.tasks.mapVals TaskState.copied := by
    refine TaskReducer.copied_reduce ?_ ht₂ ht
    rw [htasks]
    apply OrdDict.ext
    simp [List.map_map, Function.comp_def]
  have hqs : s₂.questions = s.questions := by
    rw [hquestions] at hq₂
    exact Except.ok.inj (hq₂.symm.trans hq)
  refine ⟨s, hs, hboot, (buildHead_fields hhead).2.1.trans hshown, ?_⟩
  refine exists_blockers ?_ hhead
  rw [← buildHead_copied p now s₂, ← buildHead_copied p "" s]
  exact buildHead_blockers_congr hcopies hqs

/-- Whatever replay mode a call is in, its head belongs to the rows of the read that fixed it. -/
theorem headOf_buildProjection {loaded : SnapshotValidationResult} {d₂ d₃ db : EventDb} {p : UUID}
    {now : String} {r : ReplayResult} {s : ReducerState}
    (hloaded : ∀ Q, ReplayEngine.usablePayload loaded = some Q → ConsistentCut db p Q)
    (hfast : ∀ Q, ReplayEngine.usablePayload loaded = some Q →
      (d₂.getLatestSequence p : Int) ≤ Q.sequence → d₂.projectRows p = db.projectRows p)
    (hstream : (∃ Q, ReplayEngine.usablePayload loaded = some Q ∧
      (d₂.getLatestSequence p : Int) ≤ Q.sequence) ∨ d₃.projectRows p = db.projectRows p)
    (hs : ReducerState.initial.reduce (db.projectRows p) = .ok s)
    (h : ReplayEngine.buildProjection loaded d₂ d₃ p now = .ok r) :
    HeadOf p (db.projectRows p) r.head := by
  obtain ⟨Q, hQ, hle, hhead, _⟩ | ⟨Q, hQ, hlt, _, hdelta, _⟩ | ⟨hnone, hreplay, _⟩ :=
    ReplayEngine.buildProjection_cases h
  · obtain ⟨s₀, hs₀, head, hbuild, hblockers⟩ := hloaded Q hQ
    have hall : db.upTo p Q.sequence = db.projectRows p := by
      apply EventDb.upTo_of_latest_le
      rw [← EventDb.getLatestSequence_congr (hfast Q hQ hle)]
      exact hle
    rw [hall] at hs₀ hbuild
    obtain ⟨hshown, hb⟩ := SnapshotPayload.toCognitiveHead_fields hhead
    exact ⟨s₀, hs₀.state, hs₀.bootstrap, hshown.trans hs₀.project, head, hbuild,
      hb.trans hblockers⟩
  · have hrows : d₃.projectRows p = db.projectRows p := by
      apply hstream.resolve_left
      rintro ⟨Q', hQ', hle⟩
      obtain rfl : Q' = Q := Option.some.inj (hQ'.symm.trans hQ)
      omega
    rw [EventDb.getProjectStream_congr hrows] at hdelta
    exact headOf_deltaReplay (hloaded Q hQ) hs hdelta
  · have hrows : d₃.projectRows p = db.projectRows p := by
      apply hstream.resolve_left
      rintro ⟨Q', hQ', hle⟩
      have := (hnone Q' hQ').1
      omega
    rw [EventDb.getProjectStream_zero, hrows] at hreplay
    obtain ⟨s', hs', hhead⟩ := ReplayEngine.fullReplay_eq_ok hreplay
    refine ⟨s', hs', ReplayEngine.hasBootstrap_of_fullReplay hreplay,
      (buildHead_fields hhead).2.1, ?_⟩
    exact exists_blockers (buildHead_blockers_congr rfl rfl) hhead

/-! ## The invariant -/

/-- What a row of the snapshot table holds. -/
def RowOk (stored : SnapshotPayload → SnapshotDict) (db : EventDb) (r : SnapshotRow) : Prop :=
  ∃ P, r.payload = stored P ∧ r.sequence = P.sequence ∧ P.sequence ≤ db.lastSequence ∧
    ConsistentCut db r.projectId P

/-- A loaded snapshot is a cut, and the rows a running call has read are still the current ones
wherever its head depends on them. -/
structure CallOk (db : EventDb) (c : Call) : Prop where
  loaded : ∀ Q, ReplayEngine.usablePayload c.loaded = some Q →
    ConsistentCut db c.project Q ∧ Q.sequence ≤ db.lastSequence
  rows : match c.progress with
    | .loaded => True
    | .latest d₂ => c.OnFastPath d₂ → d₂.projectRows c.project = db.projectRows c.project
    | .stream d₂ d₃ =>
        (c.OnFastPath d₂ → d₂.projectRows c.project = db.projectRows c.project) ∧
        d₃.projectRows c.project = db.projectRows c.project
    | .again d₂ d₃ d₄ =>
        (c.OnFastPath d₂ → d₂.projectRows c.project = db.projectRows c.project) ∧
        d₃.projectRows c.project = db.projectRows c.project ∧
        d₄.projectRows c.project = db.projectRows c.project

structure World.Inv (stored : SnapshotPayload → SnapshotDict) (w : World) : Prop where
  table : ∀ r ∈ w.table, RowOk stored w.db r
  calls : ∀ c ∈ w.calls, CallOk w.db c

theorem World.inv_initial (stored : SnapshotPayload → SnapshotDict) : World.initial.Inv stored :=
  ⟨by simp [World.initial], by simp [World.initial]⟩

/-- An append keeps rows intact, and calls that it does not overtake. -/
theorem CallOk.append {db : EventDb} {c : Call} (h : CallOk db c) (req : AppendRequest)
    (horderly : c.project = req.projectId → ¬ c.HeadRead) : CallOk (db.appendEvent req) c := by
  have hext := EventDb.extends_appendEvent db req c.project
  refine ⟨fun Q hQ => ?_, ?_⟩
  · obtain ⟨hcut, hseq⟩ := h.loaded Q hQ
    exact ⟨hcut.extend hext hseq, hseq.trans (by exact_mod_cast hext.counter)⟩
  · have hrows := h.rows
    by_cases hp : req.projectId = c.project
    · have hread := horderly hp.symm
      unfold Call.HeadRead at hread
      cases hprogress : c.progress with
      | loaded => trivial
      | latest d₂ =>
          rw [hprogress] at hread
          exact fun hfast => absurd hfast hread
      | stream d₂ d₃ =>
          rw [hprogress] at hread
          exact absurd trivial hread
      | again d₂ d₃ d₄ =>
          rw [hprogress] at hread
          exact absurd trivial hread
    · have hsame : (db.appendEvent req).projectRows c.project = db.projectRows c.project := by
        rw [hext.rows, if_neg hp, List.append_nil]
      rw [hsame]
      exact hrows

theorem RowOk.append {stored : SnapshotPayload → SnapshotDict} {db : EventDb} {r : SnapshotRow}
    (h : RowOk stored db r) (req : AppendRequest) : RowOk stored (db.appendEvent req) r := by
  obtain ⟨P, hpayload, hsequence, hseq, hcut⟩ := h
  have hext := EventDb.extends_appendEvent db req r.projectId
  exact ⟨P, hpayload, hsequence, hseq.trans (by exact_mod_cast hext.counter), hcut.extend hext hseq⟩

/-- Validation accepts only the payload it was given. -/
theorem validatePayload_accepts {payload Q : SnapshotPayload} {latest : Nat}
    {result : SnapshotValidationResult} (h : validatePayload payload latest = .ok result)
    (hQ : ReplayEngine.usablePayload result = some Q) : Q = payload := by
  simp only [validatePayload, Except.bind_eq_ok_iff] at h
  obtain ⟨hashOk, _, h⟩ := h
  split_ifs at h <;> simp only [Except.pure_eq_ok_iff] at h <;> subst h <;>
    simp_all [ReplayEngine.usablePayload, SnapshotValidationResult.rejected,
      SnapshotValidationResult.accepted]

section Stored

variable {stored : SnapshotPayload → SnapshotDict} {policy : SnapshotPolicy}

/-- What a load returns for a usable snapshot: a store either never validates or hands back the
payload that was saved. -/
theorem loaded_cut (hstored : stored = sqliteStored ∨ stored = faithfulStored) {w : World}
    (hw : w.Inv stored) {p : UUID} {l : SnapshotValidationResult}
    (h : loadValidSnapshot w.table (w.db.getLatestSequence p) p "cognitive_head" = .ok l)
    {Q : SnapshotPayload} (hQ : ReplayEngine.usablePayload l = some Q) :
    ConsistentCut w.db p Q ∧ Q.sequence ≤ w.db.lastSequence := by
  unfold loadValidSnapshot at h
  split at h
  · simp only [Except.ok.injEq] at h
    subst h
    simp [ReplayEngine.usablePayload, SnapshotValidationResult.rejected] at hQ
  · rename_i raw hraw
    obtain ⟨hmem, hproject, _, _⟩ := SnapshotTable.loadLatestRaw_spec hraw
    obtain ⟨P, hpayload, _, hseq, hcut⟩ := hw.table raw hmem
    rw [if_pos (show hasSerializer "cognitive_head" = true from rfl), hpayload] at h
    rcases hstored with rfl | rfl
    · rw [SnapshotTable.validatePayload_sqliteStored, Except.ok.injEq] at h
      subst h
      simp [ReplayEngine.usablePayload, SnapshotValidationResult.rejected] at hQ
    · obtain rfl : Q = P := validatePayload_accepts h hQ
      exact ⟨hproject ▸ hcut, hseq⟩

/-- The snapshot of a call whose reads are still current is a consistent cut. -/
theorem CallOk.compile {db d₂ d₃ d₄ : EventDb} {c : Call} (h : CallOk db c)
    (hprogress : c.progress = .again d₂ d₃ d₄) {H : CognitiveHead} {P : SnapshotPayload}
    (hcompile : compileReads c.loaded ⟨d₂, d₃, d₄, db⟩ c.project c.now = .ok (H, P)) :
    ConsistentCut db c.project P ∧ P.sequence = db.getLatestSequence c.project := by
  have hrows := h.rows
  rw [hprogress] at hrows
  obtain ⟨hfast, hstream, hagain⟩ := hrows
  simp only [compileReads, Except.bind_eq_ok_iff, Except.pure_eq_ok_iff, Prod.mk.injEq] at hcompile
  obtain ⟨r, hr, P', hP', rfl, rfl⟩ := hcompile
  rw [EventDb.getProjectStream_zero, hagain] at hP'
  obtain ⟨tasks, decisions, questions, ht, hd, hq, hP⟩ := compileSnapshot_spec hP'
  have hs : ReducerState.initial.reduce (db.projectRows c.project) =
      .ok ⟨_, tasks, decisions, questions⟩ :=
    ReducerState.reduce_eq_ok_iff.mpr ⟨rfl, ht, hd, hq⟩
  obtain ⟨s, hs', hboot, hshown, head, hhead, hblockers⟩ :=
    headOf_buildProjection (fun Q hQ => (h.loaded Q hQ).1) (fun Q hQ hle => hfast ⟨Q, hQ, hle⟩)
      (Or.inr hstream) hs hr
  obtain rfl := Except.ok.inj (hs'.symm.trans hs)
  refine ⟨?_, hP.sequence⟩
  have hall : db.upTo c.project P'.sequence = db.projectRows c.project :=
    EventDb.upTo_of_latest_le (le_of_eq hP.sequence.symm)
  unfold ConsistentCut
  rw [hall]
  refine ⟨_, ⟨hboot, hs', ?_, hP.tasks, hP.decisions, hP.questions⟩, head, hhead,
    hP.blockers.trans hblockers⟩
  rw [hP.projectName, hP.projectGoal, hP.currentFocus]
  exact hshown

theorem World.Inv.finish {w : World} (hw : w.Inv stored) {c : Call} (hc : c ∈ w.calls)
    {d₂ d₃ d₄ : EventDb} (hprogress : c.progress = .again d₂ d₃ d₄) :
    ∀ r ∈ World.finish stored policy w c d₂ d₃ d₄, RowOk stored w.db r := by
  unfold World.finish
  split
  · rename_i H P hcompile
    obtain ⟨hcut, hseq⟩ := (hw.calls c hc).compile hprogress hcompile
    intro r hr
    rcases mem_refreshSnapshot hr with hr | ⟨hash, _, rfl⟩
    · exact hw.table r hr
    · refine ⟨_, rfl, rfl, ?_, hcut.congr_hash hash⟩
      show P.sequence ≤ _
      rw [hseq]
      exact_mod_cast EventDb.getLatestSequence_le w.db c.project
  · exact hw.table

/-- Replacing one call by a call that is fine. -/
theorem World.Inv.set_call {w : World} (hw : w.Inv stored) (i : Nat) {c : Call}
    (hc : CallOk w.db c) : ∀ c' ∈ w.calls.set i c, CallOk w.db c' := by
  intro c' hc'
  rcases List.mem_or_eq_of_mem_set hc' with h | rfl
  · exact hw.calls c' h
  · exact hc

/-- An orderly step keeps the invariant. -/
theorem World.inv_step (hstored : stored = sqliteStored ∨ stored = faithfulStored) {w : World}
    (hw : w.Inv stored) {a : Action} (ha : a.Orderly w) : (w.step stored policy a).Inv stored := by
  cases a with
  | append req =>
      exact ⟨fun r hr => (hw.table r hr).append req,
        fun c hc => (hw.calls c hc).append req (ha c hc)⟩
  | start p now =>
      simp only [World.step]
      split
      · rename_i l hl
        refine ⟨hw.table, fun c hc => ?_⟩
        rcases List.mem_append.mp hc with hc | hc
        · exact hw.calls c hc
        · rw [List.mem_singleton.mp hc]
          exact ⟨fun Q hQ => loaded_cut hstored hw hl hQ, trivial⟩
      · exact hw
  | advance i =>
      simp only [World.step, World.advance]
      cases hi : w.calls[i]? with
      | none => exact hw
      | some c =>
          have hc := hw.calls c (List.mem_of_getElem? hi)
          have hrows := hc.rows
          simp only
          split <;> rename_i hprogress <;> rw [hprogress] at hrows
          · exact ⟨hw.table, hw.set_call i ⟨hc.loaded, fun _ => rfl⟩⟩
          · exact ⟨hw.table, hw.set_call i ⟨hc.loaded, hrows, rfl⟩⟩
          · exact ⟨hw.table, hw.set_call i ⟨hc.loaded, hrows.1, hrows.2, rfl⟩⟩
          · refine ⟨hw.finish (List.mem_of_getElem? hi) hprogress, fun c' hc' => ?_⟩
            exact hw.calls c' (List.mem_of_mem_eraseIdx hc')

theorem World.inv_run (hstored : stored = sqliteStored ∨ stored = faithfulStored) {w : World}
    (hw : w.Inv stored) {actions : List Action} (h : OrderlyRun stored policy w actions) :
    (w.run stored policy actions).Inv stored := by
  induction actions generalizing w with
  | nil => exact hw
  | cons a rest ih => exact ih (World.inv_step hstored hw h.1) h.2

end Stored

/-- In every run in which no append overtakes a call of its project between the read that fixes
the head and the last read, every saved snapshot is a consistent cut: what it stores is what the
events up to its sequence reduce to, and the events beyond it are the rest of the stream. -/
theorem saved_snapshots_consistent {stored : SnapshotPayload → SnapshotDict}
    (hstored : stored = sqliteStored ∨ stored = faithfulStored) {policy : SnapshotPolicy}
    {actions : List Action} {w : World} (hw : World.initial.run stored policy actions = w)
    (h : OrderlyRun stored policy .initial actions) :
    ∀ r ∈ w.table, ∃ P, r.payload = stored P ∧ r.sequence = P.sequence ∧
      ConsistentCut w.db r.projectId P ∧
      w.db.upTo r.projectId P.sequence ++ w.db.getProjectStream r.projectId P.sequence =
        w.db.getProjectStream r.projectId 0 := by
  intro r hr
  have hinv : w.Inv stored := hw ▸ World.inv_run hstored (World.inv_initial stored) h
  obtain ⟨P, hpayload, hsequence, _, hcut⟩ := hinv.table r hr
  refine ⟨P, hpayload, hsequence, hcut, ?_⟩
  rw [EventDb.getProjectStream_zero]
  exact w.db.upTo_append_stream r.projectId P.sequence

/-- A run without appends is orderly. -/
theorem orderlyRun_of_no_append {stored : SnapshotPayload → SnapshotDict}
    {policy : SnapshotPolicy} {actions : List Action} (h : ∀ a ∈ actions, ∀ req, a ≠ .append req)
    (w : World) : OrderlyRun stored policy w actions := by
  induction actions generalizing w with
  | nil => trivial
  | cons a rest ih =>
      refine ⟨?_, ih (fun a ha => h a (List.mem_cons_of_mem _ ha)) _⟩
      cases a with
      | append req => exact absurd rfl (h _ List.mem_cons_self req)
      | start p now => trivial
      | advance i => trivial

/-- Appends are orderly while no call is running. -/
theorem orderlyRun_appends {stored : SnapshotPayload → SnapshotDict} {policy : SnapshotPolicy}
    (reqs : List AppendRequest) {actions : List Action} {w : World} (hw : w.calls = [])
    (h : ∀ w, OrderlyRun stored policy w actions) :
    OrderlyRun stored policy w (reqs.map Action.append ++ actions) := by
  induction reqs generalizing w with
  | nil => exact h w
  | cons req rest ih =>
      refine ⟨fun c hc => ?_, ih hw⟩
      rw [hw] at hc
      cases hc

/-- Bootstrap the sample project. -/
def bootstrapActions : List Action := (sampleBootstrap.map sampleRequest).map Action.append

/-- A compilation nobody interferes with. -/
def quietCompilation : List Action :=
  bootstrapActions ++ [.start .zero "now", .advance 0, .advance 0, .advance 0, .advance 0]

/-- A compilation during which a task is created, between the second read of the stream and the
last read of the latest sequence. -/
def overtakenCompilation : List Action :=
  bootstrapActions ++ [.start .zero "now", .advance 0, .advance 0, .advance 0,
    .append (sampleRequest (sampleTask (.str "t") "T" "high")), .advance 0]

theorem World.finish_eq {stored : SnapshotPayload → SnapshotDict} {policy : SnapshotPolicy}
    {w : World} {c : Call} {d₂ d₃ d₄ : EventDb} {H : CognitiveHead} {P hashed : SnapshotPayload}
    (hcompile : compileReads c.loaded ⟨d₂, d₃, d₄, w.db⟩ c.project c.now = .ok (H, P))
    (hfires : policy (w.db.getLatestSequence c.project)
      (w.table.getLatestSnapshotSequence c.project "cognitive_head") = true)
    (hhash : P.withHash = .ok hashed) :
    World.finish stored policy w c d₂ d₃ d₄ =
      w.table.saveSnapshot stored c.project "cognitive_head" hashed := by
  simp only [World.finish, hcompile, refreshSnapshot, hfires, if_true, hhash]

/-- The sample project right after its bootstrap, and after one task was created. -/
def bootstrapDb : EventDb := sampleDb []
def taskDb : EventDb := sampleDb [sampleTask (.str "t") "T" "high"]

/-- The call of the two compilations before its last read. -/
def lastReadCall : Call :=
  ⟨.zero, "now", .rejected .notFound, .again bootstrapDb bootstrapDb bootstrapDb⟩

theorem run_quietCompilation :
    World.initial.run sqliteStored defaultPolicy quietCompilation =
      ⟨bootstrapDb, World.finish sqliteStored defaultPolicy ⟨bootstrapDb, [], [lastReadCall]⟩
        lastReadCall bootstrapDb bootstrapDb bootstrapDb, []⟩ := rfl

theorem run_overtakenCompilation :
    World.initial.run sqliteStored defaultPolicy overtakenCompilation =
      ⟨taskDb, World.finish sqliteStored defaultPolicy ⟨taskDb, [], [lastReadCall]⟩
        lastReadCall bootstrapDb bootstrapDb bootstrapDb, []⟩ := rfl

/-- The quiet compilation saves a snapshot, and the snapshot is a consistent cut. -/
theorem quietCompilation_consistent :
    ∃ r ∈ (World.initial.run sqliteStored defaultPolicy quietCompilation).table,
      ∃ P, r.payload = sqliteStored P ∧
        ConsistentCut (World.initial.run sqliteStored defaultPolicy quietCompilation).db
          r.projectId P := by
  have horderly : OrderlyRun sqliteStored defaultPolicy .initial quietCompilation :=
    orderlyRun_appends _ rfl (orderlyRun_of_no_append (by simp))
  have hcuts := saved_snapshots_consistent (Or.inl rfl) rfl horderly
  obtain ⟨H, P, hashed, hcompile, hhash⟩ : ∃ H P hashed,
      compileReads (.rejected .notFound) ⟨bootstrapDb, bootstrapDb, bootstrapDb, bootstrapDb⟩
        .zero "now" = .ok (H, P) ∧ P.withHash = .ok hashed := ⟨_, _, _, rfl, rfl⟩
  have hsaved := @World.finish_eq sqliteStored defaultPolicy ⟨bootstrapDb, [], [lastReadCall]⟩
    lastReadCall _ _ _ _ _ _ hcompile rfl hhash
  have hmem : SnapshotTable.newRow sqliteStored .zero "cognitive_head" hashed ∈
      (World.initial.run sqliteStored defaultPolicy quietCompilation).table := by
    rw [run_quietCompilation, hsaved]
    exact List.mem_singleton.mpr rfl
  obtain ⟨P', hpayload, _, hcut, _⟩ := hcuts _ hmem
  exact ⟨_, hmem, P', hpayload, hcut⟩

/-- The overtaken compilation saves a snapshot with the sequence of the new event and without
its task. -/
theorem overtakenCompilation_not_consistent :
    ∃ r ∈ (World.initial.run sqliteStored defaultPolicy overtakenCompilation).table,
      ¬ ∃ P, r.payload = sqliteStored P ∧ r.sequence = P.sequence ∧
        ConsistentCut (World.initial.run sqliteStored defaultPolicy overtakenCompilation).db
          r.projectId P := by
  obtain ⟨H, P, hashed, hcompile, hhash, hseq, htasks⟩ : ∃ H P hashed,
      compileReads (.rejected .notFound) ⟨bootstrapDb, bootstrapDb, bootstrapDb, taskDb⟩
        .zero "now" = .ok (H, P) ∧ P.withHash = .ok hashed ∧ hashed.sequence = 4 ∧
        hashed.tasks = .empty := ⟨_, _, _, rfl, rfl, rfl, rfl⟩
  have hsaved := @World.finish_eq sqliteStored defaultPolicy ⟨taskDb, [], [lastReadCall]⟩
    lastReadCall _ _ _ _ _ _ hcompile rfl hhash
  rw [run_overtakenCompilation, hsaved]
  refine ⟨SnapshotTable.newRow sqliteStored .zero "cognitive_head" hashed,
    List.mem_singleton.mpr rfl, ?_⟩
  rintro ⟨P', hpayload, hsequence, s, hs, _⟩
  have hseq' : P'.sequence = 4 := hsequence.symm.trans hseq
  have hstate : ReducerState.initial.reduce (taskDb.upTo .zero 4) = .ok s := hseq' ▸ hs.state
  have hcount : s.tasks.entries.length = 1 := by
    cases hstate
    rfl
  have hreload : hashed.tasks.reload = P'.tasks.reload :=
    Option.some.inj (congrArg SnapshotDict.tasks hpayload)
  have hlength := congrArg (fun d : ItemDicts => d.entries.length) hreload
  obtain ⟨e, he⟩ := List.length_eq_one_iff.mp hcount
  simp [htasks, hs.tasks, ItemDicts.reload, he, OrdDict.ofList, OrdDict.setIn] at hlength

end RationaleVault
