import RationaleVault.CognitiveHead.ConsistentCut
import RationaleVault.ProjectionPlatform.Agreement

/-!
# What a platform snapshot keeps

The platform saves the payload it builds from a serialized head. A serialized
head has no sequence and names its items differently, so the payload has
sequence 0 and no items: the project fields and the blockers are all that is
read back.
-/

namespace RationaleVault

open CognitiveHeadProjection

/-- The compilation of `p` returns `head` and saves `row`. -/
structure PlatformSaves (stored : SnapshotPayload → SnapshotDict) (policy : SnapshotPolicy)
    (st : SharedStore) (p : UUID) (head : CognitiveHead) (row : SnapshotRow) : Prop where
  compiled : (compileCognitiveHeadV2 stored policy st p).1 = .ok head
  saved : (compileCognitiveHeadV2 stored policy st p).2.table = st.table ++ [row]

/-- The projection reads the stored payload of the row back as `head`, up to `compiled_at`. -/
def SnapshotRow.ReadsAs (row : SnapshotRow) (head : CognitiveHead) : Prop :=
  ∃ head', deserialize ((SnapshotPayload.fromDict row.payload).toDict false) = .ok head' ∧
    head'.SameContent head

/-- The row has the sequence up to which the head was compiled, and is read back as the head. -/
def SnapshotRow.Decodes (row : SnapshotRow) (head : CognitiveHead) (latest : Nat) : Prop :=
  (SnapshotPayload.fromDict row.payload).sequence = latest ∧ row.ReadsAs head

namespace CognitiveHead

/-- The head without its items. -/
def withoutItems (head : CognitiveHead) : CognitiveHead :=
  { head with activeTasks := [], activeDecisions := [], openQuestions := [] }

theorem withoutItems_sameContent_iff (head : CognitiveHead) :
    head.withoutItems.SameContent head ↔
      head.activeTasks = [] ∧ head.activeDecisions = [] ∧ head.openQuestions = [] := by
  simp only [SameContent, content, withoutItems, mk.injEq, true_and, and_true]
  constructor
  · rintro ⟨ht, hd, hq⟩
    exact ⟨ht.symm, hd.symm, hq.symm⟩
  · rintro ⟨ht, hd, hq⟩
    exact ⟨ht.symm, hd.symm, hq.symm⟩

end CognitiveHead

/-- Whatever its hash, the platform's payload is read back as the head without its items. -/
theorem deserialize_snapshotOf (head : CognitiveHead) (hash : String) :
    deserialize ({ ProjectionCompiler.snapshotOf head with snapshotHash := hash }.toDict false) =
      .ok head.withoutItems := by
  have hid : UUID.parse head.projectId.str = .ok head.projectId := UUID.parse_str _
  simp only [deserialize, payloadDictToHead, headOfDict, SnapshotPayload.toDict,
    ProjectionCompiler.snapshotOf, SnapshotPayload.fromDict, serialize, Option.getD_some,
    Option.getD_none, OrdDict.entries_empty, List.mapM_nil, hid]
  rfl

section Stored

variable {stored : SnapshotPayload → SnapshotDict} {policy : SnapshotPolicy}

/-- What either store hands back for the platform's payload. -/
theorem fromDict_stored_snapshotOf (hstored : stored = sqliteStored ∨ stored = faithfulStored)
    (head : CognitiveHead) (hash : String) :
    ∃ hash', SnapshotPayload.fromDict
        (stored { ProjectionCompiler.snapshotOf head with snapshotHash := hash }) =
      { ProjectionCompiler.snapshotOf head with snapshotHash := hash' } := by
  obtain rfl | rfl := hstored
  · exact ⟨"", rfl⟩
  · exact ⟨hash, rfl⟩

theorem sequence_fromDict_stored (hstored : stored = sqliteStored ∨ stored = faithfulStored)
    (P : SnapshotPayload) : (SnapshotPayload.fromDict (stored P)).sequence = P.sequence := by
  obtain rfl | rfl := hstored
  · rfl
  · rfl

/-- A refresh that adds a row adds the row of its payload. -/
theorem refreshSnapshot_eq_concat {table : SnapshotTable} {p : UUID} {name : String}
    {payload : SnapshotPayload} {currentSequence : Int} {row : SnapshotRow}
    (h : refreshSnapshot stored policy table p name payload currentSequence = table ++ [row]) :
    ∃ hash, row = SnapshotTable.newRow stored p name { payload with snapshotHash := hash } := by
  unfold refreshSnapshot at h
  split at h
  · split at h
    · rename_i hashed hhash
      simp only [SnapshotPayload.withHash, Except.bind_eq_ok_iff, Except.pure_eq_ok_iff] at hhash
      obtain ⟨hash, _, rfl⟩ := hhash
      exact ⟨hash, (List.singleton_inj.mp (List.append_cancel_left h)).symm⟩
    · exact absurd h (by simp)
  · exact absurd h (by simp)

/-! ## Sequences of stored snapshots -/

/-- No stored snapshot has a negative sequence. -/
def SharedStore.NonnegSequences (st : SharedStore) : Prop :=
  ∀ r ∈ st.table, 0 ≤ (SnapshotPayload.fromDict r.payload).sequence

theorem SharedStore.NonnegSequences.step
    (hstored : stored = sqliteStored ∨ stored = faithfulStored) {st : SharedStore}
    (h : st.NonnegSequences) (call : StoreCall) :
    (st.step stored policy call).NonnegSequences := by
  cases call with
  | append req => exact h
  | compile p now =>
      simp only [SharedStore.step, compileCognitiveHead]
      split
      · rename_i H P hcompile
        obtain ⟨loaded, _, hreads⟩ := Except.bind_eq_ok_iff.mp hcompile
        intro r hr
        obtain hr | ⟨hash, hhash, rfl⟩ := mem_refreshSnapshot hr
        · exact h r hr
        · obtain ⟨_, _, _, hP⟩ := storedSnapshot_of_compile hreads hhash
          rw [SnapshotTable.newRow, sequence_fromDict_stored hstored]
          exact hP.nonneg
      · exact h
  | compileV2 p =>
      simp only [SharedStore.step, compileCognitiveHeadV2]
      split
      · intro r hr
        dsimp only at hr
        obtain hr | ⟨hash, _, rfl⟩ := mem_refreshSnapshot hr
        · exact h r hr
        · rw [SnapshotTable.newRow, sequence_fromDict_stored hstored]
          exact Int.le_refl 0
      · exact h
      · exact h

theorem SharedStore.NonnegSequences.run
    (hstored : stored = sqliteStored ∨ stored = faithfulStored) {st : SharedStore}
    (h : st.NonnegSequences) (calls : List StoreCall) :
    (st.run stored policy calls).NonnegSequences := by
  induction calls generalizing st with
  | nil => exact h
  | cons call rest ih => exact ih (h.step hstored call)

/-- A loaded snapshot is one of the stored ones. -/
theorem SharedStore.NonnegSequences.loaded {st : SharedStore} (h : st.NonnegSequences)
    {latest : Nat} {p : UUID} {name : String} {loaded : SnapshotValidationResult}
    (hloaded : loadValidSnapshot st.table latest p name = .ok loaded) {P : SnapshotPayload}
    (hP : ReplayEngine.usablePayload loaded = some P) : 0 ≤ P.sequence := by
  unfold loadValidSnapshot at hloaded
  split at hloaded
  · obtain rfl := Except.ok.inj hloaded
    cases hP
  · rename_i raw hraw
    split at hloaded
    · rw [validatePayload_accepts hloaded hP]
      exact h raw (SnapshotTable.loadLatestRaw_spec hraw).1
    · obtain rfl := Except.ok.inj hloaded
      cases hP

/-! ## What is saved -/

/-- What the platform saves was compiled from a stream that is not empty. -/
theorem latest_pos_of_compileLoaded {loaded : SnapshotValidationResult} {db : EventDb} {p : UUID}
    {H : CognitiveHead} (h : ProjectionCompiler.compileLoaded loaded db p = .ok (H, true))
    (hnonneg : ∀ P, ReplayEngine.usablePayload loaded = some P → 0 ≤ P.sequence) :
    0 < db.getLatestSequence p := by
  unfold ProjectionCompiler.compileLoaded at h
  cases hP : ReplayEngine.usablePayload loaded with
  | none =>
      simp only [hP, EventDb.getProjectStream_zero, Except.bind_eq_ok_iff] at h
      obtain ⟨state, hstate, _⟩ := h
      obtain ⟨_, hboot, _⟩ := Except.bind_eq_ok_iff.mp hstate
      exact EventDb.getLatestSequence_pos (checkBootstrap_eq_ok_iff.mp hboot).ne_nil
  | some P =>
      have hzero := hnonneg P hP
      simp only [hP] at h
      split_ifs at h with hcurrent
      · obtain ⟨_, _, hpair⟩ := Except.bind_eq_ok_iff.mp h
        cases hpair
      · omega

/-- A compilation that adds a row to the table has compiled what it saves. -/
theorem PlatformSaves.compileLoaded {st : SharedStore} {p : UUID} {H : CognitiveHead}
    {row : SnapshotRow} (h : PlatformSaves stored policy st p H row) :
    ∃ loaded, loadValidSnapshot st.table (st.db.getLatestSequence p) p "cognitive_head" =
        .ok loaded ∧
      ProjectionCompiler.compileLoaded loaded st.db p = .ok (H, true) ∧
      ∃ hash, row = SnapshotTable.newRow stored p "cognitive_head"
        { ProjectionCompiler.snapshotOf H with snapshotHash := hash } := by
  obtain ⟨hcompiled, hsaved⟩ := h
  unfold compileCognitiveHeadV2 at hcompiled hsaved
  dsimp only at hcompiled hsaved
  split at hcompiled
  · rename_i state hstate
    obtain rfl := Except.ok.inj hcompiled
    obtain ⟨loaded, hloaded, hload⟩ := Except.bind_eq_ok_iff.mp hstate
    rw [hstate] at hsaved
    exact ⟨loaded, hloaded, hload, refreshSnapshot_eq_concat hsaved⟩
  · rename_i state hstate
    rw [hstate] at hsaved
    exact absurd hsaved (by simp)
  · cases hcompiled

end Stored

/-- No snapshot that the platform saves, in any state that appends and calls of the two compilers
lead to, has the sequence of its head; it is read back as the head exactly when the head has no
items. -/
theorem platform_snapshot_never_decodes {stored : SnapshotPayload → SnapshotDict}
    (hstored : stored = sqliteStored ∨ stored = faithfulStored) {policy : SnapshotPolicy}
    {st : SharedStore} {calls : List StoreCall}
    (hst : SharedStore.initial.run stored policy calls = st) {p : UUID} {H : CognitiveHead}
    {row : SnapshotRow} (hsaves : PlatformSaves stored policy st p H row) :
    ¬ row.Decodes H (st.db.getLatestSequence p) ∧
      (SnapshotPayload.fromDict row.payload).sequence = 0 ∧
      (row.ReadsAs H ↔
        H.activeTasks = [] ∧ H.activeDecisions = [] ∧ H.openQuestions = []) := by
  have hnonneg : st.NonnegSequences := by
    rw [← hst]
    apply SharedStore.NonnegSequences.run hstored
    intro r hr
    cases hr
  obtain ⟨loaded, hloaded, hcompile, hash, rfl⟩ := hsaves.compileLoaded
  have hpos := latest_pos_of_compileLoaded hcompile fun P hP => hnonneg.loaded hloaded hP
  obtain ⟨hash', hpayload⟩ := fromDict_stored_snapshotOf hstored H hash
  have hsequence : (SnapshotPayload.fromDict (SnapshotTable.newRow stored p "cognitive_head"
      { ProjectionCompiler.snapshotOf H with snapshotHash := hash }).payload).sequence = 0 := by
    rw [SnapshotTable.newRow, hpayload]
    rfl
  refine ⟨?_, hsequence, ?_⟩
  · rintro ⟨hlatest, _⟩
    rw [hsequence] at hlatest
    omega
  · rw [← H.withoutItems_sameContent_iff, SnapshotRow.ReadsAs, SnapshotTable.newRow, hpayload,
      deserialize_snapshotOf]
    constructor
    · rintro ⟨head', hhead, hsame⟩
      rw [Except.ok.inj hhead]
      exact hsame
    · intro hsame
      exact ⟨_, rfl, hsame⟩

/-- Bootstrap the sample project and create a task. -/
def openTaskCalls : List StoreCall :=
  ((sampleBootstrap ++ [sampleTask (.str "t") "T" "high"]).map sampleRequest).map StoreCall.append

/-- The first compilation of the sample project saves a snapshot. -/
theorem platformSaves_openTask :
    ∃ H row, PlatformSaves faithfulStored defaultPolicy
      (SharedStore.initial.run faithfulStored defaultPolicy openTaskCalls) .zero H row ∧
      H.activeTasks.length = 1 :=
  ⟨_, _, ⟨rfl, rfl⟩, rfl⟩

/-- The stream has four events and one open task; the snapshot has sequence 0 and no task. -/
theorem platform_snapshot_of_openTask :
    ∃ H row, PlatformSaves faithfulStored defaultPolicy
        (SharedStore.initial.run faithfulStored defaultPolicy openTaskCalls) .zero H row ∧
      (SnapshotPayload.fromDict row.payload).sequence = 0 ∧ ¬ row.ReadsAs H := by
  obtain ⟨H, row, hsaves, hlength⟩ := platformSaves_openTask
  obtain ⟨_, hsequence, hreads⟩ := platform_snapshot_never_decodes (.inr rfl) rfl hsaves
  refine ⟨H, row, hsaves, hsequence, fun h => ?_⟩
  rw [(hreads.mp h).1] at hlength
  cases hlength

theorem platform_snapshot_loses_openTask :
    ∃ H row, PlatformSaves faithfulStored defaultPolicy
        (SharedStore.initial.run faithfulStored defaultPolicy openTaskCalls) .zero H row ∧
      ¬ row.Decodes H 4 ∧ ¬ row.ReadsAs H := by
  obtain ⟨H, row, hsaves, hlength⟩ := platformSaves_openTask
  obtain ⟨_, _, _, hash, rfl⟩ := hsaves.compileLoaded
  have hsequence : (0 : Int) ≠ 4 := by decide
  refine ⟨H, _, hsaves, fun h => hsequence h.1, ?_⟩
  rintro ⟨head', hhead, hsame⟩
  have hlost : head' = H.withoutItems :=
    Except.ok.inj (hhead.symm.trans (deserialize_snapshotOf H hash))
  rw [hlost, H.withoutItems_sameContent_iff] at hsame
  rw [hsame.1] at hlength
  cases hlength

end RationaleVault
