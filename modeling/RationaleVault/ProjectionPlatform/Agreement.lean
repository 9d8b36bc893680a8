import RationaleVault.CognitiveHead.Incrementality
import RationaleVault.CognitiveHead.Projection
import RationaleVault.CognitiveHead.ReplayEngine

/-!
# The two compilers on one store

`compile_cognitive_head_v2` runs the cognitive head projection through the
projection platform's compiler. It shares the event store and the snapshot
manager with `compile_cognitive_head`, but writes snapshots of its own form
and asks the event store for the events after a snapshot through a method
that no event store has.

In every state that calls of the two compilers can reach, the stored snapshots
are valid; those of the platform have sequence 0 and no items. Where
`compile_cognitive_head` returns a head, `compile_cognitive_head_v2` returns the
same head unless the newest snapshot lies strictly between the start and the end
of the stream, or is current and holds a task with a list field that is no list.
-/

namespace RationaleVault

/-- The event store and the snapshot store behind one manager. -/
structure SharedStore where
  db : EventDb
  table : SnapshotTable

namespace ProjectionCompiler

/-- `compile(project_id, "cognitive_head")` after the snapshot was loaded: the compiled state and
whether it is saved. -/
def compileLoaded (loaded : SnapshotValidationResult) (db : EventDb) (p : UUID) :
    Except Exc (CognitiveHead × Bool) := do
  let latest := db.getLatestSequence p
  match ReplayEngine.usablePayload loaded with
  | some payload =>
      if payload.sequence ≥ latest then
        let state ← CognitiveHeadProjection.deserialize (payload.toDict false)
        return (state, false)
      else if payload.sequence > 0 then
        -- The event stores have `get_project_stream` with a start sequence instead.
        .error (.attributeError "get_events_since")
      else
        let initial ← CognitiveHeadProjection.deserialize (payload.toDict false)
        let state ← CognitiveHeadProjection.reduce (db.getProjectStream p 0) (some initial)
        return (state, true)
  | none =>
      let state ← CognitiveHeadProjection.reduce (db.getProjectStream p 0) none
      return (state, true)

/-- The payload `_save_snapshot` builds: the serialized head has none of the members a payload
reads its sequence and its items from. -/
def snapshotOf (state : CognitiveHead) : SnapshotPayload :=
  SnapshotPayload.fromDict (CognitiveHeadProjection.serialize state)

end ProjectionCompiler

section Compile

variable (stored : SnapshotPayload → SnapshotDict) (policy : SnapshotPolicy)

/-- `compile_cognitive_head(project_id, store, snapshot_manager)`. -/
def compileCognitiveHead (st : SharedStore) (p : UUID) (now : String) :
    Except Exc CognitiveHead × SharedStore :=
  let latest := st.db.getLatestSequence p
  match (do
    let loaded ← loadValidSnapshot st.table latest p "cognitive_head"
    compileReads loaded (.quiet st.db) p now) with
  | .ok (head, payload) =>
      (.ok head, { st with
        table := refreshSnapshot stored policy st.table p "cognitive_head" payload latest })
  | .error e => (.error e, st)

/-- `compile_cognitive_head_v2(project_id, store, snapshot_manager)`. -/
def compileCognitiveHeadV2 (st : SharedStore) (p : UUID) : Except Exc CognitiveHead × SharedStore :=
  let latest := st.db.getLatestSequence p
  match (do
    let loaded ← loadValidSnapshot st.table latest p "cognitive_head"
    ProjectionCompiler.compileLoaded loaded st.db p) with
  | .ok (state, true) =>
      (.ok state, { st with
        table := refreshSnapshot stored policy st.table p "cognitive_head"
          (ProjectionCompiler.snapshotOf state) latest })
  | .ok (state, false) => (.ok state, st)
  | .error e => (.error e, st)

/-- A call on the shared store. -/
inductive StoreCall
  | append (req : AppendRequest)
  | compile (p : UUID) (now : String)
  | compileV2 (p : UUID)

namespace SharedStore

def initial : SharedStore := ⟨.empty, []⟩

def step (st : SharedStore) : StoreCall → SharedStore
  | .append req => { st with db := st.db.appendEvent req }
  | .compile p now => (compileCognitiveHead stored policy st p now).2
  | .compileV2 p => (compileCognitiveHeadV2 stored policy st p).2

/-- The store after a sequence of calls. -/
def run (st : SharedStore) (calls : List StoreCall) : SharedStore :=
  calls.foldl (step stored policy) st

end SharedStore

end Compile

end RationaleVault

namespace RationaleVault

/-! ## Project fields after a bootstrap -/

/-- The project field that a bootstrap event sets. -/
def ProjectState.bootstrapField : EventType → ProjectState → Json
  | .projectCreated, s => s.name
  | .projectGoalSet, s => s.goal
  | .projectFocusChanged, s => s.currentFocus
  | _, _ => .null

theorem ProjectReducer.bootstrapField_step {t : EventType} {s s' : ProjectState} {e : EventRecord}
    (h : e.eventType = t ∨ s.bootstrapField t = s'.bootstrapField t) :
    (step s e).bootstrapField t = (step s' e).bootstrapField t := by
  unfold step
  split <;> rename_i ht <;> cases t <;> simp_all [ProjectState.bootstrapField]

/-- A field set by one of the events does not depend on the state before them. -/
theorem ProjectReducer.bootstrapField_reduce {t : EventType} {s s' : ProjectState}
    {events : List EventRecord}
    (h : t ∈ events.map EventRecord.eventType ∨ s.bootstrapField t = s'.bootstrapField t) :
    (reduce s events).bootstrapField t = (reduce s' events).bootstrapField t := by
  induction events generalizing s s' with
  | nil => exact h.resolve_left (by simp)
  | cons e rest ih =>
      apply ih
      by_cases hrest : t ∈ rest.map EventRecord.eventType
      · exact Or.inl hrest
      · apply Or.inr
        apply bootstrapField_step
        rcases h with h | h
        · rcases List.mem_cons.mp h with h | h
          · exact Or.inl h.symm
          · exact absurd h hrest
        · exact Or.inr h

/-- A bootstrapped stream determines all shown project fields. -/
theorem ProjectReducer.shown_reduce_of_bootstrap {events : List EventRecord}
    (h : HasBootstrap events) (s s' : ProjectState) :
    (reduce s events).shown = (reduce s' events).shown := by
  have hfield : ∀ t ∈ bootstrapTypes,
      (reduce s events).bootstrapField t = (reduce s' events).bootstrapField t :=
    fun t ht => bootstrapField_reduce (Or.inl (h t ht))
  have hname := hfield .projectCreated (by simp [bootstrapTypes])
  have hgoal := hfield .projectGoalSet (by simp [bootstrapTypes])
  have hfocus := hfield .projectFocusChanged (by simp [bootstrapTypes])
  simp only [ProjectState.bootstrapField] at hname hgoal hfocus
  rw [ProjectState.shown, ProjectState.shown, hname, hgoal, hfocus]

/-! ## Stored snapshots -/

/-- The list fields of the stored tasks hold lists. -/
def SnapshotDict.HasTaskLists (d : SnapshotDict) : Prop :=
  ∀ t ∈ (d.tasks.getD .empty).values, ∀ f : TaskField, f.isList = true →
    (JsonObj.getD t f.name (.arr [])).isArr = true

theorem TaskState.hasLists_iff_toDict (t : TaskState) :
    t.HasLists ↔ ∀ f : TaskField, f.isList = true →
      (JsonObj.getD t.toDict f.name (.arr [])).isArr = true := by
  have hfield : ∀ f : TaskField, JsonObj.getD t.toDict f.name (.arr []) = t.getField f := by
    intro f
    cases f <;> rfl
  simp only [HasLists, hfield]

/-- What both compilers save: a payload with its hash, not beyond the stream, that encodes the
items of a head. A payload without a sequence has no items. -/
structure StoredSnapshot (latest : Nat) (P : SnapshotPayload) (head : CognitiveHead)
    (tasks : TaskDict) (decisions : DecisionDict) (questions : QuestionDict) : Prop where
  encodes : SnapshotOf head tasks decisions questions P.sequence P
  hash : P.computeHash = .ok P.snapshotHash
  bound : P.sequence ≤ latest
  nonneg : 0 ≤ P.sequence
  lists : ∀ e ∈ questions.entries, e.2.HasLists
  empty : P.sequence = 0 → tasks = .empty ∧ decisions = .empty ∧ questions = .empty

/-- A row that hands back what was saved. -/
def StoredRow (db : EventDb) (r : SnapshotRow) : Prop :=
  ∃ P head tasks decisions questions, r.payload = faithfulStored P ∧ r.sequence = P.sequence ∧
    StoredSnapshot (db.getLatestSequence r.projectId) P head tasks decisions questions

theorem StoredSnapshot.mono {latest latest' : Nat} {P : SnapshotPayload} {head : CognitiveHead}
    {tasks : TaskDict} {decisions : DecisionDict} {questions : QuestionDict}
    (h : StoredSnapshot latest P head tasks decisions questions) (hle : latest ≤ latest') :
    StoredSnapshot latest' P head tasks decisions questions :=
  { h with bound := h.bound.trans (by exact_mod_cast hle) }

/-- Hashing a payload again changes nothing but the hash. -/
theorem SnapshotOf.withHash {head : CognitiveHead} {tasks : TaskDict} {decisions : DecisionDict}
    {questions : QuestionDict} {seq : Int} {P : SnapshotPayload}
    (h : SnapshotOf head tasks decisions questions seq P) (hash : String) :
    SnapshotOf head tasks decisions questions seq { P with snapshotHash := hash } :=
  ⟨h.sequence, h.schemaVersion, h.projectionVersion, h.projectId, h.projectName, h.projectGoal,
    h.currentFocus, h.ledgerVersion, h.compiledAt, h.tasks, h.decisions, h.questions, h.blockers⟩

/-- A stored snapshot is valid. -/
theorem StoredSnapshot.validatePayload {latest : Nat} {P : SnapshotPayload} {head : CognitiveHead}
    {tasks : TaskDict} {decisions : DecisionDict} {questions : QuestionDict}
    (h : StoredSnapshot latest P head tasks decisions questions) :
    RationaleVault.validatePayload P latest = .ok (.accepted P) := by
  have hbound : ¬ P.sequence > latest := not_lt.mpr h.bound
  rw [RationaleVault.validatePayload, SnapshotPayload.validateHash, h.hash]
  simp [h.encodes.schemaVersion, h.encodes.projectionVersion, hbound]

/-! ## Reachable stores -/

/-- Every stored snapshot was written by one of the compilers. -/
def SharedStore.Valid (st : SharedStore) : Prop := ∀ r ∈ st.table, StoredRow st.db r

theorem StoredRow.append {db : EventDb} {r : SnapshotRow} (h : StoredRow db r)
    (req : AppendRequest) : StoredRow (db.appendEvent req) r := by
  obtain ⟨P, head, tasks, decisions, questions, hpayload, hseq, hP⟩ := h
  have hext := EventDb.extends_appendEvent db req r.projectId
  exact ⟨P, head, tasks, decisions, questions, hpayload, hseq, hP.mono hext.latest_le⟩

/-- The snapshot of a compilation encodes the items of the stream. -/
theorem storedSnapshot_of_compile {loaded : SnapshotValidationResult} {db : EventDb} {p : UUID}
    {now : String} {H : CognitiveHead} {P : SnapshotPayload}
    (h : compileReads loaded (.quiet db) p now = .ok (H, P)) {hash : String}
    (hhash : P.computeHash = .ok hash) :
    ∃ tasks decisions questions, StoredSnapshot (db.getLatestSequence p)
      { P with snapshotHash := hash } H tasks decisions questions := by
  simp only [compileReads, CompileReads.quiet, EventDb.getProjectStream_zero,
    Except.bind_eq_ok_iff, Except.pure_eq_ok_iff, Prod.mk.injEq] at h
  obtain ⟨r, _, P', hP', rfl, rfl⟩ := h
  obtain ⟨tasks, decisions, questions, ht, hd, hq, hP⟩ := compileSnapshot_spec hP'
  have hseq : P'.sequence = db.getLatestSequence p := hP.sequence
  refine ⟨tasks, decisions, questions, ⟨(hseq ▸ hP).withHash hash, hhash, hseq.le, ?_, ?_, ?_⟩⟩
  · show 0 ≤ P'.sequence
    rw [hseq]
    exact Int.natCast_nonneg _
  · exact QuestionReducer.hasLists_reduce (by simp) hq
  · intro hzero
    have hrows : db.projectRows p = [] := by
      by_contra hne
      have hpos := EventDb.getLatestSequence_pos hne
      have hzero : P'.sequence = 0 := hzero
      omega
    rw [hrows] at ht hd hq
    exact ⟨(Except.ok.inj ht).symm, (Except.ok.inj hd).symm, (Except.ok.inj hq).symm⟩

/-- The platform's snapshot has neither sequence nor items. -/
theorem storedSnapshot_of_platform (latest : Nat) (state : CognitiveHead) {hash : String}
    (hhash : (ProjectionCompiler.snapshotOf state).computeHash = .ok hash) :
    StoredSnapshot latest { ProjectionCompiler.snapshotOf state with snapshotHash := hash } state
      .empty .empty .empty where
  encodes := ⟨rfl, rfl, rfl, rfl, rfl, rfl, rfl, rfl, rfl, rfl, rfl, rfl, rfl⟩
  hash := hhash
  bound := Int.natCast_nonneg latest
  nonneg := le_refl _
  lists := by simp
  empty := fun _ => ⟨rfl, rfl, rfl⟩

namespace SharedStore

variable {policy : SnapshotPolicy} {st : SharedStore}

theorem run_append (st : SharedStore) (a b : List StoreCall) :
    st.run faithfulStored policy (a ++ b) =
      (st.run faithfulStored policy a).run faithfulStored policy b := List.foldl_append

theorem valid_initial : initial.Valid := by
  intro r hr
  cases hr

/-- Every call keeps the stored snapshots valid. -/
theorem Valid.step (h : st.Valid) (call : StoreCall) : (st.step faithfulStored policy call).Valid := by
  cases call with
  | append req => exact fun r hr => (h r hr).append req
  | compile p now =>
      simp only [SharedStore.step, compileCognitiveHead]
      split
      · rename_i H P hcompile
        obtain ⟨loaded, _, hreads⟩ := Except.bind_eq_ok_iff.mp hcompile
        intro r hr
        rcases mem_refreshSnapshot hr with hr | ⟨hash, hhash, rfl⟩
        · exact h r hr
        · obtain ⟨tasks, decisions, questions, hP⟩ := storedSnapshot_of_compile hreads hhash
          exact ⟨_, H, tasks, decisions, questions, rfl, rfl, hP⟩
      · exact h
  | compileV2 p =>
      simp only [SharedStore.step, compileCognitiveHeadV2]
      split
      · rename_i state hcompile
        intro r hr
        dsimp only at hr
        rcases mem_refreshSnapshot hr with hr | ⟨hash, hhash, rfl⟩
        · exact h r hr
        · exact ⟨_, state, _, _, _, rfl, rfl, storedSnapshot_of_platform _ state hhash⟩
      · exact h
      · exact h

theorem Valid.run (h : st.Valid) (calls : List StoreCall) :
    (st.run faithfulStored policy calls).Valid := by
  induction calls generalizing st with
  | nil => exact h
  | cons call rest ih => exact ih (h.step call)

/-- A valid store loads its newest snapshot. -/
theorem Valid.load (h : st.Valid) {p : UUID} {r : SnapshotRow}
    (hr : st.table.loadLatestRaw p "cognitive_head" = some r) :
    ∃ P head tasks decisions questions, r.payload = faithfulStored P ∧ r.sequence = P.sequence ∧
      StoredSnapshot (st.db.getLatestSequence p) P head tasks decisions questions ∧
      loadValidSnapshot st.table (st.db.getLatestSequence p) p "cognitive_head" =
        .ok (.accepted P) := by
  obtain ⟨hmem, rfl, _, _⟩ := SnapshotTable.loadLatestRaw_spec hr
  obtain ⟨P, head, tasks, decisions, questions, hpayload, hseq, hP⟩ := h r hmem
  refine ⟨P, head, tasks, decisions, questions, hpayload, hseq, hP, ?_⟩
  rw [loadValidSnapshot, hr]
  simp only [hasSerializer, hpayload]
  exact hP.validatePayload

end SharedStore

/-! ## The heads of the two compilers -/

section Heads

open CognitiveHeadProjection

variable {db : EventDb} {p : UUID} {now : String} {H : CognitiveHead}

theorem projectIdOf_projectRows (h : db.projectRows p ≠ []) : projectIdOf (db.projectRows p) = p := by
  obtain ⟨r, rest, hrows⟩ := List.exists_cons_of_ne_nil h
  rw [projectIdOf, hrows]
  exact EventDb.projectId_of_mem_projectRows (hrows ▸ List.mem_cons_self)

/-- Without a snapshot the projection replays the whole stream. -/
theorem reduce_none_sameContent (h : ReplayEngine.fullReplay p (db.projectRows p) now = .ok H) :
    ∃ H', reduce (db.projectRows p) none = .ok H' ∧ H'.SameContent H := by
  have hboot := ReplayEngine.hasBootstrap_of_fullReplay h
  obtain ⟨s, hs, hhead⟩ := ReplayEngine.fullReplay_eq_ok h
  refine ⟨{ H with compiledAt := "" }, ?_, rfl⟩
  rw [reduce, checkBootstrap_eq_ok_iff.mpr hboot, Except.ok_bind_eq, hs, Except.ok_bind_eq,
    projectIdOf_projectRows hboot.ne_nil, buildHead_of_ok hhead p "" (db.projectRows p)]
  obtain ⟨rfl, _, _, hversion⟩ := buildHead_fields hhead
  rw [← hversion]

/-- On a head without items the projection replays the whole stream as well. -/
theorem reduce_some_sameContent (h : ReplayEngine.fullReplay p (db.projectRows p) now = .ok H)
    (initial : CognitiveHead) (ht : initial.activeTasks = []) (hd : initial.activeDecisions = [])
    (hq : initial.openQuestions = []) :
    ∃ H', reduce (db.projectRows p) (some initial) = .ok H' ∧ H'.SameContent H := by
  have hboot := ReplayEngine.hasBootstrap_of_fullReplay h
  obtain ⟨H', hH', hsame⟩ := reduce_none_sameContent h
  refine ⟨H', ?_, hsame⟩
  have hstate : stateOfHead initial =
      .ok ⟨headToProjectState initial, .empty, .empty, .empty⟩ := by
    rw [stateOfHead, headToTasksDict, headToDecisionsDict, headToQuestionsDict, ht, hd, hq]
    rfl
  rw [reduce, checkBootstrap_eq_ok_iff.mpr hboot, Except.ok_bind_eq, Except.bind_eq_ok_iff] at hH'
  obtain ⟨s, hs, hhead⟩ := hH'
  obtain ⟨hproject, hts, hds, hqs⟩ := ReducerState.reduce_eq_ok_iff.mp hs
  have hs' : ReducerState.reduce ⟨headToProjectState initial, .empty, .empty, .empty⟩
      (db.projectRows p) = .ok { s with
        project := ProjectReducer.reduce (headToProjectState initial) (db.projectRows p) } :=
    ReducerState.reduce_eq_ok_iff.mpr ⟨rfl, hts, hds, hqs⟩
  rw [reduce_some hstate hboot.ne_nil, hs', Except.ok_bind_eq, ← hhead]
  apply buildHead_congr _ rfl
  refine ⟨?_, rfl, rfl, rfl⟩
  rw [← hproject]
  exact ProjectReducer.shown_reduce_of_bootstrap hboot _ _

end Heads

section Snapshots

open CognitiveHeadProjection

variable {latest : Nat} {P : SnapshotPayload} {head : CognitiveHead} {tasks : TaskDict}
  {decisions : DecisionDict} {questions : QuestionDict}

/-- The projection reads a stored snapshot as the engine does, except that it copies lists. -/
theorem StoredSnapshot.deserialize_eq
    (h : StoredSnapshot latest P head tasks decisions questions) :
    deserialize (P.toDict false) = (do
      let copies ← tasks.entries.mapM fun e => taskOfDict (.atom e.1) e.2.toDict
      return { head with
        activeTasks := copies
        activeDecisions := decisions.values
        openQuestions := questions.values }) := by
  have hd : (decisions.mapVals DecisionState.toDict).entries.mapM
      (fun e => decisionOfDict (.atom e.1) e.2) = .ok decisions.values := by
    rw [OrdDict.entries_mapVals, List.mapM_map]
    exact Fold.mapM_eq_ok fun e _ => DecisionState.ofDict_toDict e.2
  have hq : (questions.mapVals QuestionState.toDict).entries.mapM
      (fun e => questionOfDict (.atom e.1) e.2) = .ok questions.values := by
    rw [OrdDict.entries_mapVals, List.mapM_map]
    exact Fold.mapM_eq_ok fun e he => questionOfDict_toDict (h.lists e he) _
  have he := h.encodes
  simp only [deserialize, SnapshotPayload.toDict, payloadDictToHead, Option.getD_some, he.tasks,
    he.decisions, he.questions, hd, hq, headOfDict, he.projectId, UUID.parse_str, he.projectName,
    he.projectGoal, he.currentFocus, he.ledgerVersion, he.compiledAt, he.blockers]
  rw [OrdDict.entries_mapVals, List.mapM_map]
  rfl

/-- A current snapshot gives the same head on both paths exactly when its list fields are
lists. -/
theorem StoredSnapshot.deserialize_sameContent_iff
    (h : StoredSnapshot latest P head tasks decisions questions) {H : CognitiveHead}
    (hH : P.toCognitiveHead = .ok H) :
    (∃ H', deserialize (P.toDict false) = .ok H' ∧ H'.SameContent H) ↔
      (faithfulStored P).HasTaskLists := by
  have hlists : (faithfulStored P).HasTaskLists ↔ ∀ e ∈ tasks.entries, e.2.HasLists := by
    simp only [SnapshotDict.HasTaskLists, faithfulStored, SnapshotPayload.toDict,
      Option.getD_some, h.encodes.tasks, OrdDict.values, OrdDict.entries_mapVals, List.map_map,
      List.forall_mem_map, Function.comp_apply, TaskState.hasLists_iff_toDict]
  rw [h.encodes.toCognitiveHead_eq, Except.ok.injEq] at hH
  rw [hlists, h.deserialize_eq, ← hH]
  constructor
  · rintro ⟨H', hH', hsame⟩ e he
    simp only [Except.bind_eq_ok_iff, Except.pure_eq_ok_iff] at hH'
    obtain ⟨copies, hcopies, rfl⟩ := hH'
    have htasks : copies = tasks.values := congrArg (·.activeTasks) hsame
    have hmem : e.2 ∈ copies := htasks ▸ List.mem_map.mpr ⟨e, he, rfl⟩
    obtain ⟨_, _, hcopy⟩ := Fold.mem_of_mapM hcopies _ hmem
    exact hasLists_taskOfDict hcopy
  · intro hall
    have hcopies : tasks.entries.mapM (fun e => taskOfDict (.atom e.1) e.2.toDict) =
        .ok tasks.values := Fold.mapM_eq_ok fun e he => taskOfDict_toDict (hall e he) _
    exact ⟨_, by rw [hcopies]; rfl, rfl⟩

end Snapshots

/-! ## Agreement -/

section Agreement

open CognitiveHeadProjection

variable {policy : SnapshotPolicy} {st : SharedStore} {p : UUID} {now : String} {H : CognitiveHead}

/-- A compilation that returns. -/
theorem compileCognitiveHead_eq_ok
    (h : (compileCognitiveHead faithfulStored policy st p now).1 = .ok H) :
    ∃ loaded r, loadValidSnapshot st.table (st.db.getLatestSequence p) p "cognitive_head" =
        .ok loaded ∧
      ReplayEngine.buildProjection loaded st.db st.db p now = .ok r ∧ r.head = H := by
  simp only [compileCognitiveHead] at h
  split at h
  · rename_i head payload hcompile
    rw [Except.ok.injEq] at h
    subst h
    simp only [compileReads, CompileReads.quiet, Except.bind_eq_ok_iff, Except.pure_eq_ok_iff,
      Prod.mk.injEq] at hcompile
    obtain ⟨loaded, hloaded, r, hr, _, _, hhead, _⟩ := hcompile
    exact ⟨loaded, r, hloaded, hr, hhead⟩
  · cases h

theorem compileCognitiveHeadV2_eq_ok_iff {loaded : SnapshotValidationResult}
    (hloaded : loadValidSnapshot st.table (st.db.getLatestSequence p) p "cognitive_head" =
      .ok loaded) :
    (compileCognitiveHeadV2 faithfulStored policy st p).1 = .ok H ↔
      ∃ save, ProjectionCompiler.compileLoaded loaded st.db p = .ok (H, save) := by
  simp only [compileCognitiveHeadV2, hloaded, Except.ok_bind_eq]
  cases h : ProjectionCompiler.compileLoaded loaded st.db p with
  | error e => simp
  | ok result =>
      obtain ⟨state, save⟩ := result
      cases save <;> simp

/-- Without a snapshot both compilers replay the whole stream. -/
theorem compileLoaded_rejected (reason : SnapshotValidationReason)
    (h : ReplayEngine.fullReplay p (st.db.projectRows p) now = .ok H) :
    ∃ H' save, ProjectionCompiler.compileLoaded (.rejected reason) st.db p = .ok (H', save) ∧
      H'.SameContent H := by
  obtain ⟨H', hH', hsame⟩ := reduce_none_sameContent h
  refine ⟨H', true, ?_, hsame⟩
  simp [ProjectionCompiler.compileLoaded, ReplayEngine.usablePayload,
    SnapshotValidationResult.rejected, EventDb.getProjectStream_zero, hH']

/-- What the platform compiles with a stored snapshot. -/
theorem compileLoaded_accepted (P : SnapshotPayload) :
    ProjectionCompiler.compileLoaded (.accepted P) st.db p =
      if (st.db.getLatestSequence p : Int) ≤ P.sequence then (do
        let state ← deserialize (P.toDict false)
        return (state, false))
      else if 0 < P.sequence then .error (.attributeError "get_events_since")
      else (do
        let initial ← deserialize (P.toDict false)
        let state ← reduce (st.db.projectRows p) (some initial)
        return (state, true)) := by
  simp only [ProjectionCompiler.compileLoaded, ReplayEngine.usablePayload,
    SnapshotValidationResult.accepted, EventDb.getProjectStream_zero, ge_iff_le, gt_iff_lt]
  rfl

/-- In every state that appends and calls of the two compilers lead to, and for a project for
which `compile_cognitive_head` returns a head, `compile_cognitive_head_v2` returns the same head
up to `compiled_at` exactly when the newest snapshot is not strictly inside the stream, and holds
lists in the list fields of its tasks if it is current. -/
theorem compileV2_agrees_iff {calls : List StoreCall}
    (hst : SharedStore.initial.run faithfulStored policy calls = st)
    (hlegacy : (compileCognitiveHead faithfulStored policy st p now).1 = .ok H) :
    (∃ H', (compileCognitiveHeadV2 faithfulStored policy st p).1 = .ok H' ∧ H'.SameContent H) ↔
      ∀ r, st.table.loadLatestRaw p "cognitive_head" = some r →
        ¬ (0 < r.sequence ∧ r.sequence < st.db.getLatestSequence p) ∧
        ((st.db.getLatestSequence p : Int) ≤ r.sequence → r.payload.HasTaskLists) := by
  have hvalid : st.Valid := hst ▸ SharedStore.valid_initial.run calls
  obtain ⟨loaded, result, hloaded, hresult, rfl⟩ := compileCognitiveHead_eq_ok hlegacy
  simp only [compileCognitiveHeadV2_eq_ok_iff hloaded]
  have hcases := ReplayEngine.buildProjection_cases hresult
  rw [EventDb.getProjectStream_zero] at hcases
  cases hr : st.table.loadLatestRaw p "cognitive_head" with
  | none =>
      rw [loadValidSnapshot, hr, Except.ok.injEq] at hloaded
      subst hloaded
      obtain ⟨_, hu, _⟩ | ⟨_, hu, _⟩ | ⟨_, hfull, _⟩ := hcases
      · cases hu
      · cases hu
      · obtain ⟨H', save, hH', hsame⟩ := compileLoaded_rejected .notFound hfull
        simp only [reduceCtorEq, false_implies, implies_true, iff_true]
        exact ⟨H', ⟨save, hH'⟩, hsame⟩
  | some r =>
      obtain ⟨P, head, tasks, decisions, questions, hpayload, hseq, hP, hload⟩ := hvalid.load hr
      obtain rfl := Except.ok.inj (hload.symm.trans hloaded)
      simp only [Option.some.injEq, forall_eq', hpayload, hseq, compileLoaded_accepted]
      obtain ⟨_, hu, hcurrent, hhead, _⟩ | ⟨_, hu, hlt, hpos, _⟩ | ⟨hfirst, hfull, _⟩ := hcases
      · cases hu
        rw [if_pos hcurrent, ← hP.deserialize_sameContent_iff hhead]
        simp only [Except.bind_eq_ok_iff, Except.pure_eq_ok_iff, Prod.mk.injEq]
        constructor
        · rintro ⟨H', ⟨_, state, hstate, rfl, _⟩, hsame⟩
          exact ⟨fun h => absurd h.2 (not_lt.mpr hcurrent), fun _ => ⟨state, hstate, hsame⟩⟩
        · rintro ⟨_, h⟩
          obtain ⟨H', hH', hsame⟩ := h hcurrent
          exact ⟨H', ⟨false, H', hH', rfl, rfl⟩, hsame⟩
      · cases hu
        rw [if_neg (not_le.mpr hlt), if_pos hpos]
        constructor
        · rintro ⟨_, ⟨_, h⟩, _⟩
          cases h
        · rintro ⟨h, _⟩
          exact absurd ⟨hpos, hlt⟩ h
      · obtain ⟨hlt, hle⟩ := hfirst P rfl
        rw [if_neg (not_le.mpr hlt), if_neg (not_lt.mpr hle)]
        obtain ⟨rfl, rfl, rfl⟩ := hP.empty (le_antisymm hle hP.nonneg)
        obtain ⟨H', hH', hsame⟩ := reduce_some_sameContent hfull { head with
          activeTasks := [], activeDecisions := [], openQuestions := [] } rfl rfl rfl
        have hinitial : deserialize (P.toDict false) = .ok { head with
            activeTasks := [], activeDecisions := [], openQuestions := [] } := hP.deserialize_eq
        constructor
        · exact fun _ => ⟨fun h => absurd h.1 (not_lt.mpr hle),
            fun h => absurd h (not_le.mpr hlt)⟩
        · refine fun _ => ⟨H', ⟨true, ?_⟩, hsame⟩
          rw [hinitial, Except.ok_bind_eq, hH']
          rfl

end Agreement

/-! ## A compiled project -/

/-- Bootstrap the sample project and compile it. -/
def compiledCalls : List StoreCall :=
  (sampleBootstrap.map sampleRequest).map StoreCall.append ++ [.compile .zero "now"]

/-- A task is created after the compilation. -/
def outdatedCalls : List StoreCall :=
  compiledCalls ++ [.append (sampleRequest (sampleTask (.str "t") "T" "high"))]

/-- The compilation saves a snapshot without tasks, with which the project can be compiled again,
before and after the task is created. -/
theorem compiledCalls_snapshot :
    ∃ P : SnapshotPayload, P.sequence = 3 ∧ P.tasks = .empty ∧
      SharedStore.initial.run faithfulStored defaultPolicy compiledCalls =
        ⟨sampleDb [], [SnapshotTable.newRow faithfulStored .zero "cognitive_head" P]⟩ ∧
      (∃ result, compileReads (.accepted P) (.quiet (sampleDb [])) .zero "later" = .ok result) ∧
      ∃ result, compileReads (.accepted P)
        (.quiet (sampleDb [sampleTask (.str "t") "T" "high"])) .zero "later" = .ok result := by
  obtain ⟨H, P, hashed, hcompile, hhash, hseq, htasks, hcurrent, hlater⟩ : ∃ H P hashed,
      compileReads (.rejected .notFound) (.quiet (sampleDb [])) .zero "now" = .ok (H, P) ∧
      P.withHash = .ok hashed ∧ hashed.sequence = 3 ∧ hashed.tasks = .empty ∧
      (∃ result, compileReads (.accepted hashed) (.quiet (sampleDb [])) .zero "later" =
        .ok result) ∧
      ∃ result, compileReads (.accepted hashed)
        (.quiet (sampleDb [sampleTask (.str "t") "T" "high"])) .zero "later" = .ok result :=
    ⟨_, _, _, rfl, rfl, rfl, rfl, ⟨_, rfl⟩, ⟨_, rfl⟩⟩
  refine ⟨hashed, hseq, htasks, ?_, hcurrent, hlater⟩
  have hrun : SharedStore.initial.run faithfulStored defaultPolicy compiledCalls =
      (compileCognitiveHead faithfulStored defaultPolicy ⟨sampleDb [], []⟩ .zero "now").2 := rfl
  have hload : loadValidSnapshot [] ((sampleDb []).getLatestSequence .zero) .zero
      "cognitive_head" = .ok (.rejected .notFound) := rfl
  rw [hrun, compileCognitiveHead]
  simp only [hload, Except.ok_bind_eq, hcompile, refreshSnapshot, hhash]
  rfl

/-- With one snapshot in the table, a compilation starts from it. -/
theorem compileCognitiveHead_single {policy : SnapshotPolicy} {db : EventDb} {P : SnapshotPayload}
    (hvalid : SharedStore.Valid
      ⟨db, [SnapshotTable.newRow faithfulStored .zero "cognitive_head" P]⟩)
    (h : ∃ result, compileReads (.accepted P) (.quiet db) .zero "later" = .ok result) :
    loadValidSnapshot [SnapshotTable.newRow faithfulStored .zero "cognitive_head" P]
        (db.getLatestSequence .zero) .zero "cognitive_head" = .ok (.accepted P) ∧
      ∃ H, (compileCognitiveHead faithfulStored policy
        ⟨db, [SnapshotTable.newRow faithfulStored .zero "cognitive_head" P]⟩ .zero "later").1 =
          .ok H := by
  have hraw : SnapshotTable.loadLatestRaw
      [SnapshotTable.newRow faithfulStored .zero "cognitive_head" P] .zero "cognitive_head" =
      some (SnapshotTable.newRow faithfulStored .zero "cognitive_head" P) := by
    simp [SnapshotTable.loadLatestRaw, SnapshotTable.rowsOf, SnapshotTable.newRow,
      Table.orderByDesc]
  obtain ⟨P', _, _, _, _, hpayload, _, _, hload⟩ := hvalid.load hraw
  have hP : P = P' := congrArg SnapshotPayload.fromDict hpayload
  rw [← hP] at hload
  obtain ⟨⟨H, payload⟩, hresult⟩ := h
  refine ⟨hload, H, ?_⟩
  simp only [compileCognitiveHead, hload, Except.ok_bind_eq, hresult]

/-- Right after a compilation both compilers return the same head. -/
theorem compileV2_agrees_compiled :
    ∃ H, (compileCognitiveHead faithfulStored defaultPolicy
        (SharedStore.initial.run faithfulStored defaultPolicy compiledCalls) .zero "later").1 =
        .ok H ∧
      ∃ H', (compileCognitiveHeadV2 faithfulStored defaultPolicy
        (SharedStore.initial.run faithfulStored defaultPolicy compiledCalls) .zero).1 = .ok H' ∧
        H'.SameContent H := by
  obtain ⟨P, hseq, htasks, hrun, hcurrent, _⟩ := compiledCalls_snapshot
  have hvalid := @SharedStore.Valid.run defaultPolicy _ SharedStore.valid_initial compiledCalls
  rw [hrun] at hvalid ⊢
  obtain ⟨H, hH⟩ := (@compileCognitiveHead_single defaultPolicy _ _ hvalid hcurrent).2
  refine ⟨H, hH, (compileV2_agrees_iff hrun hH).mpr ?_⟩
  intro r hr
  obtain ⟨hmem, _⟩ := SnapshotTable.loadLatestRaw_spec hr
  obtain rfl := List.mem_singleton.mp hmem
  constructor
  · rintro ⟨_, hlt⟩
    have hlatest : (sampleDb []).getLatestSequence .zero = 3 := rfl
    rw [hlatest] at hlt
    change P.sequence < 3 at hlt
    omega
  · intro _ t ht
    simp [SnapshotTable.newRow, faithfulStored, SnapshotPayload.toDict, htasks] at ht

/-- With a snapshot inside the stream, the engine replays the new events and the platform calls a
method that does not exist. -/
theorem compileV2_raises_outdated :
    (∃ H, (compileCognitiveHead faithfulStored defaultPolicy
        (SharedStore.initial.run faithfulStored defaultPolicy outdatedCalls) .zero "later").1 =
        .ok H) ∧
      (compileCognitiveHeadV2 faithfulStored defaultPolicy
        (SharedStore.initial.run faithfulStored defaultPolicy outdatedCalls) .zero).1 =
        .error (.attributeError "get_events_since") := by
  obtain ⟨P, hseq, _, hrun, _, hlater⟩ := compiledCalls_snapshot
  have hvalid := @SharedStore.Valid.run defaultPolicy _ SharedStore.valid_initial outdatedCalls
  have hrun' : SharedStore.initial.run faithfulStored defaultPolicy outdatedCalls =
      ⟨sampleDb [sampleTask (.str "t") "T" "high"],
        [SnapshotTable.newRow faithfulStored .zero "cognitive_head" P]⟩ := by
    rw [outdatedCalls, SharedStore.run_append, hrun]
    rfl
  rw [hrun'] at hvalid ⊢
  obtain ⟨hload, hH⟩ := @compileCognitiveHead_single defaultPolicy _ _ hvalid hlater
  refine ⟨hH, ?_⟩
  have hlatest : (sampleDb [sampleTask (.str "t") "T" "high"]).getLatestSequence .zero = 4 := rfl
  have herror := @compileLoaded_accepted ⟨sampleDb [sampleTask (.str "t") "T" "high"], []⟩ .zero P
  rw [if_neg (by rw [hlatest, hseq]; decide), if_pos (by rw [hseq]; decide)] at herror
  simp only [compileCognitiveHeadV2, hload, Except.ok_bind_eq, herror]

end RationaleVault
