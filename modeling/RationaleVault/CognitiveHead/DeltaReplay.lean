import RationaleVault.CognitiveHead.FastPath

/-!
# Delta replay

A snapshot read back from JSON text stands for the reducer state it was taken
from, provided all ids are strings: object keys are always strings, so an item
stored under a number comes back under its text. With string ids a delta
replay goes through the same states as a full replay. With any other id there
is a continuation of the stream on which the two disagree.
-/

namespace RationaleVault

/-! ## Snapshots built by the compiler -/

/-- A payload after a round trip through JSON text. -/
def SnapshotPayload.reload (P : SnapshotPayload) : SnapshotPayload := fromDict (P.toDict false).reload

/-- `P` is the snapshot that `compile_cognitive_head` built over `db`, after any number of
earlier compilations of the project, each starting from the snapshot before it. -/
inductive CompiledSnapshot (p : UUID) : EventDb → SnapshotPayload → Prop
  | first {db : EventDb} {loaded : SnapshotValidationResult} {now : String} {H : CognitiveHead}
      {P : SnapshotPayload} (hloaded : ReplayEngine.usablePayload loaded = none)
      (h : compileReads loaded (.quiet db) p now = .ok (H, P)) : CompiledSnapshot p db P
  | next {db₀ db : EventDb} {P₀ P : SnapshotPayload} {added : List EventRecord} {now : String}
      {H : CognitiveHead} (h₀ : CompiledSnapshot p db₀ P₀)
      (hext : EventDb.Extends db₀ db p added)
      (h : compileReads (.accepted P₀.reload) (.quiet db) p now = .ok (H, P)) :
      CompiledSnapshot p db P

namespace SnapshotPayload

@[simp] theorem reload_sequence (P : SnapshotPayload) : P.reload.sequence = P.sequence := rfl

@[simp] theorem reload_project (P : SnapshotPayload) :
    (P.reload.projectName, P.reload.projectGoal, P.reload.currentFocus) =
      (P.projectName, P.projectGoal, P.currentFocus) := rfl

end SnapshotPayload

/-- The payload stores the state `s` that the events reduce to. -/
structure SnapshotState (events : List EventRecord) (P : SnapshotPayload) (s : ReducerState) :
    Prop where
  bootstrap : HasBootstrap events
  state : ReducerState.initial.reduce events = .ok s
  project : (P.projectName, P.projectGoal, P.currentFocus) = s.project.shown
  tasks : P.tasks = s.tasks.mapVals TaskState.toDict
  decisions : P.decisions = s.decisions.mapVals DecisionState.toDict
  questions : P.questions = s.questions.mapVals QuestionState.toDict

namespace ReplayEngine

/-- The project fields of a delta replay continue those of the snapshot. -/
theorem shown_of_deltaReplay {p : UUID} {P : SnapshotPayload} {events : List EventRecord}
    {now : String} {head : CognitiveHead} {s : ProjectState}
    (h : deltaReplay p P events now = .ok head)
    (hs : (P.projectName, P.projectGoal, P.currentFocus) = s.shown) :
    (head.projectName, head.projectGoal, head.currentFocus) =
      (ProjectReducer.reduce s events).shown := by
  simp only [deltaReplay, Except.bind_eq_ok_iff] at h
  obtain ⟨s₀, hs₀, s₁, hs₁, hhead⟩ := h
  have hproject : s₀.project.shown = s.shown := by
    simp only [stateOfPayload, Except.bind_eq_ok_iff, Except.pure_eq_ok_iff] at hs₀
    obtain ⟨_, _, _, _, _, _, rfl⟩ := hs₀
    exact hs
  rw [(buildHead_fields hhead).2.1, ← (ReducerState.reduce_eq_ok_iff.mp hs₁).1]
  exact ProjectReducer.shown_reduce events hproject

end ReplayEngine

/-- Assemble what a compilation stores from the project fields of its head. -/
theorem snapshotState_of_compile {head : CognitiveHead} {events : List EventRecord} {seq : Nat}
    {P : SnapshotPayload} (h : compileSnapshot head events seq = .ok P)
    (hboot : HasBootstrap events)
    (hshown : (head.projectName, head.projectGoal, head.currentFocus) =
      (ProjectReducer.reduce .initial events).shown) :
    P.sequence = seq ∧ ∃ s, SnapshotState events P s := by
  obtain ⟨tasks, decisions, questions, ht, hd, hq, hP⟩ := compileSnapshot_spec h
  refine ⟨hP.sequence, ⟨ProjectReducer.reduce .initial events, tasks, decisions, questions⟩,
    ⟨hboot, ReducerState.reduce_eq_ok_iff.mpr ⟨rfl, ht, hd, hq⟩, ?_, hP.tasks, hP.decisions,
      hP.questions⟩⟩
  rw [hP.projectName, hP.projectGoal, hP.currentFocus]
  exact hshown

/-- Whatever replay mode the compiler was in, its snapshot stores the state of the stream. -/
theorem CompiledSnapshot.spec {p : UUID} {db : EventDb} {P : SnapshotPayload}
    (h : CompiledSnapshot p db P) :
    P.sequence = db.getLatestSequence p ∧ ∃ s, SnapshotState (db.projectRows p) P s := by
  induction h with
  | @first db loaded now H P hloaded h =>
      simp only [compileReads, CompileReads.quiet, EventDb.getProjectStream_zero,
        Except.bind_eq_ok_iff, Except.pure_eq_ok_iff, Prod.mk.injEq] at h
      obtain ⟨r, hr, P', hP', rfl, rfl⟩ := h
      obtain ⟨_, hu, _⟩ | ⟨_, hu, _⟩ | ⟨_, hreplay, _⟩ := ReplayEngine.buildProjection_cases hr
      · rw [hloaded] at hu; cases hu
      · rw [hloaded] at hu; cases hu
      rw [EventDb.getProjectStream_zero] at hreplay
      obtain ⟨s, hs, hhead⟩ := ReplayEngine.fullReplay_eq_ok hreplay
      apply snapshotState_of_compile hP' (ReplayEngine.hasBootstrap_of_fullReplay hreplay)
      rw [(buildHead_fields hhead).2.1, ← (ReducerState.reduce_eq_ok_iff.mp hs).1]
      rfl
  | @next db₀ db P₀ P added now H h₀ hext h ih =>
      obtain ⟨hseq, s₀, hs₀⟩ := ih
      simp only [compileReads, CompileReads.quiet, EventDb.getProjectStream_zero,
        Except.bind_eq_ok_iff, Except.pure_eq_ok_iff, Prod.mk.injEq] at h
      obtain ⟨r, hr, P', hP', rfl, rfl⟩ := h
      have hboot : HasBootstrap (db.projectRows p) := hext.rows ▸ hs₀.bootstrap.append added
      have hproject := (ReducerState.reduce_eq_ok_iff.mp hs₀.state).1
      apply snapshotState_of_compile hP' hboot
      rw [hext.rows, ProjectReducer.reduce_append]
      obtain ⟨_, hu, hle, hhead, _⟩ | ⟨_, hu, _, _, hdelta, _⟩ | ⟨_, hreplay, _⟩ :=
        ReplayEngine.buildProjection_cases hr
      · -- The snapshot is current, so nothing was added since.
        cases hu
        have hnil : added = [] := by
          by_contra hne
          have := hext.latest_lt hne
          rw [SnapshotPayload.reload_sequence, hseq] at hle
          omega
        rw [hnil, (SnapshotPayload.toCognitiveHead_fields hhead).1,
          SnapshotPayload.reload_project, hs₀.project, ← hproject]
        rfl
      · cases hu
        rw [SnapshotPayload.reload_sequence, hseq, hext.stream_since] at hdelta
        exact ReplayEngine.shown_of_deltaReplay hdelta (hs₀.project.trans (by rw [← hproject]; rfl))
      · rw [EventDb.getProjectStream_zero] at hreplay
        obtain ⟨s, hs, hhead⟩ := ReplayEngine.fullReplay_eq_ok hreplay
        rw [(buildHead_fields hhead).2.1, ← (ReducerState.reduce_eq_ok_iff.mp hs).1, hext.rows,
          ← ProjectReducer.reduce_append]
        rfl

/-! ## The state a snapshot stands for -/

/-- All ids are strings. -/
structure ReducerState.StringIds (s : ReducerState) : Prop where
  tasks : ∀ k ∈ s.tasks.keys, k.isStr = true
  decisions : ∀ k ∈ s.decisions.keys, k.isStr = true
  questions : ∀ k ∈ s.questions.keys, k.isStr = true

/-- A dictionary with string keys survives JSON text. -/
theorem ItemDicts.reload_eq_self {d : ItemDicts} (h : ∀ k ∈ d.keys, k.isStr = true) :
    d.reload = d := by
  have hmap : d.entries.map (fun e => (Atom.str e.1.jsonKey, e.2)) = d.entries := by
    conv_rhs => rw [← List.map_id d.entries]
    apply List.map_congr_left
    intro e he
    have hstr := h e.1 (List.mem_map.mpr ⟨e, he, rfl⟩)
    obtain ⟨k, v⟩ := e
    cases k with
    | str s => rfl
    | null => cases hstr
    | bool b => cases hstr
    | int n => cases hstr
    | float x => cases hstr
  rw [reload, hmap]
  exact OrdDict.ofList_entries d

theorem TaskState.dictToTaskState_toDict {t : TaskState} (h : t.HasLists) :
    ReplayEngine.dictToTaskState t.toDict = .ok t := by
  obtain ⟨h₁, h₂, h₃, h₄⟩ := t.hasLists_iff.mp h
  apply (TaskState.ofDict_toDict t Json.copyList).trans
  rw [(Json.copyList_eq_self_iff _).mpr h₁, (Json.copyList_eq_self_iff _).mpr h₂,
    (Json.copyList_eq_self_iff _).mpr h₃, (Json.copyList_eq_self_iff _).mpr h₄]
  rfl

theorem DecisionState.dictToDecisionState_toDict (d : DecisionState) :
    ReplayEngine.dictToDecisionState d.toDict = .ok d :=
  DecisionState.ofDict_toDict d

theorem QuestionState.dictToQuestionState_toDict {q : QuestionState} (h : q.HasLists) :
    ReplayEngine.dictToQuestionState q.toDict = .ok q := by
  apply (QuestionState.ofDict_toDict q Json.copyList).trans
  rw [(Json.copyList_eq_self_iff _).mpr h]
  rfl

namespace ReplayEngine

theorem convertItems_mapVals {α : Type} {encode : α → JsonObj} {decode : JsonObj → Except Exc α}
    {d : OrdDict Atom α} (h : ∀ e ∈ d.entries, decode (encode e.2) = .ok e.2) :
    convertItems decode (d.mapVals encode) = .ok d := by
  have hmap : (d.mapVals encode).entries.mapM (fun e => do return (e.1, ← decode e.2)) =
      .ok d.entries := by
    rw [OrdDict.entries_mapVals, List.mapM_map]
    have := Fold.mapM_eq_ok (l := d.entries) (g := id)
      (f := (fun e : Atom × JsonObj => do return (e.1, ← decode e.2)) ∘
        fun e : Atom × α => (e.1, encode e.2))
      (fun e he => by simp only [Function.comp_apply, h e he]; rfl)
    rwa [List.map_id] at this
  rw [convertItems, hmap]
  exact congrArg Except.ok (OrdDict.ofList_entries d)

/-- The recovered state is the stored one, without the project fields no head shows. -/
theorem stateOfPayload_reload {events : List EventRecord} {P : SnapshotPayload}
    {s : ReducerState} (hs : SnapshotState events P s) (hids : s.StringIds)
    (htasks : ∀ e ∈ s.tasks.entries, e.2.HasLists)
    (hquestions : ∀ e ∈ s.questions.entries, e.2.HasLists) :
    ∃ s', stateOfPayload P.reload = .ok s' ∧ s'.Alike s := by
  have ht : P.reload.tasks = s.tasks.mapVals TaskState.toDict := by
    have : P.reload.tasks = P.tasks.reload := rfl
    rw [this, hs.tasks]
    exact ItemDicts.reload_eq_self (by rw [OrdDict.keys_mapVals]; exact hids.tasks)
  have hd : P.reload.decisions = s.decisions.mapVals DecisionState.toDict := by
    have : P.reload.decisions = P.decisions.reload := rfl
    rw [this, hs.decisions]
    exact ItemDicts.reload_eq_self (by rw [OrdDict.keys_mapVals]; exact hids.decisions)
  have hq : P.reload.questions = s.questions.mapVals QuestionState.toDict := by
    have : P.reload.questions = P.questions.reload := rfl
    rw [this, hs.questions]
    exact ItemDicts.reload_eq_self (by rw [OrdDict.keys_mapVals]; exact hids.questions)
  refine ⟨⟨{ ProjectState.initial with
      name := P.projectName, goal := P.projectGoal, currentFocus := P.currentFocus },
    s.tasks, s.decisions, s.questions⟩, ?_, hs.project, rfl, rfl, rfl⟩
  rw [stateOfPayload, ht, hd, hq,
    convertItems_mapVals fun e he => TaskState.dictToTaskState_toDict (htasks e he),
    convertItems_mapVals fun e _ => DecisionState.dictToDecisionState_toDict e.2,
    convertItems_mapVals fun e he => QuestionState.dictToQuestionState_toDict (hquestions e he)]
  rfl

/-- A delta replay from a snapshot with string ids is a full replay. -/
theorem deltaReplay_eq_fullReplay {p : UUID} {db db' : EventDb} {added : List EventRecord}
    {P : SnapshotPayload} {s : ReducerState} (hs : SnapshotState (db.projectRows p) P s)
    (htyped : ∀ e ∈ db.projectRows p, e.Typed) (hids : s.StringIds)
    (hext : EventDb.Extends db db' p added) (hne : added ≠ []) (now : String) :
    deltaReplay p P.reload added now = fullReplay p (db'.projectRows p) now := by
  obtain ⟨_, ht, _, hq⟩ := ReducerState.reduce_eq_ok_iff.mp hs.state
  have htasks := TaskReducer.hasLists_reduce htyped (by simp [ReducerState.initial]) ht
  have hquestions := QuestionReducer.hasLists_reduce (by simp [ReducerState.initial]) hq
  obtain ⟨s', hs', halike⟩ := stateOfPayload_reload hs hids htasks hquestions
  have hboot : HasBootstrap (db'.projectRows p) := hext.rows ▸ hs.bootstrap.append added
  rw [fullReplay_eq now hboot, hext.rows, ReducerState.reduce_append added hs.state, deltaReplay,
    hs']
  exact halike.replay p now added (hext.maxVersion_append hne).symm

end ReplayEngine

end RationaleVault
