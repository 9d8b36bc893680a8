import RationaleVault.CognitiveHead.ReducerInvariants
import RationaleVault.CognitiveHead.ReplayEngine

/-!
# The fast path

A current snapshot is turned into a head without replay. The snapshot stores
every item of the reducer state in insertion order, while the head of a full
replay shows the active ones sorted by priority, so the two agree exactly
when there is nothing to leave out and nothing to move.
-/

namespace RationaleVault

/-! ## Item dictionaries -/

/-- Reading back the dictionary of a task, with the list fields copied by `asList`. -/
theorem TaskState.ofDict_toDict (t : TaskState) (asList : Json → Except Exc Json) :
    TaskState.ofDict (.ok t.taskId) (.ok t.title) asList t.toDict = (do
      let tags ← asList t.tags
      let blockedBy ← asList t.blockedBy
      let progressNotes ← asList t.progressNotes
      let relatedKnowledgeIds ← asList t.relatedKnowledgeIds
      return { t with
        tags := tags
        blockedBy := blockedBy
        progressNotes := progressNotes
        relatedKnowledgeIds := relatedKnowledgeIds }) := rfl

theorem DecisionState.ofDict_toDict (d : DecisionState) :
    DecisionState.ofDict (.ok d.decisionId) (.ok d.title) d.toDict = .ok d := rfl

theorem QuestionState.ofDict_toDict (q : QuestionState) (asList : Json → Except Exc Json) :
    QuestionState.ofDict (.ok q.questionId) (.ok q.title) asList q.toDict = (do
      return { q with blocksTaskIds := ← asList q.blocksTaskIds }) := rfl

/-! ## The snapshot of a compilation -/

/-- A payload that stores the given reducer states next to the head's project fields. -/
structure SnapshotOf (head : CognitiveHead) (tasks : TaskDict) (decisions : DecisionDict)
    (questions : QuestionDict) (sequence : Int) (P : SnapshotPayload) : Prop where
  sequence : P.sequence = sequence
  schemaVersion : P.schemaVersion = snapshotSchemaVersion
  projectionVersion : P.projectionVersion = snapshotProjectionVersion
  projectId : P.projectId = head.projectId.str
  projectName : P.projectName = head.projectName
  projectGoal : P.projectGoal = head.projectGoal
  currentFocus : P.currentFocus = head.currentFocus
  ledgerVersion : P.ledgerVersion = head.ledgerVersion
  compiledAt : P.compiledAt = head.compiledAt
  tasks : P.tasks = tasks.mapVals TaskState.toDict
  decisions : P.decisions = decisions.mapVals DecisionState.toDict
  questions : P.questions = questions.mapVals QuestionState.toDict
  blockers : P.blockers = head.blockers

/-- The compiler stores the complete reducer state of the stream. -/
theorem compileSnapshot_spec {head : CognitiveHead} {events : List EventRecord} {seq : Nat}
    {P : SnapshotPayload} (h : compileSnapshot head events seq = .ok P) :
    ∃ tasks decisions questions,
      TaskReducer.reduce .empty events = .ok tasks ∧
      DecisionReducer.reduce .empty events = .ok decisions ∧
      QuestionReducer.reduce .empty events = .ok questions ∧
      SnapshotOf head tasks decisions questions seq P := by
  simp only [compileSnapshot, SnapshotPayload.fromCognitiveHead, SnapshotPayload.withHash,
    Except.bind_eq_ok_iff, Except.pure_eq_ok_iff] at h
  obtain ⟨tasks, ht, decisions, hd, questions, hq, _, rfl, _, rfl, _, rfl, _, _, rfl⟩ := h
  exact ⟨tasks, decisions, questions, ht, hd, hq, ⟨rfl, rfl, rfl, rfl, rfl, rfl, rfl, rfl, rfl,
    rfl, rfl, rfl, rfl⟩⟩

/-- The head a snapshot is turned into shows every stored item in stored order. -/
theorem SnapshotOf.toCognitiveHead_eq {head : CognitiveHead} {tasks : TaskDict}
    {decisions : DecisionDict} {questions : QuestionDict} {seq : Int} {P : SnapshotPayload}
    (h : SnapshotOf head tasks decisions questions seq P) :
    P.toCognitiveHead = .ok { head with
      activeTasks := tasks.values
      activeDecisions := decisions.values
      openQuestions := questions.values } := by
  have ht : P.tasks.values.mapM (fun d => TaskState.ofDict (JsonObj.getItem d "task_id")
      (JsonObj.getItem d "title") .ok d) = .ok tasks.values := by
    rw [h.tasks, OrdDict.values_mapVals]
    apply Fold.mapM_map_of_inverse
    exact fun t _ => TaskState.ofDict_toDict t .ok
  have hd : P.decisions.values.mapM (fun d => DecisionState.ofDict
      (JsonObj.getItem d "decision_id") (JsonObj.getItem d "title") d) = .ok decisions.values := by
    rw [h.decisions, OrdDict.values_mapVals]
    apply Fold.mapM_map_of_inverse
    exact fun d _ => DecisionState.ofDict_toDict d
  have hq : P.questions.values.mapM (fun d => QuestionState.ofDict
      (JsonObj.getItem d "question_id") (JsonObj.getItem d "title") .ok d) =
      .ok questions.values := by
    rw [h.questions, OrdDict.values_mapVals]
    apply Fold.mapM_map_of_inverse
    exact fun q _ => QuestionState.ofDict_toDict q .ok
  rw [SnapshotPayload.toCognitiveHead, ht, hd, hq, h.projectId, h.projectName, h.projectGoal,
    h.currentFocus, h.ledgerVersion, h.compiledAt, h.blockers]
  simp only [Except.ok_bind_eq, UUID.str_ne_empty, if_false, UUID.parse_str]
  rfl

theorem SnapshotPayload.toCognitiveHead_fields {P : SnapshotPayload} {head : CognitiveHead}
    (h : P.toCognitiveHead = .ok head) :
    (head.projectName, head.projectGoal, head.currentFocus) =
      (P.projectName, P.projectGoal, P.currentFocus) ∧ head.blockers = P.blockers := by
  simp only [toCognitiveHead, Except.bind_eq_ok_iff] at h
  obtain ⟨_, _, _, _, _, _, h⟩ := h
  split_ifs at h <;> simp only [Except.bind_eq_ok_iff, Except.pure_eq_ok_iff] at h <;>
    obtain ⟨_, _, rfl⟩ := h <;> exact ⟨rfl, rfl⟩

/-! ## Agreement with full replay -/

/-- Every item is active, and the tasks and the questions are stored in priority order. -/
structure ReducerState.Displayed (s : ReducerState) : Prop where
  tasks : ∀ t ∈ s.tasks.values, t.status ≠ .str "completed"
  decisions : ∀ d ∈ s.decisions.values, d.status = .str "accepted"
  questions : ∀ q ∈ s.questions.values, q.status = .str "open"
  taskOrder : s.tasks.values.Pairwise fun t t' =>
    priorityRank t.priority ≤ priorityRank t'.priority
  questionOrder : s.questions.values.Pairwise fun q q' =>
    priorityRank q.priority ≤ priorityRank q'.priority

/-- The head shows the whole state in stored order exactly when everything is displayed. -/
theorem ReducerState.displayed_iff {s : ReducerState} {p : UUID} {now : String}
    {events : List EventRecord} {head : CognitiveHead} (h : buildHead p now s events = .ok head) :
    s.Displayed ↔ head.activeTasks = s.tasks.values ∧ head.activeDecisions = s.decisions.values ∧
      head.openQuestions = s.questions.values := by
  obtain ⟨hq, ht, hd⟩ := buildHead_lists h
  rw [ht, hq, hd]
  simp only [activeTasksOf, openQuestionsOf, activeDecisionsOf, insertionSort_filter_eq_self_iff,
    List.filter_eq_self, decide_eq_true_eq]
  constructor
  · rintro ⟨h₁, h₂, h₃, h₄, h₅⟩
    exact ⟨⟨h₁, h₄⟩, h₂, h₃, h₅⟩
  · rintro ⟨⟨h₁, h₄⟩, h₂, h₃, h₅⟩
    exact ⟨h₁, h₂, h₃, h₄, h₅⟩

namespace ReplayEngine

/-- A full replay is the head of the stream's reducer state. -/
theorem fullReplay_eq_ok {p : UUID} {events : List EventRecord} {now : String}
    {head : CognitiveHead} (h : fullReplay p events now = .ok head) :
    ∃ s, ReducerState.initial.reduce events = .ok s ∧ buildHead p now s events = .ok head := by
  simp only [fullReplay, Except.bind_eq_ok_iff] at h
  obtain ⟨_, _, s, hs, hhead⟩ := h
  exact ⟨s, hs, hhead⟩

theorem hasBootstrap_of_fullReplay {p : UUID} {events : List EventRecord} {now : String}
    {head : CognitiveHead} (h : fullReplay p events now = .ok head) : HasBootstrap events := by
  simp only [fullReplay, Except.bind_eq_ok_iff] at h
  obtain ⟨_, hboot, _⟩ := h
  exact checkBootstrap_eq_ok_iff.mp hboot

/-- With the bootstrap events present, a full replay is the head of the reduced stream. -/
theorem fullReplay_eq {p : UUID} {events : List EventRecord} (now : String)
    (h : HasBootstrap events) :
    fullReplay p events now = (do
      let s ← ReducerState.initial.reduce events
      buildHead p now s events) := by
  rw [fullReplay, checkBootstrap_eq_ok_iff.mpr h]
  rfl

/-- What a projection is built from: a snapshot that is not behind, a snapshot and the events
after it, or the whole stream. -/
theorem buildProjection_cases {loaded : SnapshotValidationResult} {dbLatest dbStream : EventDb}
    {p : UUID} {now : String} {r : ReplayResult}
    (h : buildProjection loaded dbLatest dbStream p now = .ok r) :
    (∃ P, usablePayload loaded = some P ∧ (dbLatest.getLatestSequence p : Int) ≤ P.sequence ∧
      P.toCognitiveHead = .ok r.head ∧ r.mode = .fastPath) ∨
    (∃ P, usablePayload loaded = some P ∧ P.sequence < dbLatest.getLatestSequence p ∧
      0 < P.sequence ∧
      deltaReplay p P (dbStream.getProjectStream p P.sequence) now = .ok r.head ∧
      r.mode = .delta) ∨
    ((∀ P, usablePayload loaded = some P → P.sequence < dbLatest.getLatestSequence p ∧
      P.sequence ≤ 0) ∧
      fullReplay p (dbStream.getProjectStream p 0) now = .ok r.head ∧ r.mode = .full) := by
  cases hu : usablePayload loaded with
  | none =>
      simp only [buildProjection, hu, Except.bind_eq_ok_iff, Except.pure_eq_ok_iff] at h
      obtain ⟨head, hhead, rfl⟩ := h
      exact Or.inr (Or.inr ⟨by simp, hhead, rfl⟩)
  | some P =>
      simp only [buildProjection, hu, Option.map_some, Option.getD_some, ge_iff_le, gt_iff_lt] at h
      split_ifs at h with hcurrent hpos <;>
        simp only [Except.bind_eq_ok_iff, Except.pure_eq_ok_iff] at h <;>
        obtain ⟨head, hhead, rfl⟩ := h
      · exact Or.inl ⟨P, rfl, hcurrent, hhead, rfl⟩
      · exact Or.inr (Or.inl ⟨P, rfl, not_le.mp hcurrent, hpos, hhead, rfl⟩)
      · refine Or.inr (Or.inr ⟨?_, hhead, rfl⟩)
        intro P' hP'
        cases hP'
        exact ⟨not_le.mp hcurrent, not_lt.mp hpos⟩

/-- A valid snapshot that is not behind the stream is used as it is. -/
theorem buildProjection_fastPath {P : SnapshotPayload} {dbLatest : EventDb} (dbStream : EventDb)
    {p : UUID} (now : String) (h : (dbLatest.getLatestSequence p : Int) ≤ P.sequence) :
    buildProjection (.accepted P) dbLatest dbStream p now = (do
      let head ← P.toCognitiveHead
      return ⟨head, .fastPath, 0, P.sequence, true, true, P.sequence,
        dbLatest.getLatestSequence p⟩) := by
  simp [buildProjection, usablePayload, SnapshotValidationResult.accepted, h]

/-- The fast path over the snapshot of a full replay returns the replayed head, up to
`compiled_at`, exactly when the reducer state of the stream is displayed as it is stored. -/
theorem fastPath_sameContent_iff {loaded : SnapshotValidationResult} {db : EventDb} {p : UUID}
    {now : String} {r : ReplayResult} {P : SnapshotPayload}
    (hfull : buildProjection loaded db db p now = .ok r) (hmode : r.mode = .full)
    (hsnap : compileSnapshot r.head (db.getProjectStream p 0) (db.getLatestSequence p) = .ok P)
    (later : String) :
    (∃ r', buildProjection (.accepted P) db db p later = .ok r' ∧ r'.mode = .fastPath ∧
      r'.head.SameContent r.head) ↔
    ∃ s, ReducerState.initial.reduce (db.getProjectStream p 0) = .ok s ∧ s.Displayed := by
  obtain ⟨_, _, _, _, hfast⟩ | ⟨_, _, _, _, _, hdelta⟩ | ⟨_, hreplay, _⟩ :=
    buildProjection_cases hfull
  · cases hfast.symm.trans hmode
  · cases hdelta.symm.trans hmode
  obtain ⟨s, hs, hhead⟩ := fullReplay_eq_ok hreplay
  obtain ⟨tasks, decisions, questions, ht, hd, hq, hP⟩ := compileSnapshot_spec hsnap
  obtain ⟨_, ht', hd', hq'⟩ := ReducerState.reduce_eq_ok_iff.mp hs
  -- The compiler reduces the same stream again, from the same empty states.
  obtain rfl : tasks = s.tasks := Except.ok.inj (ht.symm.trans ht')
  obtain rfl : decisions = s.decisions := Except.ok.inj (hd.symm.trans hd')
  obtain rfl : questions = s.questions := Except.ok.inj (hq.symm.trans hq')
  rw [buildProjection_fastPath db later (le_of_eq hP.sequence.symm), hP.toCognitiveHead_eq]
  have hiff := ReducerState.displayed_iff hhead
  constructor
  · rintro ⟨r', hr', _, hsame⟩
    simp only [Except.ok_bind_eq, Except.pure_eq_ok_iff] at hr'
    subst hr'
    simp only [CognitiveHead.SameContent, CognitiveHead.content, CognitiveHead.mk.injEq] at hsame
    exact ⟨s, hs, hiff.mpr ⟨hsame.2.2.2.2.2.2.1.symm, hsame.2.2.2.2.2.2.2.1.symm,
      hsame.2.2.2.2.2.2.2.2.1.symm⟩⟩
  · rintro ⟨s', hs', hdisp⟩
    obtain rfl : s' = s := Except.ok.inj (hs'.symm.trans hs)
    obtain ⟨h₁, h₂, h₃⟩ := hiff.mp hdisp
    refine ⟨_, rfl, rfl, ?_⟩
    simp only [CognitiveHead.SameContent, CognitiveHead.content, h₁, h₂, h₃]

/-- A project with one open task. -/
def openTaskDb : EventDb := sampleDb [sampleTask (.str "t") "T" "high"]

/-- The same project after the task was completed. -/
def completedTaskDb : EventDb :=
  sampleDb [sampleTask (.str "t") "T" "high", sampleCompletion (.str "t")]

/-- One open task is displayed as it is stored. -/
theorem fastPath_sameContent_openTask :
    ∃ r P, buildProjection (.rejected .notFound) openTaskDb openTaskDb .zero "now" = .ok r ∧
      compileSnapshot r.head (openTaskDb.getProjectStream .zero 0)
        (openTaskDb.getLatestSequence .zero) = .ok P ∧
      ∃ r', buildProjection (.accepted P) openTaskDb openTaskDb .zero "later" = .ok r' ∧
        r'.mode = .fastPath ∧ r'.head.SameContent r.head := by
  refine ⟨_, _, rfl, rfl, ?_⟩
  refine (@fastPath_sameContent_iff (.rejected .notFound) openTaskDb .zero "now" _ _
    rfl rfl rfl "later").mpr ⟨_, rfl, ?_⟩
  constructor <;> decide

/-- A completed task is shown again by the fast path. -/
theorem fastPath_shows_completedTask :
    ∃ r P, buildProjection (.rejected .notFound) completedTaskDb completedTaskDb .zero "now" =
        .ok r ∧ r.mode = .full ∧
      compileSnapshot r.head (completedTaskDb.getProjectStream .zero 0)
        (completedTaskDb.getLatestSequence .zero) = .ok P ∧
      ∃ r', buildProjection (.accepted P) completedTaskDb completedTaskDb .zero "later" = .ok r' ∧
        r'.mode = .fastPath ∧ ¬ r'.head.SameContent r.head := by
  refine ⟨_, _, rfl, rfl, rfl, _, rfl, rfl, ?_⟩
  intro hsame
  have htasks := congrArg (fun head => head.activeTasks.length) hsame
  exact Nat.one_ne_zero htasks

end ReplayEngine

end RationaleVault
