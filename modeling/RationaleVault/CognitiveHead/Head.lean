import RationaleVault.CognitiveHead.Reducers
import RationaleVault.Library.Fold

/-!
# The cognitive head and its assembly

The head is a view of the reducer state: unfinished tasks and open questions
sorted by priority, accepted decisions, and the tasks that open questions
block. The same assembly is used by every replay path of the engine and by
the projection.
-/

namespace RationaleVault

/-- One entry of the head's blocker list. -/
structure Blocker where
  taskId : Json
  taskTitle : Json
  blockedByQuestions : List Json
  deriving DecidableEq

/-- The compiled current state of a project. -/
structure CognitiveHead where
  projectId : UUID
  projectName : Json
  projectGoal : Json
  currentFocus : Json
  ledgerVersion : Int
  compiledAt : String
  activeTasks : List TaskState
  activeDecisions : List DecisionState
  openQuestions : List QuestionState
  blockers : List Blocker
  deriving DecidableEq

namespace CognitiveHead

/-- The head without the wall-clock field. -/
def content (h : CognitiveHead) : CognitiveHead := { h with compiledAt := "" }

/-- Equality in every field except `compiled_at`. -/
def SameContent (h h' : CognitiveHead) : Prop := h.content = h'.content

instance (h h' : CognitiveHead) : Decidable (SameContent h h') :=
  inferInstanceAs (Decidable (h.content = h'.content))

end CognitiveHead

/-! ## Priorities -/

/-- `_PRIORITY_ORDER.get(priority, 2)` for a hashable priority. -/
def priorityRank : Json → Nat
  | .str "critical" => 0
  | .str "high" => 1
  | .str "normal" => 2
  | .str "low" => 3
  | _ => 2

/-- `items.sort(key=lambda x: _PRIORITY_ORDER.get(x.priority, 2))`: a stable sort that first
computes every key, so one unhashable priority makes it raise. -/
def sortByPriority {α : Type} (priority : α → Json) (items : List α) : Except Exc (List α) :=
  if items.all fun x => (priority x).hashable then
    .ok (items.insertionSort fun x y => priorityRank (priority x) ≤ priorityRank (priority y))
  else .error .typeError

theorem sortByPriority_eq_ok_iff {α : Type} {priority : α → Json} {items sorted : List α} :
    sortByPriority priority items = .ok sorted ↔
      (∀ x ∈ items, (priority x).hashable = true) ∧
      items.insertionSort (fun x y => priorityRank (priority x) ≤ priorityRank (priority y)) =
        sorted := by
  unfold sortByPriority
  split_ifs with h
  · simp only [List.all_eq_true] at h
    rw [Except.ok.injEq]
    exact (and_iff_right h).symm
  · simp only [List.all_eq_true] at h
    simp [h]

/-- Filtering and sorting by rank change nothing exactly when all items are kept and they are
in order already. -/
theorem insertionSort_filter_eq_self_iff {α : Type} (rank : α → Nat) (p : α → Bool)
    (l : List α) :
    (l.filter p).insertionSort (fun x y => rank x ≤ rank y) = l ↔
      (∀ x ∈ l, p x = true) ∧ l.Pairwise fun x y => rank x ≤ rank y := by
  have : Std.Total fun x y : α => rank x ≤ rank y := ⟨fun x y => Nat.le_total (rank x) (rank y)⟩
  have : IsTrans α fun x y : α => rank x ≤ rank y := ⟨fun _ _ _ => Nat.le_trans⟩
  constructor
  · intro h
    have hlen : (l.filter p).length = l.length :=
      (List.length_insertionSort _ _).symm.trans (congrArg List.length h)
    have hfilter : l.filter p = l := List.filter_sublist.eq_of_length hlen
    refine ⟨List.filter_eq_self.mp hfilter, ?_⟩
    rw [← h]
    exact List.pairwise_insertionSort _ _
  · rintro ⟨hall, hsorted⟩
    rw [List.filter_eq_self.mpr hall]
    exact hsorted.insertionSort_eq

/-! ## Blockers -/

/-- A dict from task ids to sets of question ids. -/
abbrev BlockerMap := OrdDict Atom (OrdDict Atom Unit)

/-- `blocker_map.setdefault(tid, set()).add(qid)`. -/
def BlockerMap.add (m : BlockerMap) (tid qid : Atom) : BlockerMap :=
  m.set tid (((m.get? tid).getD .empty).set qid ())

/-- `{q.question_id for q in open_questions}`. -/
def questionIds (openQuestions : List QuestionState) : Except Exc (OrdDict Atom Unit) :=
  openQuestions.foldlM (fun ids q => do return ids.set (← q.questionId.hash) ()) .empty

/-- The questions a task says it is blocked by, as far as they are open. -/
def blockersOfTask (openIds : OrdDict Atom Unit) (m : BlockerMap) (task : TaskState) :
    Except Exc BlockerMap := do
  let qids ← task.blockedBy.toList
  qids.foldlM (fun m qid => do
    let q ← qid.hash
    if openIds.contains q then return m.add (← task.taskId.hash) q else return m) m

/-- The known tasks an open question says it blocks. -/
def blockersOfQuestion (allTasks : TaskDict) (m : BlockerMap) (q : QuestionState) :
    Except Exc BlockerMap := do
  let tids ← q.blocksTaskIds.toList
  tids.foldlM (fun m tid => do
    let t ← tid.hash
    if allTasks.contains t then return m.add t (← q.questionId.hash) else return m) m

/-- The two loops that fill the blocker map. -/
def blockerMap (allTasks : TaskDict) (activeTasks : List TaskState)
    (openQuestions : List QuestionState) : Except Exc BlockerMap := do
  let openIds ← questionIds openQuestions
  let m ← activeTasks.foldlM (blockersOfTask openIds) .empty
  openQuestions.foldlM (blockersOfQuestion allTasks) m

/-- Blocker entries for the tasks that are known, with the question ids sorted. -/
def blockerEntries (allTasks : TaskDict) : List (Atom × OrdDict Atom Unit) →
    Except Exc (List Blocker)
  | [] => .ok []
  | (tid, qids) :: rest =>
      match allTasks.get? tid with
      | none => blockerEntries allTasks rest
      | some t => do
          let ids ← Atom.sorted qids.keys
          let entries ← blockerEntries allTasks rest
          return { taskId := .atom tid, taskTitle := t.title,
                   blockedByQuestions := ids.map Json.atom } :: entries

/-! ## Assembly -/

/-- `[t for t in tasks.values() if t.status != "completed"]`. -/
def activeTasksOf (tasks : TaskDict) : List TaskState :=
  tasks.values.filter fun t => t.status ≠ .str "completed"

/-- `[d for d in decisions.values() if d.status == "accepted"]`. -/
def activeDecisionsOf (decisions : DecisionDict) : List DecisionState :=
  decisions.values.filter fun d => d.status = .str "accepted"

/-- `[q for q in questions.values() if q.status == "open"]`. -/
def openQuestionsOf (questions : QuestionDict) : List QuestionState :=
  questions.values.filter fun q => q.status = .str "open"

/-- Assemble the head from the reducer state; `events` are the events replayed. -/
def buildHead (projectId : UUID) (compiledAt : String) (s : ReducerState)
    (events : List EventRecord) : Except Exc CognitiveHead := do
  let openQuestions ← sortByPriority QuestionState.priority (openQuestionsOf s.questions)
  let activeTasks ← sortByPriority TaskState.priority (activeTasksOf s.tasks)
  let m ← blockerMap s.tasks activeTasks openQuestions
  let blockers ← blockerEntries s.tasks m.entries
  return {
    projectId := projectId
    projectName := s.project.name
    projectGoal := s.project.goal
    currentFocus := s.project.currentFocus
    ledgerVersion := maxVersion events
    compiledAt := compiledAt
    activeTasks := activeTasks
    activeDecisions := activeDecisionsOf s.decisions
    openQuestions := openQuestions
    blockers := blockers }

/-- The three lists of an assembled head. -/
theorem buildHead_lists {p : UUID} {now : String} {s : ReducerState} {events : List EventRecord}
    {head : CognitiveHead} (h : buildHead p now s events = .ok head) :
    head.openQuestions = (openQuestionsOf s.questions).insertionSort (fun q q' =>
      priorityRank q.priority ≤ priorityRank q'.priority) ∧
    head.activeTasks = (activeTasksOf s.tasks).insertionSort (fun t t' =>
      priorityRank t.priority ≤ priorityRank t'.priority) ∧
    head.activeDecisions = activeDecisionsOf s.decisions := by
  simp only [buildHead, Except.bind_eq_ok_iff, Except.pure_eq_ok_iff] at h
  obtain ⟨qs, hq, ts, ht, m, _, bs, _, rfl⟩ := h
  exact ⟨(sortByPriority_eq_ok_iff.mp hq).2.symm, (sortByPriority_eq_ok_iff.mp ht).2.symm, rfl⟩

/-- The project fields a head shows. -/
def ProjectState.shown (s : ProjectState) : Json × Json × Json := (s.name, s.goal, s.currentFocus)

/-- The shown fields after a stream depend only on the shown fields before it. -/
theorem ProjectReducer.shown_reduce {s s' : ProjectState} (events : List EventRecord)
    (h : s.shown = s'.shown) : (reduce s events).shown = (reduce s' events).shown := by
  induction events generalizing s s' with
  | nil => exact h
  | cons e rest ih =>
      apply ih
      simp only [ProjectState.shown, Prod.mk.injEq] at h
      obtain ⟨h₁, h₂, h₃⟩ := h
      unfold step
      split <;> simp [ProjectState.shown, h₁, h₂, h₃]

/-- States that differ in project fields no head shows and in the spelling of keys only. -/
structure ReducerState.Alike (s s' : ReducerState) : Prop where
  project : s.project.shown = s'.project.shown
  tasks : s.tasks.normEntries = s'.tasks.normEntries
  decisions : s.decisions.normEntries = s'.decisions.normEntries
  questions : s.questions.normEntries = s'.questions.normEntries

theorem blockerMap_congr {d d' : TaskDict} (h : d.normEntries = d'.normEntries)
    (tasks : List TaskState) (questions : List QuestionState) :
    blockerMap d tasks questions = blockerMap d' tasks questions := by
  have hquestion : blockersOfQuestion d = blockersOfQuestion d' := by
    funext m q
    simp only [blockersOfQuestion, OrdDict.contains_eq_of_normEntries h]
  simp only [blockerMap, hquestion]

theorem blockerEntries_congr {d d' : TaskDict} (h : d.normEntries = d'.normEntries)
    (entries : List (Atom × OrdDict Atom Unit)) :
    blockerEntries d entries = blockerEntries d' entries := by
  induction entries with
  | nil => rfl
  | cons e rest ih => simp only [blockerEntries, OrdDict.get?_eq_of_normEntries h, ih]

/-- Alike states have the same head. -/
theorem buildHead_congr {p : UUID} {now : String} {s s' : ReducerState}
    {events events' : List EventRecord} (h : s.Alike s')
    (hversion : maxVersion events = maxVersion events') :
    buildHead p now s events = buildHead p now s' events' := by
  obtain ⟨h₁, h₂, h₃⟩ : s.project.name = s'.project.name ∧ s.project.goal = s'.project.goal ∧
      s.project.currentFocus = s'.project.currentFocus := by
    simpa [ProjectState.shown] using h.project
  have ht : activeTasksOf s.tasks = activeTasksOf s'.tasks := by
    simp only [activeTasksOf, OrdDict.values_eq_map_normEntries, h.tasks]
  have hd : activeDecisionsOf s.decisions = activeDecisionsOf s'.decisions := by
    simp only [activeDecisionsOf, OrdDict.values_eq_map_normEntries, h.decisions]
  have hq : openQuestionsOf s.questions = openQuestionsOf s'.questions := by
    simp only [openQuestionsOf, OrdDict.values_eq_map_normEntries, h.questions]
  simp only [buildHead, h₁, h₂, h₃, ht, hd, hq, hversion, blockerMap_congr h.tasks,
    blockerEntries_congr h.tasks]

/-- What is known of a head's project fields and version. -/
theorem buildHead_fields {p : UUID} {now : String} {s : ReducerState} {events : List EventRecord}
    {head : CognitiveHead} (h : buildHead p now s events = .ok head) :
    head.projectId = p ∧ (head.projectName, head.projectGoal, head.currentFocus) =
      s.project.shown ∧ head.compiledAt = now ∧ head.ledgerVersion = maxVersion events := by
  simp only [buildHead, Except.bind_eq_ok_iff, Except.pure_eq_ok_iff] at h
  obtain ⟨_, _, _, _, _, _, _, _, rfl⟩ := h
  exact ⟨rfl, rfl, rfl, rfl⟩

/-- A state that has a head has one for every project id, clock and event list. -/
theorem buildHead_of_ok {p : UUID} {now : String} {s : ReducerState} {events : List EventRecord}
    {head : CognitiveHead} (h : buildHead p now s events = .ok head) (p' : UUID) (now' : String)
    (events' : List EventRecord) :
    buildHead p' now' s events' = .ok { head with
      projectId := p', compiledAt := now', ledgerVersion := maxVersion events' } := by
  simp only [buildHead, Except.bind_eq_ok_iff, Except.pure_eq_ok_iff] at h
  obtain ⟨qs, hq, ts, ht, m, hm, bs, hb, rfl⟩ := h
  rw [buildHead, hq, ht, Except.ok_bind_eq, Except.ok_bind_eq, hm, Except.ok_bind_eq, hb]
  rfl

/-- Only `compiled_at` depends on the clock. -/
theorem buildHead_content (p : UUID) (now now' : String) (s : ReducerState)
    (events : List EventRecord) :
    (buildHead p now s events).map CognitiveHead.content =
      (buildHead p now' s events).map CognitiveHead.content := by
  simp only [buildHead]
  cases sortByPriority QuestionState.priority (openQuestionsOf s.questions) with
  | error e => rfl
  | ok qs =>
      cases sortByPriority TaskState.priority (activeTasksOf s.tasks) with
      | error e => rfl
      | ok ts =>
          simp only [Except.ok_bind_eq]
          cases blockerMap s.tasks ts qs with
          | error e => rfl
          | ok m =>
              simp only [Except.ok_bind_eq]
              cases blockerEntries s.tasks m.entries <;> rfl

/-- The message of the bootstrap check of the replay engine. -/
def bootstrapMessage (projectId : UUID) (missing : Option EventType) : String :=
  match missing with
  | none => "No events found for project " ++ projectId.str ++ ". " ++
      "A project stream must begin with: " ++
      "PROJECT_CREATED → PROJECT_GOAL_SET → PROJECT_FOCUS_CHANGED."
  | some t => "Project " ++ projectId.str ++ " stream is missing required " ++
      "bootstrap event: " ++ t.value ++ ". " ++
      "Every project stream must begin with: " ++
      "PROJECT_CREATED → PROJECT_GOAL_SET → PROJECT_FOCUS_CHANGED."

/-- A full replay needs events, and every bootstrap type among them; the first missing type is
reported through `message`. -/
def checkBootstrap (message : Option EventType → String) (events : List EventRecord) :
    Except Exc Unit :=
  if events = [] then .error (.missingProjectBootstrap (message none))
  else match bootstrapTypes.find? fun t => t ∉ events.map EventRecord.eventType with
    | some t => .error (.missingProjectBootstrap (message (some t)))
    | none => .ok ()

theorem checkBootstrap_eq_ok_iff {message : Option EventType → String}
    {events : List EventRecord} :
    checkBootstrap message events = .ok () ↔ HasBootstrap events := by
  unfold checkBootstrap HasBootstrap
  split_ifs with hnil
  · subst hnil
    exact ⟨fun h => by simp at h, fun h => absurd (h .projectCreated (by simp [bootstrapTypes]))
      (by simp)⟩
  · split
    · rename_i t ht
      have hmem := List.mem_of_find?_eq_some ht
      have hnot := List.find?_some ht
      simp only [decide_eq_true_eq] at hnot
      exact ⟨fun h => by simp at h, fun h => absurd (h t hmem) hnot⟩
    · rename_i hnone
      simp only [List.find?_eq_none, decide_eq_true_eq, Decidable.not_not] at hnone
      exact ⟨fun _ => hnone, fun _ => rfl⟩

end RationaleVault
