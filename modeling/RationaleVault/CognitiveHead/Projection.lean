import RationaleVault.CognitiveHead.SnapshotPayload

/-!
# The cognitive head projection

The projection platform's version of the compiler. Its state is the head
itself: a delta replay rebuilds reducer states from the active items the head
shows. The head is stored as a dictionary, and read back from that dictionary
or from the dictionary of a snapshot payload.
-/

namespace RationaleVault

namespace CognitiveHeadProjection

/-! ## Reducer states of a head -/

/-- `result[x.id] = x` for every item in turn. -/
def itemsById {α : Type} (id : α → Json) (items : List α) : Except Exc (OrdDict Atom α) :=
  items.foldlM (fun result x => do return result.set (← (id x).hash) x) .empty

/-- `_head_to_project_state(head)`. -/
def headToProjectState (head : CognitiveHead) : ProjectState :=
  { ProjectState.initial with
    name := head.projectName
    goal := head.projectGoal
    currentFocus := head.currentFocus }

/-- `_head_to_tasks_dict(head)`. -/
def headToTasksDict (head : CognitiveHead) : Except Exc TaskDict :=
  itemsById TaskState.taskId head.activeTasks

/-- `_head_to_decisions_dict(head)`. -/
def headToDecisionsDict (head : CognitiveHead) : Except Exc DecisionDict :=
  itemsById DecisionState.decisionId head.activeDecisions

/-- `_head_to_questions_dict(head)`. -/
def headToQuestionsDict (head : CognitiveHead) : Except Exc QuestionDict :=
  itemsById QuestionState.questionId head.openQuestions

/-- The reducer states a delta replay starts from. -/
def stateOfHead (head : CognitiveHead) : Except Exc ReducerState := do
  let tasks ← headToTasksDict head
  let decisions ← headToDecisionsDict head
  let questions ← headToQuestionsDict head
  return { project := headToProjectState head, tasks, decisions, questions }

/-! ## Reduction -/

/-- The message of the projection's bootstrap check. -/
def bootstrapMessage : Option EventType → String
  | none => "No events provided and no initial state. " ++
      "A project stream must begin with: " ++
      "PROJECT_CREATED → PROJECT_GOAL_SET → " ++
      "PROJECT_FOCUS_CHANGED."
  | some t => "Stream is missing required bootstrap event: " ++
      t.value ++ ". Every project stream must " ++
      "begin with: PROJECT_CREATED → PROJECT_GOAL_SET → " ++
      "PROJECT_FOCUS_CHANGED."

/-- `events[0].project_id if events else UUID(int=0)`. -/
def projectIdOf (events : List EventRecord) : UUID :=
  (events.head?.map EventRecord.projectId).getD .zero

/-- `reduce(events, initial_state)`. -/
def reduce (events : List EventRecord) (initialState : Option CognitiveHead) :
    Except Exc CognitiveHead :=
  match initialState with
  | some head =>
      if events = [] then .ok head
      else do
        let s ← stateOfHead head
        let s ← s.reduce events
        buildHead (projectIdOf events) "" s events
  | none => do
      checkBootstrap bootstrapMessage events
      let s ← ReducerState.initial.reduce events
      buildHead (projectIdOf events) "" s events

/-! ## Serialization -/

/-- `serialize(state)`. -/
def serialize (state : CognitiveHead) : SnapshotDict where
  sequence := none
  schemaVersion := none
  projectionVersion := none
  snapshotHash := none
  projectId := some state.projectId.str
  projectName := some state.projectName
  projectGoal := some state.projectGoal
  currentFocus := some state.currentFocus
  ledgerVersion := some state.ledgerVersion
  compiledAt := some state.compiledAt
  tasks := none
  decisions := none
  questions := none
  blockers := some state.blockers
  activeTasks := some (state.activeTasks.map TaskState.toDict)
  activeDecisions := some (state.activeDecisions.map DecisionState.toDict)
  openQuestions := some (state.openQuestions.map QuestionState.toDict)

/-- Rebuild a task; `taskId` stands for an absent id. -/
def taskOfDict (taskId : Json) (d : JsonObj) : Except Exc TaskState :=
  TaskState.ofDict (.ok (d.getD "task_id" taskId)) (.ok (d.getD "title" (.str "")))
    Json.copyList d

def decisionOfDict (decisionId : Json) (d : JsonObj) : Except Exc DecisionState :=
  DecisionState.ofDict (.ok (d.getD "decision_id" decisionId)) (.ok (d.getD "title" (.str ""))) d

def questionOfDict (questionId : Json) (d : JsonObj) : Except Exc QuestionState :=
  QuestionState.ofDict (.ok (d.getD "question_id" questionId)) (.ok (d.getD "title" (.str "")))
    Json.copyList d

/-- The head with the dictionary's project fields and blockers and the given items. -/
def headOfDict (d : SnapshotDict) (tasks : List TaskState) (decisions : List DecisionState)
    (questions : List QuestionState) : Except Exc CognitiveHead := do
  let projectId ← match d.projectId with
    | none => .ok UUID.zero
    | some s => UUID.parse s
  return {
    projectId := projectId
    projectName := d.projectName.getD (.str "")
    projectGoal := d.projectGoal.getD (.str "")
    currentFocus := d.currentFocus.getD (.str "")
    ledgerVersion := d.ledgerVersion.getD 0
    compiledAt := d.compiledAt.getD ""
    activeTasks := tasks
    activeDecisions := decisions
    openQuestions := questions
    blockers := d.blockers.getD [] }

/-- `_payload_dict_to_head(d)`: every stored item, under its key where it has no id. -/
def payloadDictToHead (d : SnapshotDict) : Except Exc CognitiveHead := do
  let tasks ← (d.tasks.getD .empty).entries.mapM fun e => taskOfDict (.atom e.1) e.2
  let decisions ← (d.decisions.getD .empty).entries.mapM fun e => decisionOfDict (.atom e.1) e.2
  let questions ← (d.questions.getD .empty).entries.mapM fun e => questionOfDict (.atom e.1) e.2
  headOfDict d tasks decisions questions

/-- `_serialized_dict_to_head(d)`. -/
def serializedDictToHead (d : SnapshotDict) : Except Exc CognitiveHead := do
  let tasks ← (d.activeTasks.getD []).mapM (taskOfDict (.str ""))
  let decisions ← (d.activeDecisions.getD []).mapM (decisionOfDict (.str ""))
  let questions ← (d.openQuestions.getD []).mapM (questionOfDict (.str ""))
  headOfDict d tasks decisions questions

/-- `deserialize(payload)`: a dictionary with `tasks` is that of a snapshot payload. -/
def deserialize (payload : SnapshotDict) : Except Exc CognitiveHead :=
  match payload.tasks with
  | some _ => payloadDictToHead payload
  | none => serializedDictToHead payload

end CognitiveHeadProjection

end RationaleVault
