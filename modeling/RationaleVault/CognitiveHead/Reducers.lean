import RationaleVault.Schema.Events

/-!
# State reducers

Four folds over an event stream. A payload value is stored as it came, so
every state field is a JSON value; a reducer raises only where the code
subscripts, hashes, iterates or assigns something of the wrong kind. Unknown
event types and events without an id are skipped.
-/

namespace RationaleVault

/-! ## State -/

/-- Compiled state from `PROJECT_*` events. -/
structure ProjectState where
  name : Json
  goal : Json
  currentFocus : Json
  createdAt : Json
  createdBy : Json
  deriving DecidableEq

/-- Compiled state of one task. -/
structure TaskState where
  taskId : Json
  title : Json
  description : Json
  status : Json
  assignee : Json
  priority : Json
  tags : Json
  blockedBy : Json
  createdAt : Json
  updatedAt : Json
  completedAt : Json
  createdBy : Json
  progressNotes : Json
  relatedKnowledgeIds : Json
  deriving DecidableEq

/-- Compiled state of one decision. -/
structure DecisionState where
  decisionId : Json
  title : Json
  description : Json
  status : Json
  rationale : Json
  context : Json
  category : Json
  supersededBy : Json
  createdAt : Json
  acceptedAt : Json
  createdBy : Json
  deriving DecidableEq

/-- Compiled state of one question. -/
structure QuestionState where
  questionId : Json
  title : Json
  description : Json
  status : Json
  priority : Json
  resolution : Json
  blocksTaskIds : Json
  raisedAt : Json
  resolvedAt : Json
  raisedBy : Json
  deriving DecidableEq

/-- `ProjectState()`. -/
def ProjectState.initial : ProjectState where
  name := .str ""
  goal := .str ""
  currentFocus := .str ""
  createdAt := .null
  createdBy := .str ""

abbrev TaskDict := OrdDict Atom TaskState
abbrev DecisionDict := OrdDict Atom DecisionState
abbrev QuestionDict := OrdDict Atom QuestionState

/-! ## Attribute assignment -/

/-- The fields of `TaskState` that a `TASK_MUTATED` payload can name; `task_id` is skipped. -/
inductive TaskField
  | title | description | status | assignee | priority | tags | blockedBy
  | createdAt | updatedAt | completedAt | createdBy | progressNotes | relatedKnowledgeIds
  deriving DecidableEq

namespace TaskField

/-- Attribute name of the field. -/
def name : TaskField → String
  | title => "title"
  | description => "description"
  | status => "status"
  | assignee => "assignee"
  | priority => "priority"
  | tags => "tags"
  | blockedBy => "blocked_by"
  | createdAt => "created_at"
  | updatedAt => "updated_at"
  | completedAt => "completed_at"
  | createdBy => "created_by"
  | progressNotes => "progress_notes"
  | relatedKnowledgeIds => "related_knowledge_ids"

def all : List TaskField :=
  [title, description, status, assignee, priority, tags, blockedBy, createdAt, updatedAt,
    completedAt, createdBy, progressNotes, relatedKnowledgeIds]

def ofName? (k : String) : Option TaskField := all.find? fun f => f.name == k

/-- The fields declared as lists. -/
def isList : TaskField → Bool
  | tags | blockedBy | progressNotes | relatedKnowledgeIds => true
  | _ => false

end TaskField

namespace TaskState

def getField (t : TaskState) : TaskField → Json
  | .title => t.title
  | .description => t.description
  | .status => t.status
  | .assignee => t.assignee
  | .priority => t.priority
  | .tags => t.tags
  | .blockedBy => t.blockedBy
  | .createdAt => t.createdAt
  | .updatedAt => t.updatedAt
  | .completedAt => t.completedAt
  | .createdBy => t.createdBy
  | .progressNotes => t.progressNotes
  | .relatedKnowledgeIds => t.relatedKnowledgeIds

def setField (t : TaskState) (f : TaskField) (v : Json) : TaskState :=
  match f with
  | .title => { t with title := v }
  | .description => { t with description := v }
  | .status => { t with status := v }
  | .assignee => { t with assignee := v }
  | .priority => { t with priority := v }
  | .tags => { t with tags := v }
  | .blockedBy => { t with blockedBy := v }
  | .createdAt => { t with createdAt := v }
  | .updatedAt => { t with updatedAt := v }
  | .completedAt => { t with completedAt := v }
  | .createdBy => { t with createdBy := v }
  | .progressNotes => { t with progressNotes := v }
  | .relatedKnowledgeIds => { t with relatedKnowledgeIds := v }

@[simp] theorem taskId_setField (t : TaskState) (f : TaskField) (v : Json) :
    (t.setField f v).taskId = t.taskId := by
  cases f <;> rfl

theorem getField_setField (t : TaskState) (f g : TaskField) (v : Json) :
    (t.setField f v).getField g = if f = g then v else t.getField g := by
  cases f <;> cases g <;> rfl

/-- `if hasattr(t, k): setattr(t, k, v)`. Besides the fields every object has the attributes
of `object`. Three of those reject the assignment of a JSON value: `__class__` and
`__weakref__` always, `__dict__` unless the value is a dict (swapping the whole attribute
dictionary is not a field update and is counted as a failure too). The others are plain
instance attributes that no field reads. -/
def setattr (t : TaskState) (k : String) (v : Json) : Except Exc TaskState :=
  match TaskField.ofName? k with
  | some f => .ok (t.setField f v)
  | none =>
      if k = "__class__" then .error .typeError
      else if k = "__weakref__" then .error (.attributeError k)
      else if k = "__dict__" then .error .typeError
      else .ok t

/-- The loop over `p.items()` of a `TASK_MUTATED` payload. -/
def setattrs (t : TaskState) (p : JsonObj) : Except Exc TaskState :=
  p.foldlM (fun t kv => if kv.1 = "task_id" then .ok t else t.setattr kv.1 kv.2) t

end TaskState

/-! ## Folding by id

The task, decision and question reducers share one loop body: read the id from
the payload, skip the event when the id is missing, and either store a new item
under the id or change the item already stored there. -/

/-- What an event asks of a keyed state. -/
inductive KeyedAction (ν : Type)
  | skip
  | create (item : Except Exc ν)
  | update (change : ν → Except Exc ν)

section Keyed

variable {ν : Type}

/-- One loop iteration. An update of an unknown id is skipped; the id of a list or a dict
cannot be looked up at all. -/
def keyedStep (items : OrdDict Atom ν) (id : Json) : KeyedAction ν →
    Except Exc (OrdDict Atom ν)
  | .skip => .ok items
  | .create item =>
      if id.truthy then do
        let x ← item
        let k ← id.hash
        return items.set k x
      else .ok items
  | .update change =>
      if id.truthy then do
        let k ← id.hash
        match items.get? k with
        | none => return items
        | some x => do
            let x' ← change x
            return items.set k x'
      else .ok items

end Keyed

/-! ## Reducers -/

namespace ProjectReducer

def step (state : ProjectState) (event : EventRecord) : ProjectState :=
  let p := event.payload
  match event.eventType with
  | .projectCreated =>
      { state with
        name := p.getD "name" (.str "")
        createdAt := event.recordedIso
        createdBy := .str event.metadata.actor }
  | .projectGoalSet => { state with goal := p.getD "goal" (.str "") }
  | .projectFocusChanged => { state with currentFocus := p.getD "focus" (.str "") }
  | _ => state

/-- `ProjectReducer.reduce(events, initial_state)`. -/
def reduce (initialState : ProjectState) (events : List EventRecord) : ProjectState :=
  events.foldl step initialState

end ProjectReducer

namespace TaskReducer

/-- The task a `TASK_CREATED` event describes. -/
def created (event : EventRecord) : Except Exc TaskState := do
  let p := event.payload
  let details ← JsonObj.getItem p "details"
  let title ← details.getItem "summary"
  let description ← details.getItem "body"
  let tags ← (p.getD "tags" (.arr [])).toList
  let blockedBy ← (p.getD "blocked_by" (.arr [])).toList
  return {
    taskId := p.get "task_id"
    title := title
    description := description
    status := .str "open"
    assignee := p.get "assignee"
    priority := p.getD "priority" (.str "normal")
    tags := .arr tags
    blockedBy := .arr blockedBy
    createdAt := event.recordedIso
    updatedAt := .null
    completedAt := .null
    createdBy := .str event.metadata.actor
    progressNotes := .arr []
    relatedKnowledgeIds := .arr [] }

/-- `TASK_MUTATED`: assign every payload member that names an attribute. -/
def mutate (event : EventRecord) (t : TaskState) : Except Exc TaskState := do
  let t ← t.setattrs event.payload
  return { t with updatedAt := event.recordedIso }

/-- `TASK_COMPLETED`. -/
def complete (event : EventRecord) (t : TaskState) : TaskState :=
  { t with status := .str "completed", completedAt := event.recordedIso }

/-- The entry `TASK_PROGRESS_NOTED` appends. -/
def progressNote (event : EventRecord) : Json :=
  .obj [("note", event.payload.getD "note" (.str "")),
    ("timestamp", event.recordedIso),
    ("actor", .str event.metadata.actor),
    ("source_event_seq", .int event.eventSequence)]

/-- `t.progress_notes.append(entry)`; only a list has `append`. -/
def noteProgress (event : EventRecord) (t : TaskState) : Except Exc TaskState :=
  match t.progressNotes with
  | .arr notes => .ok { t with progressNotes := .arr (notes ++ [progressNote event]) }
  | _ => .error (.attributeError "append")

def action (event : EventRecord) : KeyedAction TaskState :=
  match event.eventType with
  | .taskCreated => .create (created event)
  | .taskMutated => .update (mutate event)
  | .taskCompleted => .update fun t => .ok (complete event t)
  | .taskProgressNoted => .update (noteProgress event)
  | _ => .skip

def step (tasks : TaskDict) (event : EventRecord) : Except Exc TaskDict :=
  keyedStep tasks (event.payload.get "task_id") (action event)

/-- `TaskReducer.reduce(events, initial_state)`. -/
def reduce (initialState : TaskDict) (events : List EventRecord) : Except Exc TaskDict :=
  events.foldlM step initialState

end TaskReducer

namespace DecisionReducer

/-- The decision a `DECISION_PROPOSED` event describes. -/
def proposed (event : EventRecord) : DecisionState :=
  let p := event.payload
  { decisionId := p.get "decision_id"
    title := p.getD "title" (.str "")
    description := p.getD "description" (.str "")
    status := .str "proposed"
    rationale := p.getD "rationale" (.str "")
    context := p.getD "context" (.str "")
    category := p.getD "category" (.str "general")
    supersededBy := .null
    createdAt := event.recordedIso
    acceptedAt := .null
    createdBy := .str event.metadata.actor }

/-- `DECISION_ACCEPTED`. -/
def accept (event : EventRecord) (d : DecisionState) : DecisionState :=
  { d with status := .str "accepted", acceptedAt := event.recordedIso }

/-- `DECISION_SUPERSEDED`. -/
def supersede (event : EventRecord) (d : DecisionState) : DecisionState :=
  { d with status := .str "superseded", supersededBy := event.payload.get "superseded_by" }

def action (event : EventRecord) : KeyedAction DecisionState :=
  match event.eventType with
  | .decisionProposed => .create (.ok (proposed event))
  | .decisionAccepted => .update fun d => .ok (accept event d)
  | .decisionSuperseded => .update fun d => .ok (supersede event d)
  | _ => .skip

def step (decisions : DecisionDict) (event : EventRecord) : Except Exc DecisionDict :=
  keyedStep decisions (event.payload.get "decision_id") (action event)

/-- `DecisionReducer.reduce(events, initial_state)`. -/
def reduce (initialState : DecisionDict) (events : List EventRecord) : Except Exc DecisionDict :=
  events.foldlM step initialState

end DecisionReducer

namespace QuestionReducer

/-- The question an `OPEN_QUESTION_RAISED` event describes. -/
def raised (event : EventRecord) : Except Exc QuestionState := do
  let p := event.payload
  let blocks ← (p.getD "blocks_task_ids" (.arr [])).toList
  return {
    questionId := p.get "question_id"
    title := p.getD "title" (.str "")
    description := p.getD "description" (.str "")
    status := .str "open"
    priority := p.getD "priority" (.str "normal")
    resolution := .null
    blocksTaskIds := .arr blocks
    raisedAt := event.recordedIso
    resolvedAt := .null
    raisedBy := .str event.metadata.actor }

/-- `OPEN_QUESTION_RESOLVED`. -/
def resolve (event : EventRecord) (q : QuestionState) : QuestionState :=
  { q with
    status := .str "resolved"
    resolution := event.payload.getD "resolution" (.str "")
    resolvedAt := event.recordedIso }

def action (event : EventRecord) : KeyedAction QuestionState :=
  match event.eventType with
  | .openQuestionRaised => .create (raised event)
  | .openQuestionResolved => .update fun q => .ok (resolve event q)
  | _ => .skip

def step (questions : QuestionDict) (event : EventRecord) : Except Exc QuestionDict :=
  keyedStep questions (event.payload.get "question_id") (action event)

/-- `QuestionReducer.reduce(events, initial_state)`. -/
def reduce (initialState : QuestionDict) (events : List EventRecord) : Except Exc QuestionDict :=
  events.foldlM step initialState

end QuestionReducer

/-! ## The four reducers together -/

/-- The complete reducer state. -/
structure ReducerState where
  project : ProjectState
  tasks : TaskDict
  decisions : DecisionDict
  questions : QuestionDict
  deriving DecidableEq

namespace ReducerState

/-- The state before any event. -/
def initial : ReducerState where
  project := .initial
  tasks := .empty
  decisions := .empty
  questions := .empty

/-- Run the four reducers over the same events, one after another. -/
def reduce (s : ReducerState) (events : List EventRecord) : Except Exc ReducerState := do
  let project := ProjectReducer.reduce s.project events
  let tasks ← TaskReducer.reduce s.tasks events
  let decisions ← DecisionReducer.reduce s.decisions events
  let questions ← QuestionReducer.reduce s.questions events
  return { project, tasks, decisions, questions }

end ReducerState

end RationaleVault
