import RationaleVault.CognitiveHead.Head
import RationaleVault.Library.JsonText
import RationaleVault.Library.Sha256

/-!
# Snapshot payloads

A snapshot payload stores the complete reducer state as dictionaries of plain
dictionaries, next to the head's project fields and blockers. The dictionary a
payload is converted to is kept as a record of optional members, because the
decoders fill in a default for every member that is absent.
-/

namespace RationaleVault

/-! ## Item dictionaries -/

/-- All fields of a task, in declaration order. -/
def TaskState.toDict (t : TaskState) : JsonObj :=
  [("task_id", t.taskId), ("title", t.title), ("description", t.description),
    ("status", t.status), ("assignee", t.assignee), ("priority", t.priority),
    ("tags", t.tags), ("blocked_by", t.blockedBy), ("created_at", t.createdAt),
    ("updated_at", t.updatedAt), ("completed_at", t.completedAt),
    ("created_by", t.createdBy), ("progress_notes", t.progressNotes),
    ("related_knowledge_ids", t.relatedKnowledgeIds)]

def DecisionState.toDict (d : DecisionState) : JsonObj :=
  [("decision_id", d.decisionId), ("title", d.title), ("description", d.description),
    ("status", d.status), ("rationale", d.rationale), ("context", d.context),
    ("category", d.category), ("superseded_by", d.supersededBy),
    ("created_at", d.createdAt), ("accepted_at", d.acceptedAt),
    ("created_by", d.createdBy)]

def QuestionState.toDict (q : QuestionState) : JsonObj :=
  [("question_id", q.questionId), ("title", q.title), ("description", q.description),
    ("status", q.status), ("priority", q.priority), ("resolution", q.resolution),
    ("blocks_task_ids", q.blocksTaskIds), ("raised_at", q.raisedAt),
    ("resolved_at", q.resolvedAt), ("raised_by", q.raisedBy)]

/-- Rebuild a task. The decoders differ in how they read the id and the title and in whether
they copy list fields with `list`. -/
def TaskState.ofDict (taskId title : Except Exc Json) (asList : Json → Except Exc Json)
    (d : JsonObj) : Except Exc TaskState := do
  let taskId ← taskId
  let title ← title
  let tags ← asList (d.getD "tags" (.arr []))
  let blockedBy ← asList (d.getD "blocked_by" (.arr []))
  let progressNotes ← asList (d.getD "progress_notes" (.arr []))
  let relatedKnowledgeIds ← asList (d.getD "related_knowledge_ids" (.arr []))
  return {
    taskId := taskId
    title := title
    description := d.getD "description" (.str "")
    status := d.getD "status" (.str "open")
    assignee := d.get "assignee"
    priority := d.getD "priority" (.str "normal")
    tags := tags
    blockedBy := blockedBy
    createdAt := d.get "created_at"
    updatedAt := d.get "updated_at"
    completedAt := d.get "completed_at"
    createdBy := d.getD "created_by" (.str "")
    progressNotes := progressNotes
    relatedKnowledgeIds := relatedKnowledgeIds }

def DecisionState.ofDict (decisionId title : Except Exc Json) (d : JsonObj) :
    Except Exc DecisionState := do
  let decisionId ← decisionId
  let title ← title
  return {
    decisionId := decisionId
    title := title
    description := d.getD "description" (.str "")
    status := d.getD "status" (.str "proposed")
    rationale := d.getD "rationale" (.str "")
    context := d.getD "context" (.str "")
    category := d.getD "category" (.str "general")
    supersededBy := d.get "superseded_by"
    createdAt := d.get "created_at"
    acceptedAt := d.get "accepted_at"
    createdBy := d.getD "created_by" (.str "") }

def QuestionState.ofDict (questionId title : Except Exc Json) (asList : Json → Except Exc Json)
    (d : JsonObj) : Except Exc QuestionState := do
  let questionId ← questionId
  let title ← title
  let blocksTaskIds ← asList (d.getD "blocks_task_ids" (.arr []))
  return {
    questionId := questionId
    title := title
    description := d.getD "description" (.str "")
    status := d.getD "status" (.str "open")
    priority := d.getD "priority" (.str "normal")
    resolution := d.get "resolution"
    blocksTaskIds := blocksTaskIds
    raisedAt := d.get "raised_at"
    resolvedAt := d.get "resolved_at"
    raisedBy := d.getD "raised_by" (.str "") }

/-! ## The payload -/

/-- A dict of item dicts. -/
abbrev ItemDicts := OrdDict Atom JsonObj

/-- `CognitiveHeadSnapshotPayload`. -/
structure SnapshotPayload where
  sequence : Int
  schemaVersion : Int
  projectionVersion : Int
  snapshotHash : String
  projectId : String
  projectName : Json
  projectGoal : Json
  currentFocus : Json
  ledgerVersion : Int
  compiledAt : String
  tasks : ItemDicts
  decisions : ItemDicts
  questions : ItemDicts
  blockers : List Blocker
  deriving DecidableEq

/-- `CognitiveHeadSnapshotPayload.SCHEMA_VERSION`. -/
def snapshotSchemaVersion : Int := 1

/-- `CognitiveHeadSnapshotPayload.PROJECTION_VERSION`. -/
def snapshotProjectionVersion : Int := 1

/-- The dictionary form of a payload or of a serialized head. -/
structure SnapshotDict where
  sequence : Option Int
  schemaVersion : Option Int
  projectionVersion : Option Int
  snapshotHash : Option String
  projectId : Option String
  projectName : Option Json
  projectGoal : Option Json
  currentFocus : Option Json
  ledgerVersion : Option Int
  compiledAt : Option String
  tasks : Option ItemDicts
  decisions : Option ItemDicts
  questions : Option ItemDicts
  blockers : Option (List Blocker)
  activeTasks : Option (List JsonObj)
  activeDecisions : Option (List JsonObj)
  openQuestions : Option (List JsonObj)
  deriving DecidableEq

/-- The dictionary a JSON document gives back for a dictionary: keys become strings, and of two
keys with one text the last value stays, in the place of the first. -/
def ItemDicts.reload (d : ItemDicts) : ItemDicts :=
  OrdDict.ofList (d.entries.map fun e => (Atom.str e.1.jsonKey, e.2))

/-- Every key of a reloaded dictionary is a string. -/
theorem ItemDicts.isStr_keys_reload (d : ItemDicts) : ∀ k ∈ d.reload.keys, k.isStr = true := by
  have hfold : ∀ (l : List (Atom × JsonObj)) (d' : ItemDicts),
      (∀ e ∈ l, e.1.isStr = true) → (∀ e ∈ d'.entries, e.1.isStr = true) →
      ∀ e ∈ (l.foldl (fun d e => d.set e.1 e.2) d').entries, e.1.isStr = true := by
    intro l
    induction l with
    | nil => exact fun d' _ hd' => hd'
    | cons e rest ih =>
        intro d' hl hd'
        apply ih _ fun e' he' => hl e' (List.mem_cons_of_mem _ he')
        intro e' he'
        rcases OrdDict.mem_setIn he' with ⟨hn, _⟩ | hmem
        · rw [Atom.isStr_congr hn]
          exact hl e List.mem_cons_self
        · exact hd' e' hmem
  intro k hk
  obtain ⟨e, he, rfl⟩ := List.mem_map.mp hk
  refine hfold _ _ ?_ (by simp) e he
  intro e' he'
  obtain ⟨e'', _, rfl⟩ := List.mem_map.mp he'
  rfl

/-- `json.loads(json.dumps(d))`. Every other member is JSON already. -/
def SnapshotDict.reload (d : SnapshotDict) : SnapshotDict :=
  { d with
    tasks := d.tasks.map ItemDicts.reload
    decisions := d.decisions.map ItemDicts.reload
    questions := d.questions.map ItemDicts.reload }

def Blocker.toJson (b : Blocker) : Json :=
  .obj [("task_id", b.taskId), ("task_title", b.taskTitle),
    ("blocked_by_questions", .arr b.blockedByQuestions)]

/-- The sorted object of a dict of item dicts; keys that cannot be compared raise. -/
def ItemDicts.sortedJson (d : ItemDicts) : Except Exc Json := do
  let keys ← Atom.sorted d.keys
  return .obj (keys.map fun k => (k.jsonKey, (Json.obj ((d.get? k).getD [])).sortKeys))

namespace SnapshotPayload

/-- `to_dict(exclude_hash)`. -/
def toDict (p : SnapshotPayload) (excludeHash : Bool) : SnapshotDict where
  sequence := some p.sequence
  schemaVersion := some p.schemaVersion
  projectionVersion := some p.projectionVersion
  snapshotHash := if excludeHash then none else some p.snapshotHash
  projectId := some p.projectId
  projectName := some p.projectName
  projectGoal := some p.projectGoal
  currentFocus := some p.currentFocus
  ledgerVersion := some p.ledgerVersion
  compiledAt := some p.compiledAt
  tasks := some p.tasks
  decisions := some p.decisions
  questions := some p.questions
  blockers := some p.blockers
  activeTasks := none
  activeDecisions := none
  openQuestions := none

/-- `CognitiveHeadSnapshotPayload.from_dict(data)`. -/
def fromDict (data : SnapshotDict) : SnapshotPayload where
  sequence := data.sequence.getD 0
  schemaVersion := data.schemaVersion.getD 1
  projectionVersion := data.projectionVersion.getD 1
  snapshotHash := data.snapshotHash.getD ""
  projectId := data.projectId.getD ""
  projectName := data.projectName.getD (.str "")
  projectGoal := data.projectGoal.getD (.str "")
  currentFocus := data.currentFocus.getD (.str "")
  ledgerVersion := data.ledgerVersion.getD 0
  compiledAt := data.compiledAt.getD ""
  tasks := data.tasks.getD .empty
  decisions := data.decisions.getD .empty
  questions := data.questions.getD .empty
  blockers := data.blockers.getD []

/-- `json.dumps(self.to_dict(exclude_hash=True), sort_keys=True, default=str)`. -/
def hashText (p : SnapshotPayload) : Except Exc String := do
  let decisions ← p.decisions.sortedJson
  let questions ← p.questions.sortedJson
  let tasks ← p.tasks.sortedJson
  return Json.dumps .default (.obj [
    ("blockers", (Json.arr (p.blockers.map Blocker.toJson)).sortKeys),
    ("compiled_at", .str p.compiledAt),
    ("current_focus", p.currentFocus.sortKeys),
    ("decisions", decisions),
    ("ledger_version", .int p.ledgerVersion),
    ("project_goal", p.projectGoal.sortKeys),
    ("project_id", .str p.projectId),
    ("project_name", p.projectName.sortKeys),
    ("projection_version", .int p.projectionVersion),
    ("questions", questions),
    ("schema_version", .int p.schemaVersion),
    ("sequence", .int p.sequence),
    ("tasks", tasks)])

/-- `compute_hash()`. -/
def computeHash (p : SnapshotPayload) : Except Exc String :=
  return Sha256.hexdigest (← p.hashText)

/-- `validate_hash()`. -/
def validateHash (p : SnapshotPayload) : Except Exc Bool :=
  return p.snapshotHash == (← p.computeHash)

/-- `with_hash()`. -/
def withHash (p : SnapshotPayload) : Except Exc SnapshotPayload :=
  return { p with snapshotHash := ← p.computeHash }

/-- The active items of a head by id, for a payload without the complete reducer state. -/
def itemsById {α : Type} (id : α → Json) (toDict : α → JsonObj) (items : List α) :
    Except Exc ItemDicts :=
  items.foldlM (fun d x => do return d.set (← (id x).hash) (toDict x)) .empty

/-- `from_cognitive_head(head, sequence, all_tasks, all_decisions, all_questions)`. -/
def fromCognitiveHead (head : CognitiveHead) (sequence : Int)
    (allTasks allDecisions allQuestions : Option ItemDicts) : Except Exc SnapshotPayload := do
  let tasks ← match allTasks with
    | some d => pure d
    | none => itemsById TaskState.taskId TaskState.toDict head.activeTasks
  let decisions ← match allDecisions with
    | some d => pure d
    | none => itemsById DecisionState.decisionId DecisionState.toDict head.activeDecisions
  let questions ← match allQuestions with
    | some d => pure d
    | none => itemsById QuestionState.questionId QuestionState.toDict head.openQuestions
  withHash {
    sequence := sequence
    schemaVersion := snapshotSchemaVersion
    projectionVersion := snapshotProjectionVersion
    snapshotHash := ""
    projectId := head.projectId.str
    projectName := head.projectName
    projectGoal := head.projectGoal
    currentFocus := head.currentFocus
    ledgerVersion := head.ledgerVersion
    compiledAt := head.compiledAt
    tasks := tasks
    decisions := decisions
    questions := questions
    blockers := head.blockers }

/-- `to_cognitive_head()`: every stored item, in stored order. -/
def toCognitiveHead (p : SnapshotPayload) : Except Exc CognitiveHead := do
  let tasks ← p.tasks.values.mapM fun d =>
    TaskState.ofDict (JsonObj.getItem d "task_id") (JsonObj.getItem d "title") .ok d
  let decisions ← p.decisions.values.mapM fun d =>
    DecisionState.ofDict (JsonObj.getItem d "decision_id") (JsonObj.getItem d "title") d
  let questions ← p.questions.values.mapM fun d =>
    QuestionState.ofDict (JsonObj.getItem d "question_id") (JsonObj.getItem d "title") .ok d
  let projectId ← if p.projectId = "" then .ok UUID.zero else UUID.parse p.projectId
  return {
    projectId := projectId
    projectName := p.projectName
    projectGoal := p.projectGoal
    currentFocus := p.currentFocus
    ledgerVersion := p.ledgerVersion
    compiledAt := p.compiledAt
    activeTasks := tasks
    activeDecisions := decisions
    openQuestions := questions
    blockers := p.blockers }

end SnapshotPayload

end RationaleVault
