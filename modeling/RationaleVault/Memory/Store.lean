import RationaleVault.Ledger.Sqlite
import RationaleVault.Library.Ranking
import RationaleVault.Library.Text
import RationaleVault.MarkdownProvider
import RationaleVault.Memory.Models
import RationaleVault.Schema.Events

/-!
# Memories of events, and their search

Appending an event stores the memories drawn from its payload. All projects
share one table, a memory replaces the row with its id, and an accepted decision
retires the first row of the table that its `supersedes` field names.

The database compares the columns with a LIKE pattern, the tags in their JSON
text. The Markdown store looks for the stripped query in each text and each tag.
Both sort by priority.
-/

namespace RationaleVault

/-! ## Extraction -/

/-- A record drawn from an event. Its id is a digest of the content, which has to be a text. -/
def memoryOf (u : UnicodeTables) (event : EventRecord) (now : String) (memoryType : MemoryType)
    (title importance sourceType : String) (content : Json) : Except Exc MemoryRecord :=
  match content with
  | .str text => .ok
      { id := generateMemoryId u memoryType.value title text
        version := 1
        title := title
        content := text
        memoryType := memoryType
        importance := importance
        lifecycleStatus := "active"
        sourceEventIds := [event.id.str]
        sourceType := sourceType
        createdAt := now
        projectId := event.projectId.str }
  | _ => .error (.attributeError "lower")

/-- `extract_memories_from_event(event)` at the time `now`. -/
def extractMemoriesFromEvent (u : UnicodeTables) (event : EventRecord) (now : String) :
    Except Exc (List MemoryRecord) :=
  let payload := event.payload
  match event.eventType with
  | .decisionAccepted => do
      let dec := payload.getD "decision" (.str "")
      let rat := payload.getD "rationale" (.str "")
      let decision ← memoryOf u event now .decision "Decision Accepted" "high" "decision" dec
      if rat.truthy then
        let rationale ← memoryOf u event now .decisionRationale "Decision Rationale" "high"
          "decision_rationale" rat
        return [decision, rationale]
      else return [decision]
  | .reflectionGenerated => do
      let ref := payload.getD "reflection" (.str "")
      return [← memoryOf u event now .lessonLearned "Reflection Lesson Learned" "medium"
        "reflection" ref]
  | .questionLoss | .contextDrift | .decisionMutation | .decisionContradiction => do
      let failDesc := (payload.get "description").orElse
        ((payload.get "observed").orElse (.str ("Failure event: " ++ event.eventType.value)))
      return [← memoryOf u event now .failure "Continuity Failure Recorded" "high" "failure"
        failDesc]
  | .projectGoalSet | .projectFocusChanged => do
      let arch := (payload.get "goal").orElse
        ((payload.get "focus").orElse ((payload.get "name").orElse (.str "")))
      if arch.truthy then
        return [← memoryOf u event now .architecture "Architecture Goal/Focus" "critical"
          "architecture" arch]
      else return []
  | _ => .ok []

/-! ## The table -/

namespace SQLiteMemoryProvider

/-- The record with the version it is stored under. -/
def numbered (rows : List MemoryRecord) (record : MemoryRecord) : MemoryRecord :=
  match rows.find? fun r => r.id = record.id with
  | some existing =>
      if existing.content ≠ record.content then { record with version := existing.version + 1 }
      else record
  | none => record

/-- The numbers of the record can be bound. -/
def Fits (record : MemoryRecord) : Prop :=
  IsInt64 record.version ∧ IsInt64 record.referenceCount

instance (record : MemoryRecord) : Decidable (Fits record) := inferInstanceAs (Decidable (_ ∧ _))

/-- `add_record(record)`. -/
def addRecord (rows : List MemoryRecord) (record : MemoryRecord) :
    Except Exc (List MemoryRecord) :=
  let record := numbered rows record
  if Fits record then .ok (Table.replace MemoryRecord.id rows record) else .error .overflowError

/-- The loop over the extracted memories, and whether it has come to its end. -/
def addRecords (rows : List MemoryRecord) : List MemoryRecord → List MemoryRecord × Bool
  | [] => (rows, true)
  | m :: rest =>
      match addRecord rows m with
      | .ok rows' => addRecords rows' rest
      | .error _ => (rows, false)

/-- Whether a `supersedes` field names a record. -/
def names (u : UnicodeTables) (supersedes : String) (r : MemoryRecord) : Bool :=
  decide (r.id = supersedes) || decide (u.lower r.title = u.lower supersedes) ||
    decide (u.lower r.content = u.lower supersedes)

/-- The record with the lifecycle status that supersession gives it. -/
def retired (target : MemoryRecord) : MemoryRecord :=
  { target with lifecycleStatus := "superseded" }

/-- What `handle_lifecycle_transitions` does for a nonempty `supersedes` field. The event that it
logs draws no memories. -/
def supersede (u : UnicodeTables) (rows : List MemoryRecord) (supersedes : String) :
    List MemoryRecord :=
  match rows.find? (names u supersedes) with
  | some target =>
      if target.lifecycleStatus ≠ "superseded" then
        match addRecord rows (retired target) with
        | .ok rows' => rows'
        | .error _ => rows
      else rows
  | none => rows

/-- What is done with the memories and the `supersedes` field of an event. An exception on the way
is caught and ends it. -/
def remember (u : UnicodeTables) (rows : List MemoryRecord)
    (memories : Except Exc (List MemoryRecord)) (supersedes : Option String) :
    List MemoryRecord :=
  match memories with
  | .error _ => rows
  | .ok ms =>
      let stored := addRecords rows ms
      match supersedes with
      | some s => if stored.2 then supersede u stored.1 s else stored.1
      | none => stored.1

end SQLiteMemoryProvider

/-- The event types that `append_event` draws no memories from. -/
def emitsNoMemory (t : EventType) : Bool :=
  ["MEMORY_RECORDED", "MEMORY_CONSOLIDATED", "MEMORY_REFERENCED", "MEMORY_SUPERSEDED",
    "MEMORY_ARCHIVED", "MEMORY_RANKED", "CONSOLIDATION_CANDIDATE", "RETRIEVAL_AUDITED",
    "RETRIEVAL_EXECUTED"].contains t.value

/-- The `supersedes` field of an accepted decision. A value that is no text raises when it is
compared with the first record. -/
def supersedesOf (event : EventRecord) : Option String :=
  if event.eventType = .decisionAccepted then
    match event.payload.get "supersedes" with
    | .str s => if s = "" then none else some s
    | _ => none
  else none

/-- A call of `append_event`: the record that the event store returns, and the time. -/
structure AppendCall where
  event : EventRecord
  now : String

/-- What a call of `EventStore.append_event` does to the memory table. -/
def EventStore.appendEvent (u : UnicodeTables) (rows : List MemoryRecord) (call : AppendCall) :
    List MemoryRecord :=
  if emitsNoMemory call.event.eventType then rows
  else SQLiteMemoryProvider.remember u rows (extractMemoriesFromEvent u call.event call.now)
    (supersedesOf call.event)

/-! ## Searching -/

/-- The priority by which records are sorted. -/
def MemoryRecord.priority (u : UnicodeTables) (r : MemoryRecord) : ℚ := (r.retrievalPriority u).value

/-- `xs[:limit]`. -/
def PythonText.upTo {α : Type} (xs : List α) (limit : Int) : List α :=
  if 0 ≤ limit then xs.take limit.toNat else xs.take (xs.length - (-limit).toNat)

namespace SQLiteMemoryProvider

/-- `json.dumps(record.tags)`. -/
def tagsText (r : MemoryRecord) : String := Json.dumps .default (.strs r.tags)

/-- `title LIKE ? OR content LIKE ? OR tags LIKE ?`. -/
def matched (query : String) (r : MemoryRecord) : Bool :=
  SqlLike.textLike ("%" ++ query ++ "%") r.title ||
    SqlLike.textLike ("%" ++ query ++ "%") r.content ||
    SqlLike.textLike ("%" ++ query ++ "%") (tagsText r)

/-- What `search_records(query, limit)` can return: SQL leaves the order of records with one
priority open. A limit that cannot be bound and, as soon as there is a row to compare, a pattern
of more than 50000 bytes raise. A negative limit is none. -/
def SearchRecords (u : UnicodeTables) (rows : List MemoryRecord) (query : String) (limit : Int)
    (result : Except Exc (List MemoryRecord)) : Prop :=
  if ¬ IsInt64 limit then result = .error .overflowError
  else if rows ≠ [] ∧ 50000 < ("%" ++ query ++ "%").utf8ByteSize then
    result = .error (.operationalError "LIKE or GLOB pattern too complex")
  else ∃ ranked, Ranking.Ranked (MemoryRecord.priority u) (rows.filter (matched query)) ranked ∧
    result = .ok (if limit < 0 then ranked else ranked.take limit.toNat)

end SQLiteMemoryProvider

namespace MarkdownMemoryProvider

/-- Whether the stripped query is in the title, the content or a tag. -/
def matched (u : UnicodeTables) (query : String) (r : MemoryRecord) : Bool :=
  let queryClean := PythonText.strip (u.lower query).toList
  PythonText.contains queryClean (u.lower r.title).toList ||
    PythonText.contains queryClean (u.lower r.content).toList ||
    r.tags.any fun tag => PythonText.contains queryClean (u.lower tag).toList

/-- `search_records(query, limit)` on the records of the file. -/
def searchRecords (u : UnicodeTables) (records : List MemoryRecord) (query : String)
    (limit : Int) : List MemoryRecord :=
  if query = "" then PythonText.upTo records limit
  else PythonText.upTo
    (Table.orderByDesc (MemoryRecord.priority u) (records.filter (matched u query))) limit

end MarkdownMemoryProvider

end RationaleVault
