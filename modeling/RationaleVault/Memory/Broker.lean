import RationaleVault.Library.Signature
import RationaleVault.Memory.Retrieval

/-!
# The memory broker

The broker looks its callees up by name and passes them arguments by keyword.
It asks for a method that memory records do not have, leaves out three fields of
their constructor, asks the write result for another missing method in the
handler of the failure, and passes keywords that the retrieval does not take. So
no request records anything and no query returns or caches a result.
-/

namespace RationaleVault

/-- The values that pass between the broker and its callees. -/
inductive PyValue
  | none
  | int (n : Int)
  | float (x : ℚ)
  | str (s : String)
  | strs (ss : List String)
  | memoryType (t : MemoryType)
  | profile (p : RetrievalProfile)
  | object (attributes : List (String × PyValue))

/-- `getattr(x, name)`, where the table holds the attributes of `x`. -/
def getattr {α : Type} (attributes : List (String × α)) (name : String) : Except Exc α :=
  match attributes.lookup name with
  | some v => .ok v
  | none => .error (.attributeError name)

/-- The arguments of a call as the function sees them. -/
def bindArguments {α : Type} (S : Signature α) (args : List α) (kwargs : List (String × α)) :
    Except Exc (List (String × α)) :=
  match S.bind args kwargs with
  | some bound => .ok bound
  | none => .error .typeError

/-- The attribute `x.name` of a value. -/
def PyValue.attribute (name : String) : PyValue → Except Exc PyValue
  | .object attributes => getattr attributes name
  | _ => .error (.attributeError name)

def PyValue.isNone : PyValue → Bool
  | .none => true
  | _ => false

/-- A function that is only called by position. -/
abbrev Method := List PyValue → Except Exc PyValue

/-- A method of a provider with state `σ`. -/
abbrev ProviderMethod (σ : Type) := List PyValue → ExceptT Exc (StateM σ) PyValue

/-! ## Contracts -/

inductive MemoryQueryType
  | search
  | retrieve
  | context
  | continuation
  | lineage
  deriving DecidableEq

inductive MemoryRecordType
  | decision
  | decisionRationale
  | lessonLearned
  | failure
  | architecture
  | implementationNote
  | research
  | workflow
  deriving DecidableEq

structure MemoryQuery where
  queryId : String
  queryType : MemoryQueryType
  text : String
  projectId : Option String := none
  limit : Int := 10

structure MemoryWriteRequest where
  requestId : String
  memoryType : MemoryRecordType
  title : String
  content : String
  projectId : Option String := none
  importance : String := "medium"
  tags : List String := []
  sourceEventIds : List String := []

structure MemoryResult where
  resultId : String
  memoryId : String
  memoryType : MemoryRecordType
  title : String
  content : String
  score : ℚ
  lifecycleState : String
  confidence : ℚ
  referenceCount : Int
  reasons : List String
  retrievalPath : List String
  deriving DecidableEq

/-- A context without the time that the retrieval took. -/
structure MemoryContext where
  contextId : String
  queryId : String
  results : List MemoryResult
  totalCandidates : Nat := 0
  profileUsed : Option String := none
  deriving DecidableEq

structure MemoryWriteResult where
  resultId : PyValue
  requestId : String
  success : Bool
  memoryId : Option PyValue := none
  error : Option String := none
  deduplicated : Bool := false

/-- `MemoryResult.generate_result_id(memory_id, query_id)`. -/
def MemoryResult.generateResultId (memoryId queryId : String) : String :=
  "MRES-" ++ shortHash ("memory_result:" ++ memoryId ++ ":" ++ queryId)

/-- `MemoryContext.generate_context_id(query_id)`. -/
def MemoryContext.generateContextId (queryId : String) : String :=
  "MCTX-" ++ shortHash ("memory_context:" ++ queryId)

/-! ## The callees -/

/-- The methods of the class `MemoryRecord`. -/
def memoryRecordMethods (fromDict toDict : Method) : List (String × Method) :=
  [("from_dict", fromDict), ("to_dict", toDict)]

/-- The methods of the class `MemoryWriteResult`. -/
def memoryWriteResultMethods (toDict : Method) : List (String × Method) := [("to_dict", toDict)]

/-- The fields of the constructor of `MemoryRecord`, with the default of `created_at`. -/
def memoryRecordInit (now : String) : Signature PyValue where
  params := ["id", "version", "title", "content", "memory_type", "importance", "lifecycle_status",
    "source_event_ids", "source_type", "tags", "confidence", "retrieval_priority",
    "reference_count", "last_referenced_at", "created_at", "project_id"]
  defaults := [("tags", .strs []), ("confidence", .float 1), ("retrieval_priority", .float 2),
    ("reference_count", .int 0), ("last_referenced_at", .none), ("created_at", .str now),
    ("project_id", .str "")]

/-- `weights.get(importance.lower(), 2.0)`. -/
def importanceWeight (u : UnicodeTables) (importance : String) : ℚ :=
  (List.lookup (u.lower importance)
    [("low", 1), ("medium", 2), ("high", 3), ("critical", 5)]).getD 2

/-- `__post_init__()` on the fields. -/
def memoryRecordPostInit (u : UnicodeTables) (fields : List (String × PyValue)) :
    Except Exc (List (String × PyValue)) :=
  match fields.lookup "importance" with
  | some (.str importance) => .ok (fields.map fun field =>
      if field.1 = "retrieval_priority" then (field.1, .float (importanceWeight u importance))
      else field)
  | _ => .error (.attributeError "lower")

/-- `retrieve_ranked_citations(query, limit=5, semantic_provider=None)`. -/
def retrieveRankedCitationsSignature : Signature PyValue where
  params := ["query", "limit", "semantic_provider"]
  defaults := [("limit", .int 5), ("semantic_provider", .none)]

/-- What the retrieval returns besides the citations. -/
structure RetrievalExecution where
  candidateCount : Nat

/-- What the broker calls, and `str` of an exception. -/
structure BrokerWorld (σ : Type) where
  u : UnicodeTables
  provider : List (String × ProviderMethod σ)
  fromDict : Method
  recordToDict : Method
  resultToDict : Method
  now : String
  retrieve : σ → List (String × PyValue) → Except Exc (List MemoryCitation × RetrievalExecution)
  text : Exc → String

/-! ## Writing -/

def runtimeToMemoryType : MemoryRecordType → MemoryType
  | .decision => .decision
  | .decisionRationale => .decisionRationale
  | .lessonLearned => .lessonLearned
  | .failure => .failure
  | .architecture => .architecture
  | .implementationNote => .implementationNote
  | .research => .research
  | .workflow => .workflow

def optText : Option String → PyValue
  | some s => .str s
  | none => .none

variable {σ : Type} (W : BrokerWorld σ)

/-- The keyword arguments of the new record. -/
def recordKeywords (request : MemoryWriteRequest) (id : PyValue) : List (String × PyValue) :=
  [("id", id), ("memory_type", .memoryType (runtimeToMemoryType request.memoryType)),
    ("title", .str request.title), ("content", .str request.content),
    ("importance", .str request.importance), ("tags", .strs request.tags),
    ("project_id", optText request.projectId), ("source_event_ids", .strs request.sourceEventIds)]

/-- `MemoryWriteResult.generate_result_id(memory_id, request_id)`. -/
def generateWriteResultId (memoryId : PyValue) (requestId : String) : Except Exc PyValue := do
  let generate ← getattr (memoryWriteResultMethods W.resultToDict) "generate_result_id"
  generate [memoryId, .str requestId]

/-- The body of the `try` statement. -/
def tryRecordMemory (request : MemoryWriteRequest) :
    ExceptT Exc (StateM σ) MemoryWriteResult := do
  let memType := runtimeToMemoryType request.memoryType
  let generateId ← liftExcept (getattr (memoryRecordMethods W.fromDict W.recordToDict)
    "generate_id")
  let id ← liftExcept (generateId [.str memType.value, .str request.title, .str request.content])
  let fields ← liftExcept (bindArguments (memoryRecordInit W.now) [] (recordKeywords request id))
  let record := PyValue.object (← liftExcept (memoryRecordPostInit W.u fields))
  let getRecordById ← liftExcept (getattr W.provider "get_record_by_id")
  let recordId ← liftExcept (record.attribute "id")
  let existing ← getRecordById [recordId]
  if !existing.isNone then
    let resultId ← liftExcept (generateWriteResultId W recordId request.requestId)
    return { resultId, requestId := request.requestId, success := true, memoryId := some recordId,
             deduplicated := true }
  else
    let addRecord ← liftExcept (getattr W.provider "add_record")
    let _ ← addRecord [record]
    let resultId ← liftExcept (generateWriteResultId W recordId request.requestId)
    return { resultId, requestId := request.requestId, success := true, memoryId := some recordId }
where
  liftExcept {α : Type} (x : Except Exc α) : ExceptT Exc (StateM σ) α := ExceptT.mk (pure x)

/-- `record_memory(request)`. The handler may raise. -/
def recordMemory (request : MemoryWriteRequest) (s : σ) : Except Exc MemoryWriteResult × σ :=
  match (tryRecordMemory W request).run s with
  | (.ok result, s') => (.ok result, s')
  | (.error e, s') =>
      (do
        let resultId ← generateWriteResultId W (.str "FAILED") request.requestId
        return { resultId, requestId := request.requestId, success := false,
                 error := some (W.text e) }, s')

/-! ## Reading -/

def queryTypeToProfile : MemoryQueryType → RetrievalProfile
  | .search => .generalSearch
  | .retrieve => .decisionLookup
  | .context => .contextConstruction
  | .continuation => .generalSearch
  | .lineage => .architectureReview

def RetrievalProfile.value : RetrievalProfile → String
  | .decisionLookup => "DECISION_LOOKUP"
  | .failureAnalysis => "FAILURE_ANALYSIS"
  | .architectureReview => "ARCHITECTURE_REVIEW"
  | .lessonDiscovery => "LESSON_DISCOVERY"
  | .workflowRetrieval => "WORKFLOW_RETRIEVAL"
  | .generalSearch => "GENERAL_SEARCH"
  | .knowledgeReview => "KNOWLEDGE_REVIEW"
  | .projectOverview => "PROJECT_OVERVIEW"
  | .contextConstruction => "CONTEXT_CONSTRUCTION"

/-- A citation has no memory, title, content, type, state, confidence or reference count: the
defaults stand. -/
def toMemoryResult (query : MemoryQuery) (citation : MemoryCitation) : MemoryResult where
  resultId := MemoryResult.generateResultId citation.memoryId query.queryId
  memoryId := citation.memoryId
  memoryType := .lessonLearned
  title := "Unknown"
  content := ""
  score := citation.score
  lifecycleState := "active"
  confidence := 0
  referenceCount := 0
  reasons := citation.reasons
  retrievalPath := citation.retrievalPath

/-- A call of the retrieval. -/
def callRetrieve (s : σ) (args : List PyValue) (kwargs : List (String × PyValue)) :
    Except Exc (List MemoryCitation × RetrievalExecution) := do
  W.retrieve s (← bindArguments retrieveRankedCitationsSignature args kwargs)

/-- The body of the `try` statement, apart from the caching. -/
def tryExecuteQuery (query : MemoryQuery) (s : σ) : Except Exc MemoryContext := do
  let profile := queryTypeToProfile query.queryType
  let (citations, execution) ← callRetrieve W s [.str query.text]
    [("limit", .int query.limit), ("project_id", optText query.projectId),
      ("profile", .profile profile)]
  return { contextId := MemoryContext.generateContextId query.queryId
           queryId := query.queryId
           results := citations.map (toMemoryResult query)
           totalCandidates := execution.candidateCount
           profileUsed := some profile.value }

/-- A broker over a provider. -/
structure BrokerState (σ : Type) where
  store : σ
  contextCache : List (String × MemoryContext) := []
  queryCount : Nat := 0

/-- `execute_query(query)`. -/
def executeQuery (query : MemoryQuery) (b : BrokerState σ) : MemoryContext × BrokerState σ :=
  let b := { b with queryCount := b.queryCount + 1 }
  match tryExecuteQuery W query b.store with
  | .ok context =>
      (context, { b with
        contextCache := Table.replace Prod.fst b.contextCache (query.queryId, context) })
  | .error _ =>
      ({ contextId := MemoryContext.generateContextId query.queryId
         queryId := query.queryId
         results := [] }, b)

/-- `get_cached_context(query_id)`. -/
def BrokerState.getCachedContext (b : BrokerState σ) (queryId : String) : Option MemoryContext :=
  b.contextCache.lookup queryId

/-! ## Runs -/

inductive BrokerCall
  | executeQuery (query : MemoryQuery)
  | recordMemory (request : MemoryWriteRequest)

/-- The broker and its provider after a call. -/
def BrokerState.step (b : BrokerState σ) : BrokerCall → BrokerState σ
  | .executeQuery query => (RationaleVault.executeQuery W query b).2
  | .recordMemory request => { b with store := (RationaleVault.recordMemory W request b.store).2 }

/-- The requests among the calls. -/
def requests (calls : List BrokerCall) : List MemoryWriteRequest :=
  calls.filterMap fun
    | .recordMemory request => some request
    | .executeQuery _ => none

/-- The record carries what the request asks for. -/
structure Carries (request : MemoryWriteRequest) (record : List (String × PyValue)) : Prop where
  memoryType : record.lookup "memory_type" =
    some (.memoryType (runtimeToMemoryType request.memoryType))
  title : record.lookup "title" = some (.str request.title)
  content : record.lookup "content" = some (.str request.content)
  importance : record.lookup "importance" = some (.str request.importance)
  tags : record.lookup "tags" = some (.strs request.tags)
  projectId : record.lookup "project_id" = some (optText request.projectId)

/-- The request has returned the id of the only record with it, which carries the request, and has
changed nothing if an earlier request had the same type, title and content. -/
structure Recorded (records : σ → List (List (String × PyValue)))
    (earlier : List MemoryWriteRequest) (request : MemoryWriteRequest) (before : σ)
    (outcome : Except Exc MemoryWriteResult × σ) : Prop where
  returned : ∃ result id, outcome.1 = .ok result ∧ result.success = true ∧
    result.memoryId = some id ∧ ∃ front record back,
      records outcome.2 = front ++ record :: back ∧ record.lookup "id" = some id ∧
      Carries request record ∧ ∀ other ∈ front ++ back, other.lookup "id" ≠ some id
  deduplicated : (∃ r ∈ earlier, r.memoryType = request.memoryType ∧ r.title = request.title ∧
      r.content = request.content) →
    (∀ result, outcome.1 = .ok result → result.deduplicated = true) ∧ outcome.2 = before

/-- What the retrieval returns for the text and the limit of the query. -/
def retrievalFor (query : MemoryQuery) (s : σ) :
    Except Exc (List MemoryCitation × RetrievalExecution) :=
  callRetrieve W s [.str query.text] [("limit", .int query.limit)]

/-- The context has a result for each citation of the retrieval, in order, and is cached. -/
def Answered (query : MemoryQuery) (before : σ) (outcome : MemoryContext × BrokerState σ) : Prop :=
  ∀ citations execution, retrievalFor W query before = .ok (citations, execution) →
    outcome.1.results.map MemoryResult.memoryId = citations.map MemoryCitation.memoryId ∧
      outcome.2.getCachedContext query.queryId = some outcome.1

variable {W}

/-- The class `MemoryRecord` has no method `generate_id`, and the handler of that failure asks
`MemoryWriteResult` for another missing method. -/
theorem recordMemory_eq (request : MemoryWriteRequest) (s : σ) :
    recordMemory W request s = (.error (.attributeError "generate_result_id"), s) := rfl

/-- With an id, the constructor would still miss three fields. -/
theorem bind_memoryRecordInit (now : String) (request : MemoryWriteRequest) (id : PyValue) :
    (memoryRecordInit now).bind [] (recordKeywords request id) = none := by
  rw [Signature.bind_eq_none]
  intro h
  have hversion := h.complete "version" (List.mem_cons_of_mem _ List.mem_cons_self)
  cases hversion

/-- The retrieval takes neither a project nor a profile. -/
theorem tryExecuteQuery_eq (query : MemoryQuery) (s : σ) :
    tryExecuteQuery W query s = .error .typeError := by
  have hbind : retrieveRankedCitationsSignature.bind [.str query.text]
      [("limit", .int query.limit), ("project_id", optText query.projectId),
        ("profile", .profile (queryTypeToProfile query.queryType))] = none := by
    have hkeyword : ("project_id", optText query.projectId) ∈ [("limit", PyValue.int query.limit),
        ("project_id", optText query.projectId),
        ("profile", .profile (queryTypeToProfile query.queryType))] :=
      List.mem_cons_of_mem _ List.mem_cons_self
    have hunknown : "project_id" ∉ retrieveRankedCitationsSignature.params := by decide
    exact Signature.bind_eq_none_of_unknown hkeyword hunknown
  rw [tryExecuteQuery, callRetrieve, bindArguments, hbind]
  rfl

theorem executeQuery_eq (query : MemoryQuery) (b : BrokerState σ) :
    executeQuery W query b =
      ({ contextId := MemoryContext.generateContextId query.queryId, queryId := query.queryId,
         results := [] }, { b with queryCount := b.queryCount + 1 }) := by
  rw [executeQuery, tryExecuteQuery_eq]

theorem BrokerState.step_store (b : BrokerState σ) (call : BrokerCall) :
    (b.step W call).store = b.store := by
  cases call with
  | executeQuery query => rw [step, executeQuery_eq]
  | recordMemory request => rw [step, recordMemory_eq]

theorem BrokerState.step_contextCache (b : BrokerState σ) (call : BrokerCall) :
    (b.step W call).contextCache = b.contextCache := by
  cases call with
  | executeQuery query => rw [step, executeQuery_eq]
  | recordMemory request => rfl

/-- No call changes the store or the cache. -/
theorem BrokerState.run_eq (calls : List BrokerCall) (b : BrokerState σ) :
    (calls.foldl (step W) b).store = b.store ∧
      (calls.foldl (step W) b).contextCache = b.contextCache := by
  induction calls generalizing b with
  | nil => exact ⟨rfl, rfl⟩
  | cons call rest ih =>
      obtain ⟨hstore, hcache⟩ := ih (b.step W call)
      rw [List.foldl_cons, hstore, hcache]
      exact ⟨b.step_store call, b.step_contextCache call⟩

/-- After any calls, over any provider, no request records anything, and a query is only answered
when the retrieval fails. -/
theorem memoryBroker_never {σ : Type} (W : BrokerWorld σ)
    (records : σ → List (List (String × PyValue))) (s : σ) (calls : List BrokerCall) :
    (∀ request, ¬ Recorded records (requests calls) request
      (calls.foldl (BrokerState.step W) { store := s }).store
      (recordMemory W request (calls.foldl (BrokerState.step W) { store := s }).store)) ∧
    ∀ query, Answered W query (calls.foldl (BrokerState.step W) { store := s }).store
        (executeQuery W query (calls.foldl (BrokerState.step W) { store := s })) ↔
      ∀ returned, retrievalFor W query s ≠ .ok returned := by
  obtain ⟨hstore, hcache⟩ := BrokerState.run_eq (W := W) calls { store := s }
  constructor
  · intro request hrecorded
    obtain ⟨result, id, hresult, -⟩ := hrecorded.returned
    rw [recordMemory_eq] at hresult
    cases hresult
  · intro query
    rw [Answered, hstore, executeQuery_eq]
    constructor
    · rintro h ⟨citations, execution⟩ hreturned
      have hcached := (h citations execution hreturned).2
      rw [BrokerState.getCachedContext, hcache] at hcached
      cases hcached
    · exact fun h citations execution hreturned => absurd hreturned (h _)

/-! ## A store of two notes -/

/-- The body of `retrieve_ranked_citations` over a store for what its search returns. -/
def retrieveBody (u : UnicodeTables) (total : MemoryRecord → ℚ) (profile : RetrievalProfile)
    (rows : List MemoryRecord) (search : String → Except Exc (List MemoryRecord))
    (bound : List (String × PyValue)) :
    Except Exc (List MemoryCitation × RetrievalExecution) := do
  match ← getattr bound "query", ← getattr bound "limit" with
  | .str query, .int limit =>
      let citations ← retrieveRankedCitations u total profile rows query limit.toNat (search query)
      let found ← search query
      return (citations, ⟨(searchMemoriesRrf u query
        (candidatesFor rows found limit.toNat)).length⟩)
  | _, _ => .error .typeError

/-- A provider that appends records to a list, whose retrieval finds the two notes. -/
def engineWorld : BrokerWorld (List PyValue) where
  u := .asciiOnly
  provider := [("add_record", fun args => do modify (· ++ args); return .none),
    ("count", fun _ => return .int (← get).length)]
  fromDict _ := .error .typeError
  recordToDict _ := .error .typeError
  resultToDict _ := .error .typeError
  now := "2026-01-01"
  retrieve _ := retrieveBody .asciiOnly (MemoryRecord.priority .asciiOnly) .generalSearch
    engineNotes fun _ => .ok engineNotes.reverse
  text _ := ""

def engineQuery : MemoryQuery where
  queryId := "MQRY-1"
  queryType := .search
  text := "engine"

def engineRequest : MemoryWriteRequest where
  requestId := "MWRT-1"
  memoryType := .decision
  title := "Storage"
  content := "Use Postgres"

/-- The request is not recorded, and the query, for which the retrieval does not fail, is not
answered. -/
theorem memoryBroker_engine :
    ¬ Recorded (fun s => s.filterMap fun
        | .object attributes => some attributes
        | _ => none) [] engineRequest [] (recordMemory engineWorld engineRequest []) ∧
      ¬ Answered engineWorld engineQuery [] (executeQuery engineWorld engineQuery { store := [] }) := by
  constructor
  · intro hrecorded
    obtain ⟨result, id, hresult, -⟩ := hrecorded.returned
    rw [recordMemory_eq] at hresult
    cases hresult
  · intro hanswered
    have hreturned : ∃ returned, retrievalFor engineWorld engineQuery [] = .ok returned :=
      ⟨_, rfl⟩
    obtain ⟨⟨citations, execution⟩, hreturned⟩ := hreturned
    have hcached := (hanswered citations execution hreturned).2
    rw [executeQuery_eq] at hcached
    cases hcached

end RationaleVault
