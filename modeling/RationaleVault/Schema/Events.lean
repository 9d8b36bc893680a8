import RationaleVault.Python

/-!
# Event schema

The record an event store returns. The payload is a free-form JSON object and
is never validated on the way in; its shape depends on the event type.
-/

namespace RationaleVault

/-- The registered event types. -/
inductive EventType
  | projectCreated
  | projectGoalSet
  | projectFocusChanged
  | taskCreated
  | taskMutated
  | taskCompleted
  | decisionProposed
  | decisionAccepted
  | decisionSuperseded
  | openQuestionRaised
  | openQuestionResolved
  | factRecorded
  | relationshipCreated
  | relationshipSuperseded
  | reflectionGenerated
  | memoryRecorded
  | memoryConsolidated
  | memoryReferenced
  | memorySuperseded
  | memoryArchived
  | memoryRanked
  | consolidationCandidate
  | retrievalAudited
  | retrievalExecuted
  | questionLoss
  | contextDrift
  | decisionMutation
  | decisionContradiction
  | knowledgeSynthesized
  | knowledgeSuperseded
  | knowledgeContradiction
  | knowledgeCreated
  | knowledgeUpdated
  | knowledgeDeleted
  | taskProgressNoted
  | contextSnapshotRecorded
  | governanceDecisionRecorded
  | governanceRuleCreated
  | governanceRuleUpdated
  | governanceRuleDeleted
  | skillExecuted
  | knowledgePromotionCandidate
  | knowledgePromotionAssessed
  | knowledgePromotionGated
  | knowledgePromotionApproved
  | knowledgePromotionRejected
  deriving DecidableEq

/-- `event_type.value`, the text stored in the ledger. -/
def EventType.value : EventType → String
  | projectCreated => "PROJECT_CREATED"
  | projectGoalSet => "PROJECT_GOAL_SET"
  | projectFocusChanged => "PROJECT_FOCUS_CHANGED"
  | taskCreated => "TASK_CREATED"
  | taskMutated => "TASK_MUTATED"
  | taskCompleted => "TASK_COMPLETED"
  | decisionProposed => "DECISION_PROPOSED"
  | decisionAccepted => "DECISION_ACCEPTED"
  | decisionSuperseded => "DECISION_SUPERSEDED"
  | openQuestionRaised => "OPEN_QUESTION_RAISED"
  | openQuestionResolved => "OPEN_QUESTION_RESOLVED"
  | factRecorded => "FACT_RECORDED"
  | relationshipCreated => "RELATIONSHIP_CREATED"
  | relationshipSuperseded => "RELATIONSHIP_SUPERSEDED"
  | reflectionGenerated => "REFLECTION_GENERATED"
  | memoryRecorded => "MEMORY_RECORDED"
  | memoryConsolidated => "MEMORY_CONSOLIDATED"
  | memoryReferenced => "MEMORY_REFERENCED"
  | memorySuperseded => "MEMORY_SUPERSEDED"
  | memoryArchived => "MEMORY_ARCHIVED"
  | memoryRanked => "MEMORY_RANKED"
  | consolidationCandidate => "CONSOLIDATION_CANDIDATE"
  | retrievalAudited => "RETRIEVAL_AUDITED"
  | retrievalExecuted => "RETRIEVAL_EXECUTED"
  | questionLoss => "QUESTION_LOSS"
  | contextDrift => "CONTEXT_DRIFT"
  | decisionMutation => "DECISION_MUTATION"
  | decisionContradiction => "DECISION_CONTRADICTION"
  | knowledgeSynthesized => "KNOWLEDGE_SYNTHESIZED"
  | knowledgeSuperseded => "KNOWLEDGE_SUPERSEDED"
  | knowledgeContradiction => "KNOWLEDGE_CONTRADICTION"
  | knowledgeCreated => "KNOWLEDGE_CREATED"
  | knowledgeUpdated => "KNOWLEDGE_UPDATED"
  | knowledgeDeleted => "KNOWLEDGE_DELETED"
  | taskProgressNoted => "TASK_PROGRESS_NOTED"
  | contextSnapshotRecorded => "CONTEXT_SNAPSHOT_RECORDED"
  | governanceDecisionRecorded => "GOVERNANCE_DECISION_RECORDED"
  | governanceRuleCreated => "GOVERNANCE_RULE_CREATED"
  | governanceRuleUpdated => "GOVERNANCE_RULE_UPDATED"
  | governanceRuleDeleted => "GOVERNANCE_RULE_DELETED"
  | skillExecuted => "SKILL_EXECUTED"
  | knowledgePromotionCandidate => "KNOWLEDGE_PROMOTION_CANDIDATE"
  | knowledgePromotionAssessed => "KNOWLEDGE_PROMOTION_ASSESSED"
  | knowledgePromotionGated => "KNOWLEDGE_PROMOTION_GATED"
  | knowledgePromotionApproved => "KNOWLEDGE_PROMOTION_APPROVED"
  | knowledgePromotionRejected => "KNOWLEDGE_PROMOTION_REJECTED"

/-- The event types in the order of their declaration. -/
def EventType.all : List EventType :=
  [.projectCreated, .projectGoalSet, .projectFocusChanged, .taskCreated, .taskMutated,
    .taskCompleted, .decisionProposed, .decisionAccepted, .decisionSuperseded,
    .openQuestionRaised, .openQuestionResolved, .factRecorded, .relationshipCreated,
    .relationshipSuperseded, .reflectionGenerated, .memoryRecorded, .memoryConsolidated,
    .memoryReferenced, .memorySuperseded, .memoryArchived, .memoryRanked,
    .consolidationCandidate, .retrievalAudited, .retrievalExecuted, .questionLoss, .contextDrift,
    .decisionMutation, .decisionContradiction, .knowledgeSynthesized, .knowledgeSuperseded,
    .knowledgeContradiction, .knowledgeCreated, .knowledgeUpdated, .knowledgeDeleted,
    .taskProgressNoted, .contextSnapshotRecorded, .governanceDecisionRecorded,
    .governanceRuleCreated, .governanceRuleUpdated, .governanceRuleDeleted, .skillExecuted,
    .knowledgePromotionCandidate, .knowledgePromotionAssessed, .knowledgePromotionGated,
    .knowledgePromotionApproved, .knowledgePromotionRejected]

/-- `EventType(value)`. -/
def EventType.ofValue (value : String) : Option EventType :=
  EventType.all.find? fun t => t.value == value

/-- Different event types are stored under different texts. -/
theorem EventType.nodup_values : (EventType.all.map EventType.value).Nodup := by decide +kernel

theorem EventType.mem_all (t : EventType) : t ∈ EventType.all := by cases t <;> decide

theorem EventType.value_injective : Function.Injective EventType.value := fun t t' h =>
  List.inj_on_of_nodup_map nodup_values (mem_all t) (mem_all t') h

/-- Reading the text of an event type gives it back, and no other text reads as it. -/
theorem EventType.ofValue_eq_some_iff (value : String) (t : EventType) :
    EventType.ofValue value = some t ↔ value = t.value := by
  unfold EventType.ofValue
  constructor
  · intro h
    have hvalue := List.find?_some h
    exact (beq_iff_eq.mp hvalue).symm
  · rintro rfl
    cases hfind : EventType.all.find? fun t' => t'.value == t.value with
    | none => exact absurd (List.find?_eq_none.mp hfind t (mem_all t)) (by simp)
    | some t' =>
        have hvalue := List.find?_some hfind
        rw [value_injective (beq_iff_eq.mp hvalue)]

/-- Who produced an event, from where, and in which session. -/
structure EventMetadata where
  actor : String
  source : String
  correlationId : String
  sessionId : String
  deriving DecidableEq

/-- An event as the store returns it. Replay order is the order of `eventSequence`;
`version` counts the events of one project. -/
structure EventRecord where
  eventSequence : Nat
  id : UUID
  projectId : UUID
  streamId : String
  version : Nat
  eventType : EventType
  metadata : EventMetadata
  payload : JsonObj
  parentId : Option UUID
  recordedAt : Option DateTime
  schemaVersion : Json
  deriving DecidableEq

/-- `event.recorded_at.isoformat() if event.recorded_at else None`. -/
def EventRecord.recordedIso (event : EventRecord) : Json :=
  match event.recordedAt with
  | some t => .str t.isoformat
  | none => .null

/-- The event types every project stream has to contain, in the order they are checked. -/
def bootstrapTypes : List EventType :=
  [.projectCreated, .projectGoalSet, .projectFocusChanged]

/-- All three bootstrap event types occur. -/
def HasBootstrap (events : List EventRecord) : Prop :=
  ∀ t ∈ bootstrapTypes, t ∈ events.map EventRecord.eventType

instance (events : List EventRecord) : Decidable (HasBootstrap events) :=
  inferInstanceAs (Decidable (∀ t ∈ bootstrapTypes, t ∈ events.map EventRecord.eventType))

theorem HasBootstrap.append {A : List EventRecord} (h : HasBootstrap A) (B : List EventRecord) :
    HasBootstrap (A ++ B) := by
  intro t ht
  rw [List.map_append]
  exact List.mem_append_left _ (h t ht)

theorem HasBootstrap.ne_nil {A : List EventRecord} (h : HasBootstrap A) : A ≠ [] := by
  rintro rfl
  simpa [bootstrapTypes] using h .projectCreated (by simp [bootstrapTypes])

/-- `max(e.version for e in events) if events else 0`. -/
def maxVersion (events : List EventRecord) : Nat :=
  (events.map EventRecord.version).max?.getD 0

end RationaleVault
