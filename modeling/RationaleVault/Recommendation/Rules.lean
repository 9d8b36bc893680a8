import Mathlib.Data.Prod.Lex
import Mathlib.Data.String.Basic
import RationaleVault.Library.Sha256
import RationaleVault.Library.Table
import RationaleVault.PythonText
import RationaleVault.Schema.Events

/-!
# Recommendation rules

A rule looks at one event and may draw a recommendation from it. A registry hands
its rules out in the order of their ids and versions.
-/

namespace RationaleVault

inductive RecommendationCategory
  | nextAction
  | knowledgeGap
  | risk
  | optimization
  | followUp
  deriving DecidableEq

namespace RecommendationCategory

def value : RecommendationCategory → String
  | nextAction => "next_action"
  | knowledgeGap => "knowledge_gap"
  | risk => "risk"
  | optimization => "optimization"
  | followUp => "follow_up"

/-- `RecommendationCategory(value)`. -/
def ofValue (v : Json) : Except Exc RecommendationCategory :=
  v.enum [.nextAction, .knowledgeGap, .risk, .optimization, .followUp] value
    "is not a valid RecommendationCategory"

theorem ofValue_value (c : RecommendationCategory) : ofValue (.str c.value) = .ok c :=
  Json.enum_value (by decide) (by cases c <;> decide) _

end RecommendationCategory

structure EvidenceReference where
  sequence : Nat
  reason : Option String := none
  deriving DecidableEq

structure RecommendationRuleMetadata where
  id : String
  version : Int
  category : RecommendationCategory
  deriving DecidableEq

structure Recommendation where
  id : String
  ruleId : String
  ruleVersion : Int
  targetEntity : Json
  category : RecommendationCategory
  priority : FloatLit
  rationale : String
  evidence : List EvidenceReference := []
  createdAt : Option DateTime := none
  eventType : Option EventType := none
  deriving DecidableEq

/-- `Recommendation.make_id(projection_version, rule_id, rule_version, target_entity,
triggering_sequence)`. -/
def Recommendation.makeId (fmt : FormatText) (projectionVersion : Int) (ruleId : String)
    (ruleVersion : Int) (targetEntity : Json) (triggeringSequence : Nat) : String :=
  let raw := toString projectionVersion ++ ":" ++ ruleId ++ ":" ++ toString ruleVersion ++ ":" ++
    fmt.format targetEntity ++ ":" ++ toString triggeringSequence
  String.ofList ((Sha256.hexdigest raw).toList.take 16)

/-- A rule. Rules other than the default ones may raise. -/
structure RecommendationRule where
  metadata : RecommendationRuleMetadata
  apply : EventRecord → Int → Except Exc (Option Recommendation)

namespace RecommendationRule

variable (fmt : FormatText)

/-- A rule that draws a recommendation about the target from every event of one type. -/
def onEvent (metadata : RecommendationRuleMetadata) (eventType : EventType)
    (skips : JsonObj → Bool) (target : JsonObj → Json) (priority : FloatLit)
    (rationale : JsonObj → String) : RecommendationRule where
  metadata := metadata
  apply event projectionVersion :=
    if event.eventType ≠ eventType then .ok none
    else if skips event.payload then .ok none
    else .ok (some
      { id := Recommendation.makeId fmt projectionVersion metadata.id metadata.version
          (target event.payload) event.eventSequence
        ruleId := metadata.id
        ruleVersion := metadata.version
        targetEntity := target event.payload
        category := metadata.category
        priority := priority
        rationale := rationale event.payload
        evidence := [⟨event.eventSequence, some "triggering_event"⟩]
        createdAt := event.recordedAt
        eventType := some event.eventType })

/-- `payload.get("knowledge_id", payload.get("id", ""))`. -/
def knowledgeId (payload : JsonObj) : Json :=
  payload.getD "knowledge_id" (payload.getD "id" (.str ""))

/-- `KnowledgeGapRule`. -/
def knowledgeGap : RecommendationRule :=
  onEvent fmt ⟨"knowledge_gap_rule", 1, .knowledgeGap⟩ .knowledgeCreated
    (fun payload => (payload.get "related_to").truthy) knowledgeId
    ⟨['0', '.', '8', '5'], by decide⟩
    fun payload => "Knowledge '" ++ fmt.format (payload.getD "title" (.str "untitled")) ++
      "' created without cross-references. Review existing knowledge for overlap."

/-- `TaskFollowUpRule`. -/
def taskFollowUp : RecommendationRule :=
  onEvent fmt ⟨"task_follow_up_rule", 1, .followUp⟩ .taskCompleted
    (fun _ => false) (fun payload => payload.getD "task_id" (.str ""))
    ⟨['0', '.', '6', '5'], by decide⟩
    fun payload => "Task '" ++ fmt.format (payload.getD "title" (.str "untitled")) ++
      "' completed. Consider review or follow-up actions."

/-- `DecisionReviewRule`. -/
def decisionReview : RecommendationRule :=
  onEvent fmt ⟨"decision_review_rule", 1, .optimization⟩ .decisionAccepted
    (fun _ => false) (fun payload => payload.getD "decision_id" (.str ""))
    ⟨['0', '.', '5', '5'], by decide⟩
    fun payload => "Decision '" ++ fmt.format (payload.getD "title" (.str "untitled")) ++
      "' accepted. Document rationale for future reference."

/-- `QuestionResolutionRule`. -/
def questionResolution : RecommendationRule :=
  onEvent fmt ⟨"question_resolution_rule", 1, .nextAction⟩ .openQuestionResolved
    (fun _ => false) (fun payload => payload.getD "question_id" (.str ""))
    ⟨['0', '.', '7', '5'], by decide⟩
    fun payload => "Question '" ++ fmt.format (payload.getD "question" (.str "")) ++
      "' resolved. Consider converting resolution to knowledge."

/-- `KnowledgeDeletionRiskRule`. -/
def knowledgeDeletionRisk : RecommendationRule :=
  onEvent fmt ⟨"knowledge_deletion_risk_rule", 1, .risk⟩ .knowledgeDeleted
    (fun _ => false) knowledgeId
    ⟨['0', '.', '4', '5'], by decide⟩
    fun payload => "Knowledge '" ++ fmt.format (knowledgeId payload) ++
      "' deleted. Review for potential knowledge loss."

end RecommendationRule

/-- A frozen registry: no two rules have the same id and version. -/
structure RecommendationRuleRegistry where
  registered : List RecommendationRule
  keys_nodup : (registered.map fun rule => (rule.metadata.id, rule.metadata.version)).Nodup

namespace RecommendationRuleRegistry

/-- `rules()`. -/
def rules (registry : RecommendationRuleRegistry) : List RecommendationRule :=
  Table.orderBy (fun rule => toLex (rule.metadata.id, rule.metadata.version)) registry.registered

/-- `create_default_registry()`. -/
def createDefault (fmt : FormatText) : RecommendationRuleRegistry where
  registered := [.knowledgeGap fmt, .taskFollowUp fmt, .decisionReview fmt,
    .questionResolution fmt, .knowledgeDeletionRisk fmt]
  keys_nodup := by
    change ([("knowledge_gap_rule", 1), ("task_follow_up_rule", 1), ("decision_review_rule", 1),
      ("question_resolution_rule", 1), ("knowledge_deletion_risk_rule", 1)] :
        List (String × Int)).Nodup
    decide

end RecommendationRuleRegistry

/-! ## What the default rules draw -/

/-- The recommendation of a default rule carries the time of its event. -/
theorem RecommendationRuleRegistry.createdAt_createDefault (fmt : FormatText)
    {rule : RecommendationRule} (hrule : rule ∈ (createDefault fmt).rules) {event : EventRecord}
    {version : Int} {r : Recommendation} (h : rule.apply event version = .ok (some r)) :
    r.createdAt = event.recordedAt := by
  have hevent : ∃ metadata eventType skips target priority rationale,
      rule = .onEvent fmt metadata eventType skips target priority rationale := by
    rw [rules, Table.mem_orderBy] at hrule
    simp only [createDefault, List.mem_cons, List.not_mem_nil, or_false] at hrule
    rcases hrule with rfl | rfl | rfl | rfl | rfl
    all_goals exact ⟨_, _, _, _, _, _, rfl⟩
  obtain ⟨metadata, eventType, skips, target, priority, rationale, rfl⟩ := hevent
  rw [RecommendationRule.onEvent] at h
  dsimp only at h
  split at h
  · cases h
  · split at h
    · cases h
    · rw [← Option.some.inj (Except.ok.inj h)]

end RationaleVault
