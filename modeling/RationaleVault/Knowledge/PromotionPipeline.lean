import Mathlib.Algebra.Order.Field.Rat
import Mathlib.Tactic.Linarith
import Mathlib.Tactic.NormNum
import RationaleVault.Memory.Models
import RationaleVault.Projections.Knowledge

/-!
# Promotion of reflections to knowledge

A candidate is assessed, held against a policy, decided on and, if it is
approved, materialized as knowledge. The gate decides by its violations, so it
never defers. The status that the materializer stores is not the one the
knowledge projection derives; for an approved candidate of a strict policy the
stored one is never the better of the two.
-/

namespace RationaleVault.Knowledge

/-! ## Contracts -/

inductive PromotionType
  | lessonToInvariant
  | patternToPrinciple
  | failureToPattern
  | observationToFact
  | workflowToInvariant
  deriving DecidableEq

def PromotionType.value : PromotionType → String
  | lessonToInvariant => "LESSON_TO_INVARIANT"
  | patternToPrinciple => "PATTERN_TO_PRINCIPLE"
  | failureToPattern => "FAILURE_TO_PATTERN"
  | observationToFact => "OBSERVATION_TO_FACT"
  | workflowToInvariant => "WORKFLOW_TO_INVARIANT"

def PromotionType.members : List PromotionType :=
  [.lessonToInvariant, .patternToPrinciple, .failureToPattern, .observationToFact,
    .workflowToInvariant]

def knowledgeTypes : List KnowledgeType :=
  [.architecturePrinciple, .projectInvariant, .lesson, .failurePattern, .workflowPattern,
    .researchFinding, .decisionLineage]

inductive PromotionDecisionType
  | approve
  | reject
  | defer
  deriving DecidableEq

def PromotionDecisionType.value : PromotionDecisionType → String
  | approve => "APPROVE"
  | reject => "REJECT"
  | defer => "DEFER"

structure PromotionCandidate where
  candidateId : String
  sourceReflectionIds : List String
  promotionType : PromotionType
  knowledgeType : KnowledgeType
  knowledgeDomain : KnowledgeDomain
  title : String
  content : String
  confidence : FloatLit
  supportingEvidence : List String
  contradictingEvidence : List String
  createdAt : String

structure PromotionAssessment where
  candidateId : String
  confidenceScore : FloatLit
  evidenceRatio : ℚ
  supportingCount : Nat
  contradictingCount : Nat
  hasContradictions : Bool
  promotionTypeValid : Bool
  knowledgeTypeValid : Bool
  findings : List String
  warnings : List String

structure PromotionGatePolicy where
  version : String := "1.0"
  minConfidence : ℚ := 3 / 5
  minSupportingEvidence : Int := 2
  maxContradictingEvidence : Int := 0
  requireNoContradictions : Bool := true
  requireValidPromotionType : Bool := true
  requireValidKnowledgeType : Bool := true

structure PromotionGateResult where
  decision : PromotionDecisionType
  violations : List String
  warnings : List String
  evaluatedPolicyVersion : String
  version : String := "1.0"

structure KnowledgePromotionDecision where
  decisionId : String
  candidateId : String
  gateResultVersion : String
  decision : PromotionDecisionType
  knowledgeCandidateId : Option String
  reasons : List String
  createdAt : String

def KnowledgePromotionDecision.generateDecisionId (candidateId gateDecision createdAt : String) :
    String :=
  "PD-" ++ shortHash ("promotion_decision:" ++ candidateId ++ ":" ++ gateDecision ++ ":" ++
    createdAt)

structure KnowledgeCandidate where
  candidateId : String
  sourceDecisionId : String
  knowledgeType : KnowledgeType
  knowledgeDomain : KnowledgeDomain
  title : String
  content : String
  confidence : FloatLit
  importance : String
  transferability : KnowledgeTransferability
  supportingMemoryIds : List String
  contradictingMemoryIds : List String
  sourceReflectionIds : List String
  sourceLearningRecordIds : List String
  createdAt : String

def KnowledgeCandidate.generateCandidateId (sourceDecisionId : String)
    (knowledgeType : KnowledgeType) (createdAt : String) : String :=
  "KCAN-" ++ shortHash ("knowledge_candidate:" ++ sourceDecisionId ++ ":" ++
    knowledgeType.value ++ ":" ++ createdAt)

structure PromotionReport where
  reportId : String
  candidate : PromotionCandidate
  assessment : PromotionAssessment
  gateResult : PromotionGateResult
  decision : KnowledgePromotionDecision
  knowledgeCandidate : Option KnowledgeCandidate
  createdAt : String

def PromotionReport.generateReportId (decisionId createdAt : String) : String :=
  "PREP-" ++ shortHash ("promotion_report:" ++ decisionId ++ ":" ++ createdAt)

/-! ## The stages -/

section

-- `f"{x:.4f}"`
variable (fixed4 : ℚ → String)

/-- `PromotionAssessor.assess(candidate)`. -/
def PromotionAssessor.assess (candidate : PromotionCandidate) : PromotionAssessment :=
  let supporting := candidate.supportingEvidence.length
  let contradicting := candidate.contradictingEvidence.length
  let total := supporting + contradicting
  let evidenceRatio : ℚ := if 0 < total then supporting / total else 0
  let hasContradictions : Bool := 0 < contradicting
  let promotionTypeValid : Bool := candidate.promotionType ∈ PromotionType.members
  let knowledgeTypeValid : Bool := candidate.knowledgeType ∈ knowledgeTypes
  { candidateId := candidate.candidateId
    confidenceScore := candidate.confidence
    evidenceRatio := evidenceRatio
    supportingCount := supporting
    contradictingCount := contradicting
    hasContradictions := hasContradictions
    promotionTypeValid := promotionTypeValid
    knowledgeTypeValid := knowledgeTypeValid
    findings := [
      "Candidate has " ++ toString supporting ++ " supporting and " ++ toString contradicting ++
        " contradicting evidence",
      "Evidence ratio: " ++ fixed4 evidenceRatio,
      "Confidence: " ++ fixed4 candidate.confidence.value]
    warnings :=
      (if hasContradictions then
        ["Candidate has " ++ toString contradicting ++ " contradicting evidence items"] else []) ++
      (if candidate.confidence.value < 1 / 2 then
        ["Low confidence: " ++ fixed4 candidate.confidence.value] else []) ++
      (if promotionTypeValid then [] else
        ["Invalid promotion type: PromotionType." ++ candidate.promotionType.value]) ++
      (if knowledgeTypeValid then [] else
        ["Invalid knowledge type: KnowledgeType." ++ candidate.knowledgeType.value]) }

/-- The violations that `PromotionGate.apply` collects. -/
def PromotionGate.violations (assessment : PromotionAssessment) (policy : PromotionGatePolicy) :
    List String :=
  (if assessment.confidenceScore.value < policy.minConfidence then
    ["Confidence " ++ fixed4 assessment.confidenceScore.value ++ " below minimum " ++
      fixed4 policy.minConfidence] else []) ++
  (if assessment.supportingCount < policy.minSupportingEvidence then
    ["Supporting evidence " ++ toString assessment.supportingCount ++ " below minimum " ++
      toString policy.minSupportingEvidence] else []) ++
  (if policy.maxContradictingEvidence < assessment.contradictingCount then
    ["Contradicting evidence " ++ toString assessment.contradictingCount ++ " exceeds maximum " ++
      toString policy.maxContradictingEvidence] else []) ++
  (if policy.requireNoContradictions && assessment.hasContradictions then
    ["Policy requires no contradictions, but " ++ toString assessment.contradictingCount ++
      " found"] else []) ++
  (if policy.requireValidPromotionType && !assessment.promotionTypeValid then
    ["Invalid promotion type"] else []) ++
  (if policy.requireValidKnowledgeType && !assessment.knowledgeTypeValid then
    ["Invalid knowledge type"] else [])

def PromotionGate.apply (assessment : PromotionAssessment) (policy : PromotionGatePolicy) :
    PromotionGateResult :=
  let violations := PromotionGate.violations fixed4 assessment policy
  { decision := if violations ≠ [] then .reject else .approve
    violations := violations
    warnings := assessment.warnings
    evaluatedPolicyVersion := policy.version }

end

/-- `_classify_importance(confidence, evidence_ratio)`. -/
def classifyImportance (confidence evidenceRatio : ℚ) : String :=
  let composite := (confidence + evidenceRatio) / 2
  if 17 / 20 ≤ composite then "high"
  else if 13 / 20 ≤ composite then "medium"
  else "low"

/-- `_classify_transferability(domain)`. -/
def classifyTransferability : KnowledgeDomain → KnowledgeTransferability
  | .architecture => .reusable
  | .process => .organizational
  | _ => .localOnly

/-- `PromotionDecider.decide(candidate, assessment, gate_result, created_at)`. -/
def PromotionDecider.decide (candidate : PromotionCandidate) (assessment : PromotionAssessment)
    (gateResult : PromotionGateResult) (createdAt : String) :
    KnowledgePromotionDecision × Option KnowledgeCandidate :=
  let decisionId := KnowledgePromotionDecision.generateDecisionId candidate.candidateId
    gateResult.decision.value createdAt
  let decision (knowledgeCandidateId : Option String) (reasons : List String) :
      KnowledgePromotionDecision := {
    decisionId := decisionId
    candidateId := candidate.candidateId
    gateResultVersion := gateResult.version
    decision := gateResult.decision
    knowledgeCandidateId := knowledgeCandidateId
    reasons := reasons
    createdAt := createdAt }
  match gateResult.decision with
  | .reject => (decision none gateResult.violations, none)
  | .defer => (decision none ["Deferred pending further evidence"], none)
  | .approve =>
      let candidateId := KnowledgeCandidate.generateCandidateId decisionId candidate.knowledgeType
        createdAt
      (decision (some candidateId) ["All gate checks passed"], some {
        candidateId := candidateId
        sourceDecisionId := decisionId
        knowledgeType := candidate.knowledgeType
        knowledgeDomain := candidate.knowledgeDomain
        title := candidate.title
        content := candidate.content
        confidence := candidate.confidence
        importance := classifyImportance candidate.confidence.value assessment.evidenceRatio
        transferability := classifyTransferability candidate.knowledgeDomain
        supportingMemoryIds := candidate.supportingEvidence
        contradictingMemoryIds := candidate.contradictingEvidence
        sourceReflectionIds := candidate.sourceReflectionIds
        sourceLearningRecordIds := []
        createdAt := createdAt })

/-! ## The events of a promotion -/

structure PromotionCandidateCreatedPayload where
  schemaVersion : String := "1.0"
  candidateId : String
  sourceReflectionIds : List String
  promotionType : String
  knowledgeType : String
  knowledgeDomain : String
  title : String
  content : String
  confidence : FloatLit
  supportingEvidence : List String
  contradictingEvidence : List String
  createdAt : String

structure PromotionAssessedPayload where
  schemaVersion : String := "1.0"
  assessmentId : String
  candidateId : String
  confidenceScore : FloatLit
  evidenceRatio : ℚ
  supportingCount : Nat
  contradictingCount : Nat
  hasContradictions : Bool
  promotionTypeValid : Bool
  knowledgeTypeValid : Bool
  findings : List String
  warnings : List String
  createdAt : String

structure PromotionGatedPayload where
  schemaVersion : String := "1.0"
  gateResultId : String
  assessmentId : String
  candidateId : String
  decision : String
  policyVersion : String
  violations : List String
  warnings : List String
  createdAt : String

structure PromotionDecisionPayload where
  schemaVersion : String := "1.0"
  decisionId : String
  candidateId : String
  gateResultId : String
  decision : String
  knowledgeCandidateId : Option String
  reasons : List String
  createdAt : String

def generateAssessmentId (candidateId createdAt : String) : String :=
  "PASSMT-" ++ shortHash ("promotion_assessment:" ++ candidateId ++ ":" ++ createdAt)

def generateGateResultId (assessmentId decision createdAt : String) : String :=
  "PGATE-" ++ shortHash ("promotion_gate:" ++ assessmentId ++ ":" ++ decision ++ ":" ++ createdAt)

namespace PromotionPipeline

/-- `run(candidate, policy, created_at)`. -/
def run (fixed4 : ℚ → String) (candidate : PromotionCandidate) (policy : PromotionGatePolicy)
    (createdAt : String) : PromotionReport :=
  let assessment := PromotionAssessor.assess fixed4 candidate
  let gateResult := PromotionGate.apply fixed4 assessment policy
  let decided := PromotionDecider.decide candidate assessment gateResult createdAt
  { reportId := PromotionReport.generateReportId decided.1.decisionId createdAt
    candidate := candidate
    assessment := assessment
    gateResult := gateResult
    decision := decided.1
    knowledgeCandidate := decided.2
    createdAt := createdAt }

/-- `to_event_payloads(report)`. -/
def toEventPayloads (report : PromotionReport) :
    PromotionCandidateCreatedPayload × PromotionAssessedPayload × PromotionGatedPayload ×
      PromotionDecisionPayload :=
  let assessmentId := generateAssessmentId report.candidate.candidateId report.createdAt
  let gateResultId := generateGateResultId assessmentId report.gateResult.decision.value
    report.createdAt
  ({ candidateId := report.candidate.candidateId
     sourceReflectionIds := report.candidate.sourceReflectionIds
     promotionType := report.candidate.promotionType.value
     knowledgeType := report.candidate.knowledgeType.value
     knowledgeDomain := report.candidate.knowledgeDomain.value
     title := report.candidate.title
     content := report.candidate.content
     confidence := report.candidate.confidence
     supportingEvidence := report.candidate.supportingEvidence
     contradictingEvidence := report.candidate.contradictingEvidence
     createdAt := report.candidate.createdAt },
   { assessmentId := assessmentId
     candidateId := report.assessment.candidateId
     confidenceScore := report.assessment.confidenceScore
     evidenceRatio := report.assessment.evidenceRatio
     supportingCount := report.assessment.supportingCount
     contradictingCount := report.assessment.contradictingCount
     hasContradictions := report.assessment.hasContradictions
     promotionTypeValid := report.assessment.promotionTypeValid
     knowledgeTypeValid := report.assessment.knowledgeTypeValid
     findings := report.assessment.findings
     warnings := report.assessment.warnings
     createdAt := report.createdAt },
   { gateResultId := gateResultId
     assessmentId := assessmentId
     candidateId := report.candidate.candidateId
     decision := report.gateResult.decision.value
     policyVersion := report.gateResult.evaluatedPolicyVersion
     violations := report.gateResult.violations
     warnings := report.gateResult.warnings
     createdAt := report.createdAt },
   { decisionId := report.decision.decisionId
     candidateId := report.decision.candidateId
     gateResultId := gateResultId
     decision := report.decision.decision.value
     knowledgeCandidateId := report.decision.knowledgeCandidateId
     reasons := report.decision.reasons
     createdAt := report.createdAt })

end PromotionPipeline

/-! ## Materialization -/

/-- `_determine_initial_status(confidence, supporting, contradicting)`. -/
def determineInitialStatus (confidence : ℚ) (supporting contradicting : Nat) : EpistemicStatus :=
  if 0 < contradicting then .conflicted
  else if 4 / 5 ≤ confidence ∧ 3 ≤ supporting then .validated
  else .proposed

/-- `KnowledgeMaterializer.materialize(candidate, decision, project_id)`; `now` is the time at
which the provenance chain is built. -/
def KnowledgeMaterializer.materialize (u : UnicodeTables) (now : String)
    (candidate : KnowledgeCandidate) (decision : KnowledgePromotionDecision)
    (projectId : String) : KnowledgeObject :=
  let supporting := candidate.supportingMemoryIds.length
  let contradicting := candidate.contradictingMemoryIds.length
  let confidence : KnowledgeConfidence := {
    memoryCount := supporting
    sourceEventCount :=
      candidate.sourceReflectionIds.length + candidate.sourceLearningRecordIds.length
    contradictionCount := contradicting
    averageMemoryConfidence := candidate.confidence }
  let knowledgeId := generateKnowledgeId u candidate.knowledgeType.value candidate.title
    candidate.content projectId
  { id := knowledgeId
    version := 1
    title := candidate.title
    content := candidate.content
    knowledgeType := candidate.knowledgeType
    knowledgeDomain := candidate.knowledgeDomain
    confidence := confidence
    importance := candidate.importance
    provenance := {
      knowledgeId := knowledgeId
      sourceMemoryIds := candidate.supportingMemoryIds
      sourceEventIds := candidate.sourceReflectionIds
      synthesisEventId := decision.decisionId
      confidence := confidence
      evidenceCount := supporting
      createdAt := now }
    tags := []
    supportingMemoryIds := candidate.supportingMemoryIds
    contradictingMemoryIds := candidate.contradictingMemoryIds
    lifecycleStatus := KnowledgeLifecycle.active.value
    supersededBy := none
    createdAt := candidate.createdAt
    updatedAt := candidate.createdAt
    projectId := projectId
    transferability := candidate.transferability.value
    epistemicStatus :=
      determineInitialStatus candidate.confidence.value supporting contradicting }

/-! ## What a run decides -/

/-- What a policy asks of a candidate. -/
structure PromotionGatePolicy.Admits (policy : PromotionGatePolicy)
    (candidate : PromotionCandidate) : Prop where
  confidence : policy.minConfidence ≤ candidate.confidence.value
  supporting : policy.minSupportingEvidence ≤ candidate.supportingEvidence.length
  contradicting :
    (candidate.contradictingEvidence.length : Int) ≤ policy.maxContradictingEvidence
  uncontradicted : policy.requireNoContradictions = true → candidate.contradictingEvidence = []

variable {fixed4 : ℚ → String} {candidate : PromotionCandidate} {policy : PromotionGatePolicy}
  {createdAt : String}

/-- Every member of the two enumerations is valid, so these checks never fail. -/
theorem PromotionAssessor.assess_valid :
    (assess fixed4 candidate).promotionTypeValid = true ∧
      (assess fixed4 candidate).knowledgeTypeValid = true := by
  constructor
  · cases h : candidate.promotionType <;> simp [assess, h, PromotionType.members]
  · cases h : candidate.knowledgeType <;> simp [assess, h, knowledgeTypes]

theorem PromotionGate.violations_eq_nil_iff :
    violations fixed4 (PromotionAssessor.assess fixed4 candidate) policy = [] ↔
      policy.Admits candidate := by
  obtain ⟨htype, hknowledge⟩ := @PromotionAssessor.assess_valid fixed4 candidate
  rw [violations, htype, hknowledge]
  simp only [PromotionAssessor.assess, List.append_eq_nil_iff, ite_eq_right_iff, reduceCtorEq,
    imp_false, not_lt, Bool.and_eq_true, decide_eq_true_eq, Bool.not_true, Bool.and_false,
    Bool.false_eq_true, not_false_eq_true, and_true, not_and, Nat.le_zero,
    List.length_eq_zero_iff]
  exact ⟨fun ⟨⟨⟨h, h'⟩, h''⟩, h'''⟩ => ⟨h, h', h'', h'''⟩,
    fun h => ⟨⟨⟨h.confidence, h.supporting⟩, h.contradicting⟩, h.uncontradicted⟩⟩

/-- The gate approves what the policy admits and rejects everything else. -/
theorem PromotionGate.decision_apply :
    (apply fixed4 (PromotionAssessor.assess fixed4 candidate) policy).decision = .approve ∧
        policy.Admits candidate ∨
      (apply fixed4 (PromotionAssessor.assess fixed4 candidate) policy).decision = .reject ∧
        ¬ policy.Admits candidate := by
  rw [← @violations_eq_nil_iff fixed4, apply]
  by_cases h : violations fixed4 (PromotionAssessor.assess fixed4 candidate) policy = []
  · exact Or.inl ⟨if_neg (not_not_intro h), h⟩
  · exact Or.inr ⟨if_pos h, h⟩

namespace PromotionDecider

variable (candidate : PromotionCandidate) (assessment : PromotionAssessment)
  {gateResult : PromotionGateResult} (createdAt : String)

/-- The knowledge candidate of an approval and what the decision says of it. -/
theorem decide_approve (h : gateResult.decision = .approve) :
    ∃ kc, (decide candidate assessment gateResult createdAt).2 = some kc ∧
      (decide candidate assessment gateResult createdAt).1.knowledgeCandidateId =
        some kc.candidateId ∧
      kc.sourceDecisionId = (decide candidate assessment gateResult createdAt).1.decisionId ∧
      kc.supportingMemoryIds = candidate.supportingEvidence ∧
      kc.contradictingMemoryIds = candidate.contradictingEvidence ∧
      kc.confidence = candidate.confidence := by
  simp only [decide, h]
  exact ⟨_, rfl, rfl, rfl, rfl, rfl, rfl⟩

theorem decide_reject (h : gateResult.decision = .reject) :
    (decide candidate assessment gateResult createdAt).2 = none ∧
      (decide candidate assessment gateResult createdAt).1.knowledgeCandidateId = none ∧
      (decide candidate assessment gateResult createdAt).1.reasons = gateResult.violations := by
  simp only [decide, h, and_self]

/-- The decision that is recorded is the one of the gate. -/
theorem decision_decide (gateResult : PromotionGateResult) :
    (decide candidate assessment gateResult createdAt).1.decision = gateResult.decision ∧
      (decide candidate assessment gateResult createdAt).1.candidateId = candidate.candidateId := by
  cases h : gateResult.decision <;> simp [decide, h]

end PromotionDecider

namespace PromotionPipeline

/-- The ids by which each event of a promotion refers to the ones before it. -/
structure Linked (created : PromotionCandidateCreatedPayload)
    (assessed : PromotionAssessedPayload) (gated : PromotionGatedPayload)
    (decided : PromotionDecisionPayload) : Prop where
  assessed_candidate : assessed.candidateId = created.candidateId
  gated_candidate : gated.candidateId = created.candidateId
  gated_assessment : gated.assessmentId = assessed.assessmentId
  decided_candidate : decided.candidateId = created.candidateId
  decided_gate : decided.gateResultId = gated.gateResultId
  decided_decision : decided.decision = gated.decision

/-- What a run comes to: an admitted candidate is approved and its knowledge candidate carries its
evidence and the id of the decision, and any other is rejected for the violations of the gate. -/
inductive Outcome (report : PromotionReport) (policy : PromotionGatePolicy)
    (decided : PromotionDecisionPayload) : Prop
  | approved (kc : KnowledgeCandidate) (admits : policy.Admits report.candidate)
      (decision : decided.decision = "APPROVE") (violations : report.gateResult.violations = [])
      (built : report.knowledgeCandidate = some kc)
      (built_id : decided.knowledgeCandidateId = some kc.candidateId)
      (source : kc.sourceDecisionId = decided.decisionId)
      (supporting : kc.supportingMemoryIds = report.candidate.supportingEvidence)
      (contradicting : kc.contradictingMemoryIds = report.candidate.contradictingEvidence)
      (confidence : kc.confidence = report.candidate.confidence)
  | rejected (refused : ¬ policy.Admits report.candidate)
      (decision : decided.decision = "REJECT") (violations : report.gateResult.violations ≠ [])
      (built : report.knowledgeCandidate = none)
      (built_id : decided.knowledgeCandidateId = none)
      (reasons : decided.reasons = report.gateResult.violations)

variable (fixed4 : ℚ → String) (candidate : PromotionCandidate) (policy : PromotionGatePolicy)
  (createdAt : String)

theorem run_outcome : Outcome (run fixed4 candidate policy createdAt) policy
    (toEventPayloads (run fixed4 candidate policy createdAt)).2.2.2 := by
  have hdecision := (PromotionDecider.decision_decide candidate
    (PromotionAssessor.assess fixed4 candidate) createdAt
    (run fixed4 candidate policy createdAt).gateResult).1
  rcases @PromotionGate.decision_apply fixed4 candidate policy with ⟨hgate, h⟩ | ⟨hgate, h⟩
  · obtain ⟨kc, hbuilt, hid, hsource, hsupporting, hcontradicting, hconfidence⟩ :=
      PromotionDecider.decide_approve candidate (PromotionAssessor.assess fixed4 candidate)
        createdAt hgate
    exact .approved kc h (congrArg PromotionDecisionType.value (hdecision.trans hgate))
      (PromotionGate.violations_eq_nil_iff.mpr h) hbuilt hid hsource hsupporting hcontradicting
      hconfidence
  · obtain ⟨hbuilt, hid, hreasons⟩ := PromotionDecider.decide_reject candidate
      (PromotionAssessor.assess fixed4 candidate) createdAt hgate
    exact .rejected h (congrArg PromotionDecisionType.value (hdecision.trans hgate))
      (fun hnil => h (PromotionGate.violations_eq_nil_iff.mp hnil)) hbuilt hid hreasons

/-- The four events of a promotion form a chain, and the last of them says whether the policy
admits the candidate of the first. -/
theorem events_of_run : ∃ created assessed gated decided,
    toEventPayloads (run fixed4 candidate policy createdAt) =
        (created, assessed, gated, decided) ∧
      created.candidateId = candidate.candidateId ∧ Linked created assessed gated decided ∧
      Outcome (run fixed4 candidate policy createdAt) policy decided := by
  obtain ⟨hdecision, hid⟩ := PromotionDecider.decision_decide candidate
    (PromotionAssessor.assess fixed4 candidate) createdAt
    (run fixed4 candidate policy createdAt).gateResult
  exact ⟨_, _, _, _, rfl, rfl,
    ⟨rfl, rfl, rfl, hid, rfl, congrArg PromotionDecisionType.value hdecision⟩,
    run_outcome fixed4 candidate policy createdAt⟩

end PromotionPipeline

/-! ## Stored and derived status -/

namespace KnowledgeMaterializer

open KnowledgeProjection (deriveEpistemicStatus)

/-- Without contradictions and with a memory, the score is at least what confidence and evidence
give. -/
theorem le_score {c : KnowledgeConfidence} {q : ℚ} (hmemories : c.memoryCount ≠ 0)
    (hcontradictions : c.contradictionCount = 0) (hone : q ≤ 1)
    (h : q ≤ c.averageMemoryConfidence.value + min (1 / 5 : ℚ) (c.memoryCount * (1 / 20 : ℚ))) :
    q ≤ c.score := by
  rw [KnowledgeConfidence.score, if_neg hmemories, hcontradictions]
  refine le_max_of_le_right (le_min hone ?_)
  rwa [Int.cast_zero, zero_mul, sub_zero]

theorem derive_of_contradicted {k : KnowledgeObject}
    (hactive : k.lifecycleStatus = KnowledgeLifecycle.active.value)
    (h : k.contradictingMemoryIds ≠ []) : deriveEpistemicStatus k = .conflicted := by
  rw [deriveEpistemicStatus, hactive, if_neg (by decide), if_pos (List.length_pos_iff.mpr h)]

/-- An active object that nothing contradicts is shown as proposed, validated or invariant, and not
as proposed from a score of 0.7 on. -/
theorem derive_of_uncontradicted {k : KnowledgeObject}
    (hactive : k.lifecycleStatus = KnowledgeLifecycle.active.value)
    (h : k.contradictingMemoryIds = []) :
    deriveEpistemicStatus k ≠ .conflicted ∧
      (7 / 10 ≤ k.confidence.score →
        deriveEpistemicStatus k = .validated ∨ deriveEpistemicStatus k = .invariant) := by
  have hzero : ¬ 0 < k.contradictingMemoryIds.length := by rw [h]; decide
  rw [deriveEpistemicStatus, hactive, if_neg (by decide), if_neg hzero]
  constructor
  · split_ifs <;> simp
  · intro hscore
    rw [if_pos hscore]
    split_ifs <;> simp

variable (u : UnicodeTables) (now : String) (kc : KnowledgeCandidate)
  (decision : KnowledgePromotionDecision) (projectId : String)

theorem le_score_materialize (h : kc.contradictingMemoryIds = [])
    (hsupporting : 0 < kc.supportingMemoryIds.length)
    (hscore : 7 / 10 ≤
      kc.confidence.value + min (1 / 5 : ℚ) (kc.supportingMemoryIds.length * (1 / 20 : ℚ))) :
    7 / 10 ≤ (materialize u now kc decision projectId).confidence.score :=
  le_score (Int.natCast_ne_zero.mpr hsupporting.ne') (by simp [materialize, h]) (by norm_num)
    (by simpa [materialize] using hscore)

/-- The stored and the derived status agree on conflicts, and what is stored as validated is shown
as validated or better. -/
theorem status_agrees :
    ((materialize u now kc decision projectId).epistemicStatus = .conflicted ↔
      deriveEpistemicStatus (materialize u now kc decision projectId) = .conflicted) ∧
    ((materialize u now kc decision projectId).epistemicStatus = .validated →
      deriveEpistemicStatus (materialize u now kc decision projectId) = .validated ∨
        deriveEpistemicStatus (materialize u now kc decision projectId) = .invariant) := by
  by_cases h : kc.contradictingMemoryIds = []
  · obtain ⟨hconflict, hvalid⟩ :=
      derive_of_uncontradicted (k := materialize u now kc decision projectId) rfl h
    have hstored : (materialize u now kc decision projectId).epistemicStatus =
        if 4 / 5 ≤ kc.confidence.value ∧ 3 ≤ kc.supportingMemoryIds.length then .validated
        else .proposed :=
      if_neg (by rw [h]; decide)
    rw [hstored]
    split_ifs with hstrong
    · refine ⟨by simp [hconflict], fun _ => hvalid ?_⟩
      have hthree : (3 : ℚ) ≤ kc.supportingMemoryIds.length := by exact_mod_cast hstrong.2
      apply le_score_materialize u now kc decision projectId h (by omega)
      have hboost : (0 : ℚ) ≤ min (1 / 5 : ℚ) (kc.supportingMemoryIds.length * (1 / 20 : ℚ)) :=
        le_min (by norm_num) (by linarith)
      linarith [hstrong.1]
    · exact ⟨by simp [hconflict], fun hcontra => by cases hcontra⟩
  · have hstored : (materialize u now kc decision projectId).epistemicStatus = .conflicted :=
      if_pos (List.length_pos_iff.mpr h)
    have hderived :=
      derive_of_contradicted (k := materialize u now kc decision projectId) rfl h
    rw [hstored, hderived]
    simp

end KnowledgeMaterializer

/-- Under a policy that admits no contradictions, asks for a memory and for enough confidence and
evidence together, whatever a run approves is materialized without a conflict and shown as
validated or better, also where it is stored as proposed. -/
theorem PromotionPipeline.shown_validated_of_approved (u : UnicodeTables) (fixed4 : ℚ → String)
    (candidate : PromotionCandidate) (policy : PromotionGatePolicy)
    (createdAt now projectId : String)
    (huncontradicted :
      policy.requireNoContradictions = true ∨ policy.maxContradictingEvidence ≤ 0)
    (hsupporting : 0 < policy.minSupportingEvidence)
    (hscore : 7 / 10 ≤
      policy.minConfidence + min (1 / 5 : ℚ) (policy.minSupportingEvidence * (1 / 20 : ℚ)))
    (kc : KnowledgeCandidate)
    (hkc : (run fixed4 candidate policy createdAt).knowledgeCandidate = some kc) :
    let k := KnowledgeMaterializer.materialize u now kc
      (run fixed4 candidate policy createdAt).decision projectId
    k.epistemicStatus ≠ .conflicted ∧
      (KnowledgeProjection.deriveEpistemicStatus k = .validated ∨
        KnowledgeProjection.deriveEpistemicStatus k = .invariant) := by
  intro k
  obtain ⟨kc', hadmits, -, -, hbuilt, -, -, hsup, hcontra, hconf⟩ |
    ⟨-, -, -, hbuilt, -, -⟩ := run_outcome fixed4 candidate policy createdAt
  · obtain rfl : kc' = kc := Option.some.inj (hbuilt.symm.trans hkc)
    have hnone : candidate.contradictingEvidence = [] := by
      rcases huncontradicted with h | h
      · exact hadmits.uncontradicted h
      · have hle : (candidate.contradictingEvidence.length : Int) ≤ 0 :=
          hadmits.contradicting.trans h
        exact List.length_eq_zero_iff.mp (by omega)
    have hcount : policy.minSupportingEvidence ≤ kc'.supportingMemoryIds.length :=
      hsup ▸ hadmits.supporting
    have hcountQ : (policy.minSupportingEvidence : ℚ) ≤ kc'.supportingMemoryIds.length := by
      exact_mod_cast hcount
    have hconfidence : policy.minConfidence ≤ kc'.confidence.value := hconf ▸ hadmits.confidence
    have hderived := KnowledgeMaterializer.derive_of_uncontradicted (k := k) rfl
      (hcontra.trans hnone)
    refine ⟨fun h => hderived.1 ((KnowledgeMaterializer.status_agrees u now kc' _ projectId).1.mp h),
      hderived.2 ?_⟩
    apply KnowledgeMaterializer.le_score_materialize u now kc' _ projectId (hcontra.trans hnone)
      (by omega)
    refine hscore.trans (add_le_add hconfidence (min_le_min_left _ ?_))
    linarith
  · rw [hbuilt] at hkc
    cases hkc

/-- A candidate that the default policy admits. -/
def observedFact : PromotionCandidate where
  candidateId := "PROMO-1"
  sourceReflectionIds := ["REFL-1"]
  promotionType := .observationToFact
  knowledgeType := .lesson
  knowledgeDomain := .process
  title := "t"
  content := "c"
  confidence := .one
  supportingEvidence := ["LEARN-1", "LEARN-2"]
  contradictingEvidence := []
  createdAt := "2026-01-01"

theorem admits_observedFact : PromotionGatePolicy.Admits {} observedFact :=
  ⟨by decide +kernel, by decide, by decide, fun _ => rfl⟩

theorem PromotionPipeline.shown_validated_observedFact :
    ∃ kc, (run (fun _ => "") observedFact {} "").knowledgeCandidate = some kc ∧
      let k := KnowledgeMaterializer.materialize .asciiOnly "" kc
        (run (fun _ => "") observedFact {} "").decision ""
      k.epistemicStatus ≠ .conflicted ∧
        (KnowledgeProjection.deriveEpistemicStatus k = .validated ∨
          KnowledgeProjection.deriveEpistemicStatus k = .invariant) := by
  obtain ⟨kc, hkc, -⟩ := PromotionDecider.decide_approve observedFact _ ""
    (PromotionGate.decision_apply.resolve_right fun h => h.2 admits_observedFact).1
  exact ⟨kc, hkc, shown_validated_of_approved .asciiOnly (fun _ => "") observedFact {} "" "" ""
    (Or.inl rfl) (by decide) (by norm_num) kc hkc⟩

end RationaleVault.Knowledge
