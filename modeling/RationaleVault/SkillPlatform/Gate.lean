import RationaleVault.MarkdownProvider
import RationaleVault.Memory.Models

/-!
# Execution gates

The gate runs its rules and keeps the reasons of those that fail. What it decides depends on
these texts and not on the verdicts, so that a rule that fails without a reason blocks nothing.
-/

namespace RationaleVault.SkillPlatform

/-! ## Records -/

inductive PromotionDecisionType
  | pass
  | block
  | review
  deriving DecidableEq

structure ExecutionScoreBreakdown where
  successComponent : ℚ := 0
  timeoutPenalty : ℚ := 0
  denialPenalty : ℚ := 0
  validationPenalty : ℚ := 0
  policyBonus : ℚ := 0

structure ExecutionEvaluation where
  version : String := "1.0"
  successRate : ℚ := 0
  timeoutRate : ℚ := 0
  denialRate : ℚ := 0
  passed : Bool := false
  score : ℚ := 0
  breakdown : ExecutionScoreBreakdown := {}
  findings : List String := []
  warnings : List String := []
  recommendedActions : List String := []

structure ExecutionGatePolicy where
  version : String := "1.0"
  minSuccessRate : ℚ := 9 / 10
  maxTimeoutRate : ℚ := 1 / 20
  maxDenialRate : ℚ := 1 / 20
  minOverallScore : ℚ := 19 / 20
  allowWarnings : Bool := true
  maxWarnings : Int := 5
  requireProvenance : Bool := true
  maxDurationMs : Option Int := none

structure GateResult where
  decision : PromotionDecisionType
  violations : List String
  warnings : List String
  evaluatedPolicyVersion : String
  version : String := "1.0"

structure PromotionDecision where
  decision : PromotionDecisionType
  artifactIds : List String
  reasons : List String
  policyVersion : String
  version : String := "1.0"

/-- What of a candidate goes into the id of its artifact. -/
structure ArtifactCandidate where
  candidateId : String
  hash : String

/-- `ArtifactCandidate.generate_candidate_id(skill_id, execution_id, content_hash)`. -/
def ArtifactCandidate.generateCandidateId (skillId executionId contentHash : String) : String :=
  "ACAND-" ++
    shortHash ("candidate_artifact:" ++ skillId ++ ":" ++ executionId ++ ":" ++ contentHash)

/-! ## Rules -/

/-- A rule tells whether an evaluation passes, and the reason why not, if it has one. -/
structure GateRule where
  evaluate : ExecutionEvaluation → ExecutionGatePolicy → Bool × Option String

namespace GateRule

/-- The rule fails the evaluation. -/
def Fails (rule : GateRule) (evaluation : ExecutionEvaluation) (policy : ExecutionGatePolicy) :
    Prop :=
  (rule.evaluate evaluation policy).1 = false

/-- The reason of the rule is a nonempty text. -/
def States (rule : GateRule) (evaluation : ExecutionEvaluation) (policy : ExecutionGatePolicy) :
    Prop :=
  (rule.evaluate evaluation policy).2.getD "" ≠ ""

instance (rule : GateRule) (evaluation : ExecutionEvaluation) (policy : ExecutionGatePolicy) :
    Decidable (rule.Fails evaluation policy) :=
  inferInstanceAs (Decidable (_ = _))

instance (rule : GateRule) (evaluation : ExecutionEvaluation) (policy : ExecutionGatePolicy) :
    Decidable (rule.States evaluation policy) :=
  inferInstanceAs (Decidable (_ ≠ _))

/-- What the rule adds to the violations. -/
def violation (rule : GateRule) (evaluation : ExecutionEvaluation) (policy : ExecutionGatePolicy) :
    Option String :=
  if rule.Fails evaluation policy ∧ rule.States evaluation policy then
    (rule.evaluate evaluation policy).2
  else none

/-- The rule has a reason for whatever it fails. -/
def Reasoned (rule : GateRule) : Prop :=
  ∀ evaluation policy, rule.Fails evaluation policy → rule.States evaluation policy

theorem violation_isSome {rule : GateRule} {evaluation : ExecutionEvaluation}
    {policy : ExecutionGatePolicy} :
    (rule.violation evaluation policy).isSome ↔
      rule.Fails evaluation policy ∧ rule.States evaluation policy := by
  rw [violation]
  split_ifs with h
  · refine iff_of_true ?_ h
    cases hreason : (rule.evaluate evaluation policy).2 with
    | none => exact absurd (by rw [hreason]; rfl) h.2
    | some reason => rfl
  · simp [h]

variable (float : FloatText)

/-- A rule that fails an evaluation whose measure and the limit of the policy are in relation. -/
def limited (fails : ℚ → ℚ → Bool) (label relation : String) (measure : ExecutionEvaluation → ℚ)
    (limit : ExecutionGatePolicy → ℚ) : GateRule where
  evaluate evaluation policy :=
    if fails (measure evaluation) (limit policy) then
      (false, some (label ++ " " ++ String.ofList (float.fixed2 (measure evaluation)) ++ " " ++
        relation ++ " " ++ String.ofList (float.fixed2 (limit policy))))
    else (true, none)

def successRateRule : GateRule :=
  limited float (fun rate limit => rate < limit) "Success rate" "below minimum"
    (·.successRate) (·.minSuccessRate)

def timeoutRateRule : GateRule :=
  limited float (fun rate limit => limit < rate) "Timeout rate" "exceeds maximum"
    (·.timeoutRate) (·.maxTimeoutRate)

def denialRateRule : GateRule :=
  limited float (fun rate limit => limit < rate) "Denial rate" "exceeds maximum"
    (·.denialRate) (·.maxDenialRate)

def overallScoreRule : GateRule :=
  limited float (fun score limit => score < limit) "Overall score" "below minimum"
    (·.score) (·.minOverallScore)

/-- The rules of a gate that is given none. -/
def defaultRules : List GateRule :=
  [successRateRule float, timeoutRateRule float, denialRateRule float, overallScoreRule float]

variable {float}

theorem limited_reasoned (fails : ℚ → ℚ → Bool) (label relation : String)
    (measure : ExecutionEvaluation → ℚ) (limit : ExecutionGatePolicy → ℚ) :
    (limited float fails label relation measure limit).Reasoned := by
  intro evaluation policy hfails
  by_cases hlimit : fails (measure evaluation) (limit policy) = true
  · simp [States, limited, hlimit]
  · simp [Fails, limited, hlimit] at hfails

theorem reasoned_of_mem_defaultRules {rule : GateRule} (h : rule ∈ defaultRules float) :
    rule.Reasoned := by
  simp only [defaultRules, List.mem_cons, List.not_mem_nil, or_false] at h
  obtain rfl | rfl | rfl | rfl := h <;> exact limited_reasoned _ _ _ _ _

end GateRule

/-! ## The gate -/

/-- The warnings exceed what the policy allows. -/
def ExecutionGatePolicy.WarningsExceeded (policy : ExecutionGatePolicy) (warnings : List String) :
    Prop :=
  policy.allowWarnings = false ∧ warnings ≠ [] ∨ policy.maxWarnings < warnings.length

namespace ExecutionGate

/-- What the warnings add to the violations. -/
def warningViolations (policy : ExecutionGatePolicy) (warnings : List String) : List String :=
  if policy.allowWarnings = false ∧ 0 < warnings.length then ["Policy forbids execution warnings"]
  else if policy.maxWarnings < warnings.length then
    ["Warnings count " ++ toString warnings.length ++ " exceeds max " ++
      toString policy.maxWarnings]
  else []

/-- `ExecutionGate.evaluate(evaluation, policy, rules)`. -/
def evaluate (float : FloatText) (evaluation : ExecutionEvaluation) (policy : ExecutionGatePolicy)
    (rules : Option (List GateRule)) : GateResult :=
  let violations := warningViolations policy evaluation.warnings ++
    (rules.getD (GateRule.defaultRules float)).filterMap fun rule =>
      rule.violation evaluation policy
  { decision :=
      if violations ≠ [] then .block else if evaluation.warnings ≠ [] then .review else .pass
    violations := violations
    warnings := evaluation.warnings
    evaluatedPolicyVersion := policy.version }

end ExecutionGate

/-- `ExecutionPromoter.promote(gate_result, candidates, policy_version)`. -/
def ExecutionPromoter.promote (gateResult : GateResult) (candidates : List ArtifactCandidate)
    (policyVersion : String) : PromotionDecision :=
  if gateResult.decision = .block then
    { decision := .block
      artifactIds := []
      reasons := ["Blocked by gate rules: " ++ ", ".intercalate gateResult.violations]
      policyVersion := policyVersion }
  else if gateResult.decision = .review then
    { decision := .review
      artifactIds := []
      reasons := ["Review required due to warnings: " ++ ", ".intercalate gateResult.warnings]
      policyVersion := policyVersion }
  else
    { decision := .pass
      artifactIds := candidates.map fun c =>
        (ArtifactCandidate.generateCandidateId c.candidateId "promoted" c.hash).replace "ACAND-"
          "ART-"
      reasons := ["All gate checks passed. Promoted artifacts."]
      policyVersion := policyVersion }

namespace ExecutionGate

variable {float : FloatText} {evaluation : ExecutionEvaluation} {policy : ExecutionGatePolicy}
variable {rules : Option (List GateRule)}

/-- The gate blocks what the rules or the policy do not let pass, and nothing is promoted that a
rule fails. -/
structure Enforces (float : FloatText) (evaluation : ExecutionEvaluation)
    (policy : ExecutionGatePolicy) (rules : Option (List GateRule)) : Prop where
  block : (evaluate float evaluation policy rules).decision = .block ↔
    (∃ rule ∈ rules.getD (GateRule.defaultRules float), rule.Fails evaluation policy) ∨
      policy.WarningsExceeded evaluation.warnings
  promote : ∀ candidates policyVersion,
    (ExecutionPromoter.promote (evaluate float evaluation policy rules) candidates
      policyVersion).artifactIds ≠ [] →
        ∀ rule ∈ rules.getD (GateRule.defaultRules float), ¬rule.Fails evaluation policy

theorem warningViolations_ne_nil {warnings : List String} :
    warningViolations policy warnings ≠ [] ↔ policy.WarningsExceeded warnings := by
  rw [ExecutionGatePolicy.WarningsExceeded, ← @List.length_pos_iff _ warnings, warningViolations]
  split_ifs with hforbidden hmax
  · exact iff_of_true (List.cons_ne_nil _ _) (.inl hforbidden)
  · exact iff_of_true (List.cons_ne_nil _ _) (.inr hmax)
  · exact iff_of_false (not_not_intro rfl) (not_or_intro hforbidden hmax)

/-- The gate blocks for the warnings and for the failures that have a reason. -/
theorem decision_eq_block_iff :
    (evaluate float evaluation policy rules).decision = .block ↔
      (∃ rule ∈ rules.getD (GateRule.defaultRules float),
        rule.Fails evaluation policy ∧ rule.States evaluation policy) ∨
      policy.WarningsExceeded evaluation.warnings := by
  have hstated : (rules.getD (GateRule.defaultRules float)).filterMap
      (fun rule => rule.violation evaluation policy) ≠ [] ↔
        ∃ rule ∈ rules.getD (GateRule.defaultRules float),
          rule.Fails evaluation policy ∧ rule.States evaluation policy := by
    simp only [ne_eq, List.filterMap_eq_nil_iff, not_forall, ← GateRule.violation_isSome,
      Option.isSome_iff_ne_none, exists_prop]
  rw [← hstated, ← warningViolations_ne_nil, evaluate]
  split_ifs with hviolations hwarnings
  all_goals
    simp only [ne_eq, List.append_eq_nil_iff, not_and_or] at hviolations
    tauto

/-- Artifacts are promoted only of what passes. -/
theorem decision_of_artifactIds {gateResult : GateResult} {candidates : List ArtifactCandidate}
    {policyVersion : String}
    (h : (ExecutionPromoter.promote gateResult candidates policyVersion).artifactIds ≠ []) :
    gateResult.decision = .pass := by
  cases hdecision : gateResult.decision with
  | pass => rfl
  | block => exact absurd (by rw [ExecutionPromoter.promote, if_pos hdecision]) h
  | review =>
      refine absurd ?_ h
      rw [ExecutionPromoter.promote, if_neg (by simp [hdecision]), if_pos hdecision]

/-- A gate enforces its rules where a failure comes with a reason, be it of another rule, or the
warnings block. -/
theorem enforces_of_states
    (h : (∃ rule ∈ rules.getD (GateRule.defaultRules float), rule.Fails evaluation policy) →
      (∃ rule ∈ rules.getD (GateRule.defaultRules float),
        rule.Fails evaluation policy ∧ rule.States evaluation policy) ∨
      policy.WarningsExceeded evaluation.warnings) :
    Enforces float evaluation policy rules where
  block := by
    rw [decision_eq_block_iff]
    refine ⟨fun hblock => hblock.imp_left ?_, fun hfails => hfails.elim h .inr⟩
    rintro ⟨rule, hmem, hfails, -⟩
    exact ⟨rule, hmem, hfails⟩
  promote := by
    intro candidates policyVersion hids rule hmem hfails
    have hpass := decision_of_artifactIds hids
    rw [decision_eq_block_iff.mpr (h ⟨rule, hmem, hfails⟩)] at hpass
    cases hpass

/-- A gate whose rules have reasons for what they fail enforces them on every evaluation. -/
theorem enforces_of_reasoned
    (h : ∀ rule ∈ rules.getD (GateRule.defaultRules float), rule.Reasoned) :
    Enforces float evaluation policy rules := by
  apply enforces_of_states
  rintro ⟨rule, hmem, hfails⟩
  exact .inl ⟨rule, hmem, hfails, h rule hmem evaluation policy hfails⟩

/-- The default rules are enforced. -/
theorem enforces_default : Enforces float evaluation policy none :=
  enforces_of_reasoned fun _ => GateRule.reasoned_of_mem_defaultRules

/-- The rules are enforced exactly if none fails, or the warnings are exceeded, or a rule that
fails has a reason. -/
theorem enforces_iff (float : FloatText) (evaluation : ExecutionEvaluation)
    (policy : ExecutionGatePolicy) (rules : Option (List GateRule)) :
    Enforces float evaluation policy rules ↔
      (∀ rule ∈ rules.getD (GateRule.defaultRules float), ¬rule.Fails evaluation policy) ∨
      policy.WarningsExceeded evaluation.warnings ∨
      ∃ rule ∈ rules.getD (GateRule.defaultRules float),
        rule.Fails evaluation policy ∧ rule.States evaluation policy := by
  constructor
  · intro henforces
    by_cases hfails : ∃ rule ∈ rules.getD (GateRule.defaultRules float),
        rule.Fails evaluation policy
    · exact .inr (decision_eq_block_iff.mp (henforces.block.mpr (.inl hfails))).symm
    · exact .inl fun rule hmem hrule => hfails ⟨rule, hmem, hrule⟩
  · rintro (hnone | hstated)
    · exact enforces_of_states fun ⟨rule, hmem, hfails⟩ => absurd hfails (hnone rule hmem)
    · exact enforces_of_states fun _ => hstated.symm

/-- A rule that fails everything and does not say why. -/
def silentRule : GateRule where
  evaluate _ _ := (false, none)

/-- What the silent rule fails is promoted. -/
theorem evaluate_silentRule :
    silentRule.Fails {} {} ∧
      (evaluate .zeroOne {} {} (some [silentRule])).decision = .pass ∧
      ¬Enforces .zeroOne {} {} (some [silentRule]) := by
  refine ⟨rfl, rfl, fun henforces => ?_⟩
  exact henforces.promote [⟨"ACAND-1", "HASH"⟩] "1.0" (List.cons_ne_nil _ _) silentRule
    (List.mem_singleton_self _) rfl

end ExecutionGate

end RationaleVault.SkillPlatform
