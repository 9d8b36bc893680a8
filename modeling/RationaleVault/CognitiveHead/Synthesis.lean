import Mathlib.Data.Prod.Lex
import RationaleVault.CognitiveHead.Belief
import RationaleVault.Library.Fold

/-!
# From beliefs to decisions

The reasoning report carries the beliefs and the contradictions. Synthesis makes
one ranked item of every belief, with the ids of the active findings that name a
memory of its evidence; the gate lets items through by policy and never scores
them again.
-/

namespace RationaleVault

/-! ## The report -/

/-- The findings that are not suppressed. -/
def activeContradictions (contradictions : List ContradictionFinding) :
    List ContradictionFinding := contradictions.filter fun c => !c.suppressed

structure ReasoningSummary where
  totalRules : Nat
  invariants : Nat
  validated : Nat
  conflicted : Nat
  superseded : Nat
  archived : Nat
  contradictionsCount : Nat
  activeContradictionsCount : Nat

structure ReasoningReport where
  beliefs : List Belief
  assessments : List EvidenceAssessment
  contradictions : List ContradictionFinding
  summary : ReasoningSummary
  overallConfidence : ℚ
  reasoningVersion : String
  configSnapshot : ReasoningConfig

namespace ReasoningReportBuilder

/-- Whether an active finding names the first memory of a belief's evidence. The memory is
read for the first finding, and there may be none. -/
def hasContradiction (contradictions : List ContradictionFinding) (b : Belief) :
    Except Exc Bool :=
  match activeContradictions contradictions, b.supportingEvidence with
  | [], _ => .ok false
  | _ :: _, [] => .error .indexError
  | c :: rest, memory :: _ =>
      .ok ((c :: rest).any fun c => c.ruleAId = memory || c.ruleBId = memory)

/-- `ReasoningReportBuilder.build(beliefs, contradictions, config)`. -/
def build (beliefs : List Belief) (contradictions : List ContradictionFinding)
    (config : ReasoningConfig) : Except Exc ReasoningReport := do
  let marks ← beliefs.mapM (hasContradiction contradictions)
  let unmarked := (beliefs.zip marks).filter fun m => !m.2
  return {
    beliefs := beliefs
    assessments := beliefs.map Belief.assessment
    contradictions := contradictions
    summary := {
      totalRules := beliefs.length
      invariants := unmarked.countP fun m => 19 / 20 ≤ m.1.finalConfidence
      validated := unmarked.countP fun m =>
        m.1.finalConfidence < 19 / 20 && 7 / 10 ≤ m.1.finalConfidence
      conflicted := marks.count true
      superseded := 0
      archived := 0
      contradictionsCount := contradictions.length
      activeContradictionsCount := (activeContradictions contradictions).length }
    overallConfidence := if beliefs = [] then 1
      else (beliefs.map Belief.finalConfidence).sum / beliefs.length
    reasoningVersion := config.version
    configSnapshot := config }

theorem build_eq_ok {beliefs : List Belief} {contradictions : List ContradictionFinding}
    {config : ReasoningConfig} {report : ReasoningReport}
    (h : build beliefs contradictions config = .ok report) :
    report.beliefs = beliefs ∧ report.contradictions = contradictions := by
  obtain ⟨marks, _, h⟩ := Except.bind_eq_ok_iff.mp h
  obtain rfl := Except.pure_eq_ok_iff.mp h
  exact ⟨rfl, rfl⟩

end ReasoningReportBuilder

/-! ## Candidates -/

inductive SynthesisCategory
  | affirm
  | challenge
  | resolve
  | defer
  | monitor
  deriving DecidableEq

def SynthesisCategory.value : SynthesisCategory → String
  | affirm => "AFFIRM"
  | challenge => "CHALLENGE"
  | resolve => "RESOLVE"
  | defer => "DEFER"
  | monitor => "MONITOR"

inductive SynthesisPriority
  | critical
  | high
  | normal
  | low
  deriving DecidableEq

/-- `_PRIORITY_ORDER`. -/
def SynthesisPriority.order : SynthesisPriority → Nat
  | critical => 0
  | high => 1
  | normal => 2
  | low => 3

inductive DecisionReason
  | highConfidence
  | moderateConfidence
  | lowConfidence
  | activeContradiction
  | stale
  | dependencyDegraded
  | highCorroboration
  deriving DecidableEq

structure SynthesisConfig where
  version : String := "1.0"
  affirmThreshold : ℚ := 4 / 5
  challengeThreshold : ℚ := 1 / 2
  deferThreshold : ℚ := 2 / 5
  criticalUrgency : ℚ := 18 / 25
  highUrgency : ℚ := 12 / 25
  normalUrgency : ℚ := 6 / 25
  impactCorroborationWeight : ℚ := 1 / 2
  impactBreadthWeight : ℚ := 3 / 10
  impactDiversityWeight : ℚ := 1 / 5
  impactBreadthDivisor : ℚ := 5

structure DecisionCandidate where
  candidateId : String
  beliefId : String
  category : SynthesisCategory
  reasons : List DecisionReason
  confidence : ℚ
  impact : ℚ
  priority : SynthesisPriority
  contradictionIds : List String
  beliefTitle : String
  beliefContent : String

/-- `round(x, 4)`: half-way cases go to the even digit. -/
def round4 (x : ℚ) : ℚ :=
  let scaled := x * 10000
  let fraction := scaled - scaled.floor
  let digits := if fraction < 1 / 2 ∨ fraction = 1 / 2 ∧ scaled.floor % 2 = 0 then scaled.floor
    else scaled.floor + 1
  digits / 10000

namespace CandidateGenerator

/-- `_compute_impact(belief, config)`. -/
def computeImpact (belief : Belief) (config : SynthesisConfig) : Except Exc ℚ :=
  if config.impactBreadthDivisor = 0 then .error .zeroDivisionError
  else
    let corroboration := belief.assessment.corroborationScore
    let evidenceBreadth :=
      min 1 (belief.supportingEvidence.length / config.impactBreadthDivisor)
    let diversity := belief.assessment.agreementScore
    let impact := corroboration * config.impactCorroborationWeight +
      evidenceBreadth * config.impactBreadthWeight + diversity * config.impactDiversityWeight
    .ok (round4 (min 1 (max 0 impact)))

/-- `_derive_priority(impact, confidence, config)`. -/
def derivePriority (impact confidence : ℚ) (config : SynthesisConfig) : SynthesisPriority :=
  let urgency := impact * confidence
  if config.criticalUrgency ≤ urgency then .critical
  else if config.highUrgency ≤ urgency then .high
  else if config.normalUrgency ≤ urgency then .normal
  else .low

/-- `_classify(belief, active_contradiction_ids, config)`. -/
def classify (belief : Belief) (activeContradictionIds : List String) (config : SynthesisConfig) :
    SynthesisCategory × List DecisionReason :=
  let confidence := belief.finalConfidence
  let hasContradictions := activeContradictionIds ≠ []
  let reasons :=
    (if hasContradictions then [DecisionReason.activeContradiction] else []) ++
    (if 1 / 10 < belief.assessment.stalenessPenalty then [.stale] else []) ++
    (if belief.assessment.propagatedAdjustment < -1 / 20 then [.dependencyDegraded] else []) ++
    (if 3 / 20 ≤ belief.assessment.corroborationScore then [.highCorroboration] else [])
  if confidence < config.deferThreshold then (.defer, reasons ++ [.lowConfidence])
  else if hasContradictions then
    if config.challengeThreshold ≤ confidence then (.challenge, reasons) else (.resolve, reasons)
  else if config.affirmThreshold ≤ confidence then (.affirm, reasons ++ [.highConfidence])
  else (.monitor, reasons ++ [.moderateConfidence])

/-- `_generate_candidate_id(belief_id, category, version)`. -/
def generateCandidateId (beliefId : String) (category : SynthesisCategory) (version : String) :
    String :=
  "CAND-" ++ shortHash ("candidate:" ++ beliefId ++ ":" ++ category.value ++ ":" ++ version)

/-- `CandidateGenerator.generate(belief, active_contradiction_ids, config)`. -/
def generate (belief : Belief) (activeContradictionIds : List String) (config : SynthesisConfig) :
    Except Exc (List DecisionCandidate) := do
  let (category, reasons) := classify belief activeContradictionIds config
  let impact ← computeImpact belief config
  return [{
    candidateId := generateCandidateId belief.beliefId category config.version
    beliefId := belief.beliefId
    category := category
    reasons := reasons
    confidence := belief.finalConfidence
    impact := impact
    priority := derivePriority impact belief.finalConfidence config
    contradictionIds := sortedSet activeContradictionIds
    beliefTitle := belief.title
    beliefContent := belief.content }]

end CandidateGenerator

/-! ## Synthesis -/

structure SynthesisItem where
  synthesisId : String
  candidate : DecisionCandidate

structure SynthesisSummary where
  totalCandidates : Nat
  byCategory : SynthesisCategory → Nat
  byPriority : SynthesisPriority → Nat

structure SynthesisReport where
  items : List SynthesisItem
  summary : SynthesisSummary
  synthesisVersion : String

namespace SynthesisEngine

/-- `_generate_synthesis_id(candidate_id, config_version)`. -/
def generateSynthesisId (candidateId configVersion : String) : String :=
  "SYN-" ++ shortHash ("synthesis:" ++ candidateId ++ ":" ++ configVersion)

/-- `_active_contradiction_ids_for_belief(belief, contradictions)`. -/
def activeContradictionIdsForBelief (belief : Belief)
    (contradictions : List ContradictionFinding) : List String :=
  ((activeContradictions contradictions).filter fun c =>
    c.ruleAId ∈ belief.supportingEvidence || c.ruleBId ∈ belief.supportingEvidence).map
    ContradictionFinding.findingId

/-- The items of one belief. -/
def itemsOf (report : ReasoningReport) (config : SynthesisConfig) (belief : Belief) :
    Except Exc (List SynthesisItem) := do
  let activeIds := activeContradictionIdsForBelief belief report.contradictions
  let candidates ← CandidateGenerator.generate belief activeIds config
  return candidates.map fun candidate =>
    { synthesisId := generateSynthesisId candidate.candidateId config.version
      candidate := candidate }

/-- Priority first, then the higher confidence. -/
def rank (i : SynthesisItem) : Nat ×ₗ ℚ :=
  toLex (i.candidate.priority.order, -i.candidate.confidence)

/-- `SynthesisEngine.synthesize(report, config)`. -/
def synthesize (report : ReasoningReport) (config : SynthesisConfig) :
    Except Exc SynthesisReport := do
  let items ← report.beliefs.mapM (itemsOf report config)
  let items := Table.orderBy rank items.flatten
  return {
    items := items
    summary := {
      totalCandidates := items.length
      byCategory := fun c => items.countP fun i => i.candidate.category = c
      byPriority := fun p => items.countP fun i => i.candidate.priority = p }
    synthesisVersion := config.version }

/-- An item of a belief: it carries the belief's id and title, and the ids of the active
findings about its evidence. -/
structure ItemOf (report : ReasoningReport) (b : Belief) (item : SynthesisItem) : Prop where
  beliefId : item.candidate.beliefId = b.beliefId
  beliefTitle : item.candidate.beliefTitle = b.title
  mem_contradictionIds : ∀ id, id ∈ item.candidate.contradictionIds ↔
    id ∈ activeContradictionIdsForBelief b report.contradictions

variable {report : ReasoningReport} {config : SynthesisConfig}

theorem itemsOf_eq_ok (report : ReasoningReport) (hdivisor : config.impactBreadthDivisor ≠ 0)
    (b : Belief) :
    ∃ item, itemsOf report config b = .ok [item] ∧ ItemOf report b item := by
  unfold itemsOf CandidateGenerator.generate CandidateGenerator.computeImpact
  rw [if_neg hdivisor]
  exact ⟨_, rfl, rfl, rfl, fun id => mem_sortedSet⟩

theorem divisor_ne_zero {b : Belief} {items : List SynthesisItem}
    (h : itemsOf report config b = .ok items) : config.impactBreadthDivisor ≠ 0 := by
  intro hzero
  unfold itemsOf CandidateGenerator.generate CandidateGenerator.computeImpact at h
  rw [if_pos hzero] at h
  cases h

/-- Synthesis fails on a zero divisor only. -/
theorem exists_synthesize (hdivisor : config.impactBreadthDivisor ≠ 0) (report : ReasoningReport) :
    ∃ synthesis, synthesize report config = .ok synthesis := by
  choose item hitem _ using fun b => itemsOf_eq_ok report hdivisor b
  rw [synthesize, Fold.mapM_eq_ok fun b _ => hitem b]
  exact ⟨_, rfl⟩

/-- The items are those of the beliefs, one for each. -/
theorem items_synthesize {synthesis : SynthesisReport}
    (h : synthesize report config = .ok synthesis) :
    (∀ item ∈ synthesis.items, ∃ b ∈ report.beliefs, ItemOf report b item) ∧
      ∀ b ∈ report.beliefs, config.impactBreadthDivisor ≠ 0 ∧
        ∃ item ∈ synthesis.items, ItemOf report b item := by
  obtain ⟨lists, hlists, h⟩ := Except.bind_eq_ok_iff.mp h
  obtain rfl := Except.pure_eq_ok_iff.mp h
  have hmem : ∀ item, item ∈ Table.orderBy rank lists.flatten ↔ ∃ l ∈ lists, item ∈ l :=
    fun item => by rw [Table.mem_orderBy, List.mem_flatten]
  constructor
  · intro item hitem
    obtain ⟨l, hl, hin⟩ := (hmem item).mp hitem
    obtain ⟨b, hb, hlist⟩ := Fold.mem_of_mapM hlists l hl
    obtain ⟨item', heq, hof⟩ := itemsOf_eq_ok report (divisor_ne_zero hlist) b
    rw [hlist, Except.ok.injEq] at heq
    rw [heq, List.mem_singleton] at hin
    exact ⟨b, hb, hin ▸ hof⟩
  · intro b hb
    obtain ⟨l, hl, hlist⟩ := (Fold.forall₂_of_mapM hlists).exists_of_mem hb
    have hdivisor := divisor_ne_zero hlist
    obtain ⟨item, heq, hof⟩ := itemsOf_eq_ok report hdivisor b
    rw [hlist, Except.ok.injEq] at heq
    exact ⟨hdivisor, item, (hmem item).mpr ⟨l, hl, by simp [heq]⟩, hof⟩

end SynthesisEngine

/-! ## The gate -/

structure DecisionGatePolicy where
  version : String := "1.0"
  minimumConfidence : ℚ := 3 / 5
  blockIfContradicted : Bool := true
  maxDecisions : Int := 0

structure DecisionItem where
  decisionId : String
  synthesisId : String
  beliefId : String
  category : SynthesisCategory
  priority : SynthesisPriority
  confidence : ℚ
  impact : ℚ
  contradictionIds : List String
  beliefTitle : String
  beliefContent : String
  gatePolicyVersion : String

structure DecisionSummary where
  totalCandidates : Nat
  approved : Nat
  blocked : Nat

structure DecisionSet where
  decisions : List DecisionItem
  blocked : List SynthesisItem
  gatePolicy : DecisionGatePolicy
  summary : DecisionSummary

namespace DecisionGate

/-- `_generate_decision_id(policy_version, synthesis_id)`. -/
def generateDecisionId (policyVersion synthesisId : String) : String :=
  "DEC-" ++ shortHash ("decision:" ++ policyVersion ++ ":" ++ synthesisId)

/-- `_passes_gate(item, policy)`. -/
def passesGate (policy : DecisionGatePolicy) (item : SynthesisItem) : Bool :=
  if item.candidate.category = .defer then false
  else if item.candidate.confidence < policy.minimumConfidence then false
  else if policy.blockIfContradicted && decide (item.candidate.contradictionIds ≠ []) then false
  else true

def decisionOf (policy : DecisionGatePolicy) (item : SynthesisItem) : DecisionItem :=
  { decisionId := generateDecisionId policy.version item.synthesisId
    synthesisId := item.synthesisId
    beliefId := item.candidate.beliefId
    category := item.candidate.category
    priority := item.candidate.priority
    confidence := item.candidate.confidence
    impact := item.candidate.impact
    contradictionIds := item.candidate.contradictionIds
    beliefTitle := item.candidate.beliefTitle
    beliefContent := item.candidate.beliefContent
    gatePolicyVersion := policy.version }

/-- How many of the passed items a policy keeps. -/
def cap (policy : DecisionGatePolicy) (passed : Nat) : Nat :=
  if 0 < policy.maxDecisions ∧ policy.maxDecisions < passed then policy.maxDecisions.toNat
  else passed

/-- `DecisionGate.gate(synthesis, policy)`. -/
def gate (synthesis : SynthesisReport) (policy : DecisionGatePolicy) : DecisionSet :=
  let passed := synthesis.items.filter (passesGate policy)
  let kept := cap policy passed.length
  let decisions := (passed.take kept).map (decisionOf policy)
  let blocked := synthesis.items.filter (fun i => !passesGate policy i) ++ passed.drop kept
  { decisions := decisions
    blocked := blocked
    gatePolicy := policy
    summary := {
      totalCandidates := synthesis.items.length
      approved := decisions.length
      blocked := blocked.length } }

/-- A decision comes from an item that passed. -/
theorem exists_item {synthesis : SynthesisReport} {policy : DecisionGatePolicy} {d : DecisionItem}
    (hd : d ∈ (gate synthesis policy).decisions) :
    ∃ item ∈ synthesis.items, passesGate policy item = true ∧ decisionOf policy item = d := by
  obtain ⟨item, hitem, rfl⟩ := List.mem_map.mp hd
  obtain ⟨hmem, hpass⟩ := List.mem_filter.mp (List.mem_of_mem_take hitem)
  exact ⟨item, hmem, hpass, rfl⟩

/-- An item with a contradiction does not pass a policy that blocks contradicted items. -/
theorem passesGate_eq_false {policy : DecisionGatePolicy}
    (hpolicy : policy.blockIfContradicted = true) {item : SynthesisItem}
    (h : item.candidate.contradictionIds ≠ []) :
    passesGate policy item = false := by
  unfold passesGate
  split_ifs with hdefer hfloor hblock
  · rfl
  · rfl
  · rfl
  · simp [hpolicy, h] at hblock

end DecisionGate

end RationaleVault
