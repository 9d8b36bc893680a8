import Mathlib.Tactic.NormNum
import RationaleVault.Library.Text
import RationaleVault.SkillPlatform.ExecutionState
import RationaleVault.SkillPlatform.Executor
import RationaleVault.SkillPlatform.Gate

/-!
# Promotion of artifacts

A skill that completes is evaluated and goes through the gate, and what it proposes becomes
artifacts. The id of an artifact is a digest in two places: the promoter hashes the id of the
candidate, the executor the skill and the execution.
-/

namespace RationaleVault.SkillPlatform

/-! ## Records -/

inductive ArtifactKind
  | markdown
  | json
  | codePatch
  | diff
  | diagram
  | report
  | dataset
  | other
  deriving DecidableEq

namespace ArtifactKind

def value : ArtifactKind → String
  | markdown => "MARKDOWN"
  | json => "JSON"
  | codePatch => "CODE_PATCH"
  | diff => "DIFF"
  | diagram => "DIAGRAM"
  | report => "REPORT"
  | dataset => "DATASET"
  | other => "OTHER"

def all : List ArtifactKind :=
  [markdown, json, codePatch, diff, diagram, report, dataset, other]

/-- `ArtifactKind(value)`, or nothing where it raises. -/
def ofValue (value : Json) : Option ArtifactKind :=
  all.find? fun kind => value = .str kind.value

end ArtifactKind

structure ArtifactReference where
  scheme : Json
  location : Json

/-- What a candidate and its artifact have in common. -/
structure ArtifactContent where
  kind : ArtifactKind
  reference : ArtifactReference
  hash : Json
  size : Json
  mimeType : Json

/-- An `ArtifactCandidate` with all its fields. -/
structure ArtifactProposal extends ArtifactContent where
  candidateId : String
  metadata : Json

structure Artifact extends ArtifactContent where
  artifactId : String

/-- `Artifact.generate_artifact_id(skill_id, execution_id, content_hash)`. -/
def Artifact.generateArtifactId (skillId executionId contentHash : String) : String :=
  "ART-" ++ shortHash ("artifact:" ++ skillId ++ ":" ++ executionId ++ ":" ++ contentHash)

structure ArtifactLineage where
  artifactId : String
  resultId : String
  executionId : String
  skillId : String
  decisionId : String
  synthesisId : String
  beliefId : String
  sourceEventIds : List String
  projectionSnapshotHash : String

structure ArtifactPromotionReport where
  promoted : List Artifact
  rejected : List ArtifactProposal
  decision : PromotionDecision
  gateResult : GateResult
  evaluation : ExecutionEvaluation
  version : String := "1.0"

/-! ## Evaluation -/

structure ExecutionThresholds where
  profileName : String := "default"
  minSuccessRate : ℚ := 19 / 20
  maxTimeoutRate : ℚ := 1 / 20
  maxDenialRate : ℚ := 1 / 20
  minOverallScore : ℚ := 19 / 20

namespace ExecutionEvaluator

variable (float : FloatText)

/-- `f"{rate:.2%}"`. -/
def percent (rate : ℚ) : String := String.ofList (float.fixed2 (rate * 100)) ++ "%"

/-- The share of some executions, or what it is without any. -/
def share (state : ExecutionState) (count : Nat) (none : ℚ) : ℚ :=
  if 0 < state.totalExecutions then count / state.totalExecutions else none

/-- The warning of a rate over its limit. -/
def rateWarning (label : String) (rate limit : ℚ) : List String :=
  if limit < rate then
    [label ++ " rate " ++ percent float rate ++ " exceeds target " ++ percent float limit]
  else []

/-- `evaluate(inputs)`. -/
def evaluate (state : ExecutionState) (thresholds : ExecutionThresholds) : ExecutionEvaluation :=
  let successRate := share state state.totalCompleted 1
  let timeoutRate := share state state.totalTimeout 0
  let denialRate := share state state.totalDenied 0
  let failedRate := share state state.totalFailed 0
  let breakdown : ExecutionScoreBreakdown := {
    successComponent := successRate
    timeoutPenalty := timeoutRate * (1 / 2)
    denialPenalty := denialRate * (1 / 5)
    validationPenalty := failedRate * (3 / 10)
    policyBonus := if 99 / 100 ≤ successRate then 1 / 20 else 0 }
  let score := max 0 (min 1 (breakdown.successComponent - breakdown.timeoutPenalty -
    breakdown.denialPenalty - breakdown.validationPenalty + breakdown.policyBonus))
  let below := successRate < thresholds.minSuccessRate
  { successRate := successRate
    timeoutRate := timeoutRate
    denialRate := denialRate
    passed := thresholds.minSuccessRate ≤ successRate ∧ timeoutRate ≤ thresholds.maxTimeoutRate ∧
      denialRate ≤ thresholds.maxDenialRate ∧ thresholds.minOverallScore ≤ score
    score := score
    breakdown := breakdown
    findings := ["Total executions: " ++ toString state.totalExecutions,
      "Successful: " ++ toString state.totalCompleted, "Failed: " ++ toString state.totalFailed,
      "Success rate " ++ percent float successRate ++
        (if below then " below target " else " meets target ") ++
        percent float thresholds.minSuccessRate]
    warnings := rateWarning float "Timeout" timeoutRate thresholds.maxTimeoutRate ++
      rateWarning float "Denial" denialRate thresholds.maxDenialRate
    recommendedActions := if below then ["manual review", "retry"] else ["promote artifact"] }

/-- Executions that all completed have the best score, and no warnings under limits. -/
theorem evaluate_of_completed (state : ExecutionState) (thresholds : ExecutionThresholds)
    (hpositive : 0 < state.totalExecutions)
    (hcompleted : state.totalCompleted = state.totalExecutions) (hfailed : state.totalFailed = 0)
    (htimeout : state.totalTimeout = 0) (hdenied : state.totalDenied = 0)
    (hlimits : 0 ≤ thresholds.maxTimeoutRate ∧ 0 ≤ thresholds.maxDenialRate) :
    (evaluate float state thresholds).successRate = 1 ∧
      (evaluate float state thresholds).timeoutRate = 0 ∧
      (evaluate float state thresholds).denialRate = 0 ∧
      (evaluate float state thresholds).score = 1 ∧
      (evaluate float state thresholds).warnings = [] := by
  have hsuccess : share state state.totalCompleted 1 = 1 := by
    rw [share, if_pos hpositive, hcompleted, div_self (Nat.cast_pos.mpr hpositive).ne']
  have hnone : share state 0 0 = 0 := by
    rw [share, Nat.cast_zero, zero_div, ite_self]
  simp only [evaluate, rateWarning, hfailed, htimeout, hdenied, hsuccess, hnone,
    if_neg hlimits.1.not_gt, if_neg hlimits.2.not_gt, List.append_nil, true_and, and_true]
  norm_num

end ExecutionEvaluator

/-! ## Promotion -/

/-- What the promotion of an execution leaves. -/
structure Promotion where
  candidates : List ArtifactProposal
  report : ArtifactPromotionReport
  artifacts : List String
  artifactLineages : List ArtifactLineage

namespace SkillExecutor

variable (x : Executor) (plan : ExecutionPlan) (result : SkillResult)

/-- The state of the one execution. -/
def executionState : ExecutionState :=
  let entry : ExecutionEntry := {
    executionId := .str result.executionId
    decisionId := .str result.decisionId
    skillId := .str result.skillId
    state := .str result.status.value
    inputHash := .str plan.context.snapshotHash
    outputHash := .str result.resultId
    error := optStr result.error
    startedAt := .str (x.clock 0)
    completedAt := .str (x.clock 1)
    durationMs := .int x.durationMs }
  let completed := result.status = .completed
  { pendingDecisions := []
    completedExecutions := if completed then [entry] else []
    failedExecutions := if completed then [] else [entry]
    timeoutExecutions := []
    deniedExecutions := []
    executionCounts := .ofList [(.str result.skillId, 1)]
    successCounts := if completed then .ofList [(.str result.skillId, 1)] else .empty
    durations := .ofList [(.str result.skillId, [.int x.durationMs])]
    totalExecutions := 1
    totalCompleted := if completed then 1 else 0
    totalFailed := if completed then 0 else 1
    totalTimeout := 0
    totalDenied := 0 }

def thresholds : ExecutionThresholds where
  profileName := "development"
  minSuccessRate := 9 / 10
  minOverallScore := 9 / 10

def evaluation : ExecutionEvaluation :=
  ExecutionEvaluator.evaluate x.float (executionState x plan result) thresholds

/-- The policy is the default one under the version of the plan. -/
def gatePolicy : ExecutionGatePolicy := { version := plan.context.gatePolicyVersion }

def gateResult : GateResult :=
  ExecutionGate.evaluate x.float (evaluation x plan result) (gatePolicy plan) none

def dictOf : Json → Option JsonObj
  | .obj members => some members
  | _ => none

/-- The dictionaries that an output offers for promotion. -/
def proposedItems (outputs : JsonObj) : List JsonObj :=
  match (outputs.get "artifact_candidates").orElse (outputs.get "artifacts") with
  | .arr items => items.filterMap dictOf
  | _ => []

/-- The candidate of a dictionary; one that raises is passed over. -/
def candidateOf (item : JsonObj) : Option ArtifactProposal :=
  match ArtifactKind.ofValue (item.getD "kind" (.str "OTHER")), item.getD "reference" (.obj []) with
  | some kind, .obj reference => some {
      kind := kind
      reference := ⟨JsonObj.getD reference "scheme" (.str "file"),
        JsonObj.getD reference "location" (.str "")⟩
      hash := item.getD "hash" (.str "unknown")
      size := item.getD "size" (.int 0)
      mimeType := item.getD "mime_type" (.str "text/plain")
      candidateId := ArtifactCandidate.generateCandidateId plan.context.manifest.skillId
        result.executionId (x.format.format (item.getD "hash" (.str "unknown")))
      metadata := item.getD "metadata" (.obj []) }
  | _, _ => none

def artifactCandidates : List ArtifactProposal :=
  (proposedItems result.outputs).filterMap (candidateOf x plan result)

/-- The artifact of a candidate, without the time at which it is made. -/
def artifactOf (c : ArtifactProposal) : Artifact where
  toArtifactContent := c.toArtifactContent
  artifactId := Artifact.generateArtifactId plan.context.manifest.skillId result.executionId
    (x.format.format c.hash)

def lineageOf (c : ArtifactProposal) : ArtifactLineage where
  artifactId := (artifactOf x plan result c).artifactId
  resultId := result.resultId
  executionId := result.executionId
  skillId := plan.context.manifest.skillId
  decisionId := plan.context.decisionId
  synthesisId := plan.context.synthesisId
  beliefId := plan.context.beliefId
  sourceEventIds := plan.context.sourceEventIds
  projectionSnapshotHash := plan.context.snapshotHash

/-- Step 7c of `execute` after the gate. -/
def promoted (evaluation : ExecutionEvaluation) (gateResult : GateResult) : Promotion :=
  let candidates := artifactCandidates x plan result
  let decision := ExecutionPromoter.promote gateResult
    (candidates.map fun c => ⟨c.candidateId, x.format.format c.hash⟩) (gatePolicy plan).version
  let passed := if decision.decision = .pass then candidates else []
  let artifacts := passed.map (artifactOf x plan result)
  { candidates := candidates
    report := {
      promoted := artifacts
      rejected := if decision.decision = .pass then [] else candidates
      decision := decision
      gateResult := gateResult
      evaluation := evaluation }
    artifacts := artifacts.map Artifact.artifactId
    artifactLineages := passed.map (lineageOf x plan result) }

/-- The promotion of an execution that reaches it. -/
def promotion (skillFn : Option Skill) : Option Promotion :=
  match (execute x plan skillFn).result with
  | some (.ok e) =>
      if e.result.status = .completed then
        some (promoted x plan e.result (evaluation x plan e.result) (gateResult x plan e.result))
      else none
  | _ => none

/-! ## The report of a promotion -/

variable {x plan result}

/-- What was promoted has the ids of the decision, of the result and of the lineages, and every
candidate is promoted or rejected, once. -/
structure Describes (p : Promotion) : Prop where
  decision : p.report.decision.artifactIds = p.report.promoted.map Artifact.artifactId
  artifacts : p.artifacts = p.report.promoted.map Artifact.artifactId
  lineages : p.artifactLineages.map ArtifactLineage.artifactId =
    p.report.promoted.map Artifact.artifactId
  accounted : (p.report.promoted.map Artifact.toArtifactContent ++
    p.report.rejected.map ArtifactProposal.toArtifactContent).Perm
      (p.candidates.map ArtifactProposal.toArtifactContent)

/-- A dictionary from which a candidate is made: its kind is one of the kinds and its reference a
dictionary. -/
def Proposes (item : JsonObj) : Prop :=
  (∃ kind : ArtifactKind, item.getD "kind" (.str "OTHER") = .str kind.value) ∧
    ∃ reference, item.getD "reference" (.obj []) = .obj reference

variable (x plan) in
/-- The two texts that are hashed to the id of one artifact. -/
def hashed (c : ArtifactProposal) : List String :=
  ["candidate_artifact:" ++ c.candidateId ++ ":" ++ "promoted" ++ ":" ++ x.format.format c.hash,
    "artifact:" ++ plan.context.manifest.skillId ++ ":" ++ plan.context.provenance.executionId ++
      ":" ++ x.format.format c.hash]

theorem ofValue_isSome_iff (value : Json) :
    (ArtifactKind.ofValue value).isSome ↔ ∃ kind : ArtifactKind, value = .str kind.value := by
  rw [ArtifactKind.ofValue, List.find?_isSome]
  constructor
  · rintro ⟨kind, -, hkind⟩
    exact ⟨kind, of_decide_eq_true hkind⟩
  · rintro ⟨kind, rfl⟩
    exact ⟨kind, by cases kind <;> decide, decide_eq_true rfl⟩

variable (x plan result) in
theorem candidateOf_isSome_iff (item : JsonObj) :
    (candidateOf x plan result item).isSome ↔ Proposes item := by
  rw [Proposes, ← ofValue_isSome_iff, candidateOf]
  cases ArtifactKind.ofValue (item.getD "kind" (.str "OTHER")) with
  | none => simp
  | some kind =>
      cases item.getD "reference" (.obj []) <;> simp

theorem artifactCandidates_eq_nil_iff : artifactCandidates x plan result = [] ↔
    ∀ item ∈ proposedItems result.outputs, ¬Proposes item := by
  rw [artifactCandidates, List.filterMap_eq_nil_iff]
  simp only [← candidateOf_isSome_iff x plan result, Option.not_isSome_iff_eq_none]

/-- A rule that does not fail adds no violation. -/
theorem violation_limited {float : FloatText} {fails : ℚ → ℚ → Bool} {label relation : String}
    {measure : ExecutionEvaluation → ℚ} {limit : ExecutionGatePolicy → ℚ}
    {evaluation : ExecutionEvaluation} {policy : ExecutionGatePolicy}
    (h : fails (measure evaluation) (limit policy) = false) :
    (GateRule.limited float fails label relation measure limit).violation evaluation policy =
      none := by
  rw [GateRule.violation, if_neg]
  rintro ⟨hfails, -⟩
  simp [GateRule.Fails, GateRule.limited, h] at hfails

/-- An execution that completed passes the gate, whatever it returned. -/
theorem decision_gateResult (hcompleted : result.status = .completed) :
    (gateResult x plan result).decision = .pass := by
  obtain ⟨hsuccess, htimeout, hdenial, hscore, hwarnings⟩ :=
    ExecutionEvaluator.evaluate_of_completed x.float (executionState x plan result) thresholds
      Nat.one_pos (if_pos hcompleted) (if_pos hcompleted) rfl rfl (by decide +kernel)
  have hviolations : ∀ rule ∈ GateRule.defaultRules x.float,
      rule.violation (evaluation x plan result) (gatePolicy plan) = none := by
    intro rule hrule
    simp only [GateRule.defaultRules, List.mem_cons, List.not_mem_nil, or_false] at hrule
    obtain rfl | rfl | rfl | rfl := hrule
    all_goals apply violation_limited
    · rw [evaluation, hsuccess]
      norm_num [gatePolicy]
    · rw [evaluation, htimeout]
      norm_num [gatePolicy]
    · rw [evaluation, hdenial]
      norm_num [gatePolicy]
    · rw [evaluation, hscore]
      norm_num [gatePolicy]
  simp only [gateResult, ExecutionGate.evaluate, Option.getD_none,
    List.filterMap_eq_nil_iff.mpr hviolations]
  rw [evaluation, hwarnings]
  rfl

/-- Whatever the gate decides, the artifacts, the result and the lineages have the same ids, and
what is not promoted is rejected. -/
theorem describes_promoted_iff {evaluation : ExecutionEvaluation} {gateResult : GateResult} :
    Describes (promoted x plan result evaluation gateResult) ↔
      (promoted x plan result evaluation gateResult).report.decision.artifactIds =
        (promoted x plan result evaluation gateResult).report.promoted.map
          Artifact.artifactId := by
  refine ⟨Describes.decision, fun hdecision => ⟨hdecision, rfl, ?_, ?_⟩⟩
  · simp only [promoted, List.map_map]
    rfl
  · simp only [promoted]
    split_ifs with hpass
    · rw [List.map_map, List.map_nil, List.append_nil]
      rfl
    · rw [List.map_nil, List.map_nil, List.nil_append]

/-- The id that the promoter gives to the artifact of a candidate. -/
theorem promotedId_eq (c : ArtifactProposal) (contentHash : String) :
    (ArtifactCandidate.generateCandidateId c.candidateId "promoted" contentHash).replace "ACAND-"
      "ART-" = "ART-" ++ shortHash ("candidate_artifact:" ++ c.candidateId ++ ":" ++ "promoted" ++
        ":" ++ contentHash) :=
  Text.replace_append (c := '-') "ART-" (by decide) (not_mem_shortHash (by decide) _)

/-- The two texts of one artifact differ in their first character. -/
theorem hashed_ne (c : ArtifactProposal) (contentHash skillId executionId : String) :
    "candidate_artifact:" ++ c.candidateId ++ ":" ++ "promoted" ++ ":" ++ contentHash ≠
      "artifact:" ++ skillId ++ ":" ++ executionId ++ ":" ++ contentHash := by
  intro htext
  have hhead := congrArg (fun text : String => text.toList.head?) htext
  have hleft : "candidate_artifact:".toList.head? = some 'c' := by decide
  have hright : "artifact:".toList.head? = some 'a' := by decide
  simp only [String.append_assoc, String.toList_append, List.head?_append, hleft, hright,
    Option.some_or, Option.some.injEq] at hhead
  revert hhead
  decide

/-- What passes the gate is promoted under two ids, unless there is nothing to promote. -/
theorem describes_promoted_of_pass {evaluation : ExecutionEvaluation} {gateResult : GateResult}
    (hpass : gateResult.decision = .pass)
    (hexecution : result.executionId = plan.context.provenance.executionId)
    (hfree : CollisionFree ((artifactCandidates x plan result).flatMap (hashed x plan))) :
    Describes (promoted x plan result evaluation gateResult) ↔
      artifactCandidates x plan result = [] := by
  rw [describes_promoted_iff]
  have hids : (promoted x plan result evaluation gateResult).report.decision.artifactIds =
      (artifactCandidates x plan result).map fun c =>
        (ArtifactCandidate.generateCandidateId c.candidateId "promoted"
          (x.format.format c.hash)).replace "ACAND-" "ART-" := by
    simp [promoted, ExecutionPromoter.promote, hpass, Function.comp_def]
  have hpromoted : (promoted x plan result evaluation gateResult).report.promoted.map
      Artifact.artifactId = (artifactCandidates x plan result).map fun c =>
        (artifactOf x plan result c).artifactId := by
    simp [promoted, ExecutionPromoter.promote, hpass, Function.comp_def]
  rw [hids, hpromoted, List.map_inj_left]
  constructor
  · intro hall
    apply List.eq_nil_iff_forall_not_mem.mpr
    intro c hc
    have hid := hall c hc
    rw [promotedId_eq, artifactOf, Artifact.generateArtifactId, String.append_right_inj,
      hexecution] at hid
    refine hashed_ne c _ _ _ (hfree _ ?_ _ ?_ hid)
    · exact List.mem_flatMap.mpr ⟨c, hc, List.mem_cons_self⟩
    · exact List.mem_flatMap.mpr ⟨c, hc, List.mem_cons_of_mem _ List.mem_cons_self⟩
  · intro hnil
    rw [hnil]
    simp

/-- An execution that completes carries what its skill returned. -/
theorem completed_of_run {skill : Skill} {input : Json} {outputs : JsonObj} {e : Execution}
    {steps : List ExecutionStep} (hinput : inputOf x plan = .ok input)
    (houtput : SkillSandbox.executeWithTimeout (skill input) (timeout plan) =
      some (.ok (.obj outputs)))
    (h : (run x plan skill steps).result = some (.ok e)) (hcompleted : e.result.status = .completed) :
    ∃ steps', e = completed x plan outputs steps' := by
  obtain ⟨skillInput, hbuild, rfl⟩ := Except.map_eq_ok_iff.mp hinput
  simp only [run, hbuild] at h
  split_ifs at h with hallowed
  · cases h
    cases hcompleted
  · simp only [houtput, Option.map_some, Option.some.injEq] at h
    obtain ⟨validation, hvalidate, h⟩ := Except.bind_eq_ok_iff.mp h
    split_ifs at h with hvalid
    · cases h
      cases hcompleted
    · split at h
      · cases h
        exact ⟨_, rfl⟩
      · cases h

/-- For every skill and what it returns: the promotion of an execution that reaches it is described
by its report exactly when nothing was proposed. -/
theorem promotion_described_iff {skillFn : Option Skill} {skill : Skill} {input : Json}
    {outputs : JsonObj} {p : Promotion} (hskill : activated x plan skillFn = .ok skill)
    (hinput : inputOf x plan = .ok input)
    (houtput : SkillSandbox.executeWithTimeout (skill input) (timeout plan) =
      some (.ok (.obj outputs)))
    (h : promotion x plan skillFn = some p)
    (hfree : CollisionFree (p.candidates.flatMap (hashed x plan))) :
    Describes p ↔ ∀ item ∈ proposedItems outputs, ¬Proposes item := by
  rw [promotion] at h
  split at h
  · next e he =>
      split_ifs at h with hcompleted
      rw [execute, hskill] at he
      obtain ⟨steps, rfl⟩ := completed_of_run hinput houtput he hcompleted
      obtain rfl := Option.some.inj h
      refine (describes_promoted_of_pass (decision_gateResult hcompleted) rfl hfree).trans ?_
      exact artifactCandidates_eq_nil_iff
  · cases h

/-- A plan that nothing blocks. -/
def reportPlan : ExecutionPlan :=
  let candidate := { blockedPlan.candidate with blocked := false, blockedReason := "" }
  { blockedPlan with
    candidate := candidate
    context := { blockedPlan.context with candidate := candidate } }

/-- What a skill returns that has written a report. -/
def reportOutputs : JsonObj :=
  [("artifacts", .arr [.obj [("kind", .str "REPORT"), ("hash", .str "h1")]])]

def reportSkill : Skill := fun _ => ⟨some 0, .returned (.obj reportOutputs)⟩

/-- The report is promoted under one id and described under another. -/
theorem not_described_report : ∃ p,
    promotion emptyExecutor reportPlan (some reportSkill) = some p ∧ ¬Describes p := by
  refine ⟨_, rfl, fun h => ?_⟩
  have hnil := (describes_promoted_of_pass (decision_gateResult rfl) rfl (by decide +kernel)).mp h
  revert hnil
  decide +kernel

theorem promotion_described_iff_report : ∃ p,
    promotion emptyExecutor reportPlan (some reportSkill) = some p ∧
      (Describes p ↔ ∀ item ∈ proposedItems reportOutputs, ¬Proposes item) := by
  have hskill : activated emptyExecutor reportPlan (some reportSkill) = .ok reportSkill := rfl
  obtain ⟨input, hinput⟩ : ∃ input, inputOf emptyExecutor reportPlan = .ok input := ⟨_, rfl⟩
  have houtput : SkillSandbox.executeWithTimeout (reportSkill input) (timeout reportPlan) =
      some (.ok (.obj reportOutputs)) := rfl
  have hp : promotion emptyExecutor reportPlan (some reportSkill) = some _ := rfl
  exact ⟨_, hp, promotion_described_iff hskill hinput houtput hp (by decide +kernel)⟩

end SkillExecutor

end RationaleVault.SkillPlatform
