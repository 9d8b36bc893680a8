import Mathlib.Data.List.MinMax
import Mathlib.Data.String.Basic
import RationaleVault.Library.Grouping
import RationaleVault.MarkdownProvider
import RationaleVault.Memory.Models

/-!
# The reflection engine

Learning records are grouped by the skills they are about, a group with enough
complaints becomes a candidate, and five rules approve or reject it. Approved or
not, every candidate is compiled to a reflection and to a payload for the event
ledger. Floats are rationals; how operations on them round is left open.
-/

namespace RationaleVault

inductive PlannerRecommendation
  | noChange
  | increasePriority
  | decreasePriority
  | disablePlugin
  | enablePlugin
  | manualReview
  | retryProfile
  deriving DecidableEq

def PlannerRecommendation.value : PlannerRecommendation → String
  | noChange => "NO_CHANGE"
  | increasePriority => "INCREASE_PRIORITY"
  | decreasePriority => "DECREASE_PRIORITY"
  | disablePlugin => "DISABLE_PLUGIN"
  | enablePlugin => "ENABLE_PLUGIN"
  | manualReview => "MANUAL_REVIEW"
  | retryProfile => "RETRY_PROFILE"

structure PlannerFeedback where
  plannerId : String
  confidenceAdjustment : ℚ
  skillPriorityDelta : OrdDict String ℚ
  plannerRecommendation : PlannerRecommendation
  rationale : String

structure ExecutionLearningRecord where
  learningId : String
  plannerFeedback : PlannerFeedback
  createdAt : String
  sourceArtifactIds : List String

inductive ReflectionReason
  | outcomeMismatch
  | contradictionDetected
  | lowConfidence
  | gateBlock
  | manualTrigger
  | performanceDegradation
  deriving DecidableEq

def ReflectionReason.value : ReflectionReason → String
  | outcomeMismatch => "OUTCOME_MISMATCH"
  | contradictionDetected => "CONTRADICTION_DETECTED"
  | lowConfidence => "LOW_CONFIDENCE"
  | gateBlock => "GATE_BLOCK"
  | manualTrigger => "MANUAL_TRIGGER"
  | performanceDegradation => "PERFORMANCE_DEGRADATION"

inductive ReflectionStatus
  | pending
  | active
  | completed
  | rejected
  | aborted
  deriving DecidableEq

namespace ReflectionStatus

def value : ReflectionStatus → String
  | pending => "PENDING"
  | active => "ACTIVE"
  | completed => "COMPLETED"
  | rejected => "REJECTED"
  | aborted => "ABORTED"

/-- `ReflectionStatus(value)`. -/
def ofValue (v : Json) : Except Exc ReflectionStatus :=
  v.enum [.pending, .active, .completed, .rejected, .aborted] value
    "is not a valid ReflectionStatus"

end ReflectionStatus

structure ReflectionConfig where
  version : String
  enabled : Bool
  confidenceThreshold : ℚ
  enabledReasons : List ReflectionReason

/-- The context of a candidate. -/
structure ReflectionContext where
  target : String
  supportingRecordIds : List String
  conflictingRecordIds : List String
  recurrenceCount : Nat
  timeoutsCount : Nat
  failuresCount : Nat
  rationales : List String
  recommendations : List String
  deriving DecidableEq

structure ReflectionCandidate where
  candidateId : String
  sourceArtifactId : String
  reason : ReflectionReason
  context : ReflectionContext
  createdAt : String
  configVersion : String
  deriving DecidableEq

/-- `ReflectionCandidate.generate_candidate_id(source_artifact_id, reason, config_version)`. -/
def ReflectionCandidate.generateCandidateId (sourceArtifactId : String) (reason : ReflectionReason)
    (configVersion : String) : String :=
  "RCAND-" ++ shortHash ("candidate_reflection:" ++ sourceArtifactId ++ ":" ++ reason.value ++
    ":" ++ configVersion)

/-- A reflection. One that is read from an event has the values of its payload, which may have any
type. -/
structure Reflection where
  reflectionId : Json
  candidateId : Json
  status : ReflectionStatus
  insights : Json
  reconstructedRationale : Json
  actionableGuidelines : Json
  createdAt : Json
  completedAt : Json := .null

/-- `Reflection.from_dict(d)`. -/
def Reflection.fromDict (d : JsonObj) : Except Exc Reflection := do
  let reflectionId ← JsonObj.getItem d "reflection_id"
  let candidateId ← JsonObj.getItem d "candidate_id"
  let status ← ReflectionStatus.ofValue (← JsonObj.getItem d "status")
  let insights ← JsonObj.getItem d "insights"
  let reconstructedRationale ← JsonObj.getItem d "reconstructed_rationale"
  let actionableGuidelines ← JsonObj.getItem d "actionable_guidelines"
  let createdAt ← JsonObj.getItem d "created_at"
  return {
    reflectionId := reflectionId
    candidateId := candidateId
    status := status
    insights := insights
    reconstructedRationale := reconstructedRationale
    actionableGuidelines := actionableGuidelines
    createdAt := createdAt
    completedAt := JsonObj.get d "completed_at" }

/-- `Reflection.generate_reflection_id(candidate_id, created_at)`. -/
def Reflection.generateReflectionId (candidateId createdAt : String) : String :=
  "REFL-" ++ shortHash ("reflection:" ++ candidateId ++ ":" ++ createdAt)

/-! ## Candidates -/

namespace ReflectionCandidateBuilder

variable (u : UnicodeTables)

/-- The skills that a record is about, or else its planner. -/
def targetsOf (record : ExecutionLearningRecord) : List String :=
  if record.plannerFeedback.skillPriorityDelta.keys = [] then [record.plannerFeedback.plannerId]
  else record.plannerFeedback.skillPriorityDelta.keys

/-- `by_target`. -/
def byTarget (records : List ExecutionLearningRecord) :
    OrdDict String (List ExecutionLearningRecord) :=
  Grouping.group Prod.fst (fun _ => []) (fun group p => group ++ [p.2])
    (records.flatMap fun record => (targetsOf record).map fun target => (target, record))

def isTimeout (record : ExecutionLearningRecord) : Bool :=
  let rationaleLower := (u.lower record.plannerFeedback.rationale).toList
  PythonText.contains "timeout".toList rationaleLower ||
    PythonText.contains "performance".toList rationaleLower

def isFailure (record : ExecutionLearningRecord) : Bool :=
  record.plannerFeedback.confidenceAdjustment < 0 ||
    [.decreasePriority, .disablePlugin, .manualReview].contains
      record.plannerFeedback.plannerRecommendation

/-- The records that complain. -/
def supporting (records : List ExecutionLearningRecord) : List ExecutionLearningRecord :=
  records.filter fun r => isTimeout u r || isFailure r

/-- The records that do not. -/
def conflicting (records : List ExecutionLearningRecord) : List ExecutionLearningRecord :=
  records.filter fun r => !(isTimeout u r || isFailure r)

def timeoutsCount (records : List ExecutionLearningRecord) : Nat := records.countP (isTimeout u)

def failuresCount (records : List ExecutionLearningRecord) : Nat :=
  records.countP fun r => !isTimeout u r && isFailure r

def plannerErrorsCount (records : List ExecutionLearningRecord) : Nat :=
  records.countP fun r => !isTimeout u r && isFailure r &&
    decide (r.plannerFeedback.plannerRecommendation = .manualReview)

def reasonOf (records : List ExecutionLearningRecord) : ReflectionReason :=
  if 2 ≤ timeoutsCount u records then .performanceDegradation
  else if 0 < plannerErrorsCount u records then .lowConfidence
  else .outcomeMismatch

/-- The first artifact of the latest record; of records of one time the first is taken. -/
def sourceArtifactIdOf (supporting : List ExecutionLearningRecord) : String :=
  ((supporting.argmax ExecutionLearningRecord.createdAt).bind fun latest =>
    latest.sourceArtifactIds.head?).getD "UNKNOWN-ART"

/-- The candidate of a group, if there is one. -/
def candidateOf (config : ReflectionConfig) (createdAt target : String)
    (records : List ExecutionLearningRecord) : Option ReflectionCandidate :=
  let supporting := supporting u records
  let reason := reasonOf u records
  if supporting = [] then none
  else if reason ∉ config.enabledReasons then none
  else
    let sourceArtifactId := sourceArtifactIdOf supporting
    some
      { candidateId :=
          ReflectionCandidate.generateCandidateId sourceArtifactId reason config.version
        sourceArtifactId := sourceArtifactId
        reason := reason
        context :=
          { target := target
            supportingRecordIds := supporting.map fun r => r.learningId
            conflictingRecordIds := (conflicting u records).map fun r => r.learningId
            recurrenceCount := supporting.length
            timeoutsCount := timeoutsCount u records
            failuresCount := failuresCount u records
            rationales := supporting.map fun r => r.plannerFeedback.rationale
            recommendations :=
              supporting.map fun r => r.plannerFeedback.plannerRecommendation.value }
        createdAt := createdAt
        configVersion := config.version }

/-- `build_candidates(records, config, created_at)`. -/
def buildCandidates (records : List ExecutionLearningRecord) (config : ReflectionConfig)
    (createdAt : String) : List ReflectionCandidate :=
  if config.enabled then
    (byTarget records).entries.filterMap fun e => candidateOf u config createdAt e.1 e.2
  else []

/-! ### Candidates and records -/

/-- The records about a target. -/
def about (target : String) (records : List ExecutionLearningRecord) :
    List ExecutionLearningRecord :=
  records.filter fun record => target ∈ targetsOf record

theorem nodup_targetsOf (record : ExecutionLearningRecord) : (targetsOf record).Nodup := by
  rw [targetsOf]
  split_ifs
  · exact List.nodup_singleton _
  · exact record.plannerFeedback.skillPriorityDelta.nodup

/-- A record is put once into the group of a target. -/
theorem map_filter_targetsOf (target : String) (record : ExecutionLearningRecord) :
    (((targetsOf record).map fun t => (t, record)).filter fun p => p.1 = target).map Prod.snd =
      if target ∈ targetsOf record then [record] else [] := by
  rw [List.filter_map, List.map_map]
  have hfilter : (targetsOf record).filter (fun t => t = target) =
      if target ∈ targetsOf record then [target] else [] := by
    split_ifs with hmem
    · rw [List.filter_eq target, List.count_eq_one_of_mem (nodup_targetsOf record) hmem]
      rfl
    · rw [List.filter_eq_nil_iff]
      simpa using fun t ht (heq : t = target) => hmem (heq ▸ ht)
  change ((targetsOf record).filter fun t => t = target).map _ = _
  rw [hfilter]
  split_ifs <;> rfl

theorem map_filter_flatMap_targetsOf (target : String) (records : List ExecutionLearningRecord) :
    ((records.flatMap fun record => (targetsOf record).map fun t => (t, record)).filter
      fun p => p.1 = target).map Prod.snd = about target records := by
  induction records with
  | nil => rfl
  | cons record rest ih =>
      rw [List.flatMap_cons, List.filter_append, List.map_append, ih, map_filter_targetsOf, about,
        about, List.filter_cons]
      by_cases hmem : target ∈ targetsOf record
      · simp [hmem]
      · simp [hmem]

/-- A target with the records about it. -/
theorem entries_byTarget {records : List ExecutionLearningRecord}
    {e : String × List ExecutionLearningRecord} (he : e ∈ (byTarget records).entries) :
    e.2 = about e.1 records := by
  obtain ⟨a, rest, hfilter, hgroup⟩ := Grouping.entries_group he
  have hmap : ∀ l : List (String × ExecutionLearningRecord),
      l.foldl (fun group p => group ++ [p.2]) [] = l.map Prod.snd := by
    intro l
    rw [List.foldl_append_eq_append, List.nil_append]
    exact (List.map_eq_flatMap).symm
  rw [hgroup, hmap, ← hfilter]
  exact map_filter_flatMap_targetsOf e.1 records

/-- A target with records has a group. -/
theorem contains_byTarget {records : List ExecutionLearningRecord} {target : String}
    (h : about target records ≠ []) : (byTarget records).contains target = true := by
  obtain ⟨record, hrecord⟩ := List.exists_mem_of_ne_nil _ h
  obtain ⟨hmem, htarget⟩ := List.mem_filter.mp hrecord
  have hpair : (target, record) ∈
      records.flatMap fun record => (targetsOf record).map fun t => (t, record) :=
    List.mem_flatMap.mpr ⟨record, hmem, List.mem_map.mpr ⟨target, of_decide_eq_true htarget, rfl⟩⟩
  exact Grouping.contains_group hpair

theorem candidateOf_eq_none_iff {config : ReflectionConfig} {createdAt target : String}
    {records : List ExecutionLearningRecord} : candidateOf u config createdAt target records = none ↔
      supporting u records = [] ∨ reasonOf u records ∉ config.enabledReasons := by
  rw [candidateOf]
  split_ifs with hnone hreason
  · simp [hnone]
  · simp [hnone, hreason]
  · simp [hreason]

theorem target_of_candidateOf {config : ReflectionConfig} {createdAt target : String}
    {records : List ExecutionLearningRecord} {c : ReflectionCandidate}
    (h : candidateOf u config createdAt target records = some c) : c.context.target = target := by
  rw [candidateOf] at h
  split_ifs at h
  exact Option.some.inj h ▸ rfl

/-- No records of the cycle make a candidate. -/
def Quiet (config : ReflectionConfig) (records : List ExecutionLearningRecord) : Prop :=
  config.enabled = true → ∀ target, supporting u (about target records) = [] ∨
    reasonOf u (about target records) ∉ config.enabledReasons

theorem buildCandidates_eq_nil_iff {records : List ExecutionLearningRecord}
    {config : ReflectionConfig} {createdAt : String} :
    buildCandidates u records config createdAt = [] ↔ Quiet u config records := by
  rw [buildCandidates, Quiet]
  split_ifs with henabled
  · simp only [henabled, true_implies, List.filterMap_eq_nil_iff, candidateOf_eq_none_iff]
    constructor
    · intro h target
      by_cases habout : about target records = []
      · exact Or.inl (by rw [habout]; rfl)
      · obtain ⟨e, he, rfl⟩ := List.mem_map.mp
          (((byTarget records).contains_iff target).mp (contains_byTarget habout))
        have hnone := h e he
        rwa [entries_byTarget he] at hnone
    · intro h e he
      rw [entries_byTarget he]
      exact h e.1
  · simp [henabled]

/-- The targets of the candidates are targets of groups, in their order. -/
theorem targets_sublist (config : ReflectionConfig) (createdAt : String)
    (groups : List (String × List ExecutionLearningRecord)) :
    ((groups.filterMap fun e => candidateOf u config createdAt e.1 e.2).map
      fun c => c.context.target).Sublist (groups.map Prod.fst) := by
  induction groups with
  | nil => exact List.nil_sublist _
  | cons e rest ih =>
      cases hc : candidateOf u config createdAt e.1 e.2 with
      | none =>
          simp only [List.filterMap_cons, hc, List.map_cons]
          exact ih.cons e.1
      | some c =>
          simp only [List.filterMap_cons, hc, List.map_cons, target_of_candidateOf u hc]
          exact ih.cons_cons e.1

/-- Every candidate has a target of its own. -/
theorem nodup_targets (records : List ExecutionLearningRecord) (config : ReflectionConfig)
    (createdAt : String) :
    ((buildCandidates u records config createdAt).map fun c => c.context.target).Nodup := by
  rw [buildCandidates]
  split_ifs
  · exact (targets_sublist u config createdAt _).nodup (byTarget records).normKeys_nodup
  · exact List.nodup_nil

end ReflectionCandidateBuilder

/-! ## Rules -/

/-- A rule, by whether it passes a candidate. -/
abbrev ReflectionRule := ReflectionCandidate → ReflectionConfig → Bool

section Rules

variable (round : ℚ → ℚ)

def recurrenceBonus (candidate : ReflectionCandidate) : ℚ :=
  min (round (2 / 5)) (round (round (candidate.context.recurrenceCount - 1) * round (1 / 10)))

def conflictPenalty (candidate : ReflectionCandidate) : ℚ :=
  round (round candidate.context.conflictingRecordIds.length * round (3 / 20))

/-- The confidence in a candidate; `round` rounds a result to a float. -/
def reflectionConfidence (candidate : ReflectionCandidate) : ℚ :=
  max 0 (min 1
    (round (round (1 / 2 + recurrenceBonus round candidate) - conflictPenalty round candidate)))

def minSupportingRecordsRule (minRecords : Nat) : ReflectionRule := fun candidate _ =>
  minRecords ≤ candidate.context.supportingRecordIds.length

def recurrenceThresholdRule (threshold : Nat) : ReflectionRule := fun candidate _ =>
  threshold ≤ candidate.context.recurrenceCount

def conflictingEvidenceRule : ReflectionRule := fun candidate _ =>
  let conflicts := candidate.context.conflictingRecordIds
  !(0 < conflicts.length && candidate.context.supportingRecordIds.length ≤ conflicts.length)

def minConfidenceRule : ReflectionRule := fun candidate config =>
  !(reflectionConfidence round candidate < config.confidenceThreshold)

def duplicateSuppressionRule (activeTargets : List String) : ReflectionRule := fun candidate _ =>
  candidate.context.target ∉ activeTargets

/-- The rules that do not look at earlier reflections. -/
def evidenceRules : List ReflectionRule :=
  [minSupportingRecordsRule 2, recurrenceThresholdRule 2, conflictingEvidenceRule,
    minConfidenceRule round]

/-- What of an assessment goes into the reflection. -/
structure ReflectionAssessment where
  approved : Bool
  confidence : ℚ
  supportingRecordIds : List String

/-- `ReflectionRuleEngine(rules).assess(candidate, config)`. -/
def ReflectionRuleEngine.assess (rules : List ReflectionRule) (candidate : ReflectionCandidate)
    (config : ReflectionConfig) : ReflectionAssessment where
  approved := rules.all fun rule => rule candidate config
  confidence := reflectionConfidence round candidate
  supportingRecordIds := candidate.context.supportingRecordIds

end Rules

/-! ## Compilation -/

/-- `ReflectionGeneratedPayload`. -/
structure ReflectionGeneratedPayload where
  schemaVersion : String := "1.0"
  reflectionId : Json
  candidateId : Json
  status : String
  insights : Json
  reconstructedRationale : Json
  actionableGuidelines : Json
  sourceLearningRecordIds : List String
  createdAt : String

def ReflectionGeneratedPayload.toDict (p : ReflectionGeneratedPayload) : JsonObj :=
  [("schema_version", .str p.schemaVersion),
    ("reflection_id", p.reflectionId),
    ("candidate_id", p.candidateId),
    ("status", .str p.status),
    ("insights", p.insights),
    ("reconstructed_rationale", p.reconstructedRationale),
    ("actionable_guidelines", p.actionableGuidelines),
    ("source_learning_record_ids", .strs p.sourceLearningRecordIds),
    ("created_at", .str p.createdAt)]

namespace ReflectionCompiler

/-- The insights: one of its own, and each nonempty rationale that is not among them. -/
def insightsOf (candidate : ReflectionCandidate) : List String :=
  candidate.context.rationales.foldl
    (fun insights rat =>
      if rat ≠ "" ∧ rat ∉ insights then insights ++ ["Observer feedback: " ++ rat] else insights)
    ["Target " ++ candidate.context.target ++ " triggered " ++ candidate.reason.value ++
      " due to recurrent issues."]

theorem ne_empty_of_mem_insightsOf {candidate : ReflectionCandidate} {insight : String}
    (h : insight ∈ insightsOf candidate) : insight ≠ "" := by
  have hall : ∀ rationales insights : List String, (∀ i ∈ insights, i ≠ "") →
      ∀ i ∈ rationales.foldl (fun insights rat =>
        if rat ≠ "" ∧ rat ∉ insights then insights ++ ["Observer feedback: " ++ rat]
        else insights) insights, i ≠ "" := by
    intro rationales
    induction rationales with
    | nil => exact fun insights hinsights => hinsights
    | cons rat rest ih =>
        intro insights hinsights
        rw [List.foldl_cons]
        apply ih _
        split_ifs
        · intro i hi
          rcases List.mem_append.mp hi with hi | hi
          · exact hinsights i hi
          · rw [List.mem_singleton.mp hi]
            simp
        · exact hinsights
  refine hall _ _ (fun i hi => ?_) insight h
  rw [List.mem_singleton.mp hi]
  simp

/-- The sentence about a target. -/
def rationaleOf (float : FloatText) (target candidateId : String) (supportingRecords : Nat)
    (confidence : ℚ) : String :=
  "Reflection triggered for target '" ++ target ++ "' via candidate " ++ (candidateId ++ ". " ++
    ("Supporting records: " ++ toString supportingRecords ++ ". ") ++
    ("Calculated confidence: " ++ String.ofList (float.fixed2 confidence) ++ "."))

def guidelinesOf (order : SetOrder String) (candidate : ReflectionCandidate) : List String :=
  let target := candidate.context.target
  ((order.listed candidate.context.recommendations.toFinset).map fun rec =>
      "Planner Action Recommended: " ++ rec ++ " for target " ++ target) ++
    match candidate.reason with
    | .performanceDegradation =>
        ["Performance Warning: Adjust execution timeouts and retry profile for " ++ target]
    | .lowConfidence =>
        ["Confidence Warning: Require manual verification before promoting output from " ++ target]
    | _ => []

/-- `compile(assessment, candidate, created_at)`. -/
def compile (float : FloatText) (order : SetOrder String) (assessment : ReflectionAssessment)
    (candidate : ReflectionCandidate) (createdAt : String) : Reflection where
  reflectionId := .str (Reflection.generateReflectionId candidate.candidateId createdAt)
  candidateId := .str candidate.candidateId
  status := if assessment.approved then .completed else .rejected
  insights := .strs (insightsOf candidate)
  reconstructedRationale := .str (rationaleOf float candidate.context.target candidate.candidateId
    assessment.supportingRecordIds.length assessment.confidence)
  actionableGuidelines := .strs (guidelinesOf order candidate)
  createdAt := .str createdAt
  completedAt := if assessment.approved then .str createdAt else .null

/-- `compile_generated_payload(reflection, source_learning_record_ids, created_at)`. -/
def compileGeneratedPayload (reflection : Reflection) (sourceLearningRecordIds : List String)
    (createdAt : String) : ReflectionGeneratedPayload where
  reflectionId := reflection.reflectionId
  candidateId := reflection.candidateId
  status := reflection.status.value
  insights := reflection.insights
  reconstructedRationale := reflection.reconstructedRationale
  actionableGuidelines := reflection.actionableGuidelines
  sourceLearningRecordIds := sourceLearningRecordIds
  createdAt := createdAt

end ReflectionCompiler

end RationaleVault
