import RationaleVault.CognitiveHead.Synthesis
import RationaleVault.Library.JsonText
import RationaleVault.MarkdownProvider

/-!
# Execution plans

The bridge maps a decision to the most specific skill that accepts its
category, and plans the execution of the candidates that are not blocked. The
executor and its dry run take any plan, also one whose candidate is blocked.
-/

namespace RationaleVault.SkillPlatform

/-! ## Manifests -/

structure SkillManifest where
  skillId : String
  name : String
  version : String
  description : String := ""
  inputSchema : JsonObj := []
  outputSchema : JsonObj := []
  requiredPermissions : List String := []
  acceptedCategories : List String := []
  timeoutSeconds : Int := 0
  idempotent : Bool := false

/-- Manifests by skill id. -/
abbrev SkillManifestRegistry := OrdDict String SkillManifest

namespace SkillManifestRegistry

def register (r : SkillManifestRegistry) (manifest : SkillManifest) :
    Except Exc SkillManifestRegistry :=
  if r.contains manifest.skillId then
    .error (.valueError ("Skill already registered: " ++ manifest.skillId ++ " (" ++
      manifest.name ++ ")"))
  else .ok (r.set manifest.skillId manifest)

def findByCategory (r : SkillManifestRegistry) (category : String) : List SkillManifest :=
  r.values.filter fun m => category ∈ m.acceptedCategories

end SkillManifestRegistry

/-! ## Permissions -/

/-- The capabilities that an execution is granted. -/
structure CapabilityModel where
  capabilities : Finset String

def CapabilityModel.has (c : CapabilityModel) (capability : String) : Bool :=
  capability ∈ c.capabilities

structure PermissionDecision where
  allowed : Bool
  missingCapabilities : List String
  denialReason : String
  evaluationVersion : String

namespace PermissionDecision

def toDict (d : PermissionDecision) : Json :=
  .obj [("allowed", .bool d.allowed),
    ("missing_capabilities", .arr (d.missingCapabilities.map .str)),
    ("denial_reason", .str d.denialReason),
    ("evaluation_version", .str d.evaluationVersion)]

end PermissionDecision

/-- `PermissionChecker.check`. -/
def PermissionChecker.check (requiredPermissions : List String) (model : CapabilityModel) :
    PermissionDecision :=
  let missing := requiredPermissions.filter fun p => !model.has p
  if missing = [] then
    { allowed := true, missingCapabilities := [], denialReason := "", evaluationVersion := "1.0" }
  else
    { allowed := false
      missingCapabilities := missing
      denialReason := "Missing capabilities: " ++ String.intercalate ", " missing
      evaluationVersion := "1.0" }

/-! ## Provenance -/

/-- `compute_snapshot_hash`: sixteen digits of the digest of the canonical text. -/
def computeSnapshotHash (inputs : Json) : String :=
  String.ofList (((Sha256.hexdigest (inputs.sortKeys.dumps .compact)).toList.take 16).map
    Char.toUpper)

/-- The lineage of an execution. -/
structure Provenance where
  executionId : String
  decisionId : String
  synthesisId : String
  beliefId : String
  sourceEventIds : List String
  skillVersion : String
  gatePolicyVersion : String
  inputSnapshotHash : String
  timestamp : String

def Provenance.toDict (p : Provenance) : Json :=
  .obj [("execution_id", .str p.executionId),
    ("decision_id", .str p.decisionId),
    ("synthesis_id", .str p.synthesisId),
    ("belief_id", .str p.beliefId),
    ("source_event_ids", .arr (p.sourceEventIds.map .str)),
    ("skill_version", .str p.skillVersion),
    ("gate_policy_version", .str p.gatePolicyVersion),
    ("input_snapshot_hash", .str p.inputSnapshotHash),
    ("timestamp", .str p.timestamp)]

/-! ## Candidates, contexts and plans -/

/-- A decision with the skill that is to carry it out. -/
structure SkillCandidate where
  decision : DecisionItem
  manifest : SkillManifest
  matchScore : ℚ
  blocked : Bool
  blockedReason : String
  specificity : Nat

/-- Everything an execution reads. -/
structure ExecutionContext where
  decisionId : String
  synthesisId : String
  beliefId : String
  sourceEventIds : List String
  manifest : SkillManifest
  candidate : SkillCandidate
  inputSnapshot : JsonObj
  provenance : Provenance
  capabilities : CapabilityModel
  gatePolicyVersion : String
  runtimeConfig : JsonObj := []
  snapshotHash : String

/-- `ExecutionContext(...)`: an empty hash is computed from the input snapshot. -/
def ExecutionContext.init (c : ExecutionContext) : ExecutionContext :=
  if c.snapshotHash = "" then { c with snapshotHash := computeSnapshotHash (.obj c.inputSnapshot) }
  else c

structure ExecutionPlan where
  candidate : SkillCandidate
  context : ExecutionContext
  timeoutSeconds : Int := 30

namespace DecisionSkillBridge

/-- `_select_best(decision, candidates)`: the first of the least number of accepted categories,
then of the least skill id. -/
def selectBest (candidates : List SkillManifest) : Option SkillManifest :=
  candidates.argmin fun m => toLex (m.acceptedCategories.length, m.skillId)

def mapDecision (decision : DecisionItem) (registry : SkillManifestRegistry) : SkillCandidate :=
  match selectBest (registry.findByCategory decision.category.value) with
  | none =>
      { decision := decision
        manifest :=
          { skillId := "", name := "", version := "", description := "No matching skill" }
        matchScore := 0
        blocked := true
        blockedReason := "no_matching_skill"
        specificity := 0 }
  | some best =>
      { decision := decision
        manifest := best
        matchScore := 1
        blocked := false
        blockedReason := ""
        specificity := best.acceptedCategories.length }

def mapDecisionSet (decisions : DecisionSet) (registry : SkillManifestRegistry) :
    List SkillCandidate :=
  decisions.decisions.map fun d => mapDecision d registry

/-- The plan of a candidate. -/
def planOf (candidate : SkillCandidate) : ExecutionPlan where
  candidate := candidate
  context := ExecutionContext.init
    { decisionId := candidate.decision.decisionId
      synthesisId := candidate.decision.synthesisId
      beliefId := candidate.decision.beliefId
      sourceEventIds := []
      manifest := candidate.manifest
      candidate := candidate
      inputSnapshot := []
      provenance :=
        { executionId := ""
          decisionId := candidate.decision.decisionId
          synthesisId := candidate.decision.synthesisId
          beliefId := candidate.decision.beliefId
          sourceEventIds := []
          skillVersion := candidate.manifest.version
          gatePolicyVersion := candidate.decision.gatePolicyVersion
          inputSnapshotHash := ""
          timestamp := "" }
      capabilities := ⟨{"projection:memory", "ledger:read"}⟩
      gatePolicyVersion := candidate.decision.gatePolicyVersion
      snapshotHash := "" }
  timeoutSeconds := candidate.manifest.timeoutSeconds

/-- Blocked candidates get no plan. -/
def createExecutionPlans (decisions : DecisionSet) (registry : SkillManifestRegistry) :
    List ExecutionPlan :=
  ((mapDecisionSet decisions registry).filter fun c => !c.blocked).map planOf

/-- The bridge never plans the execution of a blocked candidate. -/
theorem blocked_of_mem_createExecutionPlans {decisions : DecisionSet}
    {registry : SkillManifestRegistry} {plan : ExecutionPlan}
    (h : plan ∈ createExecutionPlans decisions registry) : plan.candidate.blocked = false := by
  obtain ⟨candidate, hc, rfl⟩ := List.mem_map.mp h
  have hopen := (List.mem_filter.mp hc).2
  exact (Bool.not_eq_true' _).mp hopen

end DecisionSkillBridge

/-! ## Resolving a manifest -/

structure ActivationTarget where
  kind : String := "python"
  modulePath : String := ""
  className : String := ""
  metadata : JsonObj := []

structure SkillDescriptor where
  skillId : String
  name : String
  version : String
  activationTarget : ActivationTarget
  requiredPermissions : List String
  acceptedCategories : List String
  deterministic : Bool := true
  sideEffectFree : Bool := true
  idempotent : Bool := true
  requiresNetwork : Bool := false

/-- The class attributes of `SkillResolver`, to which skills are registered. -/
structure SkillResolver where
  builtinSkills : OrdDict String (String × String) := .ofList
    [("affirm-skill", ("rationalevault.skills.affirm_skill", "AffirmSkill")),
      ("challenge-skill", ("rationalevault.skills.challenge_skill", "ChallengeSkill")),
      ("resolve-skill", ("rationalevault.skills.resolve_skill", "ResolveSkill")),
      ("monitor-skill", ("rationalevault.skills.monitor_skill", "MonitorSkill"))]
  externalSkills : OrdDict String ActivationTarget := .empty

def SkillResolver.resolve (r : SkillResolver) (manifest : SkillManifest) : SkillDescriptor where
  skillId := manifest.skillId
  name := manifest.name
  version := manifest.version
  activationTarget :=
    match r.builtinSkills.get? manifest.name with
    | some (modulePath, className) => { modulePath := modulePath, className := className }
    | none =>
        match r.externalSkills.get? manifest.name with
        | some target => target
        | none => { modulePath := manifest.name, className := "ExternalSkill" }
  requiredPermissions := manifest.requiredPermissions
  acceptedCategories := manifest.acceptedCategories

/-! ## The input of a skill -/

/-- Projection data by name; the executor passes none. -/
structure ProjectionSnapshot where
  memory : JsonObj := []
  knowledge : JsonObj := []
  executionState : JsonObj := []
  graph : JsonObj := []
  context : JsonObj := []

def ProjectionSnapshot.toDict (p : ProjectionSnapshot) : Json :=
  .obj [("memory", .obj p.memory), ("knowledge", .obj p.knowledge),
    ("execution_state", .obj p.executionState), ("graph", .obj p.graph),
    ("context", .obj p.context)]

structure SkillInput where
  version : String := "1.0"
  decisionId : String
  beliefId : String
  beliefTitle : String
  beliefContent : String
  confidence : ℚ
  category : String
  projections : ProjectionSnapshot
  metadata : JsonObj
  inputHash : String

/-- `to_dict`; `round4` is `round(x, 4)`. -/
def SkillInput.toDict (ft : FloatText) (round4 : ℚ → ℚ) (i : SkillInput) : Json :=
  .obj [("version", .str i.version),
    ("decision_id", .str i.decisionId),
    ("belief_id", .str i.beliefId),
    ("belief_title", .str i.beliefTitle),
    ("belief_content", .str i.beliefContent),
    ("confidence", .atom (.float (ft.repr (round4 i.confidence)))),
    ("category", .str i.category),
    ("projections", i.projections.toDict),
    ("metadata", .obj i.metadata),
    ("input_hash", .str i.inputHash)]

/-- `SkillInputBuilder.build`, with the hash that `__post_init__` computes. -/
def SkillInputBuilder.build (ft : FloatText) (decision : DecisionItem)
    (projections : Option ProjectionSnapshot) (metadata : Option JsonObj) :
    Except String SkillInput :=
  let projections := projections.getD {}
  let metadata := metadata.getD []
  .ok {
    decisionId := decision.decisionId
    beliefId := decision.beliefId
    beliefTitle := decision.beliefTitle
    beliefContent := decision.beliefContent
    confidence := decision.confidence
    category := decision.category.value
    projections := projections
    metadata := metadata
    inputHash := computeSnapshotHash (.obj [
      ("decision_id", .str decision.decisionId),
      ("belief_id", .str decision.beliefId),
      ("belief_title", .str decision.beliefTitle),
      ("confidence", .atom (.float (ft.repr decision.confidence))),
      ("category", .str decision.category.value),
      ("projections", projections.toDict),
      ("metadata", .obj metadata)]) }

end RationaleVault.SkillPlatform
