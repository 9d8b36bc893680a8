import RationaleVault.Library.Fold
import RationaleVault.Python
import RationaleVault.PythonText
import RationaleVault.SkillPlatform.Runtime

/-!
# The skill executor

A skill returns a dictionary. It is read as an output with defaults for missing
keys, and checked against the schema of the manifest. A malformed schema raises.

The executor carries out a plan step by step: activate the skill, build its
input, check the permissions, run it in the sandbox and validate the output.
Its dry run looks at the permissions and at whether the candidate is blocked.
-/

namespace RationaleVault.SkillPlatform

/-- `type(v).__name__`. -/
def typeName : Json → String
  | .atom .null => "NoneType"
  | .atom (.bool _) => "bool"
  | .atom (.int _) => "int"
  | .atom (.float _) => "float"
  | .atom (.str _) => "str"
  | .arr _ => "list"
  | .obj _ => "dict"

/-- The structured fields of an output that the executor reads again. -/
structure SkillOutput where
  metrics : Json
  warnings : Json

/-- `SkillOutput.from_dict(d)`, with the text of the error that a value without `get` raises. -/
def SkillOutput.fromDict : Json → Except String (JsonObj × SkillOutput)
  | .obj d => .ok (d, {
      metrics := JsonObj.getD d "metrics" (.obj [])
      warnings := JsonObj.getD d "warnings" (.arr []) })
  | v => .error ("'" ++ typeName v ++ "' object has no attribute 'get'")

structure ValidationResult where
  valid : Bool
  errors : List String
  warnings : List String
  evaluationVersion : String := "1.0"

namespace OutputValidator

variable (ft : FormatText)

/-- `_type_matches(value, expected_type)`; a type that is no key of the map matches. -/
def typeMatches (value expectedType : Json) : Except Exc Bool := do
  let _ ← expectedType.hash
  return match expectedType, value with
    | .str "string", .atom a => a.isStr
    | .str "string", _ => false
    | .str "number", .atom a => a.number?.isSome
    | .str "number", _ => false
    | .str "integer", .atom (.int _) => true
    | .str "integer", .atom (.bool _) => true
    | .str "integer", _ => false
    | .str "boolean", .atom (.bool _) => true
    | .str "boolean", _ => false
    | .str "array", .arr _ => true
    | .str "array", _ => false
    | .str "object", .obj _ => true
    | .str "object", _ => false
    | _, _ => true

/-- The error of a required field, if it is missing. -/
def requiredError (output : JsonObj) (field : Json) : Except Exc (List String) := do
  let key ← field.hash
  let present := match key with
    | .str name => (output.lookup name).isSome
    | _ => false
  return if present then [] else ["Missing required field: " ++ ft.format field]

/-- `prop_schema.get("type")`. -/
def declaredType : Json → Except Exc Json
  | .obj schema => .ok (JsonObj.get schema "type")
  | _ => .error (.attributeError "get")

/-- The error of a property, if the output has it with another type. -/
def propertyError (output : JsonObj) (property : String × Json) : Except Exc (List String) :=
  match output.lookup property.1 with
  | none => .ok []
  | some value => do
      let expectedType ← declaredType property.2
      if !expectedType.truthy then return []
      if ← typeMatches value expectedType then return []
      return ["Field '" ++ property.1 ++ "' expected type '" ++ ft.format expectedType ++
        "', got '" ++ typeName value ++ "'"]

/-- `properties.items()`. -/
def propertiesOf : Json → Except Exc (List (String × Json))
  | .obj properties => .ok properties
  | _ => .error (.attributeError "items")

/-- `set(output.keys()) - set(properties.keys())`, sorted. -/
def unexpected (output properties : JsonObj) : List String :=
  ((output.map Prod.fst).filter fun key => key ∉ properties.map Prod.fst).insertionSort (· ≤ ·)

def validate (output outputSchema : JsonObj) : Except Exc ValidationResult :=
  if outputSchema = [] then .ok { valid := true, errors := [], warnings := [] }
  else do
    let required ← (outputSchema.getD "required" (.arr [])).toList
    let missing ← required.mapM (requiredError ft output)
    let properties ← propertiesOf (outputSchema.getD "properties" (.obj []))
    let mismatched ← properties.mapM (propertyError ft output)
    let errors := missing.flatten ++ mismatched.flatten
    let extra := unexpected output properties
    return {
      valid := errors = []
      errors := errors
      warnings :=
        if properties ≠ [] ∧ extra ≠ [] then
          ["Unexpected fields: " ++ String.intercalate ", " extra] else [] }

/-- Whether the output is a dictionary that the schema accepts. -/
def accepts (outputSchema : JsonObj) : Json → Bool
  | .obj output =>
      match validate ft output outputSchema with
      | .ok v => v.valid
      | .error _ => false
  | _ => false

end OutputValidator

/-! ## The executor -/

inductive SkillResultStatus
  | completed
  | failed
  | timeout
  | denied
  deriving DecidableEq

def SkillResultStatus.value : SkillResultStatus → String
  | completed => "COMPLETED"
  | failed => "FAILED"
  | timeout => "TIMEOUT"
  | denied => "DENIED"

structure SkillResult where
  resultId : String
  executionId : String
  decisionId : String
  skillId : String
  status : SkillResultStatus
  outputs : JsonObj
  error : Option String
  durationMs : Int
  provenance : Provenance

namespace SkillResult

/-- `_generate_result_id`. -/
def generateResultId (executionId outputHash : String) : String :=
  "SRT-" ++ shortHash ("result:" ++ executionId ++ ":" ++ outputHash)

def success (executionId decisionId skillId : String) (outputs : JsonObj) (durationMs : Int)
    (provenance : Provenance) : SkillResult where
  resultId := generateResultId executionId (computeSnapshotHash (.obj outputs))
  executionId := executionId
  decisionId := decisionId
  skillId := skillId
  status := .completed
  outputs := outputs
  error := none
  durationMs := durationMs
  provenance := provenance

def failure (executionId decisionId skillId error : String) (durationMs : Int)
    (provenance : Provenance) : SkillResult where
  resultId := generateResultId executionId (computeSnapshotHash (.obj [("error", .str error)]))
  executionId := executionId
  decisionId := decisionId
  skillId := skillId
  status := .failed
  outputs := []
  error := some error
  durationMs := durationMs
  provenance := provenance

def denied (executionId decisionId skillId denialReason : String) (provenance : Provenance) :
    SkillResult where
  resultId := generateResultId executionId
    (computeSnapshotHash (.obj [("denied", .str denialReason)]))
  executionId := executionId
  decisionId := decisionId
  skillId := skillId
  status := .denied
  outputs := []
  error := some denialReason
  durationMs := 0
  provenance := provenance

end SkillResult

structure SkillExecutionEvent where
  version : String := "1.0"
  eventType : String := "SKILL_EXECUTED"
  executionId : String
  decisionId : String
  skillId : String
  skillName : String
  skillVersion : String
  state : String
  inputHash : String
  outputHash : String
  error : Option String
  startedAt : String
  completedAt : String
  durationMs : Int
  provenance : Provenance
  timeoutSeconds : Int

def SkillExecutionEvent.toPayload (e : SkillExecutionEvent) : JsonObj :=
  [("version", .str e.version),
    ("event_type", .str e.eventType),
    ("execution_id", .str e.executionId),
    ("decision_id", .str e.decisionId),
    ("skill_id", .str e.skillId),
    ("skill_name", .str e.skillName),
    ("skill_version", .str e.skillVersion),
    ("state", .str e.state),
    ("input_hash", .str e.inputHash),
    ("output_hash", .str e.outputHash),
    ("error", optStr e.error),
    ("started_at", .str e.startedAt),
    ("completed_at", .str e.completedAt),
    ("duration_ms", .int e.durationMs),
    ("provenance", e.provenance.toDict),
    ("timeout_seconds", .int e.timeoutSeconds)]

/-- A step of an execution, for auditing. -/
structure ExecutionStep where
  step : String
  status : String
  detail : String := ""

/-- What is outside the plan: the registered skills, how they are activated (the text of the
exception if they are not), the clock, what it measured, and how values are written. -/
structure Executor where
  resolver : SkillResolver
  activate : SkillDescriptor → Except String Skill
  clock : Nat → String
  durationMs : Int
  float : FloatText
  round4 : ℚ → ℚ
  format : FormatText

/-- What an execution returns. -/
structure Execution where
  result : SkillResult
  event : SkillExecutionEvent
  steps : List ExecutionStep

/-- A computation with the inputs on which it called the skill; without a result it does not
return. -/
structure Traced (α : Type) where
  calls : List Json
  result : Option (Except Exc α)

namespace SkillExecutor

variable (x : Executor)

/-- `_emit_event(plan, result, started_at, duration_ms)`, through `SkillEventEmitter.emit`. -/
def emitEvent (plan : ExecutionPlan) (result : SkillResult) (durationMs : Int) :
    SkillExecutionEvent where
  executionId := result.executionId
  decisionId := plan.context.decisionId
  skillId := plan.context.manifest.skillId
  skillName := plan.context.manifest.name
  skillVersion := plan.context.manifest.version
  state := result.status.value
  inputHash := plan.context.snapshotHash
  outputHash := result.resultId
  error := result.error
  startedAt := x.clock 0
  completedAt := x.clock 1
  durationMs := durationMs
  provenance := plan.context.provenance
  timeoutSeconds := plan.timeoutSeconds

/-- The failed execution of a plan. -/
def failed (plan : ExecutionPlan) (error : String) (durationMs : Int)
    (steps : List ExecutionStep) : Execution :=
  let result := SkillResult.failure plan.context.provenance.executionId plan.context.decisionId
    plan.context.manifest.skillId error durationMs plan.context.provenance
  ⟨result, emitEvent x plan result durationMs, steps⟩

def denied (plan : ExecutionPlan) (reason : String) (steps : List ExecutionStep) : Execution :=
  let result := SkillResult.denied plan.context.provenance.executionId plan.context.decisionId
    plan.context.manifest.skillId reason plan.context.provenance
  ⟨result, emitEvent x plan result 0, steps⟩

/-- The completed execution of a plan, with the lineage of the plan. -/
def completed (plan : ExecutionPlan) (outputs : JsonObj) (steps : List ExecutionStep) :
    Execution :=
  let provenance : Provenance := {
    executionId := plan.context.provenance.executionId
    decisionId := plan.context.decisionId
    synthesisId := plan.context.synthesisId
    beliefId := plan.context.beliefId
    sourceEventIds := plan.context.sourceEventIds
    skillVersion := plan.context.manifest.version
    gatePolicyVersion := plan.context.gatePolicyVersion
    inputSnapshotHash := plan.context.snapshotHash
    timestamp := plan.context.provenance.timestamp }
  let result := SkillResult.success provenance.executionId plan.context.decisionId
    plan.context.manifest.skillId outputs x.durationMs provenance
  ⟨result, emitEvent x plan result x.durationMs, steps⟩

/-- Steps 6 to 8: validate, record and emit. The metrics are spread into a dictionary and the
warnings are added to a list. -/
def record (plan : ExecutionPlan) (outputs : JsonObj) (output : SkillOutput)
    (steps : List ExecutionStep) : Except Exc Execution := do
  let validation ← OutputValidator.validate x.format outputs plan.context.manifest.outputSchema
  let errors := x.format.format (.arr (validation.errors.map .str))
  if !validation.valid then
    return failed x plan ("Output validation failed: " ++ errors) x.durationMs
      (steps ++ [⟨"validate", "failed", errors⟩])
  else
    match output.metrics, output.warnings with
    | .obj _, .arr _ =>
        return completed x plan outputs
          (steps ++ [⟨"validate", "ok", ""⟩, ⟨"record", "ok", ""⟩, ⟨"emit", "ok", ""⟩])
    | _, _ => .error .typeError

/-- Step 5 on what the sandbox returned, and what follows it. -/
def finish (plan : ExecutionPlan) (attempt : Except String Json) (steps : List ExecutionStep) :
    Except Exc Execution :=
  match attempt >>= SkillOutput.fromDict with
  | .error message =>
      .ok (failed x plan message x.durationMs (steps ++ [⟨"execute", "failed", message⟩]))
  | .ok (outputs, output) => record x plan outputs output (steps ++ [⟨"execute", "ok", ""⟩])

def permissionDecision (plan : ExecutionPlan) : PermissionDecision :=
  PermissionChecker.check plan.context.manifest.requiredPermissions plan.context.capabilities

/-- `SkillSandbox.validate_timeout(plan.timeout_seconds, manifest.timeout_seconds)`. -/
def timeout (plan : ExecutionPlan) : Int :=
  SkillSandbox.validateTimeout plan.timeoutSeconds plan.context.manifest.timeoutSeconds

/-- Steps 3 to 8 with an activated skill. -/
def run (plan : ExecutionPlan) (skill : Skill) (steps : List ExecutionStep) : Traced Execution :=
  match SkillInputBuilder.build x.float plan.context.candidate.decision none none with
  | .error message =>
      ⟨[], some (.ok (failed x plan ("Input build failed: " ++ message) 0
        (steps ++ [⟨"build_input", "failed", message⟩])))⟩
  | .ok skillInput =>
      let steps := steps ++ [⟨"build_input", "ok", ""⟩]
      if !(permissionDecision plan).allowed then
        ⟨[], some (.ok (denied x plan (permissionDecision plan).denialReason
          (steps ++ [⟨"authorize", "failed", (permissionDecision plan).denialReason⟩])))⟩
      else
        let inputs := skillInput.toDict x.float x.round4
        ⟨[inputs], (SkillSandbox.executeWithTimeout (skill inputs) (timeout plan)).map fun attempt =>
          finish x plan attempt (steps ++ [⟨"authorize", "ok", ""⟩])⟩

/-- The skill that is run: the given one, or the one the resolved manifest activates. -/
def activated (plan : ExecutionPlan) (skillFn : Option Skill) : Except String Skill :=
  match skillFn with
  | some skill => .ok skill
  | none => x.activate (x.resolver.resolve plan.context.manifest)

/-- `execute(plan, skill_fn)`. -/
def execute (plan : ExecutionPlan) (skillFn : Option Skill) : Traced Execution :=
  let resolved : List ExecutionStep := [⟨"resolve", "ok", ""⟩]
  match activated x plan skillFn with
  | .error message =>
      ⟨[], some (.ok (failed x plan ("Activation failed: " ++ message) 0
        (resolved ++ [⟨"activate", "failed", message⟩])))⟩
  | .ok skill =>
      run x plan skill (resolved ++
        [if skillFn.isSome then ⟨"activate", "skipped", "skill_fn provided"⟩
          else ⟨"activate", "ok", ""⟩])

/-- What the dry run reports. -/
structure Explanation where
  plan : ExecutionPlan
  descriptor : SkillDescriptor
  permissionCheck : PermissionDecision
  wouldExecute : Bool
  blockReason : Option String
  denyReason : Option String

/-- `explain(plan)`. -/
def explain (plan : ExecutionPlan) : Explanation where
  plan := plan
  descriptor := x.resolver.resolve plan.context.manifest
  permissionCheck := permissionDecision plan
  wouldExecute := (permissionDecision plan).allowed && !plan.candidate.blocked
  blockReason := if plan.candidate.blocked then some plan.candidate.blockedReason else none
  denyReason :=
    if !(permissionDecision plan).allowed then some (permissionDecision plan).denialReason
    else none

/-! ## The dry run and the execution -/

/-- The dictionary that the skill is called with. -/
def inputOf (plan : ExecutionPlan) : Except String Json :=
  (SkillInputBuilder.build x.float plan.context.candidate.decision none none).map
    fun input => input.toDict x.float x.round4

/-- What the dry run says is what the execution does: a plan that would not execute calls no skill
and does not complete, one that would calls the skill once on its input. -/
def Explains (plan : ExecutionPlan) (skill : Skill) : Prop :=
  ((explain x plan).wouldExecute = false →
    (execute x plan (some skill)).calls = [] ∧
    ∃ e, (execute x plan (some skill)).result = some (.ok e) ∧ e.result.status ≠ .completed) ∧
  ((explain x plan).wouldExecute = true → ∀ input, inputOf x plan = .ok input →
    (execute x plan (some skill)).calls = [input])

theorem execute_some (plan : ExecutionPlan) (skill : Skill) :
    execute x plan (some skill) = run x plan skill
      [⟨"resolve", "ok", ""⟩, ⟨"activate", "skipped", "skill_fn provided"⟩] := rfl

/-- The skill is called exactly when its permissions are granted. -/
theorem calls_execute (plan : ExecutionPlan) (skill : Skill) {input : Json}
    (h : inputOf x plan = .ok input) :
    (execute x plan (some skill)).calls =
      if (permissionDecision plan).allowed then [input] else [] := by
  obtain ⟨skillInput, hbuild, rfl⟩ := Except.map_eq_ok_iff.mp h
  rw [execute_some, run, hbuild]
  cases (permissionDecision plan).allowed <;> rfl

theorem result_execute_of_denied (plan : ExecutionPlan) (skill : Skill)
    (h : (permissionDecision plan).allowed = false) :
    ∃ e, (execute x plan (some skill)).result = some (.ok e) ∧ e.result.status = .denied := by
  rw [execute_some, run]
  simp only [SkillInputBuilder.build, h]
  exact ⟨_, rfl, rfl⟩

/-- The dry run is right exactly if the candidate is not blocked or the permissions are refused:
the execution never looks at whether the candidate is blocked. -/
theorem explains_iff (plan : ExecutionPlan) (skill : Skill) :
    Explains x plan skill ↔
      (plan.candidate.blocked = true → (permissionDecision plan).allowed = false) := by
  obtain ⟨input, hinput⟩ : ∃ input, inputOf x plan = .ok input := ⟨_, rfl⟩
  rw [Explains, calls_execute x plan skill hinput, explain, hinput]
  cases hallowed : (permissionDecision plan).allowed with
  | false =>
      obtain ⟨e, he, hstatus⟩ := result_execute_of_denied x plan skill hallowed
      simp only [Bool.false_and, if_false, reduceCtorEq]
      refine iff_of_true ⟨fun _ => ⟨trivial, e, he, by simp [hstatus]⟩, nofun⟩ fun _ => trivial
  | true =>
      cases hblocked : plan.candidate.blocked with
      | false => simp
      | true => simp

/-- The plan of a blocked decision on which nothing depends. -/
def blockedPlan : ExecutionPlan :=
  let manifest : SkillManifest := { skillId := "k1", name := "affirm-skill", version := "1.0" }
  let candidate : SkillCandidate := {
    decision := ⟨"d1", "y1", "b1", .affirm, .normal, 1, 1, [], "Title", "Text", "1.0"⟩
    manifest := manifest
    matchScore := 1
    blocked := true
    blockedReason := "missing_evidence"
    specificity := 0 }
  { candidate := candidate
    context := {
      decisionId := "d1"
      synthesisId := "y1"
      beliefId := "b1"
      sourceEventIds := []
      manifest := manifest
      candidate := candidate
      inputSnapshot := []
      provenance := ⟨"x1", "d1", "y1", "b1", [], "1.0", "1.0", "", "2026-01-01T00:00:00"⟩
      capabilities := ⟨∅⟩
      gatePolicyVersion := "1.0"
      snapshotHash := "h1" } }

/-- An executor without skills of its own. -/
def emptyExecutor : Executor where
  resolver := {}
  activate _ := .error "No skill"
  clock _ := "2026-01-01T00:00:00"
  durationMs := 0
  float := .zeroOne
  round4 q := q
  format := .textsOnly

/-- A skill that returns the empty dictionary at once. -/
def emptySkill : Skill := fun _ => ⟨some 0, .returned (.obj [])⟩

/-- The dry run of a blocked plan says that it would not execute, and the skill is called. -/
theorem not_explains_blockedPlan :
    ¬ Explains emptyExecutor blockedPlan emptySkill := by
  intro h
  obtain ⟨input, hinput⟩ : ∃ input, inputOf emptyExecutor blockedPlan = .ok input := ⟨_, rfl⟩
  have hallowed : (permissionDecision blockedPlan).allowed = true := rfl
  have hcalls := (h.1 rfl).1
  rw [calls_execute emptyExecutor blockedPlan emptySkill hinput, if_pos hallowed] at hcalls
  cases hcalls

end SkillExecutor

end RationaleVault.SkillPlatform
