import Mathlib.Algebra.Order.Field.Rat
import RationaleVault.Library.Json
import RationaleVault.SkillPlatform.Bridge

/-!
# The skill runtime and its sandbox

A skill runs in a thread of its own, and the sandbox waits for it. What a skill does is a function
of its input: how long it runs and how it ends.

The runtime checks the permissions, calls the skill, and measures how long the call took. The record
of an execution ends in one state whatever happened.
-/

namespace RationaleVault.SkillPlatform

/-- How a call of a skill ends: with an output, with an exception, or with one that is not an
`Exception`, such as `SystemExit`. -/
inductive SkillOutcome
  | returned (output : Json)
  | raised (message : String)
  | exited

/-- A call of a skill; without a time it never ends. -/
structure SkillRun where
  seconds : Option ℚ
  outcome : SkillOutcome

/-- A skill function. -/
def Skill : Type := Json → SkillRun

/-- The call takes longer than a positive timeout. -/
def SkillRun.Exceeds (run : SkillRun) (timeoutSeconds : Int) : Prop :=
  0 < timeoutSeconds ∧ ∀ s ∈ run.seconds, (timeoutSeconds : ℚ) < s

instance (run : SkillRun) (timeoutSeconds : Int) : Decidable (run.Exceeds timeoutSeconds) :=
  inferInstanceAs (Decidable (_ ∧ _))

namespace SkillSandbox

/-- `execute_with_timeout`, given the call in the thread; `none` waits for ever. The thread
catches an `Exception` only, so a call that exits leaves the empty result it started with. -/
def executeWithTimeout (run : SkillRun) (timeoutSeconds : Int) : Option (Except String Json) :=
  if run.Exceeds timeoutSeconds then
    some (.error ("Skill execution exceeded timeout of " ++ toString timeoutSeconds ++ "s"))
  else
    run.seconds.map fun _ =>
      match run.outcome with
      | .returned output => .ok output
      | .raised message => .error message
      | .exited => .ok (.obj [])

/-- The smaller of the two positive timeouts. -/
def validateTimeout (timeoutSeconds skillTimeout : Int) : Int :=
  if timeoutSeconds ≤ 0 then skillTimeout
  else if skillTimeout ≤ 0 then timeoutSeconds
  else min timeoutSeconds skillTimeout

end SkillSandbox

end RationaleVault.SkillPlatform

/-! ## The skill runtime -/

namespace RationaleVault.SkillPlatform

/-- Lifecycle states for skill execution. -/
inductive SkillState
  | selected
  | authorized
  | executing
  | completed
  | failed
  | resultCreated
  deriving DecidableEq

def SkillState.value : SkillState → String
  | selected => "SELECTED"
  | authorized => "AUTHORIZED"
  | executing => "EXECUTING"
  | completed => "COMPLETED"
  | failed => "FAILED"
  | resultCreated => "RESULT_CREATED"

structure SkillExecutionRecord where
  executionId : String
  state : SkillState
  context : ExecutionContext
  outputSnapshot : Option Json
  error : Option String
  startedAt : String
  completedAt : String
  permissionDecision : PermissionDecision
  timeoutSeconds : Int

def optStr : Option String → Json
  | some s => .str s
  | none => .null

/-- `to_event_payload`; an output that counts as false is hashed as the empty dictionary. -/
def SkillExecutionRecord.toEventPayload (r : SkillExecutionRecord) : JsonObj :=
  [("execution_id", .str r.executionId),
    ("decision_id", .str r.context.decisionId),
    ("skill_id", .str r.context.manifest.skillId),
    ("skill_name", .str r.context.manifest.name),
    ("skill_version", .str r.context.manifest.version),
    ("state", .str r.state.value),
    ("input_hash", .str r.context.snapshotHash),
    ("output_hash", .str (computeSnapshotHash ((r.outputSnapshot.getD .null).orElse (.obj [])))),
    ("error", optStr r.error),
    ("started_at", .str r.startedAt),
    ("completed_at", .str r.completedAt),
    ("permission_decision", r.permissionDecision.toDict),
    ("provenance", r.context.provenance.toDict),
    ("timeout_seconds", .int r.timeoutSeconds)]

namespace SkillRuntime

/-- `_generate_execution_id`. -/
def generateExecutionId (skillId decisionId policyVersion : String) : String :=
  "SKE-" ++ shortHash ("execution:" ++ skillId ++ ":" ++ decisionId ++ ":" ++ policyVersion)

/-- The record of an execution: the context is given the provenance of the new execution id, and
the clock is read when the execution starts and when it is completed. -/
def record (clock : Nat → String) (context : ExecutionContext) (outputSnapshot : Option Json)
    (error : Option String) : SkillExecutionRecord :=
  let executionId := generateExecutionId context.manifest.skillId context.decisionId
    context.gatePolicyVersion
  { executionId := executionId
    state := .resultCreated
    context := ExecutionContext.init
      { context with provenance := { context.provenance with executionId := executionId } }
    outputSnapshot := outputSnapshot
    error := error
    startedAt := clock 0
    completedAt := clock 1
    permissionDecision := PermissionChecker.check context.manifest.requiredPermissions
      context.capabilities
    timeoutSeconds := context.manifest.timeoutSeconds }

def permissionDecision (context : ExecutionContext) : PermissionDecision :=
  PermissionChecker.check context.manifest.requiredPermissions context.capabilities

/-- The record of a call that ended; `milliseconds` is how the runtime rounds the seconds it
measured. There is none of a call that exits. -/
def recordOf (clock : Nat → String) (milliseconds : ℚ → Int) (context : ExecutionContext)
    (seconds : ℚ) : SkillOutcome → Option SkillExecutionRecord
  | .exited => none
  | .raised message => some (record clock context none (some message))
  | .returned output =>
      if context.manifest.timeoutSeconds > 0 ∧
          milliseconds seconds > context.manifest.timeoutSeconds * 1000 then
        some (record clock context none (some ("Execution exceeded timeout of " ++
          toString context.manifest.timeoutSeconds ++ "s")))
      else some (record clock context (some output) none)

/-- `execute(skill_fn, context)`; there is no record of a call that never ends. -/
def execute (clock : Nat → String) (milliseconds : ℚ → Int) (skill : Skill)
    (context : ExecutionContext) : Option SkillExecutionRecord :=
  if !(permissionDecision context).allowed then
    some (record clock context none (some (permissionDecision context).denialReason))
  else
    let run := skill (.obj context.inputSnapshot)
    run.seconds.bind fun seconds => recordOf clock milliseconds context seconds run.outcome

/-- Every record ends in one state, whatever happened. -/
theorem exists_record_of_execute {clock : Nat → String} {milliseconds : ℚ → Int} {skill : Skill}
    {context : ExecutionContext} {r : SkillExecutionRecord}
    (h : execute clock milliseconds skill context = some r) :
    ∃ outputSnapshot error, r = record clock context outputSnapshot error := by
  rw [execute] at h
  split_ifs at h
  · exact ⟨_, _, (Option.some.inj h).symm⟩
  · obtain ⟨seconds, _, h⟩ := Option.bind_eq_some_iff.mp h
    cases houtcome : (skill (.obj context.inputSnapshot)).outcome with
    | exited =>
        rw [houtcome] at h
        cases h
    | raised message =>
        rw [houtcome] at h
        exact ⟨_, _, (Option.some.inj h).symm⟩
    | returned output =>
        rw [houtcome, recordOf] at h
        split_ifs at h <;> exact ⟨_, _, (Option.some.inj h).symm⟩

end SkillRuntime

end RationaleVault.SkillPlatform
