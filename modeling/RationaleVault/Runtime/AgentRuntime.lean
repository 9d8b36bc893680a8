import Mathlib.Data.Finset.SDiff
import Mathlib.Data.List.Sort
import Mathlib.Data.String.Basic
import RationaleVault.Library.Fold
import RationaleVault.Memory.Models
import RationaleVault.PythonNumber
import RationaleVault.PythonText

/-!
# Agent sessions and their lifecycle

The runtime moves an agent session through its statuses. Every operation takes
the session as it is, checks its status only, and returns a new value of it. A
session is bound to a workspace twice: once when it is created and once more
when it is attached.
-/

namespace RationaleVault.Runtime

/-! ## Contracts -/

inductive AgentStatus
  | active
  | inactive
  | deprecated
  deriving DecidableEq

def AgentStatus.value : AgentStatus → String
  | active => "ACTIVE"
  | inactive => "INACTIVE"
  | deprecated => "DEPRECATED"

/-- Lifecycle states of an agent session. -/
inductive SessionStatus
  | created
  | attached
  | streaming
  | paused
  | resumed
  | detached
  | closed
  deriving DecidableEq

def SessionStatus.value : SessionStatus → String
  | created => "CREATED"
  | attached => "ATTACHED"
  | streaming => "STREAMING"
  | paused => "PAUSED"
  | resumed => "RESUMED"
  | detached => "DETACHED"
  | closed => "CLOSED"

inductive Capability
  | readWorkspace
  | readMemory
  | readLineage
  | readKnowledge
  | suggest
  | executeSkills
  | requestPromotion
  | createReflection
  | viewSystem
  | exportPackage
  | canHostRemote
  | canMigrate
  | canAggregateTelemetry
  | canSimulate
  | canViewPolicy
  deriving DecidableEq

def Capability.value : Capability → String
  | readWorkspace => "READ_WORKSPACE"
  | readMemory => "READ_MEMORY"
  | readLineage => "READ_LINEAGE"
  | readKnowledge => "READ_KNOWLEDGE"
  | suggest => "SUGGEST"
  | executeSkills => "EXECUTE_SKILLS"
  | requestPromotion => "REQUEST_PROMOTION"
  | createReflection => "CREATE_REFLECTION"
  | viewSystem => "VIEW_SYSTEM"
  | exportPackage => "EXPORT_PACKAGE"
  | canHostRemote => "CAN_HOST_REMOTE"
  | canMigrate => "CAN_MIGRATE"
  | canAggregateTelemetry => "CAN_AGGREGATE_TELEMETRY"
  | canSimulate => "CAN_SIMULATE"
  | canViewPolicy => "CAN_VIEW_POLICY"

def Capability.all : List Capability :=
  [.readWorkspace, .readMemory, .readLineage, .readKnowledge, .suggest, .executeSkills,
    .requestPromotion, .createReflection, .viewSystem, .exportPackage, .canHostRemote,
    .canMigrate, .canAggregateTelemetry, .canSimulate, .canViewPolicy]

/-- Who the agent is. -/
structure AgentProfile where
  profileId : String
  capabilities : Finset Capability
  status : AgentStatus

structure AgentCapabilities where
  profileId : String
  granted : Finset Capability
  denied : Finset Capability
  resolvedAt : String

def AgentCapabilities.effective (c : AgentCapabilities) : Finset Capability := c.granted \ c.denied

/-- What the runtime reads of a workspace. -/
structure Workspace where
  workspaceId : String

/-- Which workspace a session is bound to; an active binding has not been detached. -/
structure WorkspaceBinding where
  bindingId : String
  sessionId : String
  workspaceId : String
  role : String
  attachedAt : String
  detachedAt : Option String := none
  deriving DecidableEq

def WorkspaceBinding.generateBindingId (sessionId workspaceId : String) : String :=
  "WSB-" ++ shortHash ("workspace_binding:" ++ sessionId ++ ":" ++ workspaceId)

/-- What the agent is doing right now. -/
structure AgentSession where
  sessionId : String
  profileId : String
  workspaceId : String
  status : SessionStatus
  bindingId : String
  contextId : Option String := none
  snapshotId : Option String := none
  protocolVersion : String := "1.0"
  startedAt : String := ""
  lastActiveAt : String := ""
  endedAt : Option String := none
  deriving DecidableEq

def AgentSession.generateSessionId (profileId workspaceId createdAt : String) : String :=
  "AGS-" ++ shortHash ("agent_session:" ++ profileId ++ ":" ++ workspaceId ++ ":" ++ createdAt)

structure ProtocolVersion where
  major : Int
  minor : Int
  patch : Int

namespace ProtocolVersion

def parse (versionStr : String) : Except Exc ProtocolVersion :=
  match (PythonText.strip versionStr.toList).splitOn '.' with
  | [major, minor, patch] => do
      return {
        major := ← PythonInt.ofText (String.ofList major)
        minor := ← PythonInt.ofText (String.ofList minor)
        patch := ← PythonInt.ofText (String.ofList patch) }
  | _ => .error (.valueError ("Invalid protocol version: " ++ versionStr))

/-- Versions with one major number are compatible. -/
def isCompatible (v other : ProtocolVersion) : Bool := v.major = other.major

def str (v : ProtocolVersion) : String :=
  toString v.major ++ "." ++ toString v.minor ++ "." ++ toString v.patch

end ProtocolVersion

/-- `(reference_time or datetime.now(timezone.utc)).isoformat()`: the clock is read anew at each
place of a call that asks for the time. -/
structure Clock where
  referenceTime : Option String
  reading : Nat → String

def Clock.iso (clock : Clock) (place : Nat) : String :=
  clock.referenceTime.getD (clock.reading place)

/-! ## Event payloads -/

structure SessionCreatedPayload where
  schemaVersion : String := "1.0"
  sessionId : String
  profileId : String
  workspaceId : String
  bindingId : String
  protocolVersion : String
  createdAt : String

structure SessionAttachedPayload where
  schemaVersion : String := "1.0"
  sessionId : String
  workspaceId : String
  bindingId : String
  capabilities : List String
  attachedAt : String

structure SessionPausedPayload where
  schemaVersion : String := "1.0"
  sessionId : String
  workspaceId : String
  pausedAt : String

structure SessionResumedPayload where
  schemaVersion : String := "1.0"
  sessionId : String
  workspaceId : String
  resumedAt : String

structure SessionDetachedPayload where
  schemaVersion : String := "1.0"
  sessionId : String
  workspaceId : String
  bindingId : String
  detachedAt : String

structure SessionClosedPayload where
  schemaVersion : String := "1.0"
  sessionId : String
  workspaceId : String
  profileId : String
  packagesStreamed : Int
  eventsEmitted : Int
  closedAt : String

/-! ## The binder -/

namespace WorkspaceBinder

def attach (clock : Clock) (session : AgentSession) (workspaceId : String) :
    AgentSession × WorkspaceBinding :=
  let now := clock.iso 0
  let binding : WorkspaceBinding := {
    bindingId := WorkspaceBinding.generateBindingId session.sessionId workspaceId
    sessionId := session.sessionId
    workspaceId := workspaceId
    role := "PRIMARY"
    attachedAt := now }
  ({ session with
      workspaceId := workspaceId
      status := .attached
      bindingId := binding.bindingId
      lastActiveAt := now }, binding)

def detach (clock : Clock) (session : AgentSession) (binding : WorkspaceBinding) :
    AgentSession × WorkspaceBinding :=
  let now := clock.iso 0
  ({ session with status := .detached, lastActiveAt := now },
    { binding with detachedAt := some now })

def createSession (now profileId workspaceId : String) (binding : WorkspaceBinding)
    (protocolVersion : String) : AgentSession where
  sessionId := AgentSession.generateSessionId profileId workspaceId now
  profileId := profileId
  workspaceId := workspaceId
  status := .created
  bindingId := binding.bindingId
  protocolVersion := protocolVersion
  startedAt := now
  lastActiveAt := now

def closeSession (clock : Clock) (session : AgentSession) : AgentSession :=
  let now := clock.iso 0
  { session with status := .closed, lastActiveAt := now, endedAt := some now }

end WorkspaceBinder

/-- `CapabilityResolver.resolve(profile, denied, reference_time)`. -/
def CapabilityResolver.resolve (now : String) (profile : AgentProfile)
    (denied : Option (Finset Capability)) : AgentCapabilities where
  profileId := profile.profileId
  granted := profile.capabilities
  denied := denied.getD ∅
  resolvedAt := now

/-! ## The runtime -/

namespace AgentRuntime

/-- `create_session`; the inner error is the `Error` that is returned. -/
def createSession (clock : Clock) (profile : AgentProfile) (workspace : Workspace)
    (protocolVersion : String) (denied : Option (Finset Capability)) :
    Except Exc (Except String
      (AgentSession × WorkspaceBinding × AgentCapabilities × SessionCreatedPayload)) := do
  let now := clock.iso 0
  let runtimeVersion ← ProtocolVersion.parse "1.0.0"
  let agentVersion ← ProtocolVersion.parse protocolVersion
  if !runtimeVersion.isCompatible agentVersion then
    return .error ("Protocol version mismatch: runtime=" ++ runtimeVersion.str ++ ", agent=" ++
      agentVersion.str)
  if profile.status.value ≠ "ACTIVE" then
    return .error ("Agent profile " ++ profile.profileId ++ " is not active")
  let binding : WorkspaceBinding := {
    bindingId := WorkspaceBinding.generateBindingId ("pending-" ++ profile.profileId)
      workspace.workspaceId
    sessionId := "pending"
    workspaceId := workspace.workspaceId
    role := "PRIMARY"
    attachedAt := now }
  let session := WorkspaceBinder.createSession (clock.iso 1) profile.profileId
    workspace.workspaceId binding protocolVersion
  let capabilities := CapabilityResolver.resolve (clock.iso 2) profile denied
  let binding := { binding with sessionId := session.sessionId }
  return .ok (session, binding, capabilities, {
    sessionId := session.sessionId
    profileId := profile.profileId
    workspaceId := workspace.workspaceId
    bindingId := binding.bindingId
    protocolVersion := protocolVersion
    createdAt := now })

def attach (clock : Clock) (session : AgentSession) (workspace : Workspace)
    (capabilities : AgentCapabilities) :
    Except String (AgentSession × WorkspaceBinding × SessionAttachedPayload) :=
  if session.status ≠ .created then
    .error ("Cannot attach session in " ++ session.status.value ++ " status (must be CREATED)")
  else
    let (updated, binding) := WorkspaceBinder.attach clock session workspace.workspaceId
    .ok (updated, binding, {
      sessionId := updated.sessionId
      workspaceId := workspace.workspaceId
      bindingId := binding.bindingId
      capabilities := ((Capability.all.filter (· ∈ capabilities.effective)).map
        Capability.value).insertionSort (· ≤ ·)
      attachedAt := binding.attachedAt })

def pause (clock : Clock) (session : AgentSession) :
    Except String (AgentSession × SessionPausedPayload) :=
  if session.status ∉ [.attached, .streaming, .resumed] then
    .error ("Cannot pause session in " ++ session.status.value ++ " status")
  else
    let now := clock.iso 0
    .ok ({ session with status := .paused, lastActiveAt := now }, {
      sessionId := session.sessionId
      workspaceId := session.workspaceId
      pausedAt := now })

def resume (clock : Clock) (session : AgentSession) :
    Except String (AgentSession × SessionResumedPayload) :=
  if session.status ≠ .paused then
    .error ("Cannot resume session in " ++ session.status.value ++ " status (must be PAUSED)")
  else
    let now := clock.iso 0
    .ok ({ session with status := .resumed, lastActiveAt := now }, {
      sessionId := session.sessionId
      workspaceId := session.workspaceId
      resumedAt := now })

def detach (clock : Clock) (session : AgentSession) (binding : WorkspaceBinding) :
    Except String (AgentSession × WorkspaceBinding × SessionDetachedPayload) :=
  if session.status ∈ [.closed, .detached] then
    .error ("Cannot detach session in " ++ session.status.value ++ " status")
  else
    let (updated, closedBinding) := WorkspaceBinder.detach clock session binding
    .ok (updated, closedBinding, {
      sessionId := session.sessionId
      workspaceId := session.workspaceId
      bindingId := binding.bindingId
      detachedAt := closedBinding.detachedAt.getD "" })

def close (clock : Clock) (session : AgentSession) (packagesStreamed eventsEmitted : Int) :
    Except String (AgentSession × SessionClosedPayload) :=
  if session.status = .closed then .error "Session is already closed"
  else
    let closed := WorkspaceBinder.closeSession clock session
    .ok (closed, {
      sessionId := closed.sessionId
      workspaceId := closed.workspaceId
      profileId := closed.profileId
      packagesStreamed := packagesStreamed
      eventsEmitted := eventsEmitted
      closedAt := closed.endedAt.getD "" })

/-- `stream_package`; `contextId` is the id of the context that the streamer compiles from the
workspace state. -/
def streamPackage (clock : Clock) (session : AgentSession) (contextId : String) :
    Except String AgentSession :=
  if session.status ∉ [.attached, .resumed, .streaming] then
    .error ("Cannot stream to session in " ++ session.status.value ++ " status")
  else
    .ok { session with
      status := .streaming
      contextId := some contextId
      lastActiveAt := clock.iso 0 }

/-- Whether `create_session` creates one: the protocol's major number is that of the runtime and
the profile is active. -/
def creates (profile : AgentProfile) (protocolVersion : String) : Bool :=
  match ProtocolVersion.parse protocolVersion with
  | .ok version => version.major = 1 ∧ profile.status = .active
  | .error _ => false

theorem createSession_isOk_iff (clock : Clock) (profile : AgentProfile) (workspace : Workspace)
    (protocolVersion : String) (denied : Option (Finset Capability)) :
    creates profile protocolVersion = true ↔
      ∃ r, createSession clock profile workspace protocolVersion denied = .ok (.ok r) := by
  have hruntime : ProtocolVersion.parse "1.0.0" = .ok ⟨1, 0, 0⟩ := by rfl
  rw [createSession, hruntime, creates]
  cases hparse : ProtocolVersion.parse protocolVersion with
  | error e => simp
  | ok version =>
      simp only [Except.ok_bind_eq, ProtocolVersion.isCompatible]
      by_cases hmajor : version.major = 1
      · cases hstatus : profile.status <;> simp [hmajor, AgentStatus.value]
      · simp [hmajor, Ne.symm hmajor, pure, Except.pure]

/-- What a successful creation returns. -/
theorem createSession_eq_ok {clock : Clock} {profile : AgentProfile} {workspace : Workspace}
    {protocolVersion : String} {denied : Option (Finset Capability)} {session : AgentSession}
    {binding : WorkspaceBinding} {capabilities : AgentCapabilities} {event : SessionCreatedPayload}
    (h : createSession clock profile workspace protocolVersion denied =
      .ok (.ok (session, binding, capabilities, event))) :
    session.profileId = profile.profileId ∧ session.workspaceId = workspace.workspaceId ∧
      session.status = .created ∧
      session.sessionId = AgentSession.generateSessionId profile.profileId workspace.workspaceId
        (clock.iso 1) ∧
      binding.bindingId = WorkspaceBinding.generateBindingId ("pending-" ++ profile.profileId)
        workspace.workspaceId ∧
      session.bindingId = binding.bindingId ∧ binding.sessionId = session.sessionId ∧
      binding.workspaceId = workspace.workspaceId ∧ binding.detachedAt = none := by
  simp only [createSession, Except.bind_eq_ok_iff] at h
  obtain ⟨v, _, v', _, h⟩ := h
  split_ifs at h <;> simp only [Except.pure_eq_ok_iff, Except.ok.injEq, Prod.mk.injEq,
    reduceCtorEq] at h
  obtain ⟨rfl, rfl, -, -⟩ := h
  exact ⟨rfl, rfl, rfl, rfl, rfl, rfl, rfl, rfl, rfl⟩

end AgentRuntime

end RationaleVault.Runtime
