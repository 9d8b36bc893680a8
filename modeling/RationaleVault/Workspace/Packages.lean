import RationaleVault.Runtime.AgentRuntime
import RationaleVault.Workspace.Service

/-!
# Packages of a workspace

There are two ways to a package: the continuation engine projects the state of
the workspace and exports it, and the runtime streams a state that was
projected before to the session of an agent. With one reference time the two
give one package, since sorting what is sorted changes nothing.
-/

namespace RationaleVault.Workspaces

open RationaleVault.Runtime (AgentSession)

/-! ## The state of a workspace -/

structure WorkspaceState where
  workspaceId : String
  workspaceName : String
  workspaceStatus : String
  compiledAt : String
  projectionVersion : String := "1.0"
  activeDecisions : List String := []
  runningExecutions : List String := []
  pendingReflections : List String := []
  activeKnowledge : List String := []
  openPromotions : List String := []
  plannerPolicyId : Option String := none
  schedulerJobs : List String := []
  decisionCount : Nat := 0
  executionCount : Nat := 0
  reflectionCount : Nat := 0
  knowledgeCount : Nat := 0
  promotionCount : Nat := 0
  jobCount : Nat := 0
  lastActivityAt : Option String := none
  activitySummary : String := ""
  totalActiveItems : Nat := 0

/-- `if planner_policy_id`. -/
def hasPlanner : Option String → Bool
  | some policyId => policyId ≠ ""
  | none => false

namespace WorkspaceStateProjection

/-- The part of the summary on `count` items; none of them is not mentioned. -/
def summaryPart (count : Nat) (one many : String) : List String :=
  if 0 < count then [toString count ++ " " ++ if count = 1 then one else many] else []

def project (now : String) (workspace : Workspace)
    (activeDecisions runningExecutions pendingReflections activeKnowledge
      openPromotions : List String)
    (plannerPolicyId : Option String) (schedulerJobs : List String) : WorkspaceState :=
  let decisions := sorted activeDecisions
  let executions := sorted runningExecutions
  let reflections := sorted pendingReflections
  let knowledge := sorted activeKnowledge
  let promotions := sorted openPromotions
  let jobs := sorted schedulerJobs
  let summaryParts :=
    summaryPart decisions.length "open decision" "open decisions" ++
    summaryPart executions.length "running execution" "running executions" ++
    summaryPart reflections.length "pending reflection" "pending reflections" ++
    summaryPart knowledge.length "active knowledge item" "active knowledge items" ++
    summaryPart promotions.length "open promotion" "open promotions" ++
    (if hasPlanner plannerPolicyId then ["planner active"] else []) ++
    summaryPart jobs.length "scheduled job" "scheduled jobs"
  { workspaceId := workspace.workspaceId
    workspaceName := workspace.name
    workspaceStatus := workspace.status.value
    compiledAt := now
    activeDecisions := decisions
    runningExecutions := executions
    pendingReflections := reflections
    activeKnowledge := knowledge
    openPromotions := promotions
    plannerPolicyId := plannerPolicyId
    schedulerJobs := jobs
    decisionCount := decisions.length
    executionCount := executions.length
    reflectionCount := reflections.length
    knowledgeCount := knowledge.length
    promotionCount := promotions.length
    jobCount := jobs.length
    lastActivityAt := some workspace.updatedAt
    activitySummary :=
      if summaryParts = [] then "Workspace is quiet — no active items"
      else "Workspace active: " ++ ", ".intercalate summaryParts
    totalActiveItems := decisions.length + executions.length + reflections.length +
      knowledge.length + promotions.length + jobs.length }

end WorkspaceStateProjection

/-! ## Contexts -/

structure WorkspaceContextCompiledPayload where
  schemaVersion : String := "1.0"
  contextId : String
  sessionId : String
  snapshotId : String
  agentId : String
  goals : List String
  openDecisions : List String
  runningExecutions : List String
  pendingReflections : List String
  recentKnowledge : List String
  plannerPolicySummary : String
  memoryFocus : List String
  lineageSummary : List String
  createdAt : String

namespace ContextCompiler

/-- `_summarize_planner(state)`. -/
def summarizePlanner (state : WorkspaceState) : String :=
  match state.plannerPolicyId with
  | some policyId =>
      if policyId ≠ "" then "Active policy: " ++ policyId else "No active planner policy"
  | none => "No active planner policy"

/-- `session_id or f"none-{agent_id}"`. -/
def contextOwner (sessionId : Option String) (agentId : String) : String :=
  match sessionId with
  | some id => if id ≠ "" then id else "none-" ++ agentId
  | none => "none-" ++ agentId

def compile (now : String) (state : WorkspaceState) (agentId : String) (goals : List String)
    (sessionId snapshotId : Option String) :
    WorkspaceContext × WorkspaceContextCompiledPayload :=
  let contextId := WorkspaceContext.generateContextId (contextOwner sessionId agentId) now
  ({ contextId := contextId
     sessionId := sessionId.getD ""
     snapshotId := snapshotId.getD ""
     agentId := agentId
     goals := sorted goals
     openDecisions := state.activeDecisions
     runningExecutions := state.runningExecutions
     pendingReflections := state.pendingReflections
     recentKnowledge := state.activeKnowledge
     plannerPolicySummary := summarizePlanner state
     memoryFocus := []
     lineageSummary := []
     createdAt := now },
   { contextId := contextId
     sessionId := sessionId.getD ""
     snapshotId := snapshotId.getD ""
     agentId := agentId
     goals := sorted goals
     openDecisions := state.activeDecisions
     runningExecutions := state.runningExecutions
     pendingReflections := state.pendingReflections
     recentKnowledge := state.activeKnowledge
     plannerPolicySummary := summarizePlanner state
     memoryFocus := []
     lineageSummary := []
     createdAt := now })

end ContextCompiler

/-! ## The two ways to a package -/

namespace ContinuationEngine

def resume (clock : Runtime.Clock) (workspace : Workspace) (agentId : String) (goals : List String)
    (activeDecisions runningExecutions pendingReflections activeKnowledge
      openPromotions : List String)
    (plannerPolicyId : Option String) (schedulerJobs lineagePaths : List String) :
    WorkspacePackage × WorkspacePackageExportedPayload :=
  let state := WorkspaceStateProjection.project (clock.iso 1) workspace activeDecisions
    runningExecutions pendingReflections activeKnowledge openPromotions plannerPolicyId
    schedulerJobs
  let snap := (WorkspaceService.snapshot (clock.iso 2) workspace 1 activeDecisions
    runningExecutions pendingReflections activeKnowledge openPromotions plannerPolicyId
    schedulerJobs).1
  let ctx := (ContextCompiler.compile (clock.iso 3) state agentId goals none
    (some snap.snapshotId)).1
  WorkspaceService.exportPackage (clock.iso 4) workspace ctx snap agentId lineagePaths

end ContinuationEngine

structure PackageStreamedPayload where
  schemaVersion : String := "1.0"
  sessionId : String
  packageId : String
  contextId : String
  agentId : String
  streamedAt : String

namespace PackageStreamer

def stream (clock : Runtime.Clock) (session : AgentSession) (workspace : Workspace)
    (state : WorkspaceState) :
    WorkspaceContext × WorkspacePackage × PackageStreamedPayload :=
  let now := clock.iso 0
  let ctx := (ContextCompiler.compile (clock.iso 1) state session.profileId [] none
    session.snapshotId).1
  let snap := (WorkspaceService.snapshot (clock.iso 2) workspace 1 state.activeDecisions
    state.runningExecutions state.pendingReflections state.activeKnowledge state.openPromotions
    state.plannerPolicyId state.schedulerJobs).1
  let package := (WorkspaceService.exportPackage (clock.iso 3) workspace ctx snap
    session.profileId []).1
  (ctx, package, {
    sessionId := session.sessionId
    packageId := package.packageId
    contextId := ctx.contextId
    agentId := session.profileId
    streamedAt := now })

end PackageStreamer

/-- `AgentRuntime.stream_package(session, workspace, workspace_state, reference_time)`. -/
def streamPackage (clock : Runtime.Clock) (session : AgentSession) (workspace : Workspace)
    (state : WorkspaceState) :
    Except String (AgentSession × WorkspacePackage × WorkspaceContext) :=
  let streamed := PackageStreamer.stream clock session workspace state
  match Runtime.AgentRuntime.streamPackage clock session streamed.1.contextId with
  | .ok updated => .ok (updated, streamed.2.1, streamed.1)
  | .error reason => .error reason

@[simp] theorem sorted_sorted (xs : List String) : sorted (sorted xs) = sorted xs :=
  List.Pairwise.insertionSort_eq (List.pairwise_insertionSort _ _)

section

variable (time now : String) (reading reading' : Nat → String) (session : AgentSession)
  (workspace : Workspace)
  (decisions executions reflections knowledge promotions : List String)
  (planner : Option String) (jobs : List String)

/-- A streamed package names the context it is streamed with. -/
theorem contextId_stream (clock : Runtime.Clock) (state : WorkspaceState) :
    (PackageStreamer.stream clock session workspace state).2.1.contextId =
      (PackageStreamer.stream clock session workspace state).1.contextId :=
  rfl

/-- A streamed package of a projected state is the package of the engine without goals and lineage
paths. -/
theorem stream_project :
    (PackageStreamer.stream ⟨some time, reading⟩ session workspace
      (WorkspaceStateProjection.project now workspace decisions executions reflections knowledge
        promotions planner jobs)).2.1 =
    (ContinuationEngine.resume ⟨some time, reading'⟩ workspace session.profileId [] decisions
      executions reflections knowledge promotions planner jobs []).1 := by
  simp [PackageStreamer.stream, ContinuationEngine.resume, WorkspaceStateProjection.project,
    WorkspaceService.snapshot, WorkspaceService.exportPackage, ContextCompiler.compile,
    ContextCompiler.summarizePlanner, Runtime.Clock.iso]

/-- At one reference time, streaming a projected state to a session that is attached, resumed or
streaming gives the agent the package with which the continuation engine resumes its work, and the
session keeps the id of the context in it. Any other session is refused. -/
theorem streamPackage_eq_resume :
    streamPackage ⟨some time, reading⟩ session workspace
      (WorkspaceStateProjection.project now workspace decisions executions reflections knowledge
        promotions planner jobs) =
      let resumed := (ContinuationEngine.resume ⟨some time, reading'⟩ workspace session.profileId []
        decisions executions reflections knowledge promotions planner jobs []).1
      let state := WorkspaceStateProjection.project now workspace decisions executions reflections
        knowledge promotions planner jobs
      if session.status ∈ [.attached, .resumed, .streaming] then
        .ok ({ session with
            status := .streaming
            contextId := some resumed.contextId
            lastActiveAt := time }, resumed,
          (ContextCompiler.compile time state session.profileId [] none session.snapshotId).1)
      else .error ("Cannot stream to session in " ++ session.status.value ++ " status") := by
  have hpackage := stream_project time now reading reading' session workspace decisions executions
    reflections knowledge promotions planner jobs
  rw [streamPackage, Runtime.AgentRuntime.streamPackage]
  rw [← contextId_stream, hpackage]
  dsimp only
  by_cases h : session.status ∈ [.attached, .resumed, .streaming]
  · rw [if_neg (not_not_intro h), if_pos h]
    rfl
  · rw [if_pos h, if_neg h]

end

end RationaleVault.Workspaces
