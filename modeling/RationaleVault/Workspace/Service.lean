import Mathlib.Algebra.BigOperators.Group.List.Basic
import Mathlib.Algebra.Order.BigOperators.Group.List
import Mathlib.Data.String.Basic
import RationaleVault.Library.SortedSet
import RationaleVault.Memory.Models

/-!
# The workspace service

Every operation of the service takes frozen values and returns a new one with
the payload of the event that the caller emits. A workspace is paused and
resumed in turns. The events of pausing and resuming are those of creation and
do not name the status, which only their number tells. The difference of two
snapshots lists, for each subsystem, what was added and what was removed.
-/

namespace RationaleVault.Workspaces

/-! ## Contracts -/

inductive WorkspaceStatus
  | active
  | paused
  | archived
  deriving DecidableEq

def WorkspaceStatus.value : WorkspaceStatus → String
  | active => "ACTIVE"
  | paused => "PAUSED"
  | archived => "ARCHIVED"

structure Workspace where
  workspaceId : String
  name : String
  description : String
  status : WorkspaceStatus
  agentIds : List String
  projectIds : List String
  createdAt : String
  updatedAt : String
  deriving DecidableEq

def Workspace.generateWorkspaceId (name createdAt : String) : String :=
  "WS-" ++ shortHash ("workspace:" ++ name ++ ":" ++ createdAt)

structure WorkspaceSnapshot where
  snapshotId : String
  workspaceId : String
  version : Int
  activeDecisions : List String
  runningExecutions : List String
  pendingReflections : List String
  activeKnowledge : List String
  openPromotions : List String
  plannerPolicyId : Option String
  schedulerJobs : List String
  createdAt : String

def WorkspaceSnapshot.generateSnapshotId (workspaceId createdAt : String) : String :=
  "WSSNP-" ++ shortHash ("workspace_snapshot:" ++ workspaceId ++ ":" ++ createdAt)

structure WorkspaceContext where
  contextId : String
  sessionId : String
  snapshotId : String
  agentId : String
  goals : List String
  openDecisions : List String
  runningExecutions : List String
  pendingReflections : List String
  recentKnowledge : List String
  plannerPolicySummary : String
  memoryFocus : List String
  lineageSummary : List String
  createdAt : String

def WorkspaceContext.generateContextId (sessionId createdAt : String) : String :=
  "WSCTX-" ++ shortHash ("workspace_context:" ++ sessionId ++ ":" ++ createdAt)

structure WorkspacePackage where
  packageId : String
  workspaceId : String
  contextId : String
  snapshotId : String
  agentId : String
  goals : List String
  openDecisions : List String
  runningExecutions : List String
  pendingReflections : List String
  plannerPolicySummary : String
  recentKnowledge : List String
  memoryFocus : List String
  lineagePaths : List String
  exportedAt : String
  deriving DecidableEq

def WorkspacePackage.generatePackageId (workspaceId agentId createdAt : String) : String :=
  "WSPKG-" ++ shortHash ("workspace_package:" ++ workspaceId ++ ":" ++ agentId ++ ":" ++ createdAt)

structure WorkspaceCreatedPayload where
  schemaVersion : String := "1.0"
  workspaceId : String
  name : String
  description : String
  agentIds : List String
  projectIds : List String
  createdAt : String

structure WorkspaceSnapshotTakenPayload where
  schemaVersion : String := "1.0"
  snapshotId : String
  workspaceId : String
  version : Int
  activeDecisions : List String
  runningExecutions : List String
  pendingReflections : List String
  activeKnowledge : List String
  openPromotions : List String
  plannerPolicyId : Option String
  schedulerJobs : List String
  createdAt : String

structure WorkspacePackageExportedPayload where
  schemaVersion : String := "1.0"
  packageId : String
  workspaceId : String
  contextId : String
  snapshotId : String
  agentId : String
  lineagePaths : List String
  exportedAt : String
  deriving DecidableEq

structure WorkspaceDiff where
  snapshotAId : String
  snapshotBId : String
  addedDecisions : List String
  removedDecisions : List String
  addedExecutions : List String
  removedExecutions : List String
  addedReflections : List String
  removedReflections : List String
  addedKnowledge : List String
  removedKnowledge : List String
  addedPromotions : List String
  removedPromotions : List String
  addedJobs : List String
  removedJobs : List String
  plannerChanged : Bool

def WorkspaceDiff.hasChanges (d : WorkspaceDiff) : Bool :=
  d.addedDecisions ≠ [] || d.removedDecisions ≠ [] ||
    d.addedExecutions ≠ [] || d.removedExecutions ≠ [] ||
    d.addedReflections ≠ [] || d.removedReflections ≠ [] ||
    d.addedKnowledge ≠ [] || d.removedKnowledge ≠ [] ||
    d.addedPromotions ≠ [] || d.removedPromotions ≠ [] ||
    d.addedJobs ≠ [] || d.removedJobs ≠ [] || d.plannerChanged

def WorkspaceDiff.totalChanges (d : WorkspaceDiff) : Nat :=
  d.addedDecisions.length + d.removedDecisions.length +
    (d.addedExecutions.length + d.removedExecutions.length) +
    (d.addedReflections.length + d.removedReflections.length) +
    (d.addedKnowledge.length + d.removedKnowledge.length) +
    (d.addedPromotions.length + d.removedPromotions.length) +
    (d.addedJobs.length + d.removedJobs.length) +
    if d.plannerChanged then 1 else 0

/-- `sorted(xs)`. -/
def sorted (xs : List String) : List String := xs.insertionSort (· ≤ ·)

/-! ## The operations -/

-- `now` is `(reference_time or datetime.now(timezone.utc)).isoformat()`
namespace WorkspaceService

/-- The payload of a created, paused or resumed workspace. -/
def created (workspace : Workspace) (now : String) : WorkspaceCreatedPayload where
  workspaceId := workspace.workspaceId
  name := workspace.name
  description := workspace.description
  agentIds := workspace.agentIds
  projectIds := workspace.projectIds
  createdAt := now

/-- `open(name, description, agent_ids, project_ids, reference_time)`. -/
def openWorkspace (now name description : String) (agentIds projectIds : List String) :
    Workspace × WorkspaceCreatedPayload :=
  let workspace : Workspace := {
    workspaceId := Workspace.generateWorkspaceId name now
    name := name
    description := description
    status := .active
    agentIds := sorted agentIds
    projectIds := sorted projectIds
    createdAt := now
    updatedAt := now }
  (workspace, created workspace now)

def resume (now : String) (workspace : Workspace) :
    Except String (Workspace × WorkspaceCreatedPayload) :=
  if workspace.status ≠ .paused then
    .error ("Cannot resume workspace in " ++ workspace.status.value ++
      " status (must be PAUSED)")
  else
    let resumed := { workspace with status := .active, updatedAt := now }
    .ok (resumed, created resumed now)

def pause (now : String) (workspace : Workspace) :
    Except String (Workspace × WorkspaceCreatedPayload) :=
  if workspace.status ≠ .active then
    .error ("Cannot pause workspace in " ++ workspace.status.value ++
      " status (must be ACTIVE)")
  else
    let paused := { workspace with status := .paused, updatedAt := now }
    .ok (paused, created paused now)

def snapshot (now : String) (workspace : Workspace) (version : Int)
    (activeDecisions runningExecutions pendingReflections activeKnowledge
      openPromotions : List String)
    (plannerPolicyId : Option String) (schedulerJobs : List String) :
    WorkspaceSnapshot × WorkspaceSnapshotTakenPayload :=
  let snapshotId := WorkspaceSnapshot.generateSnapshotId workspace.workspaceId now
  ({ snapshotId := snapshotId
     workspaceId := workspace.workspaceId
     version := version
     activeDecisions := sorted activeDecisions
     runningExecutions := sorted runningExecutions
     pendingReflections := sorted pendingReflections
     activeKnowledge := sorted activeKnowledge
     openPromotions := sorted openPromotions
     plannerPolicyId := plannerPolicyId
     schedulerJobs := sorted schedulerJobs
     createdAt := now },
   { snapshotId := snapshotId
     workspaceId := workspace.workspaceId
     version := version
     activeDecisions := sorted activeDecisions
     runningExecutions := sorted runningExecutions
     pendingReflections := sorted pendingReflections
     activeKnowledge := sorted activeKnowledge
     openPromotions := sorted openPromotions
     plannerPolicyId := plannerPolicyId
     schedulerJobs := sorted schedulerJobs
     createdAt := now })

def diff (a b : WorkspaceSnapshot) : WorkspaceDiff where
  snapshotAId := a.snapshotId
  snapshotBId := b.snapshotId
  addedDecisions := SortedSet.sdiff b.activeDecisions a.activeDecisions
  removedDecisions := SortedSet.sdiff a.activeDecisions b.activeDecisions
  addedExecutions := SortedSet.sdiff b.runningExecutions a.runningExecutions
  removedExecutions := SortedSet.sdiff a.runningExecutions b.runningExecutions
  addedReflections := SortedSet.sdiff b.pendingReflections a.pendingReflections
  removedReflections := SortedSet.sdiff a.pendingReflections b.pendingReflections
  addedKnowledge := SortedSet.sdiff b.activeKnowledge a.activeKnowledge
  removedKnowledge := SortedSet.sdiff a.activeKnowledge b.activeKnowledge
  addedPromotions := SortedSet.sdiff b.openPromotions a.openPromotions
  removedPromotions := SortedSet.sdiff a.openPromotions b.openPromotions
  addedJobs := SortedSet.sdiff b.schedulerJobs a.schedulerJobs
  removedJobs := SortedSet.sdiff a.schedulerJobs b.schedulerJobs
  plannerChanged := a.plannerPolicyId ≠ b.plannerPolicyId

/-- `export(workspace, context, snapshot, agent_id, lineage_paths, reference_time)`. -/
def exportPackage (now : String) (workspace : Workspace) (context : WorkspaceContext)
    (snapshot : WorkspaceSnapshot) (agentId : String) (lineagePaths : List String) :
    WorkspacePackage × WorkspacePackageExportedPayload :=
  let packageId := WorkspacePackage.generatePackageId workspace.workspaceId agentId now
  ({ packageId := packageId
     workspaceId := workspace.workspaceId
     contextId := context.contextId
     snapshotId := snapshot.snapshotId
     agentId := agentId
     goals := context.goals
     openDecisions := snapshot.activeDecisions
     runningExecutions := snapshot.runningExecutions
     pendingReflections := snapshot.pendingReflections
     plannerPolicySummary := context.plannerPolicySummary
     recentKnowledge := context.recentKnowledge
     memoryFocus := context.memoryFocus
     lineagePaths := sorted lineagePaths
     exportedAt := now },
   { packageId := packageId
     workspaceId := workspace.workspaceId
     contextId := context.contextId
     snapshotId := snapshot.snapshotId
     agentId := agentId
     lineagePaths := sorted lineagePaths
     exportedAt := now })

/-- `merge`; no name and the empty one give the combined name. -/
def merge (now : String) (a b : Workspace) (name : Option String) :
    Workspace × WorkspaceCreatedPayload :=
  let mergedName := match name with
    | some given => if given = "" then a.name ++ " + " ++ b.name else given
    | none => a.name ++ " + " ++ b.name
  let merged : Workspace := {
    workspaceId := Workspace.generateWorkspaceId mergedName now
    name := mergedName
    description := "Merged from " ++ a.name ++ " and " ++ b.name
    status := .active
    agentIds := SortedSet.ofList (a.agentIds ++ b.agentIds)
    projectIds := SortedSet.ofList (a.projectIds ++ b.projectIds)
    createdAt := now
    updatedAt := now }
  (merged, created merged now)

end WorkspaceService

/-! ## Pausing and resuming -/

inductive LifecycleOperation
  | pause (now : String)
  | resume (now : String)

namespace LifecycleOperation

def run (workspace : Workspace) :
    LifecycleOperation → Except String (Workspace × WorkspaceCreatedPayload)
  | pause now => WorkspaceService.pause now workspace
  | resume now => WorkspaceService.resume now workspace

/-- The status that the operation asks for. -/
def asks : LifecycleOperation → WorkspaceStatus
  | pause _ => .paused
  | resume _ => .active

end LifecycleOperation

/-- A workspace and the events that its caller has emitted. -/
structure WorkspaceHistory where
  workspace : Workspace
  events : List WorkspaceCreatedPayload

namespace WorkspaceHistory

/-- A refused operation emits nothing. -/
def step (h : WorkspaceHistory) (op : LifecycleOperation) : WorkspaceHistory :=
  match op.run h.workspace with
  | .ok (workspace, payload) => ⟨workspace, h.events ++ [payload]⟩
  | .error _ => h

def opened (now name description : String) (agentIds projectIds : List String) :
    WorkspaceHistory :=
  let result := WorkspaceService.openWorkspace now name description agentIds projectIds
  ⟨result.1, [result.2]⟩

/-- The workspace that the events tell: its last change is the last event, and it is paused after
an odd number of changes. -/
def rebuild : List WorkspaceCreatedPayload → Option Workspace
  | [] => none
  | first :: rest => some {
      workspaceId := first.workspaceId
      name := first.name
      description := first.description
      status := if rest.length % 2 = 0 then .active else .paused
      agentIds := first.agentIds
      projectIds := first.projectIds
      createdAt := first.createdAt
      updatedAt := (rest.getLastD first).createdAt }

/-- An operation that asks for the status the workspace has is refused, and any other is accepted
while the workspace is not archived. -/
theorem step_eq {h : WorkspaceHistory} (harchived : h.workspace.status ≠ .archived)
    (op : LifecycleOperation) :
    h.step op = h ∧ h.workspace.status = op.asks ∨
      ∃ now, h.step op = ⟨{ h.workspace with status := op.asks, updatedAt := now },
          h.events ++ [WorkspaceService.created h.workspace now]⟩ ∧
        h.workspace.status ≠ op.asks := by
  cases op with
  | pause now =>
      cases hstatus : h.workspace.status with
      | active =>
          refine Or.inr ⟨now, ?_, by simp [LifecycleOperation.asks]⟩
          simp [step, LifecycleOperation.run, WorkspaceService.pause, hstatus,
            LifecycleOperation.asks, WorkspaceService.created]
      | paused =>
          exact Or.inl ⟨by simp [step, LifecycleOperation.run, WorkspaceService.pause, hstatus], rfl⟩
      | archived => exact absurd hstatus harchived
  | resume now =>
      cases hstatus : h.workspace.status with
      | active =>
          exact Or.inl ⟨by simp [step, LifecycleOperation.run, WorkspaceService.resume, hstatus], rfl⟩
      | paused =>
          refine Or.inr ⟨now, ?_, by simp [LifecycleOperation.asks]⟩
          simp [step, LifecycleOperation.run, WorkspaceService.resume, hstatus,
            LifecycleOperation.asks, WorkspaceService.created]
      | archived => exact absurd hstatus harchived

/-- The events tell the workspace. -/
def Told (h : WorkspaceHistory) : Prop :=
  rebuild h.events = some h.workspace

theorem Told.not_archived {h : WorkspaceHistory} (htold : h.Told) :
    h.workspace.status ≠ .archived := by
  rw [Told] at htold
  cases hevents : h.events with
  | nil => rw [hevents] at htold; cases htold
  | cons first rest =>
      rw [hevents, rebuild, Option.some.injEq] at htold
      rw [← htold]
      dsimp only
      split_ifs <;> decide

theorem told_opened (now name description : String) (agentIds projectIds : List String) :
    (opened now name description agentIds projectIds).Told :=
  rfl

theorem Told.step {h : WorkspaceHistory} (htold : h.Told) (op : LifecycleOperation) :
    (h.step op).Told ∧ (h.step op).workspace.status = op.asks := by
  obtain ⟨hstep, hstatus⟩ | ⟨now, hstep, hstatus⟩ := step_eq htold.not_archived op
  · rw [hstep]
    exact ⟨htold, hstatus⟩
  · rw [hstep]
    refine ⟨?_, rfl⟩
    rw [Told] at htold ⊢
    cases hevents : h.events with
    | nil => rw [hevents] at htold; cases htold
    | cons first rest =>
        rw [hevents, rebuild, Option.some.injEq] at htold
        have hflip : (if (rest.length + 1) % 2 = 0 then WorkspaceStatus.active else .paused) =
            op.asks := by
          rw [← htold] at hstatus
          rcases Nat.mod_two_eq_zero_or_one rest.length with hmod | hmod
          · have hodd : (rest.length + 1) % 2 ≠ 0 := by omega
            cases op <;> simp_all [LifecycleOperation.asks]
          · have heven : (rest.length + 1) % 2 = 0 := by omega
            cases op <;> simp_all [LifecycleOperation.asks]
        rw [List.cons_append, rebuild, List.length_append, List.length_singleton, hflip,
          List.getLastD_concat, ← htold]
        rfl

/-- After every run of pausing and resuming, accepted or refused, the events of the workspace tell
what it is, and its status is the one that was asked for last. -/
theorem rebuild_run (now name description : String) (agentIds projectIds : List String)
    (ops : List LifecycleOperation) :
    let h := ops.foldl step (opened now name description agentIds projectIds)
    rebuild h.events = some h.workspace ∧
      ∀ op ∈ ops.getLast?, h.workspace.status = op.asks := by
  have htold : ∀ ops : List LifecycleOperation,
      (ops.foldl step (opened now name description agentIds projectIds)).Told := by
    intro ops
    induction ops using List.reverseRecOn with
    | nil => exact told_opened now name description agentIds projectIds
    | append_singleton rest op ih =>
        rw [List.foldl_append]
        exact (ih.step op).1
  refine ⟨htold ops, fun op hop => ?_⟩
  obtain ⟨rest, rfl⟩ : ∃ rest, ops = rest ++ [op] := by
    obtain ⟨hne, hlast⟩ := List.mem_getLast?_eq_getLast hop
    exact ⟨ops.dropLast, hlast ▸ (List.dropLast_append_getLast hne).symm⟩
  rw [List.foldl_append]
  exact ((htold rest).step op).2

end WorkspaceHistory

/-! ## Differences of snapshots -/

/-- What a snapshot lists ids of. -/
inductive Subsystem
  | decisions
  | executions
  | reflections
  | knowledge
  | promotions
  | jobs
  deriving DecidableEq

def Subsystem.all : List Subsystem :=
  [.decisions, .executions, .reflections, .knowledge, .promotions, .jobs]

theorem Subsystem.mem_all (s : Subsystem) : s ∈ all := by cases s <;> decide

def WorkspaceSnapshot.ids (w : WorkspaceSnapshot) : Subsystem → List String
  | .decisions => w.activeDecisions
  | .executions => w.runningExecutions
  | .reflections => w.pendingReflections
  | .knowledge => w.activeKnowledge
  | .promotions => w.openPromotions
  | .jobs => w.schedulerJobs

namespace WorkspaceDiff

def added (d : WorkspaceDiff) : Subsystem → List String
  | .decisions => d.addedDecisions
  | .executions => d.addedExecutions
  | .reflections => d.addedReflections
  | .knowledge => d.addedKnowledge
  | .promotions => d.addedPromotions
  | .jobs => d.addedJobs

def removed (d : WorkspaceDiff) : Subsystem → List String
  | .decisions => d.removedDecisions
  | .executions => d.removedExecutions
  | .reflections => d.removedReflections
  | .knowledge => d.removedKnowledge
  | .promotions => d.removedPromotions
  | .jobs => d.removedJobs

theorem totalChanges_eq (d : WorkspaceDiff) : d.totalChanges =
    (Subsystem.all.map fun s => (d.added s).length + (d.removed s).length).sum +
      if d.plannerChanged then 1 else 0 := by
  simp only [totalChanges, Subsystem.all, added, removed, List.map_cons, List.map_nil,
    List.sum_cons, List.sum_nil]
  omega

/-- There are changes exactly if some are counted. -/
theorem hasChanges_eq_false_iff (d : WorkspaceDiff) :
    d.hasChanges = false ↔ d.totalChanges = 0 := by
  simp [hasChanges, totalChanges, and_assoc]

end WorkspaceDiff

namespace WorkspaceService

variable (a b c : WorkspaceSnapshot)

theorem added_diff (s : Subsystem) :
    (diff a b).added s = SortedSet.sdiff (b.ids s) (a.ids s) := by cases s <;> rfl

theorem removed_diff (s : Subsystem) :
    (diff a b).removed s = SortedSet.sdiff (a.ids s) (b.ids s) := by cases s <;> rfl

/-- The changes that are counted are the distances of the subsystems and a changed policy. -/
theorem totalChanges_diff : (diff a b).totalChanges =
    (Subsystem.all.map fun s => SortedSet.dist (a.ids s) (b.ids s)).sum +
      if a.plannerPolicyId = b.plannerPolicyId then 0 else 1 := by
  rw [WorkspaceDiff.totalChanges_eq]
  have hplanner : (if (diff a b).plannerChanged then 1 else 0) =
      if a.plannerPolicyId = b.plannerPolicyId then 0 else 1 := by
    by_cases h : a.plannerPolicyId = b.plannerPolicyId <;> simp [diff, h]
  simp only [added_diff, removed_diff, hplanner, SortedSet.dist]

theorem totalChanges_comm : (diff a b).totalChanges = (diff b a).totalChanges := by
  rw [totalChanges_diff, totalChanges_diff]
  simp only [SortedSet.dist_comm, eq_comm]

theorem totalChanges_triangle :
    (diff a c).totalChanges ≤ (diff a b).totalChanges + (diff b c).totalChanges := by
  rw [totalChanges_diff, totalChanges_diff, totalChanges_diff]
  have hsum : (Subsystem.all.map fun s => SortedSet.dist (a.ids s) (c.ids s)).sum ≤
      (Subsystem.all.map fun s => SortedSet.dist (a.ids s) (b.ids s)).sum +
        (Subsystem.all.map fun s => SortedSet.dist (b.ids s) (c.ids s)).sum := by
    rw [← List.sum_map_add]
    exact List.sum_le_sum fun s _ => SortedSet.dist_triangle ..
  have hplanner : (if a.plannerPolicyId = c.plannerPolicyId then 0 else 1) ≤
      (if a.plannerPolicyId = b.plannerPolicyId then 0 else 1) +
        (if b.plannerPolicyId = c.plannerPolicyId then 0 else 1) := by
    split_ifs <;> simp_all
  omega

theorem totalChanges_eq_zero_iff : (diff a b).totalChanges = 0 ↔
    (∀ s, SortedSet.ofList (a.ids s) = SortedSet.ofList (b.ids s)) ∧
      a.plannerPolicyId = b.plannerPolicyId := by
  have hplanner : (if a.plannerPolicyId = b.plannerPolicyId then 0 else 1) = 0 ↔
      a.plannerPolicyId = b.plannerPolicyId := by simp
  rw [totalChanges_diff, Nat.add_eq_zero_iff, List.sum_eq_zero_iff, hplanner]
  refine and_congr_left' ⟨fun h s => ?_, fun h n hn => ?_⟩
  · exact SortedSet.dist_eq_zero_iff.mp (h _ (List.mem_map_of_mem s.mem_all))
  · obtain ⟨s, -, rfl⟩ := List.mem_map.mp hn
    exact SortedSet.dist_eq_zero_iff.mpr (h s)

/-- The difference turns every subsystem of the one snapshot into that of the other, it is empty
exactly between snapshots of one content, and the number of its changes is a distance. -/
theorem diff_exact :
    (∀ s, SortedSet.patch (a.ids s) ((diff a b).added s) ((diff a b).removed s) =
        SortedSet.ofList (b.ids s)) ∧
      ((diff a b).hasChanges = false ↔
        (∀ s, SortedSet.ofList (a.ids s) = SortedSet.ofList (b.ids s)) ∧
          a.plannerPolicyId = b.plannerPolicyId) ∧
      ((diff a b).totalChanges = 0 ↔ (diff a b).hasChanges = false) ∧
      (diff a b).totalChanges = (diff b a).totalChanges ∧
      (diff a c).totalChanges ≤ (diff a b).totalChanges + (diff b c).totalChanges := by
  refine ⟨fun s => ?_, ?_, ((diff a b).hasChanges_eq_false_iff).symm, totalChanges_comm a b,
    totalChanges_triangle a b c⟩
  · rw [added_diff, removed_diff, SortedSet.patch_sdiff]
  · rw [(diff a b).hasChanges_eq_false_iff, totalChanges_eq_zero_iff]

end WorkspaceService

/-! ## Merging many workspaces -/

/-- The order and the grouping in which workspaces are merged. -/
inductive Merging
  | whole (workspace : Workspace)
  | merged (now : String) (name : Option String) (left right : Merging)

namespace Merging

def result : Merging → Workspace
  | whole workspace => workspace
  | merged now name left right => (WorkspaceService.merge now left.result right.result name).1

def workspaces : Merging → List Workspace
  | whole workspace => [workspace]
  | merged _ _ left right => left.workspaces ++ right.workspaces

/-- The agents and projects of a result are those of the workspaces that went into it. -/
theorem ofList_result (m : Merging) :
    SortedSet.ofList m.result.agentIds =
        SortedSet.ofList (m.workspaces.flatMap Workspace.agentIds) ∧
      SortedSet.ofList m.result.projectIds =
        SortedSet.ofList (m.workspaces.flatMap Workspace.projectIds) := by
  induction m with
  | whole workspace => simp [result, workspaces]
  | merged now name left right ihl ihr =>
      simp only [SortedSet.ofList_eq_ofList_iff] at ihl ihr ⊢
      constructor <;> intro x
      · simp [result, workspaces, WorkspaceService.merge, ihl.1, ihr.1]
      · simp [result, workspaces, WorkspaceService.merge, ihl.2, ihr.2]

/-- However workspaces are merged, under any names and at any times, the result has the agents and
the projects of all of them in order and each once, so the order and the grouping do not matter. -/
theorem result_merged (now : String) (name : Option String) (left right : Merging) :
    (merged now name left right).result.agentIds =
        SortedSet.ofList ((left.workspaces ++ right.workspaces).flatMap Workspace.agentIds) ∧
      (merged now name left right).result.projectIds =
        SortedSet.ofList ((left.workspaces ++ right.workspaces).flatMap Workspace.projectIds) := by
  obtain ⟨hagents, hprojects⟩ := ofList_result (merged now name left right)
  exact ⟨(SortedSet.ofList_ofList _).symm.trans hagents,
    (SortedSet.ofList_ofList _).symm.trans hprojects⟩

end Merging

end RationaleVault.Workspaces
