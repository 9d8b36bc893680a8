import Mathlib.Data.List.Nodup
import Mathlib.Data.Rat.Defs
import RationaleVault.Library.Fold

/-!
# The node registry

A registry holds nodes and, apart from them, their health. A health is replaced where the node has
one already, so what is said of a node that was added without health is lost.
-/

namespace RationaleVault.Runtime

inductive NodeStatus
  | online
  | offline
  | draining
  deriving DecidableEq

/-- How a node performs. -/
structure NodeHealth where
  nodeId : String
  heartbeatTime : String := ""
  latencyMs : ℚ := 0
  load : ℚ := 0
  activeSessions : Int := 0
  memoryPressure : ℚ := 0
  telemetryDelaySeconds : ℚ := 0
  status : NodeStatus := .online
  deriving DecidableEq

/-- Who a node is. -/
structure RuntimeNode where
  nodeId : String
  name : String
  transportType : String
  endpoint : String
  capabilities : List String := []
  workspaceIds : List String := []
  maxConcurrentSessions : Int := 10
  deriving DecidableEq

structure NodeRegistry where
  registryId : String := ""
  nodes : List RuntimeNode := []
  health : List NodeHealth := []
  compiledAt : String := ""

namespace NodeRegistry

variable (r : NodeRegistry)

def onlineNodes : List RuntimeNode :=
  let onlineIds := (r.health.filter fun h => h.status = .online).map NodeHealth.nodeId
  r.nodes.filter fun n => n.nodeId ∈ onlineIds

def getHealth (nodeId : String) : Option NodeHealth := r.health.find? fun h => h.nodeId = nodeId

def addNode (node : RuntimeNode) (health : Option NodeHealth) : NodeRegistry :=
  { r with nodes := r.nodes ++ [node], health := r.health ++ health.toList }

def updateNode (node : RuntimeNode) : NodeRegistry :=
  { r with nodes := r.nodes.map fun n => if n.nodeId = node.nodeId then node else n }

def updateHealth (nodeHealth : NodeHealth) : NodeRegistry :=
  { r with health := r.health.map fun h => if h.nodeId = nodeHealth.nodeId then nodeHealth else h }

def removeNode (nodeId : String) : NodeRegistry :=
  { r with
    nodes := r.nodes.filter fun n => n.nodeId ≠ nodeId
    health := r.health.filter fun h => h.nodeId ≠ nodeId }

/-- The ids of the registered nodes. -/
def nodeIds : List String := r.nodes.map RuntimeNode.nodeId

/-- The ids of the nodes with a health. -/
def healthIds : List String := r.health.map NodeHealth.nodeId

end NodeRegistry

/-! ## Runs -/

/-- The operations on a registry. -/
inductive NodeOperation
  | addNode (node : RuntimeNode) (health : Option NodeHealth)
  | updateNode (node : RuntimeNode)
  | updateHealth (nodeHealth : NodeHealth)
  | removeNode (nodeId : String)

/-- A registry with the health that was given last for each node; a removed node has none. -/
structure NodeHistory where
  registry : NodeRegistry := {}
  latest : String → Option NodeHealth := fun _ => none

namespace NodeOperation

/-- The registry after an operation. -/
def run (r : NodeRegistry) : NodeOperation → NodeRegistry
  | addNode node health => r.addNode node health
  | updateNode node => r.updateNode node
  | updateHealth nodeHealth => r.updateHealth nodeHealth
  | removeNode nodeId => r.removeNode nodeId

/-- What was given last after an operation. -/
def record (latest : String → Option NodeHealth) : NodeOperation → String → Option NodeHealth
  | addNode _ health => health.elim latest fun h => Function.update latest h.nodeId (some h)
  | updateNode _ => latest
  | updateHealth nodeHealth => Function.update latest nodeHealth.nodeId (some nodeHealth)
  | removeNode nodeId => Function.update latest nodeId none

/-- A node is added under a new id, and the health of a registered node is updated. -/
def Permitted (r : NodeRegistry) : NodeOperation → Prop
  | addNode node _ => node.nodeId ∉ r.nodeIds
  | updateHealth nodeHealth => nodeHealth.nodeId ∈ r.nodeIds
  | updateNode _ => True
  | removeNode _ => True

end NodeOperation

namespace NodeHistory

def step (s : NodeHistory) (op : NodeOperation) : NodeHistory where
  registry := op.run s.registry
  latest := op.record s.latest

/-- The nodes and their health fit together. -/
structure Consistent (s : NodeHistory) : Prop where
  nodup : s.registry.nodeIds.Nodup
  registered : ∀ h ∈ s.registry.health, h.nodeId ∈ s.registry.nodeIds
  nodup_health : s.registry.healthIds.Nodup
  getHealth : ∀ nodeId, s.registry.getHealth nodeId = s.latest nodeId
  online : ∀ n, n ∈ s.registry.onlineNodes ↔
    n ∈ s.registry.nodes ∧ (s.latest n.nodeId).map NodeHealth.status = some .online

/-- A health is given for the added node or for a registered one that has none, and updated for a
node that has one. -/
def Records (s : NodeHistory) : NodeOperation → Prop
  | .addNode node health => ∀ h ∈ health, h.nodeId ∉ s.registry.healthIds ∧
      (h.nodeId = node.nodeId ∨ h.nodeId ∈ s.registry.nodeIds)
  | .updateHealth nodeHealth => nodeHealth.nodeId ∈ s.registry.healthIds
  | .updateNode _ => True
  | .removeNode _ => True

end NodeHistory

/-! ## Health by id -/

namespace NodeRegistry

variable {r : NodeRegistry} {h nodeHealth : NodeHealth} {node : RuntimeNode} {health : Option NodeHealth}
  {nodeId id : String}

theorem getHealth_eq_none_iff : r.getHealth id = none ↔ id ∉ r.healthIds := by
  simp [getHealth, healthIds, List.find?_eq_none]

/-- Where no node has two, the health found for a node is the one it has. -/
theorem getHealth_eq_some_iff (hnodup : r.healthIds.Nodup) :
    r.getHealth id = some h ↔ h ∈ r.health ∧ h.nodeId = id := by
  constructor
  · intro hget
    exact ⟨List.mem_of_find?_eq_some hget, by simpa using List.find?_some hget⟩
  · rintro ⟨hmem, rfl⟩
    cases hget : r.getHealth h.nodeId with
    | none => exact absurd (List.mem_map_of_mem hmem) (getHealth_eq_none_iff.mp hget)
    | some h' =>
        have hid : h'.nodeId = h.nodeId := by simpa using List.find?_some hget
        rw [List.inj_on_of_nodup_map hnodup (List.mem_of_find?_eq_some hget) hmem hid]

theorem mem_onlineNodes {n : RuntimeNode} : n ∈ r.onlineNodes ↔
    n ∈ r.nodes ∧ ∃ h ∈ r.health, h.nodeId = n.nodeId ∧ h.status = .online := by
  simp only [onlineNodes, List.mem_filter, List.mem_map, decide_eq_true_eq]
  grind

/-- The nodes that are online are those with a health that says so. -/
theorem mem_onlineNodes_iff (hnodup : r.healthIds.Nodup) {n : RuntimeNode} :
    n ∈ r.onlineNodes ↔
      n ∈ r.nodes ∧ (r.getHealth n.nodeId).map NodeHealth.status = some .online := by
  rw [mem_onlineNodes, Option.map_eq_some_iff]
  simp only [getHealth_eq_some_iff hnodup, and_assoc]

theorem nodeIds_addNode : (r.addNode node health).nodeIds = r.nodeIds ++ [node.nodeId] := by
  simp [nodeIds, addNode]

theorem nodeIds_updateNode : (r.updateNode node).nodeIds = r.nodeIds := by
  rw [nodeIds, updateNode, List.map_map]
  apply List.map_congr_left
  intro n _
  by_cases hid : n.nodeId = node.nodeId <;> simp [hid]

theorem nodeIds_removeNode : (r.removeNode nodeId).nodeIds = r.nodeIds.filter (· ≠ nodeId) := by
  rw [nodeIds, nodeIds, removeNode, List.filter_map]
  rfl

theorem healthIds_addNode :
    (r.addNode node health).healthIds = r.healthIds ++ health.toList.map NodeHealth.nodeId := by
  simp [healthIds, addNode]

theorem healthIds_updateHealth : (r.updateHealth nodeHealth).healthIds = r.healthIds := by
  rw [healthIds, updateHealth, List.map_map]
  apply List.map_congr_left
  intro h _
  by_cases hid : h.nodeId = nodeHealth.nodeId <;> simp [hid]

theorem healthIds_removeNode :
    (r.removeNode nodeId).healthIds = r.healthIds.filter (· ≠ nodeId) := by
  rw [healthIds, healthIds, removeNode, List.filter_map]
  rfl

theorem getHealth_addNode : (r.addNode node health).getHealth id =
    (r.getHealth id).or (health.filter fun h => h.nodeId = id) := by
  rw [getHealth, addNode, List.find?_append, getHealth]
  cases health with
  | none => rfl
  | some h => by_cases hid : h.nodeId = id <;> simp [hid, Option.filter]

theorem getHealth_updateHealth : (r.updateHealth nodeHealth).getHealth id =
    (r.getHealth id).map fun h => if h.nodeId = nodeHealth.nodeId then nodeHealth else h := by
  rw [getHealth, updateHealth, List.find?_map, getHealth]
  congr 2
  funext h
  by_cases hid : h.nodeId = nodeHealth.nodeId <;> simp [hid]

theorem getHealth_removeNode : (r.removeNode nodeId).getHealth id =
    if id = nodeId then none else r.getHealth id := by
  split_ifs with hid
  · rw [getHealth_eq_none_iff, healthIds_removeNode]
    simp [hid]
  · rw [getHealth, removeNode, List.find?_filter, getHealth]
    congr 1
    funext h
    by_cases hsame : h.nodeId = id
    · simp [hsame, hid]
    · simp [hsame]

end NodeRegistry

/-! ## Consistency over runs -/

/-- The nodes and their health fit together, and the health of each is the one given last. -/
structure Linked (r : NodeRegistry) (latest : String → Option NodeHealth) : Prop where
  nodup : r.nodeIds.Nodup
  registered : ∀ id ∈ r.healthIds, id ∈ r.nodeIds
  nodup_health : r.healthIds.Nodup
  getHealth_eq : r.getHealth = latest

namespace Linked

open NodeRegistry

variable {r : NodeRegistry} {latest : String → Option NodeHealth} {nodeHealth : NodeHealth}
  {node : RuntimeNode} {nodeId : String}

theorem empty : Linked {} fun _ => none where
  nodup := List.nodup_nil
  registered := by simp [healthIds]
  nodup_health := List.nodup_nil
  getHealth_eq := rfl

theorem addNode_none (h : Linked r latest) (hnew : node.nodeId ∉ r.nodeIds) :
    Linked (r.addNode node none) latest where
  nodup := by
    rw [nodeIds_addNode, ← List.concat_eq_append]
    exact h.nodup.concat hnew
  registered := by
    intro id hid
    rw [healthIds_addNode, Option.toList_none, List.map_nil, List.append_nil] at hid
    rw [nodeIds_addNode]
    exact List.mem_append_left _ (h.registered id hid)
  nodup_health := by
    rw [healthIds_addNode, Option.toList_none, List.map_nil, List.append_nil]
    exact h.nodup_health
  getHealth_eq := by
    funext id
    rw [getHealth_addNode, h.getHealth_eq]
    exact Option.or_none

/-- A health that comes with a node has to be the first one of a registered node. -/
theorem addNode_some_iff (h : Linked r latest) (hnew : node.nodeId ∉ r.nodeIds) :
    Linked (r.addNode node (some nodeHealth))
        (Function.update latest nodeHealth.nodeId (some nodeHealth)) ↔
      nodeHealth.nodeId ∉ r.healthIds ∧
        (nodeHealth.nodeId = node.nodeId ∨ nodeHealth.nodeId ∈ r.nodeIds) := by
  have hids : (r.addNode node (some nodeHealth)).healthIds =
      r.healthIds ++ [nodeHealth.nodeId] := healthIds_addNode
  constructor
  · intro hlinked
    have hnodup := hlinked.nodup_health
    have hregistered := hlinked.registered nodeHealth.nodeId (by simp [hids])
    rw [hids, List.nodup_append] at hnodup
    rw [nodeIds_addNode, List.mem_append, List.mem_singleton] at hregistered
    exact ⟨fun hmem => hnodup.2.2 _ hmem _ (List.mem_singleton_self _) rfl, hregistered.symm⟩
  · rintro ⟨hfirst, hregistered⟩
    constructor
    · rw [nodeIds_addNode, ← List.concat_eq_append]
      exact h.nodup.concat hnew
    · intro id hid
      rw [nodeIds_addNode, List.mem_append, List.mem_singleton]
      rw [hids, List.mem_append, List.mem_singleton] at hid
      rcases hid with hid | rfl
      · exact .inl (h.registered id hid)
      · exact hregistered.symm
    · rw [hids, ← List.concat_eq_append]
      exact h.nodup_health.concat hfirst
    · funext id
      rw [getHealth_addNode, Function.update_apply]
      split_ifs with hid
      · rw [getHealth_eq_none_iff.mpr (hid ▸ hfirst)]
        simp [hid, Option.filter]
      · rw [h.getHealth_eq]
        simp [Ne.symm hid, Option.filter]

theorem updateNode (h : Linked r latest) : Linked (r.updateNode node) latest where
  nodup := by
    rw [nodeIds_updateNode]
    exact h.nodup
  registered := by
    rw [nodeIds_updateNode]
    exact h.registered
  nodup_health := h.nodup_health
  getHealth_eq := h.getHealth_eq

/-- An update is found exactly if there was a health to replace. -/
theorem updateHealth_iff (h : Linked r latest) :
    Linked (r.updateHealth nodeHealth)
        (Function.update latest nodeHealth.nodeId (some nodeHealth)) ↔
      nodeHealth.nodeId ∈ r.healthIds := by
  constructor
  · intro hlinked
    have hfound := congrFun hlinked.getHealth_eq nodeHealth.nodeId
    rw [Function.update_self] at hfound
    by_contra hnone
    rw [← healthIds_updateHealth, ← getHealth_eq_none_iff, hfound] at hnone
    cases hnone
  · intro hmem
    refine ⟨h.nodup, ?_, ?_, ?_⟩
    · rw [healthIds_updateHealth]
      exact h.registered
    · rw [healthIds_updateHealth]
      exact h.nodup_health
    · funext id
      rw [getHealth_updateHealth, Function.update_apply, ← h.getHealth_eq]
      split_ifs with hid
      · subst hid
        obtain ⟨old, hold⟩ : ∃ old, r.getHealth nodeHealth.nodeId = some old := by
          rw [← Option.ne_none_iff_exists', ne_eq, getHealth_eq_none_iff]
          exact not_not_intro hmem
        have hsame := ((getHealth_eq_some_iff h.nodup_health).mp hold).2
        simp [hold, hsame]
      · cases hold : r.getHealth id with
        | none => rfl
        | some old =>
            have hother := ((getHealth_eq_some_iff h.nodup_health).mp hold).2
            simp [hother, hid]

theorem removeNode (h : Linked r latest) :
    Linked (r.removeNode nodeId) (Function.update latest nodeId none) where
  nodup := nodeIds_removeNode ▸ h.nodup.filter _
  registered := by
    intro id hid
    rw [nodeIds_removeNode, List.mem_filter]
    rw [healthIds_removeNode, List.mem_filter] at hid
    exact ⟨h.registered id hid.1, hid.2⟩
  nodup_health := healthIds_removeNode ▸ h.nodup_health.filter _
  getHealth_eq := by
    funext id
    rw [getHealth_removeNode, Function.update_apply, h.getHealth_eq]

end Linked

namespace NodeHistory

variable {s : NodeHistory}

/-- The nodes that are online follow from the health of each node. -/
theorem consistent_iff : s.Consistent ↔ Linked s.registry s.latest := by
  constructor
  · intro h
    exact ⟨h.nodup, List.forall_mem_map.mpr h.registered, h.nodup_health, funext h.getHealth⟩
  · intro h
    refine ⟨h.nodup, List.forall_mem_map.mp h.registered, h.nodup_health, congrFun h.getHealth_eq,
      fun n => ?_⟩
    rw [NodeRegistry.mem_onlineNodes_iff h.nodup_health, h.getHealth_eq]

/-- A permitted operation keeps nodes and health together exactly if it records what it is given. -/
theorem consistent_step (op : NodeOperation) (hpermitted : op.Permitted s.registry)
    (h : s.Consistent) : (s.step op).Consistent ↔ s.Records op := by
  rw [consistent_iff] at h ⊢
  cases op with
  | addNode node health =>
      cases health with
      | none => exact iff_of_true (h.addNode_none hpermitted) fun _ hnone => by cases hnone
      | some nodeHealth =>
          refine (h.addNode_some_iff hpermitted).trans ⟨fun hrecords h' h'mem => ?_, fun hrecords =>
            hrecords nodeHealth rfl⟩
          obtain rfl := Option.mem_some_iff.mp h'mem
          exact hrecords
  | updateNode node => exact iff_of_true h.updateNode trivial
  | updateHealth nodeHealth => exact h.updateHealth_iff
  | removeNode nodeId => exact iff_of_true h.removeNode trivial

/-- Every operation of a run is permitted where it takes place. -/
def PermittedRun (ops : List NodeOperation) : Prop :=
  ∀ pre op post, ops = pre ++ op :: post → op.Permitted (pre.foldl step {}).registry

/-- The registry is consistent throughout a run exactly if every operation records what it is
given: no health is given for a node that has one or is not registered, and none is updated that
a node does not have. -/
theorem consistent_run_iff (ops : List NodeOperation) (hpermitted : PermittedRun ops) :
    (∀ pre, pre <+: ops → (pre.foldl step {}).Consistent) ↔
      ∀ pre op post, ops = pre ++ op :: post → (pre.foldl step {}).Records op :=
  Fold.always_iff_of_permitted (fun _ op hop hs => consistent_step op hop hs)
    (consistent_iff.mpr Linked.empty) hpermitted

/-- A node that is added without health, and its health. -/
def lateHealth : List NodeOperation :=
  [.addNode ⟨"n1", "node", "REST", "http://localhost:1", [], [], 10⟩ none,
    .updateHealth { nodeId := "n1" }]

theorem permittedRun_lateHealth : PermittedRun lateHealth := by
  intro pre op post hsplit
  rcases pre with _ | ⟨first, _ | ⟨second, pre⟩⟩
  · obtain ⟨rfl, -⟩ := List.cons.inj hsplit
    exact List.not_mem_nil
  · obtain ⟨rfl, hrest⟩ := List.cons.inj hsplit
    obtain ⟨rfl, -⟩ := List.cons.inj hrest
    exact List.mem_singleton_self _
  · simp [lateHealth] at hsplit

theorem consistent_run_iff_lateHealth :
    (∀ pre, pre <+: lateHealth → (pre.foldl step {}).Consistent) ↔
      ∀ pre op post, lateHealth = pre ++ op :: post → (pre.foldl step {}).Records op :=
  consistent_run_iff lateHealth permittedRun_lateHealth

/-- The health is lost, and the node is not online. -/
theorem not_consistent_lateHealth :
    PermittedRun lateHealth ∧ (lateHealth.foldl step {}).registry.getHealth "n1" = none ∧
      ¬(lateHealth.foldl step {}).Consistent := by
  refine ⟨permittedRun_lateHealth, by decide, fun h => ?_⟩
  have hlost := h.getHealth "n1"
  revert hlost
  decide

end NodeHistory

end RationaleVault.Runtime
