import Mathlib.Algebra.BigOperators.Ring.Finset
import RationaleVault.Library.BreadthTree
import RationaleVault.Library.Pairs
import RationaleVault.Library.Ranking
import RationaleVault.Library.Tally
import RationaleVault.Organization.Projection

/-!
# The graph of the organization

Projects are nodes and what relates them are edges. An edge stands in the index of its
source and in that of its target, so what is transferred leaves one project and enters
another one. Weights and scores are rational; the cube root of the overall health is a
parameter.
-/

namespace RationaleVault

inductive OrganizationRelationType
  | transferredTo | sharedBy | conflictsWith | inCluster | derivesFrom
  deriving DecidableEq

instance : DictKey OrganizationRelationType OrganizationRelationType := ⟨id⟩

structure OrganizationNode where
  projectId : String
  name : String
  knowledgeCount : Nat
  transferableCount : Nat
  sharedCount : Nat
  conflictCount : Nat
  isClusterCenter : Bool
  healthScore : ℚ
  deriving DecidableEq

structure OrganizationEdge where
  source : String
  target : String
  relationType : OrganizationRelationType
  weight : ℚ
  confidence : ℚ
  deriving DecidableEq

structure OrganizationGraphHealth where
  connectivity : ℚ
  density : ℚ
  conflictDensity : ℚ
  clusterCohesion : ℚ
  producerConsumerBalance : ℚ
  overall : ℚ
  deriving DecidableEq

structure OrganizationGraphState where
  compiledAt : String
  nodes : OrdDict String OrganizationNode
  edges : List OrganizationEdge
  adjacency : OrdDict String (List OrganizationEdge)
  reverseAdjacency : OrdDict String (List OrganizationEdge)
  clusters : List (List String)
  density : ℚ
  conflictedNodes : Finset String
  edgesByRelation : OrdDict OrganizationRelationType (List OrganizationEdge)
  knowledgeFlowBalance : OrdDict String Int
  knowledgeProducers : List (String × ℚ)
  knowledgeConsumers : List (String × ℚ)
  contradictionHotspots : List (String × ℚ)
  health : OrganizationGraphHealth

namespace OrganizationGraphProjection

open OrganizationProjection BreadthTree

variable (state : OrganizationState)

/-! ## Nodes -/

/-- The node of a project, with what is counted for it. -/
def nodeOf (pid : String) : OrganizationNode where
  projectId := pid
  name := pid
  knowledgeCount :=
    (state.activeLineages.values.flatMap KnowledgeLineage.currentProjects).count pid
  transferableCount :=
    ((state.activeLineages.values.map KnowledgeLineage.originProject).filter
      fun origin => origin ≠ "").count pid
  sharedCount := (state.sharedKnowledge.flatMap SharedKnowledge.presentInProjects).count pid
  conflictCount := (state.crossProjectConflicts.flatMap fun c => [c.projectA, c.projectB]).count pid
  isClusterCenter := decide (some pid ∈ state.projectClusters.map List.head?)
  healthScore := state.health.overall

/-- `_build_nodes(org_state)`. -/
def buildNodes : OrdDict String OrganizationNode :=
  .ofList (state.projectIds.map fun pid => (pid, nodeOf state pid))

/-! ## Edges -/

/-- The transfers of all lineages: from the origin to every other project that has the item. -/
def transferPairs : List (String × String) :=
  state.activeLineages.values.flatMap fun lineage =>
    (lineage.currentProjects.filter fun pid => pid ≠ lineage.originProject).map
      fun pid => (lineage.originProject, pid)

/-- `transfer_agg`. -/
def transferAgg : OrdDict (String × String) Nat :=
  (transferPairs state).foldl Tally.bump .empty

/-- `shared_agg`. -/
def sharedAgg : OrdDict (String × String) Nat :=
  (state.sharedKnowledge.flatMap fun sk =>
    Pairs.couples (Table.orderBy id sk.presentInProjects)).foldl Tally.bump .empty

/-- `tuple(sorted([a, b]))`. -/
def sortedPair (a b : String) : String × String := if b < a then (b, a) else (a, b)

/-- `conflict_agg`: how many conflicts two projects have, and their confidences together. -/
def conflictAgg : OrdDict (String × String) (Nat × ℚ) :=
  Grouping.group (fun c : CrossProjectConflict => sortedPair c.projectA c.projectB)
    (fun _ => (0, 0)) (fun data c => (data.1 + 1, data.2 + c.confidence))
    state.crossProjectConflicts

/-- `project_knowledge_sets.get(pid, set())`. -/
def knowledgeOf (pid : String) : Finset String :=
  ((state.activeLineages.entries.filter fun e =>
    (e.2.originProject ≠ "" ∧ e.2.originProject = pid) ∨ pid ∈ e.2.currentProjects).map
      Prod.fst).toFinset

/-- An edge in each direction. -/
def bothWays (src tgt : String) (relationType : OrganizationRelationType)
    (weight confidence : ℚ) : List OrganizationEdge :=
  [⟨src, tgt, relationType, weight, confidence⟩, ⟨tgt, src, relationType, weight, confidence⟩]

/-- The edges of two projects of one cluster, with the similarity of what they know. -/
def clusterEdges (pA pB : String) : List OrganizationEdge :=
  let intersection := (knowledgeOf state pA ∩ knowledgeOf state pB).card
  let union := (knowledgeOf state pA).card + (knowledgeOf state pB).card - intersection
  bothWays pA pB .inCluster intersection (if 0 < union then (intersection : ℚ) / union else 0)

/-- All edges, also those of projects that are not listed. -/
def collectEdges : List OrganizationEdge :=
  ((transferAgg state).entries.map fun e => ⟨e.1.1, e.1.2, .transferredTo, e.2, 1⟩) ++
    ((sharedAgg state).entries.flatMap fun e => bothWays e.1.1 e.1.2 .sharedBy e.2 1) ++
    ((conflictAgg state).entries.flatMap fun e =>
      bothWays e.1.1 e.1.2 .conflictsWith e.2.1 (if 0 < e.2.1 then e.2.2 / e.2.1 else 1)) ++
    state.projectClusters.flatMap fun cluster =>
      (Pairs.couples cluster).flatMap fun p => clusterEdges state p.1 p.2

/-- `_build_edges(org_state)`. -/
def buildEdges : List OrganizationEdge :=
  (collectEdges state).filter fun e => e.source ∈ state.projectIds && e.target ∈ state.projectIds

/-- One of the two dictionaries of `_build_adjacency(edges, nodes)`. -/
def buildIndex (key : OrganizationEdge → String) (edges : List OrganizationEdge)
    (nodes : OrdDict String OrganizationNode) : OrdDict String (List OrganizationEdge) :=
  edges.foldl (fun index e => index.modify (key e) fun l => l ++ [e]) (nodes.mapVals fun _ => [])

/-- `_compute_density(nodes, edges)`. -/
def computeDensity (nodes : OrdDict String OrganizationNode) (edges : List OrganizationEdge) : ℚ :=
  let n := nodes.keys.length
  if n ≤ 1 then 0 else (edges.length : ℚ) / (n * (n - 1) : Nat)

/-- `_compute_edges_by_relation(edges)`. -/
def computeEdgesByRelation (edges : List OrganizationEdge) :
    OrdDict OrganizationRelationType (List OrganizationEdge) :=
  Grouping.lists OrganizationEdge.relationType id edges

/-! ## Knowledge flow -/

/-- `int(weight)`. -/
def truncate (weight : ℚ) : Int := weight.num.tdiv weight.den

def isTransfer (e : OrganizationEdge) : Bool := e.relationType = .transferredTo

/-- The weight of the transfers among some edges. -/
def transferWeight (edges : List OrganizationEdge) : Int :=
  ((edges.filter isTransfer).map fun e => truncate e.weight).sum

/-- `_compute_flow_balance(adjacency, reverse_adjacency)`. -/
def computeFlowBalance (adjacency reverseAdjacency : OrdDict String (List OrganizationEdge)) :
    OrdDict String Int :=
  .ofList (adjacency.entries.map fun e =>
    (e.1, transferWeight e.2 - transferWeight ((reverseAdjacency.get? e.1).getD [])))

/-- `_compute_conflicted_nodes(org_state)`. -/
def computeConflictedNodes : Finset String :=
  (state.crossProjectConflicts.flatMap fun c => [c.projectA, c.projectB]).toFinset

/-- The producers of `_compute_derived_metrics(...)`. -/
def computeProducers (flowBalance : OrdDict String Int) : List (String × ℚ) :=
  Table.orderByDesc Prod.snd ((flowBalance.entries.filter fun e => 0 < e.2).map
    fun e => (e.1, (e.2 : ℚ)))

/-- The consumers of `_compute_derived_metrics(...)`. -/
def computeConsumers (flowBalance : OrdDict String Int) : List (String × ℚ) :=
  Table.orderByDesc Prod.snd ((flowBalance.entries.filter fun e => e.2 < 0).map
    fun e => (e.1, ((|e.2| : Int) : ℚ)))

/-- The hotspots of `_compute_derived_metrics(...)`. -/
def computeHotspots (edgesByRelation : OrdDict OrganizationRelationType (List OrganizationEdge)) :
    List (String × ℚ) :=
  let scored := ((edgesByRelation.get? .conflictsWith).getD []).flatMap fun e =>
    [(e.source, e.weight), (e.target, e.weight)]
  Table.orderByDesc Prod.snd (Grouping.group Prod.fst (fun _ => (0 : ℚ))
    (fun score p => score + p.2) scored : OrdDict String ℚ).entries

/-! ## Health -/

/-- All targets of an index. -/
def targets (adjacency : OrdDict String (List OrganizationEdge)) : List String :=
  adjacency.entries.flatMap fun entry => entry.2.map OrganizationEdge.target

/-- Where the edges of some kind lead from a node. -/
def successors (adjacency : OrdDict String (List OrganizationEdge))
    (follow : OrganizationEdge → Bool) (node : String) : List String :=
  (((adjacency.get? node).getD []).filter follow).map OrganizationEdge.target

theorem mem_targets {adjacency : OrdDict String (List OrganizationEdge)}
    (follow : OrganizationEdge → Bool) (v : String) :
    ∀ w ∈ successors adjacency follow v, w ∈ targets adjacency := by
  intro w hw
  obtain ⟨e, he, rfl⟩ := List.mem_map.mp hw
  have he := (List.mem_filter.mp he).1
  cases hget : adjacency.get? v with
  | none =>
      rw [hget] at he
      cases he
  | some l =>
      rw [hget] at he
      obtain ⟨entry, hentry, _, rfl⟩ := OrdDict.lookupIn_mem hget
      exact List.mem_flatMap.mpr ⟨entry, hentry, List.mem_map_of_mem he⟩

/-- The loop of every search of this module: over a queue, along the edges of some kind. -/
def bfs (adjacency : OrdDict String (List OrganizationEdge)) (follow : OrganizationEdge → Bool)
    (stop : String → Bool) (start : String) : State String :=
  search (successors adjacency follow) (targets adjacency) (mem_targets follow) stop start

/-- `_compute_cluster_cohesion_ratio(edges, clusters)`. -/
def computeClusterCohesionRatio (edges : List OrganizationEdge) (clusters : List (List String)) :
    ℚ :=
  if edges = [] then 0
  else
    ((edges.countP fun e => clusters.any fun c => e.source ∈ c && e.target ∈ c : Nat) : ℚ) /
      edges.length

/-- The producer-consumer balance of `_compute_health(...)`. -/
def producerConsumerBalance (flowBalance : OrdDict String Int) : ℚ :=
  let totalPositive : Int := (flowBalance.values.filter fun v => 0 < v).sum
  let totalNegative : Int := ((flowBalance.values.filter fun v => v < 0).map fun v => |v|).sum
  let totalFlow := totalPositive + totalNegative
  if 0 < totalFlow then 1 - (|totalPositive - totalNegative| : Int) / totalFlow else 1

/-- `_compute_health(...)`. -/
def computeHealth (cubeRoot : ℚ → ℚ) (nodes : OrdDict String OrganizationNode)
    (edges : List OrganizationEdge) (adjacency : OrdDict String (List OrganizationEdge))
    (clusters : List (List String)) (conflictedNodes : Finset String)
    (flowBalance : OrdDict String Int) : OrganizationGraphHealth :=
  let n := nodes.keys.length
  let connectivity : ℚ :=
    match nodes.keys.head? with
    | none => 1
    | some start =>
        (bfs adjacency (fun _ => true) (fun _ => false) start).visited.length / (n : ℚ)
  let clusterCohesion := computeClusterCohesionRatio edges clusters
  let balance := producerConsumerBalance flowBalance
  { connectivity := connectivity
    density := computeDensity nodes edges
    conflictDensity := if 0 < n then (conflictedNodes.card : ℚ) / n else 0
    clusterCohesion := clusterCohesion
    producerConsumerBalance := balance
    overall := cubeRoot (connectivity * clusterCohesion * balance) }

/-- `project(org_state, reference_time)`. -/
def project (cubeRoot : ℚ → ℚ) (now : String) (state : OrganizationState) :
    OrganizationGraphState :=
  let nodes := buildNodes state
  let edges := buildEdges state
  let adjacency := buildIndex OrganizationEdge.source edges nodes
  let reverseAdjacency := buildIndex OrganizationEdge.target edges nodes
  let edgesByRelation := computeEdgesByRelation edges
  let flowBalance := computeFlowBalance adjacency reverseAdjacency
  let conflictedNodes := computeConflictedNodes state
  { compiledAt := now
    nodes := nodes
    edges := edges
    adjacency := adjacency
    reverseAdjacency := reverseAdjacency
    clusters := state.projectClusters
    density := computeDensity nodes edges
    conflictedNodes := conflictedNodes
    edgesByRelation := edgesByRelation
    knowledgeFlowBalance := flowBalance
    knowledgeProducers := computeProducers flowBalance
    knowledgeConsumers := computeConsumers flowBalance
    contradictionHotspots := computeHotspots edgesByRelation
    health := computeHealth cubeRoot nodes edges adjacency state.projectClusters conflictedNodes
      flowBalance }

/-! ## The indexes -/

section Index

variable (key : OrganizationEdge → String) (edges : List OrganizationEdge)
  (nodes : OrdDict String OrganizationNode)

theorem normKeys_buildIndex : (buildIndex key edges nodes).normKeys = nodes.normKeys := by
  induction edges using List.reverseRecOn with
  | nil => simp [buildIndex, OrdDict.normKeys]
  | append_singleton edges e ih =>
      rw [buildIndex, List.foldl_concat, OrdDict.normKeys_modify]
      exact ih

/-- The index lists the edges of every node in their order. -/
theorem get?_buildIndex (pid : String) : (buildIndex key edges nodes).get? pid =
    if pid ∈ nodes.normKeys then some (edges.filter fun e => key e = pid) else none := by
  induction edges using List.reverseRecOn with
  | nil =>
      have hkey : pid ∈ nodes.normKeys ↔ (nodes.get? pid).isSome = true :=
        (OrdDict.contains_iff nodes pid).symm
      rw [buildIndex, List.foldl_nil, OrdDict.get?_mapVals, List.filter_nil]
      cases hget : nodes.get? pid with
      | none => simp [hkey, hget]
      | some node => simp [hkey, hget]
  | append_singleton edges e ih =>
      have hstep : buildIndex key (edges ++ [e]) nodes =
          (buildIndex key edges nodes).modify (key e) fun l => l ++ [e] := by
        rw [buildIndex, List.foldl_concat]
        rfl
      rw [hstep, OrdDict.get?_modify, ih, List.filter_append]
      simp only [DictKey.norm_string]
      by_cases hpid : key e = pid
      · rw [if_pos hpid, List.filter_cons_of_pos (by simpa using hpid), List.filter_nil]
        split_ifs <;> rfl
      · rw [if_neg hpid, List.filter_cons_of_neg (by simpa using hpid), List.filter_nil,
          List.append_nil]

theorem entries_buildIndex : (buildIndex key edges nodes).entries =
    nodes.keys.map fun pid => (pid, edges.filter fun e => key e = pid) := by
  have hentries : ∀ d : OrdDict String (List OrganizationEdge),
      d.entries = d.keys.map fun pid => (pid, (d.get? pid).getD []) := by
    intro d
    rw [OrdDict.keys, List.map_map]
    calc
      d.entries = d.entries.map id := (List.map_id _).symm
      _ = d.entries.map ((fun pid => (pid, (d.get? pid).getD [])) ∘ Prod.fst) := by
        apply List.map_congr_left
        intro e he
        rw [Function.comp_apply, OrdDict.get?_of_mem he]
        rfl
  have hkeys : (buildIndex key edges nodes).keys = nodes.keys :=
    normKeys_buildIndex key edges nodes
  rw [hentries, hkeys]
  apply List.map_congr_left
  intro pid hpid
  have hnode : pid ∈ nodes.normKeys := OrdDict.norm_mem_normKeys hpid
  rw [get?_buildIndex, if_pos hnode, Option.getD_some]

end Index

theorem mem_keys_buildNodes {pid : String} (h : pid ∈ state.projectIds) :
    pid ∈ (buildNodes state).normKeys := by
  have hmem := List.mem_map_of_mem (f := fun pid => (pid, nodeOf state pid)) h
  exact (OrdDict.contains_iff _ pid).mp (OrdDict.contains_ofList hmem)

/-- Every edge joins two nodes. -/
theorem mem_nodes_of_mem_edges {e : OrganizationEdge} (he : e ∈ buildEdges state) :
    e.source ∈ (buildNodes state).normKeys ∧ e.target ∈ (buildNodes state).normKeys := by
  have hids : e.source ∈ state.projectIds ∧ e.target ∈ state.projectIds := by
    simpa using (List.mem_filter.mp he).2
  exact ⟨mem_keys_buildNodes state hids.1, mem_keys_buildNodes state hids.2⟩

/-! ## Balance -/

section Balance

variable {edges : List OrganizationEdge} {nodes : OrdDict String OrganizationNode}

/-- What the edges of all nodes carry is what the edges carry. -/
theorem sum_transferWeight {key : OrganizationEdge → String}
    (hkey : ∀ e ∈ edges, key e ∈ nodes.normKeys) :
    (nodes.keys.map fun pid => transferWeight (edges.filter fun e => key e = pid)).sum =
      transferWeight edges := by
  have hnodup : nodes.keys.Nodup := nodes.normKeys_nodup
  have htransfers : ∀ e ∈ edges.filter isTransfer, key e ∈ nodes.keys :=
    fun e he => hkey e (List.mem_filter.mp he).1
  rw [transferWeight, ← Tally.sum_fibers hnodup htransfers]
  simp only [transferWeight, List.filter_filter, Bool.and_comm]

theorem entries_computeFlowBalance :
    (computeFlowBalance (buildIndex OrganizationEdge.source edges nodes)
      (buildIndex OrganizationEdge.target edges nodes)).entries =
      nodes.keys.map fun pid => (pid, transferWeight (edges.filter fun e => e.source = pid) -
        transferWeight (edges.filter fun e => e.target = pid)) := by
  have hnodup : nodes.keys.Nodup := nodes.normKeys_nodup
  rw [computeFlowBalance, OrdDict.entries_ofList, entries_buildIndex, List.map_map]
  · apply List.map_congr_left
    intro pid hpid
    have hnode : pid ∈ nodes.normKeys := OrdDict.norm_mem_normKeys hpid
    rw [Function.comp_apply, get?_buildIndex, if_pos hnode, Option.getD_some]
  · rw [List.map_map]
    exact (buildIndex OrganizationEdge.source edges nodes).nodup

/-- What leaves one project enters another. -/
theorem sum_flowBalance (hsource : ∀ e ∈ edges, e.source ∈ nodes.normKeys)
    (htarget : ∀ e ∈ edges, e.target ∈ nodes.normKeys) :
    (computeFlowBalance (buildIndex OrganizationEdge.source edges nodes)
      (buildIndex OrganizationEdge.target edges nodes)).values.sum = 0 := by
  have hsub : ∀ (l : List String) (f g : String → Int),
      (l.map fun pid => f pid - g pid).sum = (l.map f).sum - (l.map g).sum := by
    intro l f g
    induction l with
    | nil => rfl
    | cons pid l ih =>
        rw [List.map_cons, List.sum_cons, ih, List.map_cons, List.sum_cons, List.map_cons,
          List.sum_cons]
        omega
  rw [OrdDict.values, entries_computeFlowBalance, List.map_map]
  calc
    _ = (nodes.keys.map fun pid => transferWeight (edges.filter fun e => e.source = pid)).sum -
        (nodes.keys.map fun pid => transferWeight (edges.filter fun e => e.target = pid)).sum :=
      hsub nodes.keys _ _
    _ = transferWeight edges - transferWeight edges := by
      rw [sum_transferWeight hsource, sum_transferWeight htarget]
    _ = 0 := sub_self _

end Balance

/-- The gains and the losses of some values make up their sum. -/
theorem sum_gains (l : List Int) : (l.filter fun v => 0 < v).sum =
    ((l.filter fun v => v < 0).map fun v => |v|).sum + l.sum := by
  induction l with
  | nil => rfl
  | cons v l ih =>
      rcases lt_trichotomy v 0 with hv | rfl | hv
      · rw [List.filter_cons_of_neg (by simp [hv.le]), List.filter_cons_of_pos (by simpa using hv),
          List.map_cons, List.sum_cons, List.sum_cons, ih, abs_of_neg hv]
        omega
      · simpa using ih
      · rw [List.filter_cons_of_pos (by simpa using hv), List.filter_cons_of_neg (by simp [hv.le]),
          List.sum_cons, List.sum_cons, ih, add_left_comm]

section Flow

variable {flowBalance : OrdDict String Int} (hsum : flowBalance.values.sum = 0)

include hsum

theorem sum_gains_eq_losses : (flowBalance.values.filter fun v => 0 < v).sum =
    ((flowBalance.values.filter fun v => v < 0).map fun v => |v|).sum := by
  rw [sum_gains, hsum, add_zero]

theorem sum_computeProducers : ((computeProducers flowBalance).map Prod.snd).sum =
    ((computeConsumers flowBalance).map Prod.snd).sum := by
  have hproducers : ((computeProducers flowBalance).map Prod.snd).sum =
      (((flowBalance.values.filter fun v => 0 < v).sum : Int) : ℚ) := by
    rw [computeProducers, ((Ranking.ranked_orderByDesc Prod.snd _).perm.map Prod.snd).sum_eq,
      OrdDict.values, List.filter_map, List.map_map, Int.cast_list_sum, List.map_map]
    rfl
  have hconsumers : ((computeConsumers flowBalance).map Prod.snd).sum =
      ((((flowBalance.values.filter fun v => v < 0).map fun v => |v|).sum : Int) : ℚ) := by
    rw [computeConsumers, ((Ranking.ranked_orderByDesc Prod.snd _).perm.map Prod.snd).sum_eq,
      OrdDict.values, List.filter_map, List.map_map, Int.cast_list_sum, List.map_map, List.map_map]
    rfl
  rw [hproducers, hconsumers, sum_gains_eq_losses hsum]

theorem producerConsumerBalance_eq_one : producerConsumerBalance flowBalance = 1 := by
  rw [producerConsumerBalance, sum_gains_eq_losses hsum]
  simp

end Flow

/-- Nothing that flows between the projects is lost. -/
theorem flow_balances (cubeRoot : ℚ → ℚ) (now : String) (state : OrganizationState) :
    (project cubeRoot now state).knowledgeFlowBalance.values.sum = 0 ∧
      ((project cubeRoot now state).knowledgeProducers.map Prod.snd).sum =
        ((project cubeRoot now state).knowledgeConsumers.map Prod.snd).sum ∧
      (project cubeRoot now state).health.producerConsumerBalance = 1 := by
  have hsum := sum_flowBalance (fun e he => (mem_nodes_of_mem_edges state he).1)
    fun e he => (mem_nodes_of_mem_edges state he).2
  simp only [project, computeHealth]
  exact ⟨hsum, sum_computeProducers hsum, producerConsumerBalance_eq_one hsum⟩

end OrganizationGraphProjection

/-!
## Transfers

Two searches follow the transfers only. One collects the projects that a transfer can reach, the
other one finds a shortest way to a project. They agree on what can be reached, whatever other
edges stand in the index.
-/

namespace OrganizationGraphProjection

open BreadthTree

section Searches

variable (state : OrganizationGraphState)

/-- `blast_radius(state, project_id)`. -/
def blastRadius (projectId : String) : List String :=
  (bfs state.adjacency isTransfer (fun _ => false) projectId).visited

/-- `shortest_transfer_path(state, source, target)`. The search stops at the target, and the
predecessors are followed from it back to the source. -/
def shortestTransferPath (source target : String) : Option (List String) :=
  if source = target then some [source]
  else
    let s := bfs state.adjacency isTransfer (fun node => node = target) source
    if target ∈ s.visited then
      (trace s.parent source s.visited.length target).map List.reverse
    else some []

/-- A transfer from one project to another. -/
def Transferred (v w : String) : Prop :=
  ∃ e ∈ state.edges, e.relationType = .transferredTo ∧ e.source = v ∧ e.target = w

end Searches

variable (cubeRoot : ℚ → ℚ) (now : String) (state : OrganizationState)

/-- The index of a graph that was built leads along its transfers. -/
theorem edge_iff_transferred (v w : String) :
    DepthFirst.Edge (successors (project cubeRoot now state).adjacency isTransfer) v w ↔
      Transferred (project cubeRoot now state) v w := by
  have hget : (project cubeRoot now state).adjacency.get? v =
      if v ∈ (buildNodes state).normKeys then
        some ((buildEdges state).filter fun e => e.source = v) else none :=
    get?_buildIndex OrganizationEdge.source (buildEdges state) (buildNodes state) v
  rw [DepthFirst.Edge, successors, hget, List.mem_map]
  constructor
  · rintro ⟨e, he, rfl⟩
    obtain ⟨he, htransfer⟩ := List.mem_filter.mp he
    split_ifs at he with hnode
    · obtain ⟨hedge, hsource⟩ := List.mem_filter.mp he
      exact ⟨e, hedge, by simpa [isTransfer] using htransfer, by simpa using hsource, rfl⟩
    · cases he
  · rintro ⟨e, he, htransfer, rfl, rfl⟩
    refine ⟨e, List.mem_filter.mpr ⟨?_, by simpa [isTransfer] using htransfer⟩, rfl⟩
    rw [if_pos (mem_nodes_of_mem_edges state he).1, Option.getD_some]
    exact List.mem_filter.mpr ⟨he, by simp⟩

theorem edge_eq_transferred :
    DepthFirst.Edge (successors (project cubeRoot now state).adjacency isTransfer) =
      Transferred (project cubeRoot now state) := by
  ext v w
  exact edge_iff_transferred cubeRoot now state v w

theorem mem_blastRadius_iff (p q : String) :
    q ∈ blastRadius (project cubeRoot now state) p ↔
      Relation.ReflTransGen (Transferred (project cubeRoot now state)) p q := by
  rw [blastRadius, bfs, mem_search_iff, edge_eq_transferred]

/-- The path that is returned: none, or a shortest one. -/
structure Answers (state : OrganizationGraphState) (source target : String)
    (path : List String) : Prop where
  empty_iff : path = [] ↔ target ∉ blastRadius state source
  shortest : path ≠ [] → Shortest (Transferred state) source target path

omit cubeRoot now state in
theorem shortest_singleton {edge : String → String → Prop} (v : String) :
    Shortest edge v v [v] where
  head := rfl
  last := rfl
  chain := .singleton v
  fewest other hother := by
    rw [List.length_singleton, Nat.one_le_iff_ne_zero, Ne, List.length_eq_zero_iff]
    rintro rfl
    cases hother.head

theorem exists_shortestTransferPath (s t : String) :
    ∃ path, shortestTransferPath (project cubeRoot now state) s t = some path ∧
      Answers (project cubeRoot now state) s t path := by
  simp only [shortestTransferPath]
  split_ifs with hsame hvisited
  · subst hsame
    refine ⟨[s], rfl, ?_, fun _ => shortest_singleton s⟩
    rw [mem_blastRadius_iff]
    exact iff_of_false (List.cons_ne_nil s []) (not_not_intro .refl)
  · obtain ⟨queue, done, hgrown, -⟩ :=
      exists_grown (mem_targets isTransfer) (fun node => node = t) s
    obtain ⟨path, hpath, hshortest⟩ := hgrown.exists_shortest hvisited
    rw [edge_eq_transferred] at hshortest
    refine ⟨path.reverse, by rw [bfs, hpath, Option.map_some], ?_, fun _ => hshortest⟩
    rw [mem_blastRadius_iff, ← edge_eq_transferred]
    refine iff_of_false ?_ (not_not_intro (hgrown.reach hvisited))
    intro hnil
    rw [hnil] at hshortest
    cases hshortest.head
  · refine ⟨[], rfl, ?_, fun hne => absurd rfl hne⟩
    rw [mem_blastRadius_iff, ← edge_eq_transferred]
    rw [bfs, mem_search_target_iff] at hvisited
    exact iff_of_true rfl hvisited

/-- The two searches follow the transfers of the graph. -/
theorem transfers_traced :
    (∀ p q, q ∈ blastRadius (project cubeRoot now state) p ↔
      Relation.ReflTransGen (Transferred (project cubeRoot now state)) p q) ∧
    ∀ s t, ∃ path, shortestTransferPath (project cubeRoot now state) s t = some path ∧
      Answers (project cubeRoot now state) s t path :=
  ⟨mem_blastRadius_iff cubeRoot now state, exists_shortestTransferPath cubeRoot now state⟩

end OrganizationGraphProjection

end RationaleVault
