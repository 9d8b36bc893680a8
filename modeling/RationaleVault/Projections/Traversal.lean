import RationaleVault.Projections.GraphRecord

/-!
# Filtered traversal

The traversal collects the nodes within some hops of a start, and the edges that it follows. A node
lists all permitted edges at it: also those that leave the collected nodes, and in a traversal of
both directions every edge is listed from both of its ends.
-/

namespace RationaleVault

open BreadthFirst Walks

/-- The arguments of `filtered_traversal` next to the start. -/
structure TraversalOptions where
  edgeTypes : Option (List String) := none
  minConfidence : ℚ := 0
  direction : String := "both"
  maxDepth : Nat := 10

namespace TraversalOptions

variable (o : TraversalOptions)

/-- The edges that the filters let through: no types, or none listed, filter nothing. -/
def Permits (e : GraphEdge) : Prop :=
  (o.edgeTypes.getD [] = [] ∨ e.relationType.value ∈ o.edgeTypes.getD []) ∧
    o.minConfidence ≤ e.confidence

instance : DecidablePred o.Permits := fun _ => inferInstanceAs (Decidable (_ ∧ _))

/-- `direction in ("both", "forward")`. -/
def Forward : Prop := o.direction ∈ ["both", "forward"]

/-- `direction in ("both", "backward")`. -/
def Backward : Prop := o.direction ∈ ["both", "backward"]

instance : Decidable o.Forward := inferInstanceAs (Decidable (_ ∈ _))

instance : Decidable o.Backward := inferInstanceAs (Decidable (_ ∈ _))

end TraversalOptions

namespace GraphRecord

variable (g : GraphRecord) (o : TraversalOptions)

/-- The permitted edges that are followed forward from a node. -/
def outgoing (v : String) : List GraphEdge :=
  if o.Forward then ((g.adjacency.get? v).getD []).filter o.Permits else []

/-- The permitted edges that are followed backward from a node. -/
def incoming (v : String) : List GraphEdge :=
  if o.Backward then ((g.reverseAdjacency.get? v).getD []).filter o.Permits else []

theorem mem_keys_of_get? {ν : Type} {d : OrdDict String ν} {v : String} {x : ν}
    (h : d.get? v = some x) : v ∈ d.keys := by
  rw [mem_keys_iff, OrdDict.contains, h]
  rfl

/-- The loop of `filtered_traversal`: the collected nodes and edges. -/
def traversalLoop (queue : List (String × Nat)) (visited : List String)
    (nodes : OrdDict String GraphNode) (edges : List GraphEdge) :
    Except Exc (OrdDict String GraphNode × List GraphEdge) :=
  match queue with
  | [] => .ok (nodes, edges)
  | (current, depth) :: queue =>
      if _h : current ∈ visited ∨ o.maxDepth < depth then traversalLoop queue visited nodes edges
      else
        match _hnode : g.nodes.get? current with
        | none => .error (.keyError current)
        | some node =>
            let next := (g.outgoing o current).map GraphEdge.target ++
              (g.incoming o current).map GraphEdge.source
            let new := next.filter fun w => w ∉ current :: visited
            traversalLoop (queue ++ new.map fun w => (w, depth + 1)) (current :: visited)
              (nodes.set current node) (edges ++ g.outgoing o current ++ g.incoming o current)
  termination_by (DepthFirst.unmet g.nodes.keys visited, queue.length)
  decreasing_by
    · exact Prod.Lex.right _ (Nat.lt_succ_self _)
    · rw [not_or] at _h
      exact Prod.Lex.left _ _ (DepthFirst.unmet_cons_lt (mem_keys_of_get? _hnode) _h.1)

/-- `_bfs_component(start, adj, allowed, visited)`: backward it takes the edges of the whole
graph. -/
def bfsComponent (adj : OrdDict String (List GraphEdge)) (allowed : List String) (start : String)
    (visited : List String) : List String × List String :=
  explore (GraphProjection.neighbors adj g.reverseAdjacency) allowed [start] visited []

/-- `_build_subgraph(nodes, edges)`. -/
def buildSubgraph (order : SetOrder String) (nodes : OrdDict String GraphNode)
    (edges : List GraphEdge) : GraphRecord :=
  let adj := Grouping.lists GraphEdge.source id edges
  { projectId := g.projectId
    compiledAt := g.compiledAt
    projectionVersion := g.projectionVersion
    nodes := nodes
    edges := edges
    adjacency := adj
    reverseAdjacency := Grouping.lists GraphEdge.target id edges
    clusters := GraphProjection.clusterLoop (g.bfsComponent adj nodes.keys)
      (order.listed nodes.keys.toFinset)
    nodeCount := nodes.entries.length
    edgeCount := edges.length
    density := GraphProjection.density nodes.entries.length edges.length }

/-- `filtered_traversal(node_id, edge_types, min_confidence, direction, max_depth)`. -/
def filteredTraversal (order : SetOrder String) (nodeId : String) : Except Exc GraphRecord :=
  if g.nodes.contains nodeId = true then do
    let found ← g.traversalLoop o [(nodeId, 0)] [] .empty []
    return g.buildSubgraph order found.1 found.2
  else .ok { projectId := g.projectId, compiledAt := g.compiledAt }

/-! ## What a traversal is for -/

/-- A hop along a permitted edge in a direction of the traversal. -/
def Hop (v w : String) : Prop :=
  ∃ e ∈ g.edges, o.Permits e ∧
    (o.Forward ∧ e.source = v ∧ e.target = w ∨ o.Backward ∧ e.target = v ∧ e.source = w)

/-- A node within the permitted hops of the start. -/
def Within (start w : String) : Prop := ∃ n ≤ o.maxDepth, Walk (g.Hop o) n start w

/-- A well-formed subgraph of the nodes within the permitted hops. -/
structure Traversed (start : String) (r : GraphRecord) : Prop where
  nodes : ∀ w, w ∈ r.nodes.keys ↔ w ∈ g.nodes.keys ∧ g.Within o start w
  same : ∀ w ∈ r.nodes.keys, r.nodes.get? w = g.nodes.get? w
  edges : ∀ e ∈ r.edges, e ∈ g.edges ∧ o.Permits e ∧ e.source ∈ r.nodes.keys ∧
    e.target ∈ r.nodes.keys
  once : r.edges.Nodup
  adjacency : ∀ v, (r.adjacency.get? v).getD [] = r.edges.filter fun e => e.source = v
  reverseAdjacency : ∀ v,
    (r.reverseAdjacency.get? v).getD [] = r.edges.filter fun e => e.target = v
  nodeCount : r.nodeCount = r.nodes.keys.length
  edgeCount : r.edgeCount = r.edges.length
  clustered : r.Clustered

/-- No permitted edge is met from both ends or leads behind the bound. -/
structure Contained (start : String) : Prop where
  both : o.direction = "both" → ∀ e ∈ g.edges, o.Permits e → e.source ≠ start ∧ e.target ≠ start
  oneWay : o.direction ≠ "both" → ∀ w, Relation.ReflTransGen (g.Hop o) start w →
    g.Within o start w

variable {g o} {start : String} {queue done : List (String × Nat)} {visited : List String}
  {nodes : OrdDict String GraphNode} {edges : List GraphEdge}

/-! ## The edges at a node -/

/-- The edges that a visited node lists. -/
def edgesAt (g : GraphRecord) (o : TraversalOptions) (v : String) : List GraphEdge :=
  g.outgoing o v ++ g.incoming o v

theorem mem_outgoing (h : g.Indexed) {v : String} {e : GraphEdge} :
    e ∈ g.outgoing o v ↔ e ∈ g.edges ∧ o.Permits e ∧ o.Forward ∧ e.source = v := by
  rw [outgoing, h.adjacency_eq, Grouping.getD_lists, List.map_id]
  split_ifs with hforward
  · simp only [List.mem_filter, DictKey.norm_string, decide_eq_true_eq, hforward, true_and]
    tauto
  · simp [hforward]

theorem mem_incoming (h : g.Indexed) {v : String} {e : GraphEdge} :
    e ∈ g.incoming o v ↔ e ∈ g.edges ∧ o.Permits e ∧ o.Backward ∧ e.target = v := by
  rw [incoming, h.reverseAdjacency_eq, Grouping.getD_lists, List.map_id]
  split_ifs with hbackward
  · simp only [List.mem_filter, DictKey.norm_string, decide_eq_true_eq, hbackward, true_and]
    tauto
  · simp [hbackward]

theorem mem_edgesAt (h : g.Indexed) {v : String} {e : GraphEdge} :
    e ∈ g.edgesAt o v ↔ e ∈ g.edges ∧ o.Permits e ∧
      (o.Forward ∧ e.source = v ∨ o.Backward ∧ e.target = v) := by
  rw [edgesAt, List.mem_append, mem_outgoing h, mem_incoming h]
  tauto

theorem hop_iff (h : g.Indexed) {v w : String} :
    g.Hop o v w ↔ w ∈ (g.outgoing o v).map GraphEdge.target ++
      (g.incoming o v).map GraphEdge.source := by
  simp only [List.mem_append, List.mem_map, mem_outgoing h, mem_incoming h, Hop]
  constructor
  · rintro ⟨e, he, hpermits, ⟨hforward, hv, hw⟩ | ⟨hbackward, hv, hw⟩⟩
    · exact .inl ⟨e, ⟨he, hpermits, hforward, hv⟩, hw⟩
    · exact .inr ⟨e, ⟨he, hpermits, hbackward, hv⟩, hw⟩
  · rintro (⟨e, ⟨he, hpermits, hforward, hv⟩, hw⟩ | ⟨e, ⟨he, hpermits, hbackward, hv⟩, hw⟩)
    · exact ⟨e, he, hpermits, .inl ⟨hforward, hv, hw⟩⟩
    · exact ⟨e, he, hpermits, .inr ⟨hbackward, hv, hw⟩⟩

/-- Hops stay among the nodes. -/
theorem Hop.mem_nodes (h : g.Indexed) {v w : String} (hhop : g.Hop o v w) :
    v ∈ g.nodes.keys ∧ w ∈ g.nodes.keys := by
  obtain ⟨e, he, _, ⟨_, rfl, rfl⟩ | ⟨_, rfl, rfl⟩⟩ := hhop
  · exact h.closed e he
  · exact (h.closed e he).symm

/-! ## The loop -/

theorem mem_keys_set {ν : Type} {d : OrdDict String ν} {k v : String} {x : ν} :
    v ∈ (d.set k x).keys ↔ v ∈ d.keys ∨ v = k := by
  rw [mem_keys_iff, mem_keys_iff, OrdDict.contains, OrdDict.get?_set, OrdDict.contains]
  by_cases hk : DictKey.norm k = DictKey.norm v
  · have heq : v = k := hk.symm
    simp [heq]
  · have hne : v ≠ k := fun heq => hk heq.symm
    rw [if_neg hk]
    simp [hne]

/-- The loop between two steps. -/
structure Traversing (g : GraphRecord) (o : TraversalOptions) (start : String)
    (queue : List (String × Nat)) (visited : List String) (nodes : OrdDict String GraphNode)
    (edges : List GraphEdge) (done : List (String × Nat)) : Prop where
  bounded : Bounded (g.Hop o) start o.maxDepth queue done
  visited_iff : ∀ v, v ∈ visited ↔ v ∈ done.map Prod.fst
  queued : ∀ e ∈ queue, e.1 ∈ g.nodes.keys
  nodes_iff : ∀ v, v ∈ nodes.keys ↔ v ∈ done.map Prod.fst
  same : ∀ v ∈ nodes.keys, nodes.get? v = g.nodes.get? v
  edges_eq : edges = done.flatMap fun e => g.edgesAt o e.1

theorem Traversing.init (hstart : start ∈ g.nodes.keys) :
    Traversing g o start [(start, 0)] [] .empty [] [] where
  bounded := .start _ start o.maxDepth
  visited_iff := by simp
  queued := by simpa using hstart
  nodes_iff := by simp [OrdDict.keys]
  same := by simp [OrdDict.keys]
  edges_eq := rfl

/-- A new node within the bound is collected with the edges that it lists. -/
theorem Traversing.visit (h : g.Indexed) {current : String} {depth : Nat} {node : GraphNode}
    (htraversing : Traversing g o start ((current, depth) :: queue) visited nodes edges done)
    (hnew : ¬(current ∈ visited ∨ o.maxDepth < depth))
    (hnode : g.nodes.get? current = some node) :
    Traversing g o start
      (queue ++ (((g.outgoing o current).map GraphEdge.target ++
        (g.incoming o current).map GraphEdge.source).filter fun w => w ∉ current :: visited).map
          fun w => (w, depth + 1))
      (current :: visited) (nodes.set current node)
      (edges ++ g.outgoing o current ++ g.incoming o current) (done ++ [(current, depth)]) := by
  rw [not_or, Nat.not_lt] at hnew
  have hfresh : current ∉ done.map Prod.fst :=
    fun hmem => hnew.1 ((htraversing.visited_iff current).mpr hmem)
  have hhop : ∀ w ∈ ((g.outgoing o current).map GraphEdge.target ++
      (g.incoming o current).map GraphEdge.source).filter (fun w => w ∉ current :: visited),
      g.Hop o current w := fun w hw => (hop_iff h).mpr (List.mem_filter.mp hw).1
  constructor
  · apply htraversing.bounded.visit hfresh hnew.2 hhop
    intro w hw
    by_cases hmem : w ∈ current :: visited
    · rcases List.mem_cons.mp hmem with rfl | hmem
      · exact .inr (.inl rfl)
      · exact .inr (.inr ((htraversing.visited_iff w).mp hmem))
    · exact .inl (List.mem_filter.mpr ⟨(hop_iff h).mp hw, by simpa using hmem⟩)
  · intro v
    rw [List.mem_cons, htraversing.visited_iff, List.map_append, List.mem_append, or_comm]
    simp
  · intro e he
    rcases List.mem_append.mp he with he | he
    · exact htraversing.queued e (List.mem_cons_of_mem _ he)
    · obtain ⟨w, hw, rfl⟩ := List.mem_map.mp he
      exact ((hhop w hw).mem_nodes h).2
  · intro v
    rw [mem_keys_set, htraversing.nodes_iff, List.map_append, List.mem_append]
    simp
  · intro v hv
    rw [OrdDict.get?_set]
    split_ifs with hk
    · have heq : current = v := hk
      rw [← heq, hnode]
    · apply htraversing.same
      exact (mem_keys_set.mp hv).resolve_right fun heq => hk heq.symm
  · rw [List.flatMap_append, htraversing.edges_eq]
    simp [edgesAt]

/-- The loop returns, and then the queue is empty. -/
theorem traversalLoop_spec (h : g.Indexed)
    (htraversing : Traversing g o start queue visited nodes edges done) :
    ∃ nodes' edges' visited' done', g.traversalLoop o queue visited nodes edges =
        .ok (nodes', edges') ∧ Traversing g o start [] visited' nodes' edges' done' := by
  induction queue, visited, nodes, edges using traversalLoop.induct g o generalizing done with
  | case1 visited nodes edges =>
      rw [traversalLoop]
      exact ⟨nodes, edges, visited, done, rfl, htraversing⟩
  | case2 visited nodes edges current depth queue hskip ih =>
      rw [traversalLoop, dif_pos hskip]
      apply ih
      have hvisited : current ∈ done.map Prod.fst ∨ o.maxDepth < depth :=
        hskip.imp_left (htraversing.visited_iff current).mp
      exact ⟨htraversing.bounded.skip hvisited, htraversing.visited_iff,
        fun e he => htraversing.queued e (List.mem_cons_of_mem _ he), htraversing.nodes_iff,
        htraversing.same, htraversing.edges_eq⟩
  | case3 visited nodes edges current depth queue hnew hnode =>
      have hmem := htraversing.queued _ List.mem_cons_self
      rw [mem_keys_iff, OrdDict.contains, hnode] at hmem
      cases hmem
  | case4 visited nodes edges current depth queue hnew node hnode next new =>
      rename_i ih
      have hstep := ih (htraversing.visit h hnew hnode)
      rw [traversalLoop, dif_neg hnew]
      split
      · rename_i hnone
        rw [hnode] at hnone
        cases hnone
      · rename_i node' hnode'
        obtain rfl := Option.some.inj (hnode.symm.trans hnode')
        exact hstep

/-! ## The subgraph -/

/-- What a traversal returns in any case. -/
structure Built (g : GraphRecord) (o : TraversalOptions) (start : String) (r : GraphRecord) :
    Prop where
  nodes : ∀ w, w ∈ r.nodes.keys ↔ w ∈ g.nodes.keys ∧ g.Within o start w
  same : ∀ w ∈ r.nodes.keys, r.nodes.get? w = g.nodes.get? w
  edges : ∃ l : List String, l.Nodup ∧ (∀ v, v ∈ l ↔ v ∈ r.nodes.keys) ∧
    r.edges = l.flatMap (g.edgesAt o)
  adjacency_eq : r.adjacency = Grouping.lists GraphEdge.source id r.edges
  reverseAdjacency_eq : r.reverseAdjacency = Grouping.lists GraphEdge.target id r.edges
  nodeCount : r.nodeCount = r.nodes.keys.length
  edgeCount : r.edgeCount = r.edges.length
  clusters : ∃ ids, (∀ v, v ∈ ids ↔ v ∈ r.nodes.keys) ∧
    r.clusters = GraphProjection.clusterLoop (g.bfsComponent r.adjacency r.nodes.keys) ids

theorem mem_nodes_of_walk (h : g.Indexed) (hstart : start ∈ g.nodes.keys) {n : Nat} {w : String}
    (hwalk : Walk (g.Hop o) n start w) : w ∈ g.nodes.keys := by
  cases hwalk with
  | refl => exact hstart
  | tail _ hhop => exact (hhop.mem_nodes h).2

theorem exists_built (h : g.Indexed) (o : TraversalOptions) (order : SetOrder String)
    (start : String) : ∃ r, g.filteredTraversal o order start = .ok r ∧ g.Built o start r := by
  by_cases hstart : g.nodes.contains start = true
  · have hmem := mem_keys_iff.mpr hstart
    obtain ⟨nodes, edges, visited, done, hloop, htraversing⟩ :=
      traversalLoop_spec h (Traversing.init hmem)
    refine ⟨g.buildSubgraph order nodes edges, ?_, ?_⟩
    · rw [filteredTraversal, if_pos hstart, hloop]
      rfl
    · have hwithin : ∀ w, w ∈ nodes.keys ↔ g.Within o start w := fun w =>
        (htraversing.nodes_iff w).trans htraversing.bounded.mem_iff
      refine ⟨fun w => ?_, htraversing.same, ⟨done.map Prod.fst, htraversing.bounded.nodup, ?_, ?_⟩,
        rfl, rfl, (List.length_map _).symm, rfl, ⟨_, fun v => ?_, rfl⟩⟩
      · refine (hwithin w).trans ⟨fun hw => ⟨?_, hw⟩, fun hw => hw.2⟩
        obtain ⟨n, _, hwalk⟩ := hw
        exact mem_nodes_of_walk h hmem hwalk
      · exact fun v => (htraversing.nodes_iff v).symm
      · rw [List.flatMap_map]
        exact htraversing.edges_eq
      · rw [← List.mem_toFinset, order.toFinset_listed, List.mem_toFinset]
        rfl
  · have hmem : start ∉ g.nodes.keys := fun hmem => hstart (mem_keys_iff.mp hmem)
    refine ⟨{ projectId := g.projectId, compiledAt := g.compiledAt }, ?_, ?_⟩
    · rw [filteredTraversal, if_neg hstart]
    · refine ⟨fun w => iff_of_false List.not_mem_nil ?_, by simp [OrdDict.keys],
        ⟨[], List.nodup_nil, fun v => Iff.rfl, rfl⟩, rfl, rfl, rfl, rfl, ⟨[], fun v => Iff.rfl, rfl⟩⟩
      rintro ⟨hw, n, _, hwalk⟩
      rcases Relation.ReflTransGen.cases_head hwalk.reach with rfl | ⟨v, hhop, _⟩
      · exact hmem hw
      · exact hmem (hhop.mem_nodes h).1

/-! ## Contained traversals -/

theorem both_of_forward_backward (hforward : o.Forward) (hbackward : o.Backward) :
    o.direction = "both" := by
  simp only [TraversalOptions.Forward, TraversalOptions.Backward, List.mem_cons,
    List.not_mem_nil, or_false] at hforward hbackward
  rcases hforward with hboth | hforward
  · exact hboth
  · rw [hforward] at hbackward
    simp at hbackward

/-- In one direction an edge is listed at one node. -/
theorem eq_of_mem_edgesAt (h : g.Indexed) (hone : o.direction ≠ "both") {e : GraphEdge}
    {v w : String} (hv : e ∈ g.edgesAt o v) (hw : e ∈ g.edgesAt o w) : v = w := by
  obtain ⟨_, _, ⟨hforward, hv⟩ | ⟨hbackward, hv⟩⟩ := (mem_edgesAt h).mp hv
  · obtain ⟨_, _, ⟨_, hw⟩ | ⟨hbackward, _⟩⟩ := (mem_edgesAt h).mp hw
    · exact hv.symm.trans hw
    · exact absurd (both_of_forward_backward hforward hbackward) hone
  · obtain ⟨_, _, ⟨hforward, _⟩ | ⟨_, hw⟩⟩ := (mem_edgesAt h).mp hw
    · exact absurd (both_of_forward_backward hforward hbackward) hone
    · exact hv.symm.trans hw

theorem nodup_edgesAt (h : g.Indexed) (hedges : g.edges.Nodup) (hone : o.direction ≠ "both")
    (v : String) : (g.edgesAt o v).Nodup := by
  rw [edgesAt, List.nodup_append]
  refine ⟨?_, ?_, fun e he e' he' heq => ?_⟩
  · rw [outgoing, h.adjacency_eq, Grouping.getD_lists, List.map_id]
    split_ifs
    · exact (hedges.filter _).filter _
    · exact List.nodup_nil
  · rw [incoming, h.reverseAdjacency_eq, Grouping.getD_lists, List.map_id]
    split_ifs
    · exact (hedges.filter _).filter _
    · exact List.nodup_nil
  · exact hone (both_of_forward_backward ((mem_outgoing h).mp he).2.2.1
      ((mem_incoming h).mp he').2.2.1)

/-- Where all nodes are connected, a search along at least the joined nodes finds one component. -/
theorem clustered_of_connected {r : GraphRecord} {next : String → List String} {ids : List String}
    (hclosed : ∀ e ∈ r.edges, e.source ∈ r.nodes.keys ∧ e.target ∈ r.nodes.keys)
    (hconnected : ∀ v ∈ r.nodes.keys, ∀ w ∈ r.nodes.keys, r.Connected v w)
    (hnext : ∀ v w, r.Joined v w → w ∈ next v) (hids : ∀ v, v ∈ ids ↔ v ∈ r.nodes.keys)
    (hclusters : r.clusters = GraphProjection.clusterLoop
      (fun start visited => explore next r.nodes.keys [start] visited []) ids) : r.Clustered := by
  have hkeys : r.nodes.keys.Nodup := by
    simpa [OrdDict.normKeys, OrdDict.keys] using r.nodes.normKeys_nodup
  have hjoined : ∀ v w, r.Joined v w → w ∈ r.nodes.keys := by
    rintro v w ⟨e, he, ⟨_, rfl⟩ | ⟨rfl, _⟩⟩
    · exact (hclosed e he).2
    · exact (hclosed e he).1
  rw [clusterLoop_eq] at hclusters
  by_cases hempty : r.nodes.keys = []
  · have hnone : ids = [] := by
      rw [List.eq_nil_iff_forall_not_mem]
      intro v hv
      rw [hids, hempty] at hv
      cases hv
    have hnil : r.clusters = [] := by
      rw [hclusters, hnone]
      rfl
    refine ⟨?_, ?_, ?_, ?_⟩
    · rw [hnil, hempty]
      exact List.Perm.refl _
    · simp [hnil]
    · simp [hnil]
    · simp [hnil]
  · obtain ⟨c, hc, hperm⟩ := components_of_connected hkeys hids hempty fun v hv w hw =>
      Relation.ReflTransGen.mono (fun x y hxy => ⟨hnext x y hxy, hjoined x y hxy⟩) v w
        (hconnected v hv w hw)
    have hsingle : r.clusters = [Table.orderBy id c] := by
      rw [hclusters, hc]
      rfl
    have hsorted : (Table.orderBy id c).Perm r.nodes.keys := (Table.orderBy_perm id c).trans hperm
    refine ⟨?_, ?_, ?_, ?_⟩
    · rw [hsingle, List.flatten_singleton]
      exact hsorted
    · rw [hsingle]
      intro c' hc' hnil
      rw [List.mem_singleton.mp hc'] at hnil
      rw [hnil] at hsorted
      exact hempty (List.nil_perm.mp hsorted)
    · rw [hsingle]
      intro c' hc'
      rw [List.mem_singleton.mp hc']
      exact (Table.ordered_orderBy id c).sorted
    · rw [hsingle]
      intro c' hc' v hv w
      rw [List.mem_singleton.mp hc'] at hv ⊢
      have hvkeys := hsorted.mem_iff.mp hv
      rw [hsorted.mem_iff]
      constructor
      · exact hconnected v hvkeys w
      · intro hpath
        rcases Relation.ReflTransGen.cases_tail hpath with rfl | ⟨u, _, hlast⟩
        · exact hvkeys
        · exact hjoined u w hlast

section Built

variable {r : GraphRecord} (h : g.Indexed) (hbuilt : g.Built o start r)
include h hbuilt

omit h in
/-- The edges of the subgraph are those at its nodes. -/
theorem Built.mem_edges {e : GraphEdge} :
    e ∈ r.edges ↔ ∃ v ∈ r.nodes.keys, e ∈ g.edgesAt o v := by
  obtain ⟨l, _, hl, hedges⟩ := hbuilt.edges
  rw [hedges, List.mem_flatMap]
  constructor
  · rintro ⟨v, hv, he⟩
    exact ⟨v, (hl v).mp hv, he⟩
  · rintro ⟨v, hv, he⟩
    exact ⟨v, (hl v).mpr hv, he⟩

/-- Hops within the bound are taken along edges of the subgraph. -/
theorem Built.mem_edges_of_hop {v w : String} (hv : g.Within o start v) (hhop : g.Hop o v w) :
    ∃ e ∈ r.edges, o.Forward ∧ e.source = v ∧ e.target = w ∨
      o.Backward ∧ e.target = v ∧ e.source = w := by
  have hnode : v ∈ r.nodes.keys := (hbuilt.nodes v).mpr ⟨(hhop.mem_nodes h).1, hv⟩
  obtain ⟨e, he, hpermits, hends⟩ := hhop
  refine ⟨e, (hbuilt.mem_edges).mpr ⟨v, hnode, (mem_edgesAt h).mpr ⟨he, hpermits, ?_⟩⟩, hends⟩
  exact hends.imp (fun hends => ⟨hends.1, hends.2.1⟩) fun hends => ⟨hends.1, hends.2.1⟩

theorem Built.connected {v : String} (hv : v ∈ r.nodes.keys) : r.Connected start v := by
  obtain ⟨n, hn, hwalk⟩ := ((hbuilt.nodes v).mp hv).2
  clear hv
  generalize hroot : start = root at hwalk
  induction hwalk with
  | refl => exact .refl
  | @tail n u v w hwalk hhop ih =>
      subst hroot
      obtain ⟨e, he, hends⟩ := hbuilt.mem_edges_of_hop h ⟨n, by omega, hwalk⟩ hhop
      refine (ih (by omega) rfl).tail ⟨e, he, ?_⟩
      exact hends.imp (fun hends => hends.2) fun hends => ⟨hends.2.2, hends.2.1⟩

/-- In a contained traversal both ends of an edge are collected. -/
theorem Contained.closed (hcontained : g.Contained o start) {e : GraphEdge} (he : e ∈ r.edges) :
    o.direction ≠ "both" ∧ e.source ∈ r.nodes.keys ∧ e.target ∈ r.nodes.keys := by
  obtain ⟨v, hv, hat⟩ := (hbuilt.mem_edges).mp he
  obtain ⟨hmem, hpermits, hends⟩ := (mem_edgesAt h).mp hat
  obtain ⟨_, n, _, hwalk⟩ := (hbuilt.nodes v).mp hv
  by_cases hboth : o.direction = "both"
  · -- no hop leaves the start, so it is the only node, and the edge touches it
    have hfree := hcontained.both hboth
    have hstart : v = start := by
      rcases Relation.ReflTransGen.cases_head hwalk.reach with heq | ⟨w, ⟨e', he', hp, hhop⟩, _⟩
      · exact heq.symm
      · exact absurd (hhop.imp (fun hhop => hhop.2.1) fun hhop => hhop.2.1)
          (not_or.mpr (hfree e' he' hp))
    rw [hstart] at hends
    exact absurd (hends.imp And.right And.right) (not_or.mpr (hfree e hmem hpermits))
  · have hreached : ∀ w, g.Hop o v w → w ∈ r.nodes.keys := fun w hhop =>
      (hbuilt.nodes w).mpr
        ⟨(hhop.mem_nodes h).2, hcontained.oneWay hboth w (hwalk.reach.tail hhop)⟩
    rcases hends with ⟨hforward, rfl⟩ | ⟨hbackward, rfl⟩
    · exact ⟨hboth, hv, hreached _ ⟨e, hmem, hpermits, .inl ⟨hforward, rfl, rfl⟩⟩⟩
    · exact ⟨hboth, hreached _ ⟨e, hmem, hpermits, .inr ⟨hbackward, rfl, rfl⟩⟩, hv⟩

/-- A contained traversal returns a well-formed subgraph. -/
theorem Contained.traversed (hdistinct : g.edges.Nodup) (hcontained : g.Contained o start) :
    g.Traversed o start r := by
  have hclosed : ∀ e ∈ r.edges, e.source ∈ r.nodes.keys ∧ e.target ∈ r.nodes.keys :=
    fun e he => (hcontained.closed h hbuilt he).2
  have hedges : ∀ e ∈ r.edges, e ∈ g.edges ∧ o.Permits e := by
    intro e he
    obtain ⟨v, _, hat⟩ := (hbuilt.mem_edges).mp he
    obtain ⟨hmem, hpermits, _⟩ := (mem_edgesAt h).mp hat
    exact ⟨hmem, hpermits⟩
  have : Std.Symm r.Joined := ⟨fun v w hjoined => by
    obtain ⟨e, he, hends⟩ := hjoined
    exact ⟨e, he, hends.symm⟩⟩
  obtain ⟨ids, hids, hclusters⟩ := hbuilt.clusters
  refine ⟨hbuilt.nodes, hbuilt.same, fun e he => ?_, ?_, fun v => ?_, fun v => ?_,
    hbuilt.nodeCount, hbuilt.edgeCount, ?_⟩
  · exact ⟨(hedges e he).1, (hedges e he).2, hclosed e he⟩
  · by_cases hnone : r.edges = []
    · rw [hnone]
      exact List.nodup_nil
    · obtain ⟨e, he⟩ := List.exists_mem_of_ne_nil _ hnone
      have hone := (hcontained.closed h hbuilt he).1
      obtain ⟨l, hl, _, hlisted⟩ := hbuilt.edges
      rw [hlisted, List.nodup_flatMap]
      refine ⟨fun v _ => nodup_edgesAt h hdistinct hone v, hl.imp ?_⟩
      exact fun hne e hv hw => hne (eq_of_mem_edgesAt h hone hv hw)
  · rw [hbuilt.adjacency_eq, Grouping.getD_lists, List.map_id]
    rfl
  · rw [hbuilt.reverseAdjacency_eq, Grouping.getD_lists, List.map_id]
    rfl
  · apply clustered_of_connected hclosed _ _ hids hclusters
    · intro v hv w hw
      have hback : r.Connected v start :=
        Relation.ReflTransGen.stdSymm.symm _ _ (hbuilt.connected h hv)
      exact hback.trans (hbuilt.connected h hw)
    · rintro v w ⟨e, he, ⟨hv, hw⟩ | ⟨hw, hv⟩⟩
      · rw [GraphProjection.neighbors, hbuilt.adjacency_eq, Grouping.getD_lists, List.map_id]
        refine List.mem_append_left _ (List.mem_map.mpr ⟨e, List.mem_filter.mpr ⟨he, ?_⟩, hw⟩)
        simpa using hv
      · rw [GraphProjection.neighbors, h.reverseAdjacency_eq, Grouping.getD_lists, List.map_id]
        refine List.mem_append_right _
          (List.mem_map.mpr ⟨e, List.mem_filter.mpr ⟨(hedges e he).1, ?_⟩, hw⟩)
        simpa using hv

/-- A well-formed subgraph was contained. -/
theorem Traversed.contained (htraversed : g.Traversed o start r) : g.Contained o start := by
  constructor
  · intro hboth e he hpermits
    have hforward : o.Forward := by simp [TraversalOptions.Forward, hboth]
    have hbackward : o.Backward := by simp [TraversalOptions.Backward, hboth]
    rw [← not_or]
    intro htouches
    have hstart : start ∈ r.nodes.keys := by
      refine (hbuilt.nodes start).mpr ⟨?_, 0, Nat.zero_le _, .refl⟩
      rcases htouches with rfl | rfl
      · exact (h.closed e he).1
      · exact (h.closed e he).2
    have hlisted : e ∈ r.edges := (hbuilt.mem_edges).mpr ⟨start, hstart, (mem_edgesAt h).mpr
      ⟨he, hpermits, htouches.imp (fun hs => ⟨hforward, hs⟩) fun ht => ⟨hbackward, ht⟩⟩⟩
    obtain ⟨_, _, hsource, htarget⟩ := htraversed.edges e hlisted
    -- both ends list the edge
    have hout : e ∈ g.outgoing o e.source := (mem_outgoing h).mpr ⟨he, hpermits, hforward, rfl⟩
    have hin : e ∈ g.incoming o e.target := (mem_incoming h).mpr ⟨he, hpermits, hbackward, rfl⟩
    obtain ⟨l, _, hl, hedges⟩ := hbuilt.edges
    have honce := htraversed.once
    rw [hedges, List.nodup_flatMap] at honce
    by_cases hloop : e.source = e.target
    · rw [hloop] at hout
      have hnodup := honce.1 e.target ((hl _).mpr htarget)
      rw [edgesAt, List.nodup_append] at hnodup
      exact hnodup.2.2 e hout e hin rfl
    · have : Std.Symm (Function.onFun List.Disjoint (g.edgesAt o)) :=
        ⟨fun _ _ hapart _ hx hy => hapart hy hx⟩
      exact honce.2.forall ((hl _).mpr hsource) ((hl _).mpr htarget) hloop
        (List.mem_append_left _ hout) (List.mem_append_right _ hin)
  · intro _ w hreach
    induction hreach with
    | refl => exact ⟨0, Nat.zero_le _, .refl⟩
    | tail _ hhop ih =>
        obtain ⟨e, he, hends⟩ := hbuilt.mem_edges_of_hop h ih hhop
        obtain ⟨_, _, hsource, htarget⟩ := htraversed.edges e he
        rcases hends with ⟨_, _, rfl⟩ | ⟨_, _, rfl⟩
        · exact ((hbuilt.nodes _).mp htarget).2
        · exact ((hbuilt.nodes _).mp hsource).2

end Built

/-- A traversal of a graph with its indexes returns a well-formed subgraph exactly if it is
contained: in both directions no permitted edge touches the start, in one direction all that hops
lead to is within the bound. -/
theorem filteredTraversal_traversed_iff (h : g.Indexed) (hdistinct : g.edges.Nodup)
    (o : TraversalOptions) (order : SetOrder String) (start : String) :
    (∃ r, g.filteredTraversal o order start = .ok r ∧ g.Traversed o start r) ↔
      g.Contained o start := by
  obtain ⟨r, hrun, hbuilt⟩ := exists_built h o order start
  constructor
  · rintro ⟨r', hrun', htraversed⟩
    obtain rfl := Except.ok.inj (hrun.symm.trans hrun')
    exact htraversed.contained h hbuilt
  · exact fun hcontained => ⟨r, hrun, hcontained.traversed h hbuilt hdistinct⟩

/-- One object that supports another one. -/
def supportState : CompiledKnowledge where
  projectId := "p1"
  activeKnowledge :=
    [ReasoningEngine.rule "k1" "Storage" "use sqlite" "m1",
      ReasoningEngine.rule "k2" "Tests" "run" "m2"]
  supportGraph := .ofList [("k1", ["k2"])]

theorem filteredTraversal_traversed_iff_support :
    ∃ g, GraphProjection.projectRecord .asciiOnly "" supportState = .ok g ∧
      ∀ order : SetOrder String,
        (∃ r, g.filteredTraversal { direction := "forward" } order "k1" = .ok r ∧
            g.Traversed { direction := "forward" } "k1" r) ↔
          g.Contained { direction := "forward" } "k1" := by
  obtain ⟨g, hg⟩ : ∃ g, GraphProjection.projectRecord .asciiOnly "" supportState = .ok g :=
    ⟨_, rfl⟩
  obtain ⟨_, _, hindexed⟩ := GraphProjection.projectRecord_indexed hg
  have hkeys := (GraphProjection.projectRecord_distinct hg).of_map _
  exact ⟨g, hg, fun order => filteredTraversal_traversed_iff hindexed hkeys _ order "k1"⟩

/-- With the default arguments the edge is listed from both ends; forward with no hop it leads out of
the collected nodes. -/
theorem filteredTraversal_support :
    ∃ g, GraphProjection.projectRecord .asciiOnly "" supportState = .ok g ∧
      ∀ order : SetOrder String,
        (¬∃ r, g.filteredTraversal {} order "k1" = .ok r ∧ g.Traversed {} "k1" r) ∧
          ¬∃ r, g.filteredTraversal { direction := "forward", maxDepth := 0 } order "k1" = .ok r ∧
            g.Traversed { direction := "forward", maxDepth := 0 } "k1" r := by
  obtain ⟨g, hg⟩ : ∃ g, GraphProjection.projectRecord .asciiOnly "" supportState = .ok g :=
    ⟨_, rfl⟩
  obtain ⟨_, hedges, hindexed⟩ := GraphProjection.projectRecord_indexed hg
  have hmem : ⟨"k1", "k2", .supports, 4 / 5⟩ ∈ g.edges := by
    rw [hedges]
    decide +kernel
  have hcontained : ∀ o order, (∃ r, g.filteredTraversal o order "k1" = .ok r ∧
      g.Traversed o "k1" r) → g.Contained o "k1" := by
    rintro o order ⟨r, hrun, htraversed⟩
    obtain ⟨r', hrun', hbuilt⟩ := exists_built hindexed o order "k1"
    obtain rfl := Except.ok.inj (hrun.symm.trans hrun')
    exact htraversed.contained hindexed hbuilt
  refine ⟨g, hg, fun order => ⟨fun hwell => ?_, fun hwell => ?_⟩⟩
  · have hfree := (hcontained _ order hwell).both rfl _ hmem (by decide +kernel)
    exact hfree.1 rfl
  · have hhop : g.Hop { direction := "forward", maxDepth := 0 } "k1" "k2" :=
      ⟨_, hmem, by decide +kernel, .inl ⟨by decide, rfl, rfl⟩⟩
    obtain ⟨n, hn, hwalk⟩ := (hcontained _ order hwell).oneWay (by decide) "k2" (.single hhop)
    obtain rfl := Nat.le_zero.mp hn
    exact absurd hwalk.eq_of_zero (by decide)

end GraphRecord

end RationaleVault
