import RationaleVault.CognitiveHead.Reasoning
import RationaleVault.Library.Forest
import RationaleVault.Library.Grouping
import RationaleVault.Library.Kahn
import RationaleVault.Projections.CompiledKnowledge

/-!
# The knowledge graph

The graph has the active objects as its nodes and takes its edges from what was
compiled: support, derivation and contradiction. An edge of a derivation leads from
the source to what is derived from it. Sorting a relation and walking its
dependencies expect that it has no cycle.
-/

namespace RationaleVault

structure GraphNode where
  id : String
  title : String
  knowledgeType : String
  domain : String
  confidence : ℚ
  importance : String
  tags : List String := []
  deriving DecidableEq

structure GraphEdge where
  source : String
  target : String
  relationType : RelationType
  confidence : ℚ
  deriving DecidableEq

/-- The key of an edge in `seen_edges`. -/
def GraphEdge.key (e : GraphEdge) : String × String × RelationType :=
  (e.source, e.target, e.relationType)

/-- The graph. Both ends of every edge are nodes. -/
structure GraphState where
  projectId : String
  nodes : OrdDict String GraphNode := .empty
  edges : List GraphEdge := []
  closed : ∀ e ∈ edges, nodes.contains e.source = true ∧ nodes.contains e.target = true := by simp

/-- An entry of a dependency chain. -/
structure ChainEntry where
  nodeId : String
  depth : Nat
  deriving DecidableEq

namespace GraphState

variable (g : GraphState)

/-- `reverse_adjacency`. -/
def reverseAdjacency : OrdDict String (List GraphEdge) :=
  Grouping.lists GraphEdge.target id g.edges

/-- The sources of the edges of one relation into a node. -/
def dependencies (relationType : RelationType) (v : String) : List String :=
  (((g.reverseAdjacency.get? v).getD []).filter fun e => e.relationType = relationType).map
    GraphEdge.source

/-- `sub_adj[v]`. -/
def targets (relationType : RelationType) (v : String) : List String :=
  (g.edges.filter fun e => e.relationType = relationType ∧ e.source = v).map GraphEdge.target

theorem getD_eq_nil {β : Type} {d : OrdDict String (List β)} {v : String} (hv : v ∉ d.keys) :
    (d.get? v).getD [] = [] := by
  have hnone : d.get? v = none := by
    rw [← Option.not_isSome_iff_eq_none]
    intro hsome
    exact hv (by simpa [OrdDict.normKeys, OrdDict.keys] using (OrdDict.contains_iff _ v).mp hsome)
  rw [hnone, Option.getD_none]

theorem dependencies_eq_nil {relationType : RelationType} {v : String}
    (hv : v ∉ g.reverseAdjacency.keys) : g.dependencies relationType v = [] := by
  rw [dependencies, getD_eq_nil hv]
  rfl

/-- The loop of `dependency_chain`: the frames hold the neighbors that are left and the depth. -/
def chainLoop (relationType : RelationType) (stack : List (List String × Nat))
    (visited : List String) (chain : List ChainEntry) : Except Exc (List ChainEntry) :=
  match stack with
  | [] => .ok chain
  | ([], _) :: stack => chainLoop relationType stack visited chain
  | (v :: rest, depth) :: stack =>
      if _h : v ∈ visited then .error (.valueError ("Cycle detected at node " ++ v))
      else
        chainLoop relationType
          ((g.dependencies relationType v, depth + 1) :: (rest, depth) :: stack) (v :: visited)
          (chain ++ [⟨v, depth + 1⟩])
  termination_by (DepthFirst.unmet g.reverseAdjacency.keys visited,
    DepthFirst.work (stack.map Prod.fst))
  decreasing_by
    · exact Prod.Lex.right _ DepthFirst.leave_lt
    · exact DepthFirst.enter_lt _h g.dependencies_eq_nil

/-- `dependency_chain(node_id, relation_type)`. -/
def dependencyChain (relationType : RelationType) (nodeId : String) :
    Except Exc (List ChainEntry) :=
  g.chainLoop relationType [(g.dependencies relationType nodeId, 0)] [nodeId] [⟨nodeId, 0⟩]

/-- The loop of `_dfs_cycles`: the nodes of the frames are the path, the innermost first. -/
def cycleLoop (adj : OrdDict String (List String)) (stack : List (String × List String))
    (visited : List String) (cycles : List (List String)) :
    List String × List (List String) :=
  match stack with
  | [] => (visited, cycles)
  | (_, []) :: stack => cycleLoop adj stack visited cycles
  | (curr, nxt :: rest) :: stack =>
      let path := (curr :: stack.map Prod.fst).reverse
      if nxt ∈ path then
        cycleLoop adj ((curr, rest) :: stack) visited
          (cycles ++ [path.drop (path.idxOf nxt) ++ [nxt]])
      else if _h : nxt ∈ visited then cycleLoop adj ((curr, rest) :: stack) visited cycles
      else
        cycleLoop adj ((nxt, (adj.get? nxt).getD []) :: (curr, rest) :: stack) (nxt :: visited)
          cycles
  termination_by (DepthFirst.unmet adj.keys visited, DepthFirst.work (stack.map Prod.snd))
  decreasing_by
    · exact Prod.Lex.right _ DepthFirst.leave_lt
    · exact Prod.Lex.right _ DepthFirst.skip_lt
    · exact Prod.Lex.right _ DepthFirst.skip_lt
    · exact DepthFirst.enter_lt _h getD_eq_nil

/-- `_dfs_cycles(start_node, adj, set(), [], cycles, visited_global)`. -/
def dfsCycles (adj : OrdDict String (List String)) (found : List String × List (List String))
    (startNode : String) : List String × List (List String) :=
  if startNode ∈ found.1 then found
  else cycleLoop adj [(startNode, (adj.get? startNode).getD [])] (startNode :: found.1) found.2

/-- `_find_cycles_in_subset(node_ids, relation_type)`. -/
def findCyclesInSubset (nodeIds : List String) (relationType : RelationType) :
    List (List String) :=
  let adj := Grouping.lists GraphEdge.source GraphEdge.target (g.edges.filter fun e =>
    e.relationType = relationType ∧ e.source ∈ nodeIds ∧ e.target ∈ nodeIds)
  (adj.keys.foldl (dfsCycles adj) ([], [])).2

/-- `topological_sort(relation_type)`: the order and the cycles among the nodes that are left. -/
def topologicalSort (relationType : RelationType) : List String × List (List String) :=
  let order := Kahn.fifoOrder (g.targets relationType) g.nodes.keys
  let remaining := g.nodes.keys.filter fun v => v ∉ order
  (order, if remaining = [] then [] else g.findCyclesInSubset remaining relationType)

/-- An edge of a relation. -/
def Edge (relationType : RelationType) (v w : String) : Prop :=
  ∃ e ∈ g.edges, e.key = (v, w, relationType)

end GraphState

/-! ## Building the graph -/

namespace GraphProjection

def toNode (k : KnowledgeObject) : GraphNode where
  id := k.id
  title := k.title
  knowledgeType := k.knowledgeType.value
  domain := k.knowledgeDomain.value
  confidence := k.confidence.score
  importance := k.importance
  tags := k.tags

/-- `nodes`. -/
def nodes (knowledge : List KnowledgeObject) : OrdDict String GraphNode :=
  .ofList (knowledge.map fun k => (k.id, toNode k))

/-- An edge is added once and between nodes only. -/
def addEdge (nodes : OrdDict String GraphNode) (edges : List GraphEdge) (e : GraphEdge) :
    List GraphEdge :=
  if e.key ∉ edges.map GraphEdge.key ∧ nodes.contains e.source = true ∧
      nodes.contains e.target = true then edges ++ [e]
  else edges

/-- The edges of a support graph. -/
def supportEdges (graph : OrdDict String (List String)) : List GraphEdge :=
  graph.entries.flatMap fun entry => entry.2.map fun target => ⟨entry.1, target, .supports, 4 / 5⟩

/-- The edges of derivation chains, from the source to what is derived from it. -/
def derivationEdges (chains : OrdDict String (List String)) : List GraphEdge :=
  chains.entries.flatMap fun entry => entry.2.map fun dep => ⟨dep, entry.1, .derivedFrom, 9 / 10⟩

/-- A conflict is added in both directions. -/
def addConflict (nodes : OrdDict String GraphNode) (edges : List GraphEdge) (c : ConflictRecord) :
    List GraphEdge :=
  let e : GraphEdge := ⟨c.knowledgeAId, c.knowledgeBId, .contradicts, c.confidence⟩
  let back : GraphEdge := ⟨c.knowledgeBId, c.knowledgeAId, .contradicts, c.confidence⟩
  if e.key ∉ edges.map GraphEdge.key ∧ nodes.contains e.source = true ∧
      nodes.contains e.target = true then
    if back.key ∉ (edges ++ [e]).map GraphEdge.key then edges ++ [e] ++ [back] else edges ++ [e]
  else edges

/-- `edges`. -/
def edges (nodes : OrdDict String GraphNode) (state : CompiledKnowledge) : List GraphEdge :=
  let listed := supportEdges state.supportGraph ++ derivationEdges state.derivationChains
  state.conflictQueue.foldl (addConflict nodes) (listed.foldl (addEdge nodes) [])

/-- Both ends of every edge are nodes. -/
def Closed (nodes : OrdDict String GraphNode) (edges : List GraphEdge) : Prop :=
  ∀ e ∈ edges, nodes.contains e.source = true ∧ nodes.contains e.target = true

theorem Closed.concat {nodes : OrdDict String GraphNode} {edges : List GraphEdge} {e : GraphEdge}
    (h : Closed nodes edges)
    (he : nodes.contains e.source = true ∧ nodes.contains e.target = true) :
    Closed nodes (edges ++ [e]) := by
  intro e' he'
  rcases List.mem_append.mp he' with hold | hnew
  · exact h e' hold
  · rwa [List.mem_singleton.mp hnew]

theorem Closed.addEdge {nodes : OrdDict String GraphNode} {edges : List GraphEdge}
    (h : Closed nodes edges) (e : GraphEdge) :
    Closed nodes (GraphProjection.addEdge nodes edges e) := by
  unfold GraphProjection.addEdge
  split_ifs with hfresh
  · exact h.concat hfresh.2
  · exact h

theorem Closed.addConflict {nodes : OrdDict String GraphNode} {edges : List GraphEdge}
    (h : Closed nodes edges) (c : ConflictRecord) :
    Closed nodes (GraphProjection.addConflict nodes edges c) := by
  simp only [GraphProjection.addConflict]
  split_ifs with hfresh hback
  · apply Closed.concat h
    exact hfresh.2
  · refine Closed.concat (Closed.concat h ?_) ?_
    · exact hfresh.2
    · exact hfresh.2.symm
  · exact h

theorem closed_edges (nodes : OrdDict String GraphNode) (state : CompiledKnowledge) :
    Closed nodes (edges nodes state) := by
  apply List.foldlRecOn (motive := Closed nodes)
  · apply List.foldlRecOn (motive := Closed nodes)
    · simp [Closed]
    · exact fun es hes e _ => hes.addEdge e
  · exact fun es hes c _ => hes.addConflict c

/-- `GraphProjection.project(knowledge_state)`. -/
def project (state : CompiledKnowledge) : GraphState where
  projectId := state.projectId
  nodes := nodes state.activeKnowledge
  edges := edges (nodes state.activeKnowledge) state
  closed := closed_edges _ _

end GraphProjection

namespace GraphState

variable {g : GraphState} {relationType : RelationType}

/-! ## Edges -/

/-- The sources of the edges of a relation that are grouped under a target. -/
theorem mem_sources_lists {edges : List GraphEdge} {v w : String} :
    w ∈ ((((Grouping.lists GraphEdge.target id edges).get? v).getD []).filter
        fun e => e.relationType = relationType).map GraphEdge.source ↔
      ∃ e ∈ edges, e.key = (w, v, relationType) := by
  rw [Grouping.getD_lists]
  simp only [List.mem_map, List.mem_filter, List.map_id, DictKey.norm_string, decide_eq_true_eq,
    GraphEdge.key, Prod.mk.injEq]
  constructor
  · rintro ⟨e, ⟨⟨he, htarget⟩, htype⟩, hsource⟩
    exact ⟨e, he, hsource, htarget, htype⟩
  · rintro ⟨e, he, hsource, htarget, htype⟩
    exact ⟨e, ⟨⟨he, htarget⟩, htype⟩, hsource⟩

theorem mem_dependencies {v w : String} :
    w ∈ g.dependencies relationType v ↔ g.Edge relationType w v := by
  rw [dependencies, reverseAdjacency, Edge, mem_sources_lists]

theorem mem_targets {v w : String} :
    w ∈ g.targets relationType v ↔ g.Edge relationType v w := by
  rw [targets, Edge]
  simp only [List.mem_map, List.mem_filter, decide_eq_true_eq, GraphEdge.key, Prod.mk.injEq]
  constructor
  · rintro ⟨e, ⟨he, htype, hsource⟩, htarget⟩
    exact ⟨e, he, hsource, htarget, htype⟩
  · rintro ⟨e, he, hsource, htarget, htype⟩
    exact ⟨e, ⟨he, htype, hsource⟩, htarget⟩

theorem Edge.mem_nodes {v w : String} (h : g.Edge relationType v w) :
    v ∈ g.nodes.keys ∧ w ∈ g.nodes.keys := by
  obtain ⟨e, he, hkey⟩ := h
  obtain ⟨hsource, htarget⟩ := g.closed e he
  simp only [GraphEdge.key, Prod.mk.injEq] at hkey
  rw [hkey.1] at hsource
  rw [hkey.2.1] at htarget
  rw [OrdDict.contains_iff] at hsource htarget
  exact ⟨by simpa [OrdDict.normKeys, OrdDict.keys] using hsource,
    by simpa [OrdDict.normKeys, OrdDict.keys] using htarget⟩

/-! ## Sorting -/

theorem edge_targets {v w : String} :
    Kahn.Edge (g.targets relationType) g.nodes.keys v w ↔ g.Edge relationType v w := by
  rw [Kahn.Edge, mem_targets]
  exact ⟨fun h => h.2, fun h => ⟨h.mem_nodes.1, h⟩⟩

/-- A relation without a cycle is sorted completely. -/
theorem topologicalSort_cycles (h : Dag.Acyclic (g.Edge relationType)) :
    (g.topologicalSort relationType).2 = [] := by
  have hnodes : g.nodes.keys.Nodup := by
    simpa [OrdDict.normKeys, OrdDict.keys] using g.nodes.normKeys_nodup
  have hadj : ∀ v, ∀ w ∈ g.targets relationType v, w ∈ g.nodes.keys := by
    intro v w hw
    exact (mem_targets.mp hw).mem_nodes.2
  have hacyclic : Dag.Acyclic (Kahn.Edge (g.targets relationType) g.nodes.keys) := by
    have hedge : Kahn.Edge (g.targets relationType) g.nodes.keys = g.Edge relationType := by
      ext v w
      exact edge_targets
    rwa [hedge]
  have hall := ((Kahn.sorted_fifoOrder hnodes hadj).complete_iff hadj).mpr hacyclic
  have hremaining : (g.nodes.keys.filter fun v =>
      v ∉ Kahn.fifoOrder (g.targets relationType) g.nodes.keys) = [] := by
    rw [List.filter_eq_nil_iff]
    intro v hv
    simpa using hall v hv
  rw [topologicalSort, hremaining]
  rfl

/-! ## Walking -/

/-- A walk that ends entered no node a second time, and no node that leads back to one it had
entered. -/
theorem chainLoop_ok {stack : List (List String × Nat)} {visited : List String}
    {chain result : List ChainEntry}
    (h : g.chainLoop relationType stack visited chain = .ok result) :
    ∀ frame ∈ stack, ∀ v ∈ frame.1,
      v ∉ visited ∧ ∀ w ∈ visited, w ∉ g.dependencies relationType v := by
  induction stack, visited, chain using chainLoop.induct g relationType with
  | case1 visited chain => simp
  | case2 visited chain depth stack ih =>
      rw [chainLoop] at h
      intro frame hframe v hv
      rcases List.mem_cons.mp hframe with rfl | hframe
      · cases hv
      · exact ih h frame hframe v hv
  | case3 visited chain v rest depth stack hvisited =>
      rw [chainLoop, dif_pos hvisited] at h
      cases h
  | case4 visited chain v rest depth stack hvisited ih =>
      rw [chainLoop, dif_neg hvisited] at h
      have hentered := ih h
      have hdependencies : ∀ w ∈ visited, w ∉ g.dependencies relationType v := by
        intro w hw hback
        have hnot := (hentered _ List.mem_cons_self w hback).1
        exact hnot (List.mem_cons_of_mem _ hw)
      have hkeep : ∀ frame ∈ (rest, depth) :: stack, ∀ x ∈ frame.1,
          x ∉ visited ∧ ∀ w ∈ visited, w ∉ g.dependencies relationType x := by
        intro frame hframe x hx
        obtain ⟨hnot, hback⟩ := hentered frame (List.mem_cons_of_mem _ hframe) x hx
        exact ⟨fun hmem => hnot (List.mem_cons_of_mem _ hmem),
          fun w hw => hback w (List.mem_cons_of_mem _ hw)⟩
      intro frame hframe x hx
      rcases List.mem_cons.mp hframe with rfl | hframe
      · rcases List.mem_cons.mp hx with rfl | hx
        · exact ⟨hvisited, hdependencies⟩
        · exact hkeep _ List.mem_cons_self x hx
      · exact hkeep frame (List.mem_cons_of_mem _ hframe) x hx

/-- A chain that is returned starts at a node that none of its dependencies depends on. -/
theorem dependencyChain_ok {v w : String} {chain : List ChainEntry}
    (h : g.dependencyChain relationType v = .ok chain) (hedge : g.Edge relationType w v) :
    ¬g.Edge relationType v w := by
  intro hback
  have hentered := chainLoop_ok h _ List.mem_cons_self w (mem_dependencies.mpr hedge)
  exact hentered.2 v List.mem_cons_self (mem_dependencies.mpr hback)

/-- The chain of a node without dependencies is the node. -/
theorem dependencyChain_leaf {v : String} (h : g.dependencies relationType v = []) :
    g.dependencyChain relationType v = .ok [⟨v, 0⟩] := by
  rw [dependencyChain, h, chainLoop, chainLoop]

/-- What the graph operations expect of the derivations. -/
structure DerivationWellFounded (g : GraphState) : Prop where
  acyclic : Dag.Acyclic (g.Edge .derivedFrom)
  sorted : (g.topologicalSort .derivedFrom).2 = []
  walked : ∀ v ∈ g.nodes.keys, ∃ chain, g.dependencyChain .derivedFrom v = .ok chain

theorem derivationWellFounded_of_not_edge (h : ∀ v w, ¬g.Edge .derivedFrom v w) :
    g.DerivationWellFounded := by
  have hacyclic : Dag.Acyclic (g.Edge .derivedFrom) :=
    Dag.acyclic_of_rank (fun _ => 0) fun v w hedge => absurd hedge (h v w)
  refine ⟨hacyclic, topologicalSort_cycles hacyclic, ?_⟩
  intro v _
  refine ⟨_, dependencyChain_leaf (List.eq_nil_iff_forall_not_mem.mpr ?_)⟩
  exact fun w hw => h w v (mem_dependencies.mp hw)

end GraphState

namespace GraphProjection

variable {nodes : OrdDict String GraphNode} {key : String × String × RelationType}

theorem key_addEdge {edges : List GraphEdge} {e : GraphEdge} :
    key ∈ (addEdge nodes edges e).map GraphEdge.key ↔ key ∈ edges.map GraphEdge.key ∨
      e.key = key ∧ nodes.contains e.source = true ∧ nodes.contains e.target = true := by
  unfold addEdge
  split_ifs with hfresh
  · rw [List.map_append, List.mem_append, List.map_singleton, List.mem_singleton]
    constructor
    · rintro (hold | rfl)
      · exact Or.inl hold
      · exact Or.inr ⟨rfl, hfresh.2⟩
    · rintro (hold | ⟨rfl, _⟩)
      · exact Or.inl hold
      · exact Or.inr rfl
  · constructor
    · exact Or.inl
    · rintro (hold | ⟨rfl, hends⟩)
      · exact hold
      · by_contra hnot
        exact hfresh ⟨hnot, hends⟩

theorem key_foldl_addEdge {l edges : List GraphEdge} :
    key ∈ (l.foldl (addEdge nodes) edges).map GraphEdge.key ↔ key ∈ edges.map GraphEdge.key ∨
      ∃ e ∈ l, e.key = key ∧ nodes.contains e.source = true ∧
        nodes.contains e.target = true := by
  induction l generalizing edges with
  | nil => simp
  | cons e rest ih =>
      rw [List.foldl_cons, ih, key_addEdge, or_assoc]
      simp only [List.exists_mem_cons_iff]

/-- Conflicts add no edge of another relation. -/
theorem key_addConflict {edges : List GraphEdge} {c : ConflictRecord}
    (hkey : key.2.2 ≠ .contradicts) :
    key ∈ (addConflict nodes edges c).map GraphEdge.key ↔ key ∈ edges.map GraphEdge.key := by
  have hne : ∀ e : GraphEdge, e.relationType = .contradicts → key ≠ e.key := by
    rintro e htype rfl
    exact hkey htype
  have hconcat : ∀ (es : List GraphEdge) (e : GraphEdge), e.relationType = .contradicts →
      (key ∈ (es ++ [e]).map GraphEdge.key ↔ key ∈ es.map GraphEdge.key) := by
    intro es e htype
    rw [List.map_append, List.mem_append, List.map_singleton, List.mem_singleton]
    exact or_iff_left (hne e htype)
  simp only [addConflict]
  split_ifs with hfresh hback
  · exact hconcat _ _ rfl
  · rw [hconcat _ _ rfl]
    exact hconcat _ _ rfl
  · rfl

theorem key_foldl_addConflict {l : List ConflictRecord} {edges : List GraphEdge}
    (hkey : key.2.2 ≠ .contradicts) :
    key ∈ (l.foldl (addConflict nodes) edges).map GraphEdge.key ↔
      key ∈ edges.map GraphEdge.key := by
  induction l generalizing edges with
  | nil => rfl
  | cons c rest ih => rw [List.foldl_cons, ih, key_addConflict hkey]

/-- Edges of a derivation lead from the listed sources between nodes. -/
theorem edge_derivedFrom_iff {state : CompiledKnowledge} {v w : String} :
    (project state).Edge .derivedFrom v w ↔
      (GraphProjection.nodes state.activeKnowledge).contains v = true ∧
        (GraphProjection.nodes state.activeKnowledge).contains w = true ∧
        ∃ sources, state.derivationChains.get? w = some sources ∧ v ∈ sources := by
  have hkey : (project state).Edge .derivedFrom v w ↔
      (v, w, RelationType.derivedFrom) ∈
        (edges (GraphProjection.nodes state.activeKnowledge) state).map GraphEdge.key :=
    List.mem_map.symm
  rw [hkey, edges, key_foldl_addConflict (by simp), key_foldl_addEdge]
  simp only [List.map_nil, List.not_mem_nil, false_or, List.mem_append, supportEdges,
    derivationEdges, List.mem_flatMap, List.mem_map]
  constructor
  · rintro ⟨e, ⟨entry, _, target, _, rfl⟩ | ⟨entry, hentry, dep, hdep, rfl⟩, hkey, hends⟩
    · simp [GraphEdge.key] at hkey
    · simp only [GraphEdge.key, Prod.mk.injEq, and_true] at hkey
      obtain ⟨rfl, rfl⟩ := hkey
      exact ⟨hends.1, hends.2, _, OrdDict.get?_of_mem hentry, hdep⟩
  · rintro ⟨hv, hw, sources, hget, hmem⟩
    obtain ⟨entry, hentry, hkey, rfl⟩ := OrdDict.lookupIn_mem hget
    obtain rfl : entry.1 = w := hkey
    exact ⟨_, Or.inr ⟨entry, hentry, v, hmem, rfl⟩, rfl, hv, hw⟩

/-- Two objects with a memory in common are derived from each other. -/
theorem edge_derivedFrom_project {u : UnicodeTables} {now projectId : String}
    {K : List KnowledgeObject} (hids : (K.map KnowledgeObject.id).Nodup) {v w : String} :
    (project (KnowledgeProjection.project u now projectId K)).Edge .derivedFrom v w ↔
      ∃ k ∈ KnowledgeProjection.active K, ∃ o ∈ KnowledgeProjection.active K,
        k.id = w ∧ o.id = v ∧ o.id ≠ k.id ∧ sharesMemory k o = true := by
  have hnode : ∀ k ∈ KnowledgeProjection.active K,
      (nodes (KnowledgeProjection.active K)).contains k.id = true := by
    intro k hk
    have hentry : (k.id, toNode k) ∈ (KnowledgeProjection.active K).map fun k => (k.id, toNode k) :=
      List.mem_map_of_mem hk
    exact OrdDict.contains_ofList hentry
  rw [edge_derivedFrom_iff,
    ← KnowledgeProjection.derivedFrom_iff (KnowledgeProjection.nodup_active hids) w v]
  constructor
  · rintro ⟨_, _, hderived⟩
    exact hderived
  · intro hderived
    obtain ⟨k, hk, o, ho, rfl, rfl, _⟩ :=
      (KnowledgeProjection.derivedFrom_iff (KnowledgeProjection.nodup_active hids) w v).mp hderived
    exact ⟨hnode o ho, hnode k hk, hderived⟩

theorem edge_derivedFrom_symm {u : UnicodeTables} {now projectId : String}
    {K : List KnowledgeObject} (hids : (K.map KnowledgeObject.id).Nodup) {v w : String}
    (h : (project (KnowledgeProjection.project u now projectId K)).Edge .derivedFrom v w) :
    (project (KnowledgeProjection.project u now projectId K)).Edge .derivedFrom w v := by
  obtain ⟨k, hk, o, ho, hw, hv, hne, hshares⟩ := (edge_derivedFrom_project hids).mp h
  rw [KnowledgeProjection.sharesMemory_comm] at hshares
  exact (edge_derivedFrom_project hids).mpr ⟨o, ho, k, hk, hv, hw, hne.symm, hshares⟩

/-- The walk from an object raises whenever the object is derived from another one. -/
theorem dependencyChain_project_iff {u : UnicodeTables} {now projectId : String}
    {K : List KnowledgeObject} (hids : (K.map KnowledgeObject.id).Nodup) {v : String} :
    (∃ chain, (project (KnowledgeProjection.project u now projectId K)).dependencyChain
        .derivedFrom v = .ok chain) ↔
      ∀ w, ¬(project (KnowledgeProjection.project u now projectId K)).Edge .derivedFrom w v := by
  constructor
  · rintro ⟨chain, hchain⟩ w hedge
    exact GraphState.dependencyChain_ok hchain hedge (edge_derivedFrom_symm hids hedge)
  · intro hnone
    refine ⟨_, GraphState.dependencyChain_leaf (List.eq_nil_iff_forall_not_mem.mpr ?_)⟩
    exact fun w hw => hnone w (GraphState.mem_dependencies.mp hw)

/-- Derivation is well founded exactly when there is none. -/
theorem derivationWellFounded_iff (u : UnicodeTables) (now projectId : String)
    {K : List KnowledgeObject} (hids : (K.map KnowledgeObject.id).Nodup) :
    (project (KnowledgeProjection.project u now projectId K)).DerivationWellFounded ↔
      ∀ k ∈ KnowledgeProjection.active K, ∀ o ∈ KnowledgeProjection.active K,
        o.id ≠ k.id → sharesMemory k o = false := by
  constructor
  · intro h k hk o ho hne
    by_contra hshares
    have hedge : (project (KnowledgeProjection.project u now projectId K)).Edge .derivedFrom
        o.id k.id :=
      (edge_derivedFrom_project hids).mpr
        ⟨k, hk, o, ho, rfl, rfl, hne, by simpa using hshares⟩
    have hback := edge_derivedFrom_symm hids hedge
    exact h.acyclic o.id (.tail (.single hedge) hback)
  · intro h
    apply GraphState.derivationWellFounded_of_not_edge
    intro v w hedge
    obtain ⟨k, hk, o, ho, _, _, hne, hshares⟩ := (edge_derivedFrom_project hids).mp hedge
    rw [h k hk o ho hne] at hshares
    cases hshares

/-- Three objects of one project; the first two rest on one memory. -/
def sharedMemory : List KnowledgeObject :=
  [ReasoningEngine.rule "k1" "Storage" "use sqlite" "m1",
    ReasoningEngine.rule "k2" "Tests" "run" "m1",
    ReasoningEngine.rule "k3" "Style" "format" "m3"]

theorem derivationWellFounded_iff_apart :
    (project (KnowledgeProjection.project .asciiOnly "" "p1"
      [ReasoningEngine.rule "k1" "Storage" "use sqlite" "m1",
        ReasoningEngine.rule "k3" "Style" "format" "m3"])).DerivationWellFounded :=
  (derivationWellFounded_iff .asciiOnly "" "p1" (by decide)).mpr (by decide)

/-- The two objects are derived from each other. -/
theorem not_derivationWellFounded_shared :
    ¬(project (KnowledgeProjection.project .asciiOnly "" "p1"
      sharedMemory)).DerivationWellFounded := by
  intro h
  have hids : (sharedMemory.map KnowledgeObject.id).Nodup := by decide
  have hedge : (project (KnowledgeProjection.project .asciiOnly "" "p1" sharedMemory)).Edge
      .derivedFrom "k2" "k1" :=
    (edge_derivedFrom_project hids).mpr
      ⟨ReasoningEngine.rule "k1" "Storage" "use sqlite" "m1", by decide,
        ReasoningEngine.rule "k2" "Tests" "run" "m1", by decide, rfl, rfl, by decide, by decide⟩
  exact h.acyclic _ (.tail (.single hedge) (edge_derivedFrom_symm hids hedge))

end GraphProjection

end RationaleVault
