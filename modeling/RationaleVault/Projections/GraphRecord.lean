import RationaleVault.Library.BreadthFirst
import RationaleVault.Projections.KnowledgeGraph
import RationaleVault.PythonNumber

/-!
# The record of a knowledge graph

Next to its nodes and edges a graph carries what is derived from them: edges by source, by target
and by relation, the nodes with a contradiction, and the connected components. The projection
builds all of them from one list of edges.
-/

namespace RationaleVault

/-- `list(RelationType)`. -/
def RelationType.all : List RelationType :=
  [.supports, .contradicts, .derivedFrom, .supersedes, .relatedTo]

/-- A relation type is a text. -/
def RelationType.value : RelationType → String
  | .supports => "SUPPORTS"
  | .contradicts => "CONTRADICTS"
  | .derivedFrom => "DERIVED_FROM"
  | .supersedes => "SUPERSEDES"
  | .relatedTo => "RELATED_TO"

instance : DictKey RelationType RelationType := ⟨id⟩

/-- `\x7brt: [] for rt in RelationType\x7d`. -/
def noEdges : OrdDict RelationType (List GraphEdge) :=
  .ofList (RelationType.all.map fun rt => (rt, []))

/-- The dataclass `GraphState` with its fields. -/
structure GraphRecord where
  projectId : String
  compiledAt : String
  projectionVersion : String := "1.0"
  nodes : OrdDict String GraphNode := .empty
  edges : List GraphEdge := []
  adjacency : OrdDict String (List GraphEdge) := .empty
  reverseAdjacency : OrdDict String (List GraphEdge) := .empty
  clusters : List (List String) := []
  cycles : Option (List (List String)) := none
  nodeCount : Nat := 0
  edgeCount : Nat := 0
  density : ℚ := 0
  conflictedNodes : Finset String := ∅
  edgesByRelation : OrdDict RelationType (List GraphEdge) := noEdges
  provenance : OrdDict String (List Int) := .empty

/-- The table behind `str.isdigit`. -/
structure DigitTable where
  isDigit : Char → Bool
  isDigit_ascii : ∀ c, c.toNat < 128 → isDigit c = c.isDigit

/-- No digits outside of ASCII. -/
def DigitTable.asciiOnly : DigitTable where
  isDigit := Char.isDigit
  isDigit_ascii _ _ := rfl

/-- `s.isdigit()`. -/
def DigitTable.isdigit (digits : DigitTable) (s : String) : Bool :=
  !s.toList.isEmpty && s.toList.all digits.isDigit

namespace GraphProjection

/-- The nodes at the other ends of the edges of a node. -/
def neighbors (adj revAdj : OrdDict String (List GraphEdge)) (node : String) : List String :=
  ((adj.get? node).getD []).map GraphEdge.target ++ ((revAdj.get? node).getD []).map GraphEdge.source

/-- `_bfs_undirected(start, adj, rev_adj, allowed, visited)`: what is visited afterwards, and the
component. -/
def bfsUndirected (adj revAdj : OrdDict String (List GraphEdge)) (allowed : List String)
    (start : String) (visited : List String) : List String × List String :=
  BreadthFirst.explore (neighbors adj revAdj) allowed [start] visited []

/-- The loop that collects the sorted components. -/
def clusterLoop (bfs : String → List String → List String × List String) (ids : List String) :
    List (List String) :=
  (ids.foldl (fun found nid =>
    if nid ∈ found.1 then found
    else
      let s := bfs nid found.1
      (s.1, found.2 ++ [Table.orderBy id s.2])) ([], [])).2

/-- `density`. -/
def density (n e : Nat) : ℚ := if 1 < n then e / (n * (n - 1)) else 0

/-- `conflicted_nodes`. -/
def conflictedNodes (edges : List GraphEdge) : Finset String :=
  edges.foldl (fun nodes e =>
    if e.relationType = .contradicts then insert e.target (insert e.source nodes) else nodes) ∅

/-- `edges_by_relation`. -/
def edgesByRelation (edges : List GraphEdge) : OrdDict RelationType (List GraphEdge) :=
  edges.foldl (fun index e => index.modify e.relationType (· ++ [e])) noEdges

/-- `provenance`: a text of digits need not be a number. -/
def provenance (digits : DigitTable) (knowledge : List KnowledgeObject) :
    Except Exc (OrdDict String (List Int)) :=
  knowledge.foldlM (fun found k =>
    if k.provenance.sourceEventIds = [] then .ok found
    else do
      let ids ← (k.provenance.sourceEventIds.filter digits.isdigit).mapM PythonInt.ofText
      return found.set k.id ids) .empty

/-- `GraphProjection.project(knowledge_state, reference_time)`. -/
def projectRecord (digits : DigitTable) (now : String) (state : CompiledKnowledge) :
    Except Exc GraphRecord := do
  let nodes := nodes state.activeKnowledge
  let edges := edges nodes state
  let adjacency := Grouping.lists GraphEdge.source id edges
  let reverseAdjacency := Grouping.lists GraphEdge.target id edges
  let provenance ← provenance digits state.activeKnowledge
  return {
    projectId := state.projectId
    compiledAt := now
    nodes := nodes
    edges := edges
    adjacency := adjacency
    reverseAdjacency := reverseAdjacency
    clusters := clusterLoop (bfsUndirected adjacency reverseAdjacency nodes.keys) nodes.keys
    nodeCount := nodes.entries.length
    edgeCount := edges.length
    density := density nodes.entries.length edges.length
    conflictedNodes := conflictedNodes edges
    edgesByRelation := edgesByRelation edges
    provenance := provenance }

end GraphProjection

/-! ## Consistent records -/

namespace GraphRecord

variable (g : GraphRecord)

/-- An index by a key: every edge stands in it once, under its key, and nothing else does. -/
def Indexes {κ : Type} [DictKey κ κ] [DecidableEq κ] (key : GraphEdge → κ)
    (edges : List GraphEdge) (index : OrdDict κ (List GraphEdge)) : Prop :=
  ∀ e k, ((index.get? k).getD []).count e = if e ∈ edges ∧ key e = k then 1 else 0

/-- Two nodes with an edge between them, in either direction. -/
def Joined (v w : String) : Prop :=
  ∃ e ∈ g.edges, e.source = v ∧ e.target = w ∨ e.source = w ∧ e.target = v

/-- Two nodes in one connected component. -/
def Connected (v w : String) : Prop := Relation.ReflTransGen g.Joined v w

/-- The two indexes that the graph operations walk along, for edges between nodes. -/
structure Indexed : Prop where
  closed : ∀ e ∈ g.edges, e.source ∈ g.nodes.keys ∧ e.target ∈ g.nodes.keys
  adjacency_eq : g.adjacency = Grouping.lists GraphEdge.source id g.edges
  reverseAdjacency_eq : g.reverseAdjacency = Grouping.lists GraphEdge.target id g.edges

/-- The lists divide the nodes into the connected components. -/
structure Clustered : Prop where
  perm : g.clusters.flatten.Perm g.nodes.keys
  ne_nil : ∀ c ∈ g.clusters, c ≠ []
  sorted : ∀ c ∈ g.clusters, c.Pairwise (· ≤ ·)
  component : ∀ c ∈ g.clusters, ∀ v ∈ c, ∀ w, w ∈ c ↔ g.Connected v w

/-- What the graph operations rely on. -/
structure Consistent : Prop where
  closed : ∀ e ∈ g.edges, e.source ∈ g.nodes.keys ∧ e.target ∈ g.nodes.keys
  distinct : (g.edges.map GraphEdge.key).Nodup
  symmetric : ∀ e ∈ g.edges, e.relationType = .contradicts →
    ⟨e.target, e.source, .contradicts, e.confidence⟩ ∈ g.edges
  adjacency : Indexes GraphEdge.source g.edges g.adjacency
  reverseAdjacency : Indexes GraphEdge.target g.edges g.reverseAdjacency
  edgesByRelation : Indexes GraphEdge.relationType g.edges g.edgesByRelation
  conflicted : ∀ v, v ∈ g.conflictedNodes ↔
    ∃ e ∈ g.edges, e.relationType = .contradicts ∧ (e.source = v ∨ e.target = v)
  clustered : g.Clustered

variable {g}

/-! ## The indexes -/

theorem mem_keys_iff {ν : Type} {d : OrdDict String ν} {v : String} :
    v ∈ d.keys ↔ d.contains v = true := by
  rw [OrdDict.contains_iff]
  simp [OrdDict.normKeys, OrdDict.keys]

/-- The edges with one key, counted. -/
theorem count_filter_key {κ : Type} [DecidableEq κ] {key : GraphEdge → κ} {edges : List GraphEdge}
    (hedges : edges.Nodup) (e : GraphEdge) (k : κ) :
    (edges.filter fun e => key e = k).count e = if e ∈ edges ∧ key e = k then 1 else 0 := by
  by_cases hkey : key e = k
  · rw [List.count_filter (by simpa using hkey)]
    by_cases hmem : e ∈ edges
    · rw [if_pos ⟨hmem, hkey⟩]
      exact List.count_eq_one_of_mem hedges hmem
    · rw [if_neg (fun h => hmem h.1)]
      exact List.count_eq_zero.mpr hmem
  · rw [if_neg (fun h => hkey h.2), List.count_eq_zero]
    intro hmem
    exact hkey (by simpa using (List.mem_filter.mp hmem).2)

theorem indexes_lists {key : GraphEdge → String} {edges : List GraphEdge} (hedges : edges.Nodup) :
    Indexes key edges (Grouping.lists key id edges) := by
  intro e k
  rw [Grouping.getD_lists, List.map_id]
  exact count_filter_key hedges e k

theorem get?_noEdges (rt : RelationType) : noEdges.get? rt = some [] := by
  cases rt with
  | supports => rfl
  | contradicts => rfl
  | derivedFrom => rfl
  | supersedes => rfl
  | relatedTo => rfl

/-- The index by relation has a list for every relation type. -/
theorem get?_edgesByRelation (edges : List GraphEdge) (rt : RelationType) :
    (GraphProjection.edgesByRelation edges).get? rt =
      some (edges.filter fun e => e.relationType = rt) := by
  have hfold : ∀ (l : List GraphEdge) (index : OrdDict RelationType (List GraphEdge))
      (listed : List GraphEdge), index.get? rt = some listed →
      (l.foldl (fun index e => index.modify e.relationType (· ++ [e])) index).get? rt =
        some (listed ++ l.filter fun e => e.relationType = rt) := by
    intro l
    induction l with
    | nil =>
        intro index listed h
        simpa using h
    | cons e rest ih =>
        intro index listed h
        rw [List.foldl_cons]
        have hget := OrdDict.get?_modify index e.relationType rt (· ++ [e])
        by_cases htype : e.relationType = rt
        · have hnorm : DictKey.norm e.relationType = DictKey.norm rt := htype
          rw [if_pos hnorm, h] at hget
          rw [ih _ _ hget, List.filter_cons_of_pos (by simpa using htype), List.append_assoc]
          rfl
        · have hnorm : DictKey.norm e.relationType ≠ DictKey.norm rt := htype
          rw [if_neg hnorm, h] at hget
          rw [ih _ _ hget, List.filter_cons_of_neg (by simpa using htype)]
  exact hfold edges noEdges [] (get?_noEdges rt)

theorem mem_conflictedNodes {edges : List GraphEdge} {v : String} :
    v ∈ GraphProjection.conflictedNodes edges ↔
      ∃ e ∈ edges, e.relationType = .contradicts ∧ (e.source = v ∨ e.target = v) := by
  have hfold : ∀ (l : List GraphEdge) (nodes : Finset String),
      v ∈ l.foldl (fun nodes e =>
          if e.relationType = .contradicts then insert e.target (insert e.source nodes)
          else nodes) nodes ↔
        v ∈ nodes ∨ ∃ e ∈ l, e.relationType = .contradicts ∧ (e.source = v ∨ e.target = v) := by
    intro l
    induction l with
    | nil => simp
    | cons e rest ih =>
        intro nodes
        rw [List.foldl_cons, ih, List.exists_mem_cons_iff]
        split_ifs with htype
        · rw [Finset.mem_insert, Finset.mem_insert, @eq_comm _ v e.target, @eq_comm _ v e.source]
          simp only [htype, true_and]
          constructor
          · rintro ((htarget | hsource | hold) | hrest)
            · exact .inr (.inl (.inr htarget))
            · exact .inr (.inl (.inl hsource))
            · exact .inl hold
            · exact .inr (.inr hrest)
          · rintro (hold | (hsource | htarget) | hrest)
            · exact .inl (.inr (.inr hold))
            · exact .inl (.inr (.inl hsource))
            · exact .inl (.inl htarget)
            · exact .inr hrest
        · simp only [htype, false_and, false_or]
  exact (hfold edges ∅).trans (by simp)

/-! ## The components -/

/-- The collected components are those that searches find, each of them sorted. -/
theorem clusterLoop_eq (next : String → List String) (allowed ids : List String) :
    GraphProjection.clusterLoop
        (fun start visited => BreadthFirst.explore next allowed [start] visited []) ids =
      (BreadthFirst.components next allowed ids).map (Table.orderBy id) :=
  BreadthFirst.foldl_search_map (Table.orderBy id) next allowed ids

/-- Neighbors along two indexes of the same edges. -/
theorem mem_neighbors {edges : List GraphEdge} {v w : String} :
    w ∈ GraphProjection.neighbors (Grouping.lists GraphEdge.source id edges)
        (Grouping.lists GraphEdge.target id edges) v ↔
      ∃ e ∈ edges, e.source = v ∧ e.target = w ∨ e.source = w ∧ e.target = v := by
  rw [GraphProjection.neighbors, Grouping.getD_lists, Grouping.getD_lists, List.map_id, List.map_id]
  simp only [List.mem_append, List.mem_map, List.mem_filter, DictKey.norm_string,
    decide_eq_true_eq]
  constructor
  · rintro (⟨e, ⟨he, hsource⟩, htarget⟩ | ⟨e, ⟨he, htarget⟩, hsource⟩)
    · exact ⟨e, he, .inl ⟨hsource, htarget⟩⟩
    · exact ⟨e, he, .inr ⟨hsource, htarget⟩⟩
  · rintro ⟨e, he, ⟨hsource, htarget⟩ | ⟨hsource, htarget⟩⟩
    · exact .inl ⟨e, ⟨he, hsource⟩, htarget⟩
    · exact .inr ⟨e, ⟨he, htarget⟩, hsource⟩

/-- Searches along neighbors that are the joined nodes divide a closed graph into its connected
components. -/
theorem clustered_of_neighbors {next : String → List String} {ids : List String}
    (hclosed : ∀ e ∈ g.edges, e.source ∈ g.nodes.keys ∧ e.target ∈ g.nodes.keys)
    (hnext : ∀ v ∈ g.nodes.keys, ∀ w ∈ g.nodes.keys, w ∈ next v ↔ g.Joined v w)
    (hids : ∀ x, x ∈ ids ↔ x ∈ g.nodes.keys)
    (hclusters : g.clusters = GraphProjection.clusterLoop
      (fun start visited => BreadthFirst.explore next g.nodes.keys [start] visited []) ids) :
    g.Clustered := by
  have hkeys : g.nodes.keys.Nodup := by
    simpa [OrdDict.normKeys, OrdDict.keys] using g.nodes.normKeys_nodup
  have hjoined : ∀ v w, g.Joined v w → v ∈ g.nodes.keys ∧ w ∈ g.nodes.keys := by
    rintro v w ⟨e, he, ⟨rfl, rfl⟩ | ⟨rfl, rfl⟩⟩
    · exact hclosed e he
    · exact (hclosed e he).symm
  have hjoinedSymm : ∀ v w, g.Joined v w → g.Joined w v := by
    rintro v w ⟨e, he, h⟩
    exact ⟨e, he, h.symm⟩
  have hadjacent : ∀ v ∈ g.nodes.keys, ∀ w,
      BreadthFirst.Adjacent next g.nodes.keys v w ↔ g.Joined v w := by
    intro v hv w
    constructor
    · exact fun h => (hnext v hv w h.2).mp h.1
    · intro h
      have hw := (hjoined v w h).2
      exact ⟨(hnext v hv w hw).mpr h, hw⟩
  have hsymm : ∀ v ∈ g.nodes.keys, ∀ w, BreadthFirst.Adjacent next g.nodes.keys v w →
      BreadthFirst.Adjacent next g.nodes.keys w v := by
    intro v hv w h
    exact (hadjacent w h.2 v).mpr (hjoinedSymm v w ((hadjacent v hv w).mp h))
  have hreach : ∀ v ∈ g.nodes.keys, ∀ w,
      Relation.ReflTransGen (BreadthFirst.Adjacent next g.nodes.keys) v w ↔ g.Connected v w := by
    intro v hv w
    constructor
    · intro h
      have hboth : w ∈ g.nodes.keys ∧ g.Connected v w := by
        induction h with
        | refl => exact ⟨hv, .refl⟩
        | tail _ hstep ih => exact ⟨hstep.2, ih.2.tail ((hadjacent _ ih.1 _).mp hstep)⟩
      exact hboth.2
    · intro h
      have hboth : w ∈ g.nodes.keys ∧
          Relation.ReflTransGen (BreadthFirst.Adjacent next g.nodes.keys) v w := by
        induction h with
        | refl => exact ⟨hv, .refl⟩
        | tail _ hstep ih =>
            have hadj := (hadjacent _ ih.1 _).mpr hstep
            exact ⟨hadj.2, ih.2.tail hadj⟩
      exact hboth.2
  obtain ⟨hperm, hne, hcomponent⟩ := BreadthFirst.components_spec hsymm hkeys hids
  rw [clusterLoop_eq] at hclusters
  have hmem : ∀ c ∈ g.clusters, ∃ c₀ ∈ BreadthFirst.components next g.nodes.keys ids,
      Table.orderBy id c₀ = c := by
    intro c hc
    rw [hclusters] at hc
    exact List.mem_map.mp hc
  constructor
  · rw [hclusters]
    exact (Table.flatten_map_orderBy_perm id _).trans hperm
  · intro c hc
    obtain ⟨c₀, hc₀, rfl⟩ := hmem c hc
    intro hnil
    have hlength := (Table.orderBy_perm id c₀).length_eq
    rw [hnil, List.length_nil] at hlength
    exact hne c₀ hc₀ (List.eq_nil_of_length_eq_zero hlength.symm)
  · intro c hc
    obtain ⟨c₀, _, rfl⟩ := hmem c hc
    exact (Table.ordered_orderBy id c₀).sorted
  · intro c hc v hv w
    obtain ⟨c₀, hc₀, rfl⟩ := hmem c hc
    rw [Table.mem_orderBy] at hv ⊢
    have hvkeys : v ∈ g.nodes.keys :=
      hperm.mem_iff.mp (List.mem_flatten.mpr ⟨c₀, hc₀, hv⟩)
    rw [hcomponent c₀ hc₀ v hv w, hreach v hvkeys w]

end GraphRecord

/-! ## The projected record -/

namespace GraphProjection

variable {nodes : OrdDict String GraphNode} {edges : List GraphEdge}

/-- No two edges share their ends and their relation. -/
def Distinct (edges : List GraphEdge) : Prop := (edges.map GraphEdge.key).Nodup

theorem Distinct.concat {e : GraphEdge} (h : Distinct edges)
    (he : e.key ∉ edges.map GraphEdge.key) : Distinct (edges ++ [e]) := by
  unfold Distinct
  rw [List.map_append, List.map_singleton, List.nodup_append]
  refine ⟨h, by simp, fun k hk k' hk' heq => he ?_⟩
  rw [← List.mem_singleton.mp hk', ← heq]
  exact hk

theorem Distinct.addEdge (h : Distinct edges) (e : GraphEdge) :
    Distinct (addEdge nodes edges e) := by
  unfold GraphProjection.addEdge
  split_ifs with hfresh
  · exact h.concat hfresh.1
  · exact h

theorem Distinct.addConflict (h : Distinct edges) (c : ConflictRecord) :
    Distinct (addConflict nodes edges c) := by
  simp only [GraphProjection.addConflict]
  split_ifs with hfresh hback
  · exact h.concat hfresh.1
  · exact (h.concat hfresh.1).concat hback
  · exact h

theorem distinct_edges (nodes : OrdDict String GraphNode) (state : CompiledKnowledge) :
    Distinct (GraphProjection.edges nodes state) := by
  apply List.foldlRecOn (motive := Distinct)
  · apply List.foldlRecOn (motive := Distinct)
    · simp [Distinct]
    · exact fun es hes e _ => hes.addEdge e
  · exact fun es hes c _ => hes.addConflict c

/-- The edge that is added in the other direction. -/
def reversed (e : GraphEdge) : GraphEdge := ⟨e.target, e.source, .contradicts, e.confidence⟩

/-- Contradictions are listed in both directions, with one confidence. -/
def Symmetric (edges : List GraphEdge) : Prop :=
  ∀ e ∈ edges, e.relationType = .contradicts → reversed e ∈ edges

theorem Symmetric.addEdge (h : Symmetric edges) {e : GraphEdge}
    (he : e.relationType ≠ .contradicts) : Symmetric (addEdge nodes edges e) := by
  unfold GraphProjection.addEdge
  split_ifs with hfresh
  · intro e' he' htype
    rcases List.mem_append.mp he' with hold | hnew
    · exact List.mem_append_left _ (h e' hold htype)
    · rw [List.mem_singleton.mp hnew] at htype
      exact absurd htype he
  · exact h

/-- A conflict is new in both directions or in none. -/
theorem Symmetric.addConflict (h : Symmetric edges) (c : ConflictRecord) :
    Symmetric (addConflict nodes edges c) := by
  simp only [GraphProjection.addConflict]
  split_ifs with hfresh hback
  · -- the way back is listed: as the new edge itself, or before it
    rw [List.map_append, List.mem_append, List.map_singleton, List.mem_singleton] at hback
    intro e he htype
    rw [List.mem_append, List.mem_singleton] at he ⊢
    rcases he with hold | rfl
    · exact .inl (h e hold htype)
    · rcases hback with hold | hself
      · obtain ⟨e', he', hkey⟩ := List.mem_map.mp hold
        simp only [GraphEdge.key, Prod.mk.injEq] at hkey
        obtain ⟨hsource, htarget, htype'⟩ := hkey
        refine absurd ?_ hfresh.1
        refine List.mem_map.mpr ⟨reversed e', h e' he' htype', ?_⟩
        simp [reversed, GraphEdge.key, hsource, htarget]
      · simp only [GraphEdge.key, Prod.mk.injEq, and_true] at hself
        exact .inr (by simp [reversed, hself.1])
  · intro e he htype
    simp only [List.append_assoc, List.mem_append, List.mem_singleton] at he ⊢
    rcases he with hold | rfl | rfl
    · exact .inl (h e hold htype)
    · exact .inr (.inr rfl)
    · exact .inr (.inl rfl)
  · exact h

theorem symmetric_edges (nodes : OrdDict String GraphNode) (state : CompiledKnowledge) :
    Symmetric (GraphProjection.edges nodes state) := by
  apply List.foldlRecOn (motive := Symmetric)
  · apply List.foldlRecOn (motive := Symmetric)
    · simp [Symmetric]
    · intro es hes e he
      apply hes.addEdge
      simp only [List.mem_append, supportEdges, derivationEdges, List.mem_flatMap,
        List.mem_map] at he
      rcases he with ⟨_, _, _, _, rfl⟩ | ⟨_, _, _, _, rfl⟩
      · simp
      · simp
  · exact fun es hes c _ => hes.addConflict c

variable {digits : DigitTable} {now : String} {state : CompiledKnowledge} {g : GraphRecord}

/-- A projected record has the nodes and edges of the graph, and its indexes. -/
theorem projectRecord_indexed (h : projectRecord digits now state = .ok g) :
    g.nodes = (project state).nodes ∧ g.edges = (project state).edges ∧ g.Indexed := by
  obtain ⟨provenance, _, hg⟩ := Except.bind_eq_ok_iff.mp h
  obtain rfl := Except.pure_eq_ok_iff.mp hg
  refine ⟨rfl, rfl, ⟨fun e he => ?_, rfl, rfl⟩⟩
  obtain ⟨hsource, htarget⟩ := closed_edges _ _ e he
  exact ⟨GraphRecord.mem_keys_iff.mpr hsource, GraphRecord.mem_keys_iff.mpr htarget⟩

theorem projectRecord_distinct (h : projectRecord digits now state = .ok g) :
    (g.edges.map GraphEdge.key).Nodup := by
  rw [(projectRecord_indexed h).2.1]
  exact distinct_edges _ state

/-- The projection builds a consistent record of any compiled knowledge. -/
theorem projectRecord_consistent (digits : DigitTable) (now : String) (state : CompiledKnowledge)
    {g : GraphRecord} (h : projectRecord digits now state = .ok g) : g.Consistent := by
  obtain ⟨_, _, hindexed⟩ := projectRecord_indexed h
  obtain ⟨provenance, _, hg⟩ := Except.bind_eq_ok_iff.mp h
  obtain rfl := Except.pure_eq_ok_iff.mp hg
  have hkeys : ((edges (nodes state.activeKnowledge) state).map GraphEdge.key).Nodup :=
    distinct_edges _ state
  have hedges : (edges (nodes state.activeKnowledge) state).Nodup := hkeys.of_map _
  constructor
  · exact hindexed.closed
  · exact hkeys
  · exact symmetric_edges _ state
  · exact GraphRecord.indexes_lists hedges
  · exact GraphRecord.indexes_lists hedges
  · intro e rt
    rw [GraphRecord.get?_edgesByRelation, Option.getD_some]
    exact GraphRecord.count_filter_key hedges e rt
  · exact fun v => GraphRecord.mem_conflictedNodes
  · apply GraphRecord.clustered_of_neighbors hindexed.closed _ (fun _ => Iff.rfl) rfl
    exact fun v _ w _ => GraphRecord.mem_neighbors

/-- Three objects: support of an object by itself and by a missing one, a derivation, and a
conflict that is recorded in both directions with two confidences. -/
def threeObjects : CompiledKnowledge where
  projectId := "p1"
  activeKnowledge :=
    [ReasoningEngine.rule "k1" "Storage" "use sqlite" "m1",
      ReasoningEngine.rule "k2" "Tests" "run" "m2",
      ReasoningEngine.rule "k3" "Style" "format" "m3"]
  conflictQueue :=
    [{ conflictId := "c1", knowledgeAId := "k1", knowledgeBId := "k2", knowledgeATitle := "Storage"
       knowledgeBTitle := "Tests", confidence := 9 / 10, raisedAt := "" },
      { conflictId := "c2", knowledgeAId := "k2", knowledgeBId := "k1", knowledgeATitle := "Tests"
        knowledgeBTitle := "Storage", confidence := 1 / 2, raisedAt := "" }]
  supportGraph := .ofList [("k1", ["k1", "k2", "k9"])]
  derivationChains := .ofList [("k2", ["k1", "k1"])]

theorem projectRecord_consistent_threeObjects :
    ∃ g, projectRecord .asciiOnly "" threeObjects = .ok g ∧ g.Consistent := by
  obtain ⟨g, hg⟩ : ∃ g, projectRecord .asciiOnly "" threeObjects = .ok g := ⟨_, rfl⟩
  exact ⟨g, hg, projectRecord_consistent .asciiOnly "" threeObjects hg⟩

end GraphProjection

end RationaleVault
