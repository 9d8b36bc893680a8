import Mathlib.Data.Set.Card
import RationaleVault.Knowledge.Models
import RationaleVault.Library.KeyedDict
import RationaleVault.Library.QueueSearch
import RationaleVault.Library.Table
import RationaleVault.Projections.GraphRecord

/-!
# Graphs of synthesized knowledge

A graph is built from knowledge objects and relations. Objects of one type, title
and version share a node. A query follows the edges between the nodes of the
graph, in one direction or in both.
-/

namespace RationaleVault.Knowledge

open Distances Walks

/-- What a node remembers of its object. -/
structure NodeMetadata where
  originalId : String
  version : Int
  lifecycleStatus : String
  supersededBy : Option String
  createdAt : String
  updatedAt : String
  deriving DecidableEq

structure KnowledgeNode where
  id : String
  title : String
  type : String
  domain : String
  confidence : ℚ
  importance : String
  evidenceCount : Int
  sourceEventCount : Nat
  tags : List String := []
  metadata : NodeMetadata
  deriving DecidableEq

structure KnowledgeEdge where
  source : String
  target : String
  relationType : RelationType
  confidence : ℚ
  deriving DecidableEq

structure GraphProjection where
  graphId : String
  version : Int
  nodeCount : Nat
  edgeCount : Nat
  generatedAt : String
  nodes : List KnowledgeNode := []
  edges : List KnowledgeEdge := []
  deriving DecidableEq

namespace GraphProjection

/-! ## Building a graph -/

/-- The id of the node of an object. -/
def nodeId (k : KnowledgeObject) : String :=
  Sha256.hexdigest (k.knowledgeType.value ++ ":" ++ k.title ++ ":" ++ toString k.version)

/-- The node of an object. -/
def node (k : KnowledgeObject) : KnowledgeNode where
  id := nodeId k
  title := k.title
  type := k.knowledgeType.value
  domain := k.knowledgeDomain.value
  confidence := k.confidence.score
  importance := k.importance
  evidenceCount := k.provenance.evidenceCount
  sourceEventCount := k.provenance.sourceEventIds.length
  tags := k.tags
  metadata :=
    { originalId := k.id
      version := k.version
      lifecycleStatus := k.lifecycleStatus
      supersededBy := k.supersededBy
      createdAt := k.createdAt
      updatedAt := k.updatedAt }

/-- `id_mapping`. -/
def idMapping (knowledgeObjects : List KnowledgeObject) : OrdDict String String :=
  .ofList (knowledgeObjects.map fun k => (k.id, nodeId k))

/-- The edge of a relation, if its ends are known. -/
def edge (idMapping : OrdDict String String) (r : KnowledgeRelation) : Option KnowledgeEdge :=
  match idMapping.get? r.sourceId, idMapping.get? r.targetId with
  | some src, some tgt =>
      some { source := src, target := tgt, relationType := r.relationType, confidence := r.confidence }
  | _, _ => none

/-- `(e.source, e.target, e.relation_type)`; a relation type compares as a text. -/
def edgeKey (e : KnowledgeEdge) : String ×ₗ String ×ₗ String :=
  toLex (e.source, toLex (e.target, e.relationType.value))

/-- `sorted(nodes, key=lambda n: n.id)`. -/
def sortNodes (nodes : List KnowledgeNode) : List KnowledgeNode := Table.orderBy KnowledgeNode.id nodes

/-- `sorted(edges, key=lambda e: (e.source, e.target, e.relation_type))`. -/
def sortEdges (edges : List KnowledgeEdge) : List KnowledgeEdge := Table.orderBy edgeKey edges

/-- An edge within the text that the id of a graph is made of. -/
def edgeText (e : KnowledgeEdge) : String :=
  e.source ++ ":" ++ e.target ++ ":RelationType." ++ e.relationType.value

/-- The id of a graph with these nodes and edges. -/
def graphIdOf (nodes : List KnowledgeNode) (edges : List KnowledgeEdge) : String :=
  Sha256.hexdigest (":".intercalate (nodes.map KnowledgeNode.id) ++ "::" ++
    ":".intercalate (edges.map edgeText))

/-- The graph of sorted nodes and edges. -/
def ofSorted (version : Int) (now : String) (nodes : List KnowledgeNode)
    (edges : List KnowledgeEdge) : GraphProjection where
  graphId := graphIdOf nodes edges
  version := version
  nodeCount := nodes.length
  edgeCount := edges.length
  generatedAt := now
  nodes := nodes
  edges := edges

/-- `build(knowledge_objects, relations, version)`. -/
def build (knowledgeObjects : List KnowledgeObject) (relations : List KnowledgeRelation)
    (version : Int) (now : String) : GraphProjection :=
  ofSorted version now
    (sortNodes (KeyedDict.ofList KnowledgeNode.id (knowledgeObjects.map node)).values)
    (sortEdges (relations.filterMap (edge (idMapping knowledgeObjects))))

/-! ## The order of objects and relations -/

theorem get?_idMapping {objects : List KnowledgeObject}
    (hids : (objects.map KnowledgeObject.id).Nodup) {id node : String} :
    (idMapping objects).get? id = some node ↔ ∃ k ∈ objects, k.id = id ∧ nodeId k = node := by
  have hentries : (idMapping objects).entries = objects.map fun k => (k.id, nodeId k) := by
    apply OrdDict.entries_ofList
    rw [List.map_map]
    exact hids
  rw [OrdDict.get?_eq_some_iff, hentries]
  simp

theorem idMapping_congr {objects objects' : List KnowledgeObject}
    (hids : (objects.map KnowledgeObject.id).Nodup) (hperm : objects.Perm objects') (id : String) :
    (idMapping objects).get? id = (idMapping objects').get? id := by
  apply Option.ext
  intro node
  rw [get?_idMapping hids, get?_idMapping ((hperm.map _).nodup_iff.mp hids)]
  simp only [hperm.mem_iff]

/-- The node ids of a graph are those of its objects. -/
theorem mem_nodeIds_build {objects : List KnowledgeObject} {relations : List KnowledgeRelation}
    {version : Int} {now v : String} :
    v ∈ (build objects relations version now).nodes.map KnowledgeNode.id ↔
      ∃ k ∈ objects, nodeId k = v := by
  simp only [build, ofSorted, sortNodes, List.mem_map, Table.mem_orderBy]
  constructor
  · rintro ⟨n, hn, rfl⟩
    obtain ⟨k, hk, rfl⟩ := List.mem_map.mp (KeyedDict.mem_of_mem_values_ofList hn)
    exact ⟨k, hk, rfl⟩
  · rintro ⟨k, hk, rfl⟩
    obtain ⟨n, hn⟩ : ∃ n, (KeyedDict.ofList KnowledgeNode.id (objects.map node)).get?
        (KnowledgeNode.id (node k)) = some n :=
      KeyedDict.exists_get?_ofList (List.mem_map_of_mem hk)
    obtain ⟨hmem, hid⟩ := (KeyedDict.get?_eq_some_iff _ _ _).mp hn
    exact ⟨n, hmem, hid⟩

/-- The nodes are listed in the order of their ids, each once. -/
theorem pairwise_nodeIds_build (objects : List KnowledgeObject)
    (relations : List KnowledgeRelation) (version : Int) (now : String) :
    ((build objects relations version now).nodes.map KnowledgeNode.id).Pairwise (· < ·) := by
  have hnodup : ((build objects relations version now).nodes.map KnowledgeNode.id).Nodup := by
    have hvalues := KeyedDict.nodup_values (KeyedDict.ofList KnowledgeNode.id (objects.map node))
    exact ((Table.orderBy_perm _ _).map _).nodup_iff.mpr hvalues
  have hsorted := (Table.ordered_orderBy KnowledgeNode.id
    (KeyedDict.ofList KnowledgeNode.id (objects.map node)).values).sorted
  exact ((List.pairwise_map.mpr hsorted).and hnodup).imp fun h => lt_of_le_of_ne h.1 h.2

theorem graphIdOf_congr {nodes nodes' : List KnowledgeNode} {edges edges' : List KnowledgeEdge}
    (hnodes : nodes.map KnowledgeNode.id = nodes'.map KnowledgeNode.id)
    (hedges : edges.map edgeKey = edges'.map edgeKey) :
    graphIdOf nodes edges = graphIdOf nodes' edges' := by
  have htext : ∀ l : List KnowledgeEdge, l.map edgeText = (l.map edgeKey).map fun key =>
      (ofLex key).1 ++ ":" ++ (ofLex (ofLex key).2).1 ++ ":RelationType." ++
        (ofLex (ofLex key).2).2 := by
    intro l
    rw [List.map_map]
    rfl
  rw [graphIdOf, graphIdOf, hnodes, htext, htext, hedges]

/-- The order of the objects and of the relations shows in two places of a graph only: of objects
with the same node the last is kept, and edges that differ in their confidence stay in the order of
the relations. The id of the graph does not depend on the orders. -/
theorem build_of_perm {objects objects' : List KnowledgeObject}
    {relations relations' : List KnowledgeRelation}
    (hids : (objects.map KnowledgeObject.id).Nodup) (hobjects : objects.Perm objects')
    (hrelations : relations.Perm relations') (version : Int) (now : String) :
    let g := build objects relations version now
    let g' := build objects' relations' version now
    (g.graphId = g'.graphId ∧ g.nodeCount = g'.nodeCount ∧ g.edgeCount = g'.edgeCount ∧
      g.nodes.map KnowledgeNode.id = g'.nodes.map KnowledgeNode.id ∧
      g.edges.map edgeKey = g'.edges.map edgeKey ∧ g.edges.Perm g'.edges) ∧
    ((objects.map nodeId).Nodup → g.nodes = g'.nodes) ∧
    ∀ e ∈ g.edges, e.source ∈ g.nodes.map KnowledgeNode.id ∧
      e.target ∈ g.nodes.map KnowledgeNode.id := by
  intro g g'
  have hnodeIds : g.nodes.map KnowledgeNode.id = g'.nodes.map KnowledgeNode.id := by
    have hlt := pairwise_nodeIds_build objects relations version now
    have hlt' := pairwise_nodeIds_build objects' relations' version now
    refine List.Perm.eq_of_pairwise (fun a b _ _ hab hba => absurd hab hba.asymm) hlt hlt' ?_
    refine (List.perm_ext_iff_of_nodup (hlt.imp ne_of_lt) (hlt'.imp ne_of_lt)).mpr fun v => ?_
    rw [mem_nodeIds_build, mem_nodeIds_build]
    simp only [hobjects.mem_iff]
  have hedge : edge (idMapping objects) = edge (idMapping objects') := by
    funext r
    rw [edge, edge, idMapping_congr hids hobjects, idMapping_congr hids hobjects]
  have hedges : g.edges.Perm g'.edges := by
    refine (Table.orderBy_perm _ _).trans (List.Perm.trans ?_ (Table.orderBy_perm _ _).symm)
    rw [hedge]
    exact hrelations.filterMap _
  have hkeys : g.edges.map edgeKey = g'.edges.map edgeKey := by
    have hsorted : ∀ l : List KnowledgeEdge, ((sortEdges l).map edgeKey).Pairwise (· ≤ ·) :=
      fun l => List.pairwise_map.mpr (Table.ordered_orderBy edgeKey l).sorted
    exact List.Perm.eq_of_pairwise (fun a b _ _ hab hba => le_antisymm hab hba) (hsorted _)
      (hsorted _) (hedges.map _)
  refine ⟨⟨graphIdOf_congr hnodeIds hkeys, ?_, hedges.length_eq, hnodeIds, hkeys, hedges⟩, ?_, ?_⟩
  · have hlength := congrArg List.length hnodeIds
    rwa [List.length_map, List.length_map] at hlength
  · intro hnodup
    have hnodes : ((objects.map node).map fun n => DictKey.norm n.id).Nodup := by
      rw [List.map_map]
      exact hnodup
    have hnodes' : ((objects'.map node).map fun n => DictKey.norm n.id).Nodup :=
      ((hobjects.map node).map _).nodup_iff.mp hnodes
    change sortNodes (KeyedDict.ofList KnowledgeNode.id (objects.map node)).values =
      sortNodes (KeyedDict.ofList KnowledgeNode.id (objects'.map node)).values
    rw [KeyedDict.values_ofList hnodes, KeyedDict.values_ofList hnodes']
    exact Table.orderBy_eq_of_perm (hobjects.map node) hnodes
  · intro e he
    obtain ⟨r, -, hr⟩ := List.mem_filterMap.mp (Table.mem_orderBy.mp he)
    rw [edge] at hr
    split at hr
    · rename_i src tgt hsrc htgt
      obtain rfl := Option.some.inj hr
      obtain ⟨k, hk, -, rfl⟩ := (get?_idMapping hids).mp hsrc
      obtain ⟨k', hk', -, rfl⟩ := (get?_idMapping hids).mp htgt
      exact ⟨mem_nodeIds_build.mpr ⟨k, hk, rfl⟩, mem_nodeIds_build.mpr ⟨k', hk', rfl⟩⟩
    · cases hr

/-- A lesson with the given id and title. -/
def lesson (id title : String) : KnowledgeObject where
  id := id
  version := 1
  title := title
  content := ""
  knowledgeType := .lesson
  knowledgeDomain := .process
  confidence := ⟨1, 1, 0, .one⟩
  importance := "normal"
  provenance := ⟨id, [], [], "", ⟨1, 1, 0, .one⟩, 1, ""⟩
  createdAt := ""
  updatedAt := ""

theorem build_of_perm_lessons :
    (build [lesson "k1" "Cache", lesson "k2" "Retry"] [⟨"k1", "k2", .supports, 1 / 2⟩] 1 "").graphId =
      (build [lesson "k2" "Retry", lesson "k1" "Cache"] [⟨"k1", "k2", .supports, 1 / 2⟩] 1
        "").graphId :=
  (build_of_perm (by decide) (.swap _ _ []) (.refl _) 1 "").1.1

/-! ## Queries -/

variable (g : GraphProjection)

/-- `query_node(node_id)`: the first node whose id starts with the text. -/
def queryNode (nodeId : String) : Option KnowledgeNode :=
  g.nodes.find? fun n => n.id = nodeId ∨ n.id.startsWith nodeId

/-- The keys of `adj`. -/
def nodeIds : List String := g.nodes.map KnowledgeNode.id

/-- The edges whose two ends are keys of `adj`. -/
def inner : List KnowledgeEdge :=
  g.edges.filter fun e => e.source ∈ g.nodeIds ∧ e.target ∈ g.nodeIds

/-- `adj[v]` for both directions. -/
def undirected (v : String) : Finset String :=
  (g.inner.flatMap fun e =>
    (if e.source = v then [e.target] else []) ++ (if e.target = v then [e.source] else [])).toFinset

/-- `adj[v]` for the direction of the edges. -/
def directed (v : String) : List String :=
  (g.inner.filter fun e => e.source = v).map KnowledgeEdge.target

/-- Two nodes with an edge between them. -/
def Linked (v w : String) : Prop :=
  ∃ e ∈ g.inner, e.source = v ∧ e.target = w ∨ e.source = w ∧ e.target = v

/-- An edge from the one node to the other. -/
def Leads (v w : String) : Prop := ∃ e ∈ g.inner, e.source = v ∧ e.target = w

variable {g} {v w : String}

theorem mem_inner {e : KnowledgeEdge} :
    e ∈ g.inner ↔ e ∈ g.edges ∧ e.source ∈ g.nodeIds ∧ e.target ∈ g.nodeIds := by
  simp [inner]

theorem mem_undirected : w ∈ g.undirected v ↔ g.Linked v w := by
  rw [undirected, List.mem_toFinset, List.mem_flatMap]
  refine exists_congr fun e => and_congr_right fun _ => ?_
  rw [List.mem_append]
  split_ifs <;> simp_all [eq_comm]

theorem mem_directed : w ∈ g.directed v ↔ g.Leads v w := by
  simp [directed, Leads, and_assoc]

theorem Linked.symm (h : g.Linked v w) : g.Linked w v := by
  obtain ⟨e, he, h⟩ := h
  exact ⟨e, he, h.symm⟩

theorem Linked.mem_nodeIds (h : g.Linked v w) : w ∈ g.nodeIds := by
  obtain ⟨e, he, ⟨-, rfl⟩ | ⟨rfl, -⟩⟩ := h
  · exact (mem_inner.mp he).2.2
  · exact (mem_inner.mp he).2.1

theorem Leads.mem_nodeIds (h : g.Leads v w) : w ∈ g.nodeIds := by
  obtain ⟨e, he, -, rfl⟩ := h
  exact (mem_inner.mp he).2.2

/-- A listing of a set of nodes has its members. -/
theorem mem_listed {order : SetOrder String} {s : Finset String} :
    w ∈ order.listed s ↔ w ∈ s := by
  rw [← List.mem_toFinset, order.toFinset_listed]

theorem edge_listed_iff {order : SetOrder String} :
    DepthFirst.Edge (fun v => order.listed (g.undirected v)) v w ↔ g.Linked v w :=
  mem_listed.trans mem_undirected

theorem listed_mem_nodeIds (order : SetOrder String) (v : String) :
    ∀ w ∈ order.listed (g.undirected v), w ∈ g.nodeIds := fun _ hw =>
  (edge_listed_iff.mp hw).mem_nodeIds

theorem directed_mem_nodeIds (v : String) : ∀ w ∈ g.directed v, w ∈ g.nodeIds := fun _ hw =>
  (mem_directed.mp hw).mem_nodeIds

variable (g)

/-- The search of `neighbors`: the labels are depths. -/
def neighborRules (order : SetOrder String) (depth : Int) : QueueSearch.Rules String Nat where
  succ v := order.listed (g.undirected v)
  extend currDepth _ := currDepth + 1
  expands currDepth := (currDepth : Int) < depth
  stop _ := false
  nodes := g.nodeIds
  succ_mem := listed_mem_nodeIds order

/-- `neighbors(node_id, depth)`. -/
def neighbors (order : SetOrder String) (nodeId : String) (depth : Int) (now : String) :
    GraphProjection :=
  match g.queryNode nodeId with
  | none =>
      { graphId := Sha256.hexdigest "", version := g.version, nodeCount := 0, edgeCount := 0,
        generatedAt := now }
  | some start =>
      let visited := (QueueSearch.search (g.neighborRules order depth) start.id 0 []).visited
      ofSorted g.version now (sortNodes (g.nodes.filter fun n => n.id ∈ visited))
        (sortEdges (g.edges.filter fun e => e.source ∈ visited ∧ e.target ∈ visited))

/-- `shortest_path(source, target)`. -/
def shortestPath (source target : String) : List String :=
  match g.queryNode source, g.queryNode target with
  | some src, some tgt =>
      if src.id = tgt.id then [src.id]
      else
        match (QueueSearch.search
          (QueueSearch.pathRules g.directed g.nodeIds directed_mem_nodeIds tgt.id)
          src.id [src.id] []).found with
        | some (_, path) => path
        | none => []
  | _, _ => []

/-- What `stats` returns. -/
structure Stats where
  nodeCount : Nat
  edgeCount : Nat
  density : ℚ
  connectedComponents : Nat
  orphanCount : Nat
  orphanPct : ℚ
  largestComponentPct : ℚ
  deriving DecidableEq

/-- The components that `stats` collects. -/
def components (order : SetOrder String) : List (List String) :=
  ((order.listed g.nodeIds.toFinset).foldl
    (QueueSearch.sweep (fun v => order.listed (g.undirected v)) g.nodeIds.dedup
      fun v w hw => List.mem_dedup.mpr (listed_mem_nodeIds order v w hw)) ([], [])).2

/-- Whether no edge leads to or from the node. -/
def isOrphan (v : String) : Bool :=
  g.edges.countP (fun e => e.target = v) = 0 && g.edges.countP (fun e => e.source = v) = 0

/-- `stats()`. -/
def stats (order : SetOrder String) : Stats :=
  let v := g.nodeIds.toFinset.card
  let e := g.edges.length
  let orphanCount := (g.nodeIds.toFinset.filter fun nid => g.isOrphan nid).card
  let largest := Table.maxD 0 ((g.components order).map List.length)
  { nodeCount := v
    edgeCount := e
    density := if 1 < v then e / (v * (v - 1)) else 0
    connectedComponents := (g.components order).length
    orphanCount := orphanCount
    orphanPct := if 0 < v then orphanCount / v else 0
    largestComponentPct := if 0 < v then largest / v else 0 }

/-! ## What the queries find -/

theorem edge_listed_eq (order : SetOrder String) :
    DepthFirst.Edge (fun v => order.listed (g.undirected v)) = g.Linked := by
  funext v w
  exact propext edge_listed_iff

theorem edge_directed_eq : DepthFirst.Edge g.directed = g.Leads := by
  funext v w
  exact propext mem_directed

/-- The search for neighbors visits what lies within the depth. -/
theorem mem_visited_iff (order : SetOrder String) (root : String) (depth : Int) {w : String} :
    w ∈ (QueueSearch.search (g.neighborRules order depth) root 0 []).visited ↔
      ∃ k ≤ depth.toNat, Walk g.Linked k root w := by
  have hgraded : QueueSearch.Graded (g.neighborRules order depth) depth.toNat
      fun _ currDepth d => currDepth = d := by
    refine ⟨fun v a d h w _ => congrArg (· + 1) h, fun v a d h _ => ?_⟩
    subst h
    simp only [neighborRules, decide_eq_true_eq]
    omega
  have houtcome : QueueSearch.Outcome (g.neighborRules order depth) depth.toNat
      (fun _ currDepth d => currDepth = d) root []
      (QueueSearch.search (g.neighborRules order depth) root 0 []) :=
    QueueSearch.search_outcome hgraded rfl fun _ _ => List.not_mem_nil
  have hnone := houtcome.found_eq_none fun _ => rfl
  have htaken := houtcome.taken hnone w
  rw [neighborRules, edge_listed_eq] at htaken
  rw [houtcome.visited hnone, or_iff_left List.not_mem_nil]
  exact htaken

/-- The nodes and the edges of a neighborhood: what lies within the depth of the node that is
queried, in any direction. -/
theorem neighbors_spec (order : SetOrder String) (nodeId : String) (depth : Int) (now : String) :
    (∀ n, n ∈ (g.neighbors order nodeId depth now).nodes ↔ n ∈ g.nodes ∧
      ∃ start, g.queryNode nodeId = some start ∧ ∃ k ≤ depth.toNat, Walk g.Linked k start.id n.id) ∧
    ∀ e, e ∈ (g.neighbors order nodeId depth now).edges ↔ e ∈ g.edges ∧
      ∃ start, g.queryNode nodeId = some start ∧
        (∃ k ≤ depth.toNat, Walk g.Linked k start.id e.source) ∧
          ∃ k ≤ depth.toNat, Walk g.Linked k start.id e.target := by
  rw [neighbors]
  cases g.queryNode nodeId with
  | none => simp
  | some start =>
      constructor
      · intro n
        simp [ofSorted, sortNodes, mem_visited_iff]
      · intro e
        simp [ofSorted, sortEdges, mem_visited_iff]

variable {g} in
theorem shortestPath_of_queried {source target : String} {src tgt : KnowledgeNode}
    (hsrc : g.queryNode source = some src) (htgt : g.queryNode target = some tgt) :
    (g.shortestPath source target ≠ [] →
      BreadthTree.Shortest g.Leads src.id tgt.id (g.shortestPath source target)) ∧
    (g.shortestPath source target = [] ↔ ¬ Relation.ReflTransGen g.Leads src.id tgt.id) := by
  rw [shortestPath, hsrc, htgt]
  dsimp only
  split_ifs with hsame
  · refine ⟨fun _ => ?_, iff_of_false (by simp) fun h => h (hsame ▸ .refl)⟩
    rw [hsame]
    refine ⟨⟨rfl, rfl, .singleton _⟩, fun other hother => ?_⟩
    rw [List.length_singleton, Nat.succ_le_iff, List.length_pos_iff]
    rintro rfl
    cases hother.head
  · have hsearch := QueueSearch.search_target g.directed g.nodeIds directed_mem_nodeIds tgt.id src.id
    rw [edge_directed_eq] at hsearch
    obtain ⟨hfound, hnone⟩ := hsearch
    cases hresult : (QueueSearch.search (QueueSearch.pathRules g.directed g.nodeIds
        directed_mem_nodeIds tgt.id) src.id [src.id] []).found with
    | none => exact ⟨fun h => absurd rfl h, iff_of_true rfl (hnone.mp hresult)⟩
    | some found =>
        obtain ⟨v, path⟩ := found
        have hshortest := hfound v path hresult
        refine ⟨fun _ => hshortest, iff_of_false ?_ fun h => h hshortest.walk.reach⟩
        rintro rfl
        cases hshortest.head

/-- A path that is found is a shortest one along the edges, and none is found exactly when there is
none. -/
theorem shortestPath_spec (source target : String) :
    (∀ src tgt, g.queryNode source = some src → g.queryNode target = some tgt →
      g.shortestPath source target ≠ [] →
        BreadthTree.Shortest g.Leads src.id tgt.id (g.shortestPath source target)) ∧
    (g.shortestPath source target = [] ↔
      ∀ src tgt, g.queryNode source = some src → g.queryNode target = some tgt →
        ¬ Relation.ReflTransGen g.Leads src.id tgt.id) := by
  refine ⟨fun src tgt hsrc htgt => (shortestPath_of_queried hsrc htgt).1, fun hnil src tgt hsrc htgt =>
    (shortestPath_of_queried hsrc htgt).2.mp hnil, fun h => ?_⟩
  cases hsrc : g.queryNode source with
  | none => rw [shortestPath, hsrc]
  | some src =>
      cases htgt : g.queryNode target with
      | none => rw [shortestPath, hsrc, htgt]
      | some tgt => exact (shortestPath_of_queried hsrc htgt).2.mpr (h src tgt hsrc htgt)

/-- The nodes that are connected with a node. -/
def connected (v : String) : Set String := {w | Relation.ReflTransGen g.Linked v w}

theorem components_spec (order : SetOrder String) :
    (g.components order).flatten.Perm g.nodeIds.dedup ∧ (∀ c ∈ g.components order, c ≠ []) ∧
      ∀ c ∈ g.components order, ∀ v ∈ c, ∀ w,
        w ∈ c ↔ Relation.ReflTransGen g.Linked v w := by
  have hsymm : ∀ v w, w ∈ order.listed (g.undirected v) → v ∈ order.listed (g.undirected w) :=
    fun v w hw => edge_listed_iff.mpr (edge_listed_iff.mp hw).symm
  have hroots : ∀ v, v ∈ order.listed g.nodeIds.toFinset ↔ v ∈ g.nodeIds.dedup := fun v => by
    rw [mem_listed, List.mem_toFinset, List.mem_dedup]
  have hsweep := QueueSearch.foldl_sweep
    (fun v w hw => List.mem_dedup.mpr (listed_mem_nodeIds order v w hw)) hsymm
    (List.nodup_dedup g.nodeIds) hroots
  rw [edge_listed_eq] at hsweep
  exact hsweep

/-- A node without edges is connected with itself only. -/
theorem connected_of_isOrphan {v : String} (h : g.isOrphan v = true) : g.connected v = {v} := by
  rw [isOrphan, Bool.and_eq_true, decide_eq_true_eq, decide_eq_true_eq, List.countP_eq_zero,
    List.countP_eq_zero] at h
  have hlone : ∀ w, ¬ g.Linked v w := by
    rintro w ⟨e, he, ⟨hsource, -⟩ | ⟨-, htarget⟩⟩
    · exact h.2 e (mem_inner.mp he).1 (by simpa using hsource)
    · exact h.1 e (mem_inner.mp he).1 (by simpa using htarget)
  ext w
  constructor
  · intro hreach
    rcases Relation.ReflTransGen.cases_head hreach with rfl | ⟨x, hedge, -⟩
    · rfl
    · exact absurd hedge (hlone x)
  · rintro rfl
    exact .refl

/-- The share of the largest component, as a number of nodes. -/
theorem largestComponentPct_mul (order : SetOrder String) :
    (g.stats order).largestComponentPct * (g.stats order).nodeCount =
      Table.maxD 0 ((g.components order).map List.length) := by
  obtain ⟨hflatten, -, -⟩ := g.components_spec order
  simp only [stats]
  split_ifs with hpos
  · have hne : ((g.nodeIds.toFinset.card : Nat) : ℚ) ≠ 0 := by
      exact_mod_cast hpos.ne'
    exact div_mul_cancel₀ _ hne
  · have hempty : g.nodeIds = [] := by
      simpa [List.toFinset_eq_empty_iff] using hpos
    have hlengths : ((g.components order).map List.length).sum = 0 := by
      rw [← List.length_flatten, hflatten.length_eq, hempty]
      rfl
    rw [zero_mul, eq_comm, Nat.cast_eq_zero]
    by_contra hmax
    have hne : (g.components order).map List.length ≠ [] := by
      intro hnil
      rw [hnil] at hmax
      exact hmax rfl
    have hmem := @Table.maxD_mem Nat _ 0 _ hne
    exact hmax (List.sum_eq_zero_iff.mp hlengths _ hmem)

/-- There is one component for each set of connected nodes. -/
theorem length_components (order : SetOrder String) :
    (g.components order).length = {s | ∃ v ∈ g.nodeIds, s = g.connected v}.ncard := by
  obtain ⟨hflatten, hne, hclass⟩ := g.components_spec order
  have hlength := QueueSearch.length_eq_ncard hflatten (List.nodup_dedup _) hclass hne
  simp only [List.mem_dedup] at hlength
  exact hlength

/-- No set of connected nodes is larger than the largest component. -/
theorem ncard_connected_le (order : SetOrder String) {v : String} (hv : v ∈ g.nodeIds) :
    (g.connected v).ncard ≤ Table.maxD 0 ((g.components order).map List.length) := by
  obtain ⟨hflatten, -, hclass⟩ := g.components_spec order
  obtain ⟨c, hc, hvc⟩ := List.mem_flatten.mp (hflatten.mem_iff.mpr (List.mem_dedup.mpr hv))
  have hsize := QueueSearch.ncard_class hflatten (List.nodup_dedup _) hclass hc hvc
  exact hsize.le.trans (Table.le_maxD (List.mem_map_of_mem hc))

theorem components_eq_nil_iff (order : SetOrder String) :
    g.components order = [] ↔ g.nodeIds = [] := by
  obtain ⟨hflatten, hne, -⟩ := g.components_spec order
  constructor
  · intro hnil
    rw [hnil, List.flatten_nil] at hflatten
    refine List.eq_nil_iff_forall_not_mem.mpr fun v hv => ?_
    exact absurd (hflatten.mem_iff.mpr (List.mem_dedup.mpr hv)) List.not_mem_nil
  · intro hnil
    refine List.eq_nil_iff_forall_not_mem.mpr fun c hc => ?_
    obtain ⟨v, hv⟩ := List.exists_mem_of_ne_nil c (hne c hc)
    have hnode := hflatten.mem_iff.mp (List.mem_flatten.mpr ⟨c, hc, hv⟩)
    rw [List.mem_dedup, hnil] at hnode
    cases hnode

/-- The largest component is a set of connected nodes. -/
theorem exists_largest (order : SetOrder String) (hnodes : g.nodeIds ≠ []) :
    ∃ v ∈ g.nodeIds,
      (g.connected v).ncard = Table.maxD 0 ((g.components order).map List.length) := by
  obtain ⟨hflatten, hne, hclass⟩ := g.components_spec order
  have hlengths : (g.components order).map List.length ≠ [] := by
    intro hnil
    exact hnodes ((g.components_eq_nil_iff order).mp (List.map_eq_nil_iff.mp hnil))
  obtain ⟨c, hc, hlength⟩ := List.mem_map.mp (Table.maxD_mem (d := 0) hlengths)
  obtain ⟨v, hv⟩ := List.exists_mem_of_ne_nil c (hne c hc)
  have hnode := hflatten.mem_iff.mp (List.mem_flatten.mpr ⟨c, hc, hv⟩)
  refine ⟨v, List.mem_dedup.mp hnode, ?_⟩
  rw [← hlength]
  exact QueueSearch.ncard_class hflatten (List.nodup_dedup _) hclass hc hv

theorem largest_le (order order' : SetOrder String) :
    Table.maxD 0 ((g.components order).map List.length) ≤
      Table.maxD 0 ((g.components order').map List.length) := by
  by_cases hnodes : g.nodeIds = []
  · rw [(g.components_eq_nil_iff order).mpr hnodes]
    exact Nat.zero_le _
  · obtain ⟨v, hv, hsize⟩ := g.exists_largest order hnodes
    exact hsize ▸ g.ncard_connected_le order' hv

/-- Each node without edges is a component of its own. -/
theorem card_orphans_le :
    (g.nodeIds.toFinset.filter fun nid => g.isOrphan nid).card ≤
      {s | ∃ v ∈ g.nodeIds, s = g.connected v}.ncard := by
  have hfinite : {s | ∃ v ∈ g.nodeIds, s = g.connected v}.Finite :=
    ((List.finite_toSet g.nodeIds).image g.connected).subset fun s ⟨v, hv, hs⟩ => ⟨v, hv, hs.symm⟩
  rw [← Set.ncard_coe_finset, ← Set.ncard_image_of_injective _ Set.singleton_injective]
  refine Set.ncard_le_ncard ?_ hfinite
  rintro _ ⟨v, hv, rfl⟩
  obtain ⟨hnode, horphan⟩ := Finset.mem_filter.mp hv
  exact ⟨v, List.mem_toFinset.mp hnode, (connected_of_isOrphan g horphan).symm⟩

/-- The statistics count the connected components and the nodes of the largest one, in whatever
order the sets are iterated, and no more orphans than components. -/
theorem stats_spec (order : SetOrder String) :
    (g.stats order).connectedComponents =
        {s | ∃ v ∈ g.nodeIds, s = g.connected v}.ncard ∧
      (∀ v ∈ g.nodeIds, ((g.connected v).ncard : ℚ) ≤
        (g.stats order).largestComponentPct * (g.stats order).nodeCount) ∧
      (g.nodeIds ≠ [] → ∃ v ∈ g.nodeIds, ((g.connected v).ncard : ℚ) =
        (g.stats order).largestComponentPct * (g.stats order).nodeCount) ∧
      (g.stats order).orphanCount ≤ (g.stats order).connectedComponents ∧
      ∀ order', g.stats order' = g.stats order := by
  refine ⟨g.length_components order, fun v hv => ?_, fun hnodes => ?_, ?_, fun order' => ?_⟩
  · rw [largestComponentPct_mul]
    exact_mod_cast g.ncard_connected_le order hv
  · obtain ⟨v, hv, hsize⟩ := g.exists_largest order hnodes
    refine ⟨v, hv, ?_⟩
    rw [largestComponentPct_mul, hsize]
  · exact g.card_orphans_le.trans (g.length_components order).ge
  · rw [stats, stats, g.length_components order, g.length_components order',
      le_antisymm (g.largest_le order' order) (g.largest_le order order')]

end GraphProjection

end RationaleVault.Knowledge
