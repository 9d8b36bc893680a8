import RationaleVault.Library.Distances
import RationaleVault.Projections.GraphRecord

/-!
# Impact analysis

The search in one direction drops a node that it takes out at the depth limit, so a node at exactly
that distance is neither recorded nor expanded.
-/

namespace RationaleVault

open BreadthFirst Distances Walks

/-- What `impact_analysis` returns. -/
structure ImpactReport where
  upstream : List String
  downstream : List String
  affectedByContradiction : List String

namespace GraphRecord

variable (g : GraphRecord)

/-- `not relation_types or edge.relation_type in relation_types`. -/
def typePermitted (relationTypes : Option (List String)) (e : GraphEdge) : Prop :=
  relationTypes.getD [] = [] ∨ e.relationType.value ∈ relationTypes.getD []

instance (relationTypes : Option (List String)) : DecidablePred (typePermitted relationTypes) :=
  fun _ => inferInstanceAs (Decidable (_ ∨ _))

/-- The edges that are listed for a node in a direction. -/
def directedEdges (direction : String) (v : String) : List GraphEdge :=
  ((if direction = "forward" then g.adjacency else g.reverseAdjacency).get? v).getD []

/-- The end of an edge in a direction. -/
def directedEnd (direction : String) (e : GraphEdge) : String :=
  if direction = "forward" then e.target else e.source

/-- The ends of the permitted edges that are listed for a node. -/
def directedNext (direction : String) (relationTypes : Option (List String)) (v : String) :
    List String :=
  ((g.directedEdges direction v).filter (typePermitted relationTypes)).map (directedEnd direction)

/-- The nodes with edges in a direction. -/
def directedKeys (direction : String) : List String :=
  (if direction = "forward" then g.adjacency else g.reverseAdjacency).keys

theorem directedNext_eq_nil {direction : String} {relationTypes : Option (List String)}
    {v : String} (hv : v ∉ g.directedKeys direction) :
    g.directedNext direction relationTypes v = [] := by
  rw [directedNext, directedEdges, GraphState.getD_eq_nil hv]
  rfl

/-- The loop of `_bfs_directional`: the visited nodes. -/
def directionalLoop (direction : String) (maxDepth : Nat) (relationTypes : Option (List String))
    (queue : List (String × Nat)) (visited : List String) : List String :=
  match queue with
  | [] => visited
  | (current, depth) :: queue =>
      if _h : current ∈ visited ∨ maxDepth ≤ depth then
        directionalLoop direction maxDepth relationTypes queue visited
      else
        let new := (g.directedNext direction relationTypes current).filter
          fun w => w ∉ current :: visited
        directionalLoop direction maxDepth relationTypes (queue ++ new.map fun w => (w, depth + 1))
          (current :: visited)
  termination_by (DepthFirst.unmet (g.directedKeys direction) visited, queue.length)
  decreasing_by
    · exact Prod.Lex.right _ (Nat.lt_succ_self _)
    · rw [not_or] at _h
      by_cases hkey : current ∈ g.directedKeys direction
      · exact Prod.Lex.left _ _ (DepthFirst.unmet_cons_lt hkey _h.1)
      · have hle : DepthFirst.unmet (g.directedKeys direction) (current :: visited) ≤
            DepthFirst.unmet (g.directedKeys direction) visited := DepthFirst.unmet_cons_le
        rw [g.directedNext_eq_nil hkey]
        obtain hlt | heq := Nat.lt_or_eq_of_le hle
        · exact Prod.Lex.left _ _ hlt
        · rw [heq]
          exact Prod.Lex.right _ (by simp)

/-- `_bfs_directional(node_id, direction, max_depth, relation_types)`, sorted. -/
def bfsDirectional (nodeId direction : String) (maxDepth : Nat)
    (relationTypes : Option (List String)) : List String :=
  Table.orderBy id ((g.directionalLoop direction maxDepth relationTypes [(nodeId, 0)] []).filter
    fun w => w ≠ nodeId)

/-- `contradicted`: the ends of the contradictions of a node. -/
def contradicted (nodeId : String) : List String :=
  let ends := fun direction =>
    ((g.directedEdges direction nodeId).filter fun e => e.relationType = .contradicts).map
      (directedEnd direction)
  Table.orderBy id (ends "forward" ++ ends "reverse").dedup

/-- `impact_analysis(node_id, depth, relation_types)`. -/
def impactAnalysis (nodeId : String) (depth : Nat) (relationTypes : Option (List String)) :
    ImpactReport where
  upstream := g.bfsDirectional nodeId "reverse" depth relationTypes
  downstream := g.bfsDirectional nodeId "forward" depth relationTypes
  affectedByContradiction := g.contradicted nodeId

/-! ## What an impact is -/

/-- A permitted edge that is listed for the one node leads to the other. -/
def Leads (direction : String) (relationTypes : Option (List String)) (v w : String) : Prop :=
  ∃ e ∈ g.directedEdges direction v, typePermitted relationTypes e ∧ directedEnd direction e = w

/-- The nodes other than the start at a distance between one and the depth, each of them once. -/
def ListsNear (direction : String) (relationTypes : Option (List String)) (nodeId : String)
    (depth : Nat) (listed : List String) : Prop :=
  listed.Nodup ∧ ∀ w, w ∈ listed ↔ w ≠ nodeId ∧
    ∃ d, 1 ≤ d ∧ d ≤ depth ∧ Distance (g.Leads direction relationTypes) nodeId w d

/-- Both directions of an impact analysis respect the depth. -/
structure RespectsDepth (nodeId : String) (depth : Nat) (relationTypes : Option (List String)) :
    Prop where
  upstream : g.ListsNear "reverse" relationTypes nodeId depth
    (g.impactAnalysis nodeId depth relationTypes).upstream
  downstream : g.ListsNear "forward" relationTypes nodeId depth
    (g.impactAnalysis nodeId depth relationTypes).downstream

variable {g} {direction : String} {relationTypes : Option (List String)} {nodeId : String}
  {depth : Nat}

theorem leads_iff {v w : String} :
    g.Leads direction relationTypes v w ↔ w ∈ g.directedNext direction relationTypes v := by
  simp only [Leads, directedNext, List.mem_map, List.mem_filter, decide_eq_true_eq, and_assoc]

/-- Downstream a graph with its indexes leads along its edges. -/
theorem Indexed.leads_forward (h : g.Indexed) {v w : String} :
    g.Leads "forward" relationTypes v w ↔
      ∃ e ∈ g.edges, typePermitted relationTypes e ∧ e.source = v ∧ e.target = w := by
  simp only [Leads, directedEdges, directedEnd, if_true, h.adjacency_eq, Grouping.getD_lists,
    List.map_id, List.mem_filter, DictKey.norm_string, decide_eq_true_eq]
  constructor
  · rintro ⟨e, ⟨he, hsource⟩, hpermitted, htarget⟩
    exact ⟨e, he, hpermitted, hsource, htarget⟩
  · rintro ⟨e, he, hpermitted, hsource, htarget⟩
    exact ⟨e, ⟨he, hsource⟩, hpermitted, htarget⟩

/-! ## The loop -/

/-- The loop visits what walks shorter than the limit lead to. -/
theorem mem_directionalLoop {queue done : List (String × Nat)} {visited : List String}
    {limit : Nat} (hlimit : depth = limit + 1)
    (h : Bounded (g.Leads direction relationTypes) nodeId limit queue done)
    (hvisited : visited.Perm (done.map Prod.fst)) :
    (g.directionalLoop direction depth relationTypes queue visited).Nodup ∧
      ∀ w, w ∈ g.directionalLoop direction depth relationTypes queue visited ↔
        ∃ n ≤ limit, Walk (g.Leads direction relationTypes) n nodeId w := by
  induction queue, visited using directionalLoop.induct g direction depth relationTypes
    generalizing done with
  | case1 visited =>
      rw [directionalLoop]
      exact ⟨hvisited.nodup_iff.mpr h.nodup, fun w => hvisited.mem_iff.trans h.mem_iff⟩
  | case2 visited current d queue hskip ih =>
      rw [directionalLoop, dif_pos hskip]
      apply ih (h.skip (hskip.imp hvisited.mem_iff.mp fun hle => by omega)) hvisited
  | case3 visited current d queue hskip new =>
      rename_i ih
      rw [directionalLoop, dif_neg hskip]
      rw [not_or, Nat.not_le] at hskip
      have hfresh : current ∉ done.map Prod.fst := fun hmem =>
        hskip.1 (hvisited.mem_iff.mpr hmem)
      refine ih (?_ : Bounded _ _ _ _ (done ++ [(current, d)])) ?_
      · apply h.visit hfresh (by omega)
        · exact fun w hw => leads_iff.mpr (List.mem_filter.mp hw).1
        · intro w hw
          by_cases hmem : w ∈ current :: visited
          · rcases List.mem_cons.mp hmem with rfl | hmem
            · exact .inr (.inl rfl)
            · exact .inr (.inr (hvisited.mem_iff.mp hmem))
          · exact .inl (List.mem_filter.mpr ⟨leads_iff.mp hw, by simpa using hmem⟩)
      · rw [List.map_append]
        exact (hvisited.cons current).trans (List.perm_append_singleton current _).symm

theorem mem_directionalLoop_start (limit : Nat) :
    (g.directionalLoop direction (limit + 1) relationTypes [(nodeId, 0)] []).Nodup ∧
      ∀ w, w ∈ g.directionalLoop direction (limit + 1) relationTypes [(nodeId, 0)] [] ↔
        ∃ n ≤ limit, Walk (g.Leads direction relationTypes) n nodeId w := by
  have hstart : Bounded (g.Leads direction relationTypes) nodeId limit [(nodeId, 0)] [] :=
    .start _ nodeId limit
  exact mem_directionalLoop rfl hstart (.refl _)

/-- A search lists the nodes at a distance below the depth. -/
theorem mem_bfsDirectional (w : String) :
    w ∈ g.bfsDirectional nodeId direction depth relationTypes ↔
      w ≠ nodeId ∧ ∃ d < depth, Distance (g.Leads direction relationTypes) nodeId w d := by
  rw [bfsDirectional, Table.mem_orderBy, List.mem_filter, decide_eq_true_eq, and_comm]
  apply and_congr_right
  intro _
  cases depth with
  | zero =>
      rw [directionalLoop, dif_pos (.inr le_rfl), directionalLoop]
      simp
  | succ limit =>
      rw [(mem_directionalLoop_start limit).2]
      constructor
      · rintro ⟨n, hn, hwalk⟩
        obtain ⟨d, hd, hdistance⟩ := exists_distance hwalk
        exact ⟨d, by omega, hdistance⟩
      · rintro ⟨d, hd, hdistance⟩
        exact ⟨d, by omega, hdistance.1⟩

theorem nodup_bfsDirectional :
    (g.bfsDirectional nodeId direction depth relationTypes).Nodup := by
  rw [bfsDirectional, (Table.orderBy_perm _ _).nodup_iff]
  apply List.Nodup.filter
  cases depth with
  | zero =>
      rw [directionalLoop, dif_pos (.inr le_rfl), directionalLoop]
      exact List.nodup_nil
  | succ limit => exact (mem_directionalLoop_start limit).1

/-- A search lists what is near exactly if no other node lies at the depth itself. -/
theorem listsNear_iff :
    g.ListsNear direction relationTypes nodeId depth
        (g.bfsDirectional nodeId direction depth relationTypes) ↔
      ∀ w, w ≠ nodeId → ¬Distance (g.Leads direction relationTypes) nodeId w depth := by
  constructor
  · rintro ⟨_, hnear⟩ w hne hdistance
    have hmem := (hnear w).mpr ⟨hne, depth, hdistance.pos hne, le_rfl, hdistance⟩
    obtain ⟨_, d, hd, hdistance'⟩ := (mem_bfsDirectional w).mp hmem
    exact absurd (hdistance.unique hdistance') (by omega)
  · intro hnone
    refine ⟨nodup_bfsDirectional, fun w => ?_⟩
    rw [mem_bfsDirectional]
    apply and_congr_right
    intro hne
    constructor
    · rintro ⟨d, hd, hdistance⟩
      exact ⟨d, hdistance.pos hne, hd.le, hdistance⟩
    · rintro ⟨d, _, hd, hdistance⟩
      rcases Nat.lt_or_eq_of_le hd with hlt | rfl
      · exact ⟨d, hlt, hdistance⟩
      · exact absurd hdistance (hnone w hne)

/-- An impact analysis respects its depth exactly if no other node lies at that distance in either
direction. -/
theorem impactAnalysis_respectsDepth_iff (g : GraphRecord) (nodeId : String) (depth : Nat)
    (relationTypes : Option (List String)) :
    g.RespectsDepth nodeId depth relationTypes ↔
      ∀ w, w ≠ nodeId → ¬Distance (g.Leads "reverse" relationTypes) nodeId w depth ∧
        ¬Distance (g.Leads "forward" relationTypes) nodeId w depth := by
  constructor
  · rintro ⟨hup, hdown⟩ w hne
    exact ⟨listsNear_iff.mp hup w hne, listsNear_iff.mp hdown w hne⟩
  · intro hnone
    exact ⟨listsNear_iff.mpr fun w hne => (hnone w hne).1,
      listsNear_iff.mpr fun w hne => (hnone w hne).2⟩

/-- The one neighbor of a node is missed with a depth of one. -/
theorem impactAnalysis_neighbor :
    ∃ g, GraphProjection.projectRecord .asciiOnly "" GraphProjection.threeObjects = .ok g ∧
      ¬g.RespectsDepth "k1" 1 none := by
  obtain ⟨g, hg⟩ : ∃ g, GraphProjection.projectRecord .asciiOnly "" GraphProjection.threeObjects =
    .ok g := ⟨_, rfl⟩
  obtain ⟨_, hedges, hindexed⟩ := GraphProjection.projectRecord_indexed hg
  have hmem : ⟨"k1", "k2", .supports, 4 / 5⟩ ∈ g.edges := by
    rw [hedges]
    decide +kernel
  have hleads : g.Leads "forward" none "k1" "k2" :=
    hindexed.leads_forward.mpr ⟨_, hmem, .inl rfl, rfl, rfl⟩
  obtain ⟨d, hd, hdistance⟩ := exists_distance (Walk.refl.tail hleads)
  obtain rfl : d = 1 := le_antisymm hd (hdistance.pos (by decide))
  refine ⟨g, hg, fun hrespects => ?_⟩
  exact listsNear_iff.mp hrespects.downstream "k2" (by decide) hdistance

end GraphRecord

end RationaleVault
