import Mathlib.Algebra.Order.Field.Rat
import Mathlib.Data.Prod.Lex
import Mathlib.Order.WithBot
import Mathlib.Tactic.NormNum
import RationaleVault.Library.ShortestPath
import RationaleVault.Projections.GraphRecord

/-!
# Weighted shortest paths

Edges weigh the inverse of their confidence. The search takes the least entry of a heap, skips the
entries of nodes that it has visited, and stops at the target.
-/

namespace RationaleVault

open ShortestPath

/-- The weight of an edge. -/
def GraphEdge.weight (e : GraphEdge) : ℚ := 1 / max e.confidence (1 / 100)

namespace GraphRecord

variable (g : GraphRecord)

/-- The targets of the edges that are listed for a node, with their weights. -/
def arcs (v : String) : List (String × ℚ) :=
  ((g.adjacency.get? v).getD []).map fun e => (e.target, e.weight)

theorem arcs_eq_nil {v : String} (hv : v ∉ g.adjacency.keys) : g.arcs v = [] := by
  rw [arcs, GraphState.getD_eq_nil hv]
  rfl

/-- `heapq.heappop`: the least entry by weight and node, and the others. -/
def heappop (heap : List (ℚ × String)) : Option ((ℚ × String) × List (ℚ × String)) :=
  match Table.orderBy toLex heap with
  | [] => none
  | e :: rest => some (e, rest)

theorem heappop_eq_none {heap : List (ℚ × String)} (h : heappop heap = none) : heap = [] := by
  have hperm := Table.orderBy_perm toLex heap
  unfold heappop at h
  split at h
  · rename_i hnil
    rw [hnil] at hperm
    exact List.nil_perm.mp hperm
  · cases h

/-- What is taken out has the least weight. -/
theorem heappop_eq_some {heap rest : List (ℚ × String)} {e : ℚ × String}
    (h : heappop heap = some (e, rest)) :
    (e :: rest).Perm heap ∧ ∀ e' ∈ rest, e.1 ≤ e'.1 := by
  have hperm := Table.orderBy_perm toLex heap
  have hsorted := (Table.ordered_orderBy toLex heap).sorted
  unfold heappop at h
  split at h
  · cases h
  · rename_i e₀ rest₀ hcons
    obtain ⟨rfl, rfl⟩ := Prod.mk.inj (Option.some.inj h)
    rw [hcons] at hperm hsorted
    refine ⟨hperm, fun e' he' => ?_⟩
    have hle := (List.pairwise_cons.mp hsorted).1 e' he'
    rcases Prod.Lex.toLex_le_toLex.mp hle with hlt | ⟨heq, _⟩
    · exact hlt.le
    · exact heq.le

/-- The loop of `weighted_shortest_path`: the distances and predecessors, and the visited nodes. -/
def pathLoop (target : String) (s : State String ℚ) (visited : List String) :
    State String ℚ × List String :=
  match _hpop : heappop s.heap with
  | none => (s, visited)
  | some ((d, current), heap) =>
      if current ∈ visited then pathLoop target { s with heap := heap } visited
      else if current = target then ({ s with heap := heap }, current :: visited)
      else
        pathLoop target ((g.arcs current).foldl (relax d current) { s with heap := heap })
          (current :: visited)
  termination_by (DepthFirst.unmet g.adjacency.keys visited, s.heap.length)
  decreasing_by
    · have hlength := (heappop_eq_some _hpop).1.length_eq
      rw [List.length_cons] at hlength
      exact Prod.Lex.right _ (by omega)
    · have hlength := (heappop_eq_some _hpop).1.length_eq
      rw [List.length_cons] at hlength
      by_cases hkey : current ∈ g.adjacency.keys
      · exact Prod.Lex.left _ _ (DepthFirst.unmet_cons_lt hkey ‹_›)
      · have hle : DepthFirst.unmet g.adjacency.keys (current :: visited) ≤
            DepthFirst.unmet g.adjacency.keys visited := DepthFirst.unmet_cons_le
        rw [g.arcs_eq_nil hkey]
        obtain hlt | heq := Nat.lt_or_eq_of_le hle
        · exact Prod.Lex.left _ _ hlt
        · rw [heq]
          exact Prod.Lex.right _ (by dsimp only [List.foldl_nil]; omega)

/-- `weighted_shortest_path(source, target)`; no result if a predecessor is missing or the
predecessors lead in a circle. -/
def weightedShortestPath (source target : String) : Option (List String × WithTop ℚ) :=
  if g.nodes.contains source = false ∨ g.nodes.contains target = false then some ([], ⊤)
  else if source = target then some ([source], 0)
  else
    let found := g.pathLoop target (initial source) []
    if found.1.prev target = none then some ([], ⊤)
    else do
      let path ← unwind found.1.prev (found.2.length + 1) target
      let weight ← found.1.dist target
      return (path.reverse, (weight : WithTop ℚ))

/-! ## What a shortest path is -/

/-- The edges out of a node: their targets and weights. -/
def edgeArcs (v : String) : List (String × ℚ) :=
  (g.edges.filter fun e => e.source = v).map fun e => (e.target, e.weight)

/-- A step along an edge. -/
def Linked (v w : String) : Prop := ∃ x, (w, x) ∈ g.edgeArcs v

/-- A path from the source to the target of the least weight, or no path if there is none. -/
structure LeastPath (source target : String) (result : List String × WithTop ℚ) : Prop where
  empty_iff : result.1 = [] ↔ source ∉ g.nodes.keys ∨ target ∉ g.nodes.keys ∨
    ¬Relation.ReflTransGen g.Linked source target
  infinite : result.1 = [] → result.2 = ⊤
  least : result.1 ≠ [] → ∃ weight : ℚ, result.2 = weight ∧ result.1.head? = some source ∧
    result.1.getLast? = some target ∧ Weighs g.edgeArcs result.1 weight ∧
    ∀ t, Walk g.edgeArcs t source target → weight ≤ t

variable {g} {source target : String} {s : State String ℚ} {visited : List String}

theorem Indexed.arcs_eq (h : g.Indexed) : g.arcs = g.edgeArcs := by
  ext1 v
  rw [arcs, edgeArcs, h.adjacency_eq, Grouping.getD_lists, List.map_id]
  rfl

theorem weight_nonneg (e : GraphEdge) : 0 ≤ e.weight := by
  have hpos : (0 : ℚ) < max e.confidence (1 / 100) := lt_max_of_lt_right (by norm_num)
  exact (one_div_pos.mpr hpos).le

theorem arcs_nonneg (g : GraphRecord) : ∀ v, ∀ a ∈ g.arcs v, 0 ≤ a.2 := by
  intro v a ha
  obtain ⟨e, _, rfl⟩ := List.mem_map.mp ha
  exact weight_nonneg e

/-- The loop finds the target if it can be reached. -/
theorem pathLoop_found (h : Invariant g.arcs source [] s visited) :
    Found g.arcs source target (g.pathLoop target s visited).1
      ((g.pathLoop target s visited).2.length + 1) := by
  induction s, visited using pathLoop.induct g target with
  | case1 s visited hpop =>
      have hloop : g.pathLoop target s visited = (s, visited) := by
        rw [pathLoop]
        split <;> simp_all
      rw [hloop]
      exact h.found_of_empty g.arcs_nonneg (heappop_eq_none hpop)
  | case2 s visited d current heap hpop hvisited ih =>
      have hloop : g.pathLoop target s visited =
          g.pathLoop target { s with heap := heap } visited := by
        rw [pathLoop]
        split <;> simp_all
      rw [hloop]
      exact ih (h.drop (heappop_eq_some hpop).1 hvisited)
  | case3 s visited d heap hpop hvisited =>
      have hloop : g.pathLoop target s visited = ({ s with heap := heap }, target :: visited) := by
        rw [pathLoop]
        split <;> simp_all
      obtain ⟨hperm, hmin⟩ := heappop_eq_some hpop
      rw [hloop]
      exact h.found_of_least g.arcs_nonneg hperm hmin hvisited
  | case4 s visited d current heap hpop hvisited htarget ih =>
      have hloop : g.pathLoop target s visited =
          g.pathLoop target ((g.arcs current).foldl (relax d current) { s with heap := heap })
            (current :: visited) := by
        rw [pathLoop]
        split <;> simp_all
      obtain ⟨hperm, hmin⟩ := heappop_eq_some hpop
      rw [hloop]
      exact ih (h.visit g.arcs_nonneg hperm hmin hvisited)

/-- In a graph with its indexes the result is a path of the least weight. -/
theorem Indexed.weightedShortestPath (h : g.Indexed) (source target : String) :
    ∃ result, g.weightedShortestPath source target = some result ∧
      g.LeastPath source target result := by
  have hkeys : ∀ v, g.nodes.contains v = false ↔ v ∉ g.nodes.keys := by
    intro v
    rw [mem_keys_iff, Bool.not_eq_true]
  unfold GraphRecord.weightedShortestPath
  by_cases hmissing : g.nodes.contains source = false ∨ g.nodes.contains target = false
  · rw [if_pos hmissing]
    rw [hkeys, hkeys] at hmissing
    refine ⟨_, rfl, iff_of_true rfl ?_, fun _ => rfl, fun hne => absurd rfl hne⟩
    exact hmissing.imp_right .inl
  rw [if_neg hmissing]
  rw [hkeys, hkeys, not_or, not_not, not_not] at hmissing
  have hempty : ∀ path : List String, path ≠ [] → Relation.ReflTransGen g.Linked source target →
      (path = [] ↔ source ∉ g.nodes.keys ∨ target ∉ g.nodes.keys ∨
        ¬Relation.ReflTransGen g.Linked source target) := by
    intro path hpath hreach
    refine iff_of_false hpath ?_
    rintro (hsource | htarget | hunreached)
    · exact hsource hmissing.1
    · exact htarget hmissing.2
    · exact hunreached hreach
  by_cases hsame : source = target
  · subst hsame
    rw [if_pos rfl]
    refine ⟨_, rfl, hempty _ (List.cons_ne_nil _ _) .refl, fun hnil => absurd hnil (by simp),
      fun _ => ⟨0, rfl, rfl, rfl, .single, fun t hwalk => ?_⟩⟩
    exact hwalk.nonneg (h.arcs_eq ▸ g.arcs_nonneg)
  · rw [if_neg hsame]
    have hfound : Found g.arcs source target (g.pathLoop target (initial source) []).1
        ((g.pathLoop target (initial source) []).2.length + 1) :=
      pathLoop_found (Invariant.initial g.arcs source)
    rw [h.arcs_eq] at hfound
    generalize g.pathLoop target (initial source) [] = found at hfound ⊢
    cases hdist : found.1.dist target with
    | none =>
        have hprev : found.1.prev target = none := by
          rw [← Option.not_isSome_iff_eq_none, hfound.prev_iff, hdist]
          simp
        have hunreached : ¬Relation.ReflTransGen g.Linked source target := by
          intro hreach
          obtain ⟨t, hwalk⟩ := exists_walk hreach
          have hmet := hfound.reached t hwalk
          rw [hdist] at hmet
          cases hmet
        dsimp only
        rw [if_pos hprev]
        exact ⟨_, rfl, iff_of_true rfl (.inr (.inr hunreached)), fun _ => rfl,
          fun hne => absurd rfl hne⟩
    | some weight =>
        have hprev : found.1.prev target ≠ none := by
          rw [← Option.isSome_iff_ne_none, hfound.prev_iff, hdist]
          rfl
        obtain ⟨path, hpath, hhead, hlast, hweighs⟩ := hfound.path weight hdist
        have hne : path.reverse ≠ [] := by
          intro hnil
          rw [List.reverse_eq_nil_iff] at hnil
          rw [hnil] at hhead
          cases hhead
        dsimp only
        rw [if_neg hprev, hpath, hdist]
        refine ⟨(path.reverse, (weight : WithTop ℚ)), rfl,
          hempty _ hne (hfound.walk weight hdist).reach, fun hnil => absurd hnil hne, fun _ => ?_⟩
        refine ⟨weight, rfl, ?_, ?_, hweighs, fun t hwalk => hfound.least weight hdist t hwalk⟩
        · rw [List.head?_reverse, hlast]
        · rw [List.getLast?_reverse, hhead]

end GraphRecord

namespace GraphProjection

/-- In every projected graph the result is a path of the least weight. -/
theorem weightedShortestPath_leastPath (digits : DigitTable) (now : String)
    (state : CompiledKnowledge) {g : GraphRecord} (h : projectRecord digits now state = .ok g)
    (source target : String) :
    ∃ result, g.weightedShortestPath source target = some result ∧
      g.LeastPath source target result :=
  (projectRecord_indexed h).2.2.weightedShortestPath source target

/-- Two objects with an edge of two relations between them, and a longer way. -/
theorem weightedShortestPath_leastPath_threeObjects :
    ∃ g, projectRecord .asciiOnly "" threeObjects = .ok g ∧
      ∃ result, g.weightedShortestPath "k1" "k2" = some result ∧
        g.LeastPath "k1" "k2" result := by
  obtain ⟨g, hg⟩ : ∃ g, projectRecord .asciiOnly "" threeObjects = .ok g := ⟨_, rfl⟩
  exact ⟨g, hg, weightedShortestPath_leastPath .asciiOnly "" threeObjects hg "k1" "k2"⟩

end GraphProjection

end RationaleVault
