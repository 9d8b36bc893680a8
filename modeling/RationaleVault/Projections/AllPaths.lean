import Mathlib.Data.Finset.Basic
import Mathlib.Data.List.Chain
import RationaleVault.Library.SimplePaths
import RationaleVault.Projections.GraphRecord

/-!
# All paths

The search between two nodes goes along the listed edges and keeps the nodes of its path apart. It
takes parallel edges for different steps, so a path along them is listed once for each choice.
-/

namespace RationaleVault

open SimplePaths

/-- `MAX_PATHS`. -/
def maxPaths : Nat := 100

namespace GraphRecord

variable (g : GraphRecord)

/-- The targets of the edges that are listed for a node. -/
def children (v : String) : List String := ((g.adjacency.get? v).getD []).map GraphEdge.target

/-- The loop of `all_paths`: the frames hold a node and its children that are left. -/
def pathsLoop (target : String) (maxDepth : Nat) (stack : List (String × List String))
    (path : List String) (visited : Finset String) (paths : List (List String)) :
    List (List String) :=
  if maxPaths ≤ paths.length then paths
  else
    match stack with
    | [] => paths
    | (curr, []) :: stack =>
        pathsLoop target maxDepth stack path.dropLast (visited.erase curr) paths
    | (curr, nxt :: rest) :: stack =>
        if nxt ∈ visited then pathsLoop target maxDepth ((curr, rest) :: stack) path visited paths
        else if nxt = target then
          pathsLoop target maxDepth ((curr, rest) :: stack) path visited (paths ++ [path ++ [nxt]])
        else if _h : path.length < maxDepth then
          pathsLoop target maxDepth ((nxt, g.children nxt) :: (curr, rest) :: stack)
            (path ++ [nxt]) (insert nxt visited) paths
        else pathsLoop target maxDepth ((curr, rest) :: stack) path visited paths
  termination_by potential g.children maxDepth path.length (stack.map Prod.snd)
  decreasing_by
    · rw [List.length_dropLast]
      exact potential_leave_lt
    · exact potential_skip_lt
    · exact potential_skip_lt
    · rw [List.length_append]
      exact potential_enter_lt _h
    · exact potential_skip_lt

/-- `all_paths(source, target, max_depth)`. -/
def allPaths (source target : String) (maxDepth : Nat) : List (List String) :=
  if g.nodes.contains source = false ∨ g.nodes.contains target = false then []
  else if source = target then [[source]]
  else g.pathsLoop target maxDepth [(source, g.children source)] [source] {source} []

/-! ## What is listed -/

/-- An edge leads from one node to the other. -/
def Follows (v w : String) : Prop := ∃ e ∈ g.edges, e.source = v ∧ e.target = w

/-- A simple directed path between two nodes with at most so many edges. -/
structure SimplePath (source target : String) (maxDepth : Nat) (p : List String) : Prop where
  starts : p.head? = some source
  ends : p.getLast? = some target
  nodup : p.Nodup
  follows : p.IsChain g.Follows
  bounded : p.length ≤ maxDepth + 1

/-- Only simple paths are listed, and all of them once where the list is not cut off. -/
structure ListsPaths (source target : String) (maxDepth : Nat) : Prop where
  sound : ∀ p ∈ g.allPaths source target maxDepth, g.SimplePath source target maxDepth p
  once : (g.allPaths source target maxDepth).length < maxPaths →
    ∀ p, g.SimplePath source target maxDepth p →
      (g.allPaths source target maxDepth).count p = 1

/-- The edges out of a node. -/
def edgesFrom (v : String) : List GraphEdge := g.edges.filter fun e => e.source = v

/-- The edges of a simple path. -/
structure EdgePath (source target : String) (maxDepth : Nat) (es : List GraphEdge) : Prop where
  route : Route GraphEdge.target g.edgesFrom source es target
  nodup : (source :: es.map GraphEdge.target).Nodup
  bounded : es.length ≤ maxDepth

/-- Counted by their edges, there are as many paths as are listed at most. -/
def ManyPaths (source target : String) (maxDepth : Nat) : Prop :=
  ∃ l : List (List GraphEdge), l.Nodup ∧ l.length = maxPaths ∧
    ∀ es ∈ l, g.EdgePath source target maxDepth es

/-- No edge of a simple path has a parallel one. -/
def Unparalleled (source target : String) (maxDepth : Nat) : Prop :=
  ∀ es, g.EdgePath source target maxDepth es → ∀ e ∈ es, ∀ e' ∈ g.edges,
    e'.source = e.source → e'.target = e.target → e' = e

variable {g} {source target : String} {maxDepth : Nat}

/-! ## The loop -/

/-- The paths that are left to the frames of a search. -/
def remaining (g : GraphRecord) (target : String) (maxDepth : Nat) :
    (stack : List (String × List String)) → (path : List String) → List (List String)
  | [], _ => []
  | (_, todo) :: stack, path =>
      (routes id g.children target (maxDepth + 1 - path.length) path todo).map (path ++ ·) ++
        remaining g target maxDepth stack path.dropLast

/-- The frames of a search hold the nodes of its path, which are the nodes that it avoids. -/
structure Framed (maxDepth : Nat) (stack : List (String × List String)) (path : List String)
    (visited : Finset String) : Prop where
  frames : stack.map Prod.fst = path.reverse
  nodup : path.Nodup
  visited_eq : visited = path.toFinset
  length_le : path.length ≤ maxDepth

namespace Framed

variable {stack : List (String × List String)} {path todo rest : List String}
  {visited : Finset String} {curr nxt : String}

theorem start (source : String) (todo : List String) (hdepth : 1 ≤ maxDepth) :
    Framed maxDepth [(source, todo)] [source] {source} where
  frames := rfl
  nodup := List.nodup_singleton _
  visited_eq := rfl
  length_le := hdepth

theorem mem_iff (h : Framed maxDepth stack path visited) {v : String} :
    v ∈ visited ↔ v ∈ path := by
  rw [h.visited_eq, List.mem_toFinset]

/-- The innermost frame holds the last node of the path. -/
theorem exists_concat (h : Framed maxDepth ((curr, todo) :: stack) path visited) :
    ∃ front, path = front ++ [curr] := by
  refine ⟨(stack.map Prod.fst).reverse, ?_⟩
  have hreverse := congrArg List.reverse h.frames
  simpa using hreverse.symm

theorem skip (h : Framed maxDepth ((curr, nxt :: rest) :: stack) path visited) :
    Framed maxDepth ((curr, rest) :: stack) path visited :=
  { h with frames := h.frames }

theorem leave (h : Framed maxDepth ((curr, todo) :: stack) path visited) :
    Framed maxDepth stack path.dropLast (visited.erase curr) := by
  obtain ⟨front, rfl⟩ := h.exists_concat
  have hnodup := List.nodup_append.mp h.nodup
  have hlength := h.length_le
  rw [List.length_append] at hlength
  rw [List.dropLast_concat]
  constructor
  · simpa using h.frames
  · exact hnodup.1
  · ext x
    have hlast : ∀ y ∈ front, y ≠ curr := fun y hy =>
      hnodup.2.2 y hy curr (List.mem_singleton.mpr rfl)
    rw [Finset.mem_erase, h.mem_iff, List.mem_append, List.mem_singleton, List.mem_toFinset]
    constructor
    · rintro ⟨hne, hmem⟩
      exact hmem.resolve_right hne
    · exact fun hmem => ⟨hlast x hmem, .inl hmem⟩
  · omega

theorem enter (h : Framed maxDepth ((curr, nxt :: rest) :: stack) path visited)
    (hmem : nxt ∉ visited) (hdepth : path.length < maxDepth) :
    Framed maxDepth ((nxt, todo) :: (curr, rest) :: stack) (path ++ [nxt])
      (insert nxt visited) := by
  constructor
  · rw [List.map_cons, List.reverse_append, ← h.skip.frames]
    rfl
  · rw [List.nodup_append]
    refine ⟨h.nodup, List.nodup_singleton _, fun x hx y hy heq => hmem (h.mem_iff.mpr ?_)⟩
    obtain rfl := List.mem_singleton.mp hy
    exact heq ▸ hx
  · ext x
    simp [h.visited_eq]
  · rw [List.length_append, List.length_singleton]
    exact hdepth

end Framed

/-- The loop lists what is left to its frames, up to the cap. -/
theorem pathsLoop_eq (stack : List (String × List String)) (path : List String)
    (visited : Finset String) (paths : List (List String))
    (h : Framed maxDepth stack path visited) (hroom : paths.length ≤ maxPaths) :
    g.pathsLoop target maxDepth stack path visited paths =
      (paths ++ remaining g target maxDepth stack path).take maxPaths := by
  have hleft : ∀ {stack path visited}, Framed maxDepth stack path visited →
      ∃ n, maxDepth + 1 - path.length = n + 1 := by
    intro stack path visited h
    exact ⟨maxDepth - path.length, Nat.succ_sub h.length_le⟩
  induction stack, path, visited, paths using pathsLoop.induct g target maxDepth with
  | case1 stack path visited paths hfull =>
      have hlength : paths.length = maxPaths := le_antisymm hroom hfull
      rw [pathsLoop.eq_def, if_pos hfull, List.take_left' hlength]
  | case2 path visited paths hfull =>
      rw [pathsLoop, if_neg hfull, remaining, List.append_nil, List.take_of_length_le hroom]
  | case3 path visited paths hfull curr stack ih =>
      rw [pathsLoop, if_neg hfull, remaining, routes_nil, List.map_nil, List.nil_append]
      exact ih h.leave hroom
  | case4 path visited paths hfull curr nxt rest stack hmem ih =>
      have hpath : id nxt ∈ path := h.mem_iff.mp hmem
      rw [pathsLoop, if_neg hfull, if_pos hmem, ih h.skip hroom, remaining, remaining,
        routes_cons_of_mem hpath]
  | case5 path visited paths hfull curr rest stack hmem ih =>
      obtain ⟨n, hn⟩ := hleft h
      have hpath : id target ∉ path := fun hin => hmem (h.mem_iff.mpr hin)
      have hroom' : (paths ++ [path ++ [target]]).length ≤ maxPaths := by
        rw [List.length_append, List.length_singleton]
        omega
      rw [pathsLoop, if_neg hfull, if_neg hmem, if_pos rfl, ih h.skip hroom', remaining, remaining,
        hn, routes_cons_target hpath (show id target = target from rfl), List.map_cons,
        List.append_assoc]
      rfl
  | case6 path visited paths hfull curr nxt rest stack hmem htarget hdepth ih =>
      obtain ⟨n, hn⟩ := hleft h
      have hpath : id nxt ∉ path := fun hin => hmem (h.mem_iff.mpr hin)
      have hdeeper : maxDepth + 1 - (path ++ [nxt]).length = n := by
        rw [List.length_append, List.length_singleton]
        omega
      rw [pathsLoop, if_neg hfull, if_neg hmem, if_neg htarget, dif_pos hdepth,
        ih (h.enter hmem hdepth) hroom, remaining, remaining, remaining, hdeeper,
        List.dropLast_concat, hn, routes_cons_of_ne hpath htarget, List.map_append, List.map_map]
      simp [Function.comp_def]
  | case7 path visited paths hfull curr nxt rest stack hmem htarget hdepth ih =>
      have hlength := h.length_le
      have hlast : maxDepth + 1 - path.length = 0 + 1 := by omega
      have hpath : id nxt ∉ path := fun hin => hmem (h.mem_iff.mpr hin)
      rw [pathsLoop, if_neg hfull, if_neg hmem, if_neg htarget, dif_neg hdepth, ih h.skip hroom,
        remaining, remaining, hlast, routes_cons_of_ne hpath htarget]
      rfl

/-! ## Paths and their edges -/

theorem Indexed.children_eq (h : g.Indexed) :
    g.children = fun v => (g.edgesFrom v).map GraphEdge.target := by
  ext1 v
  rw [children, h.adjacency_eq, Grouping.getD_lists, List.map_id]
  rfl

theorem mem_edgesFrom {e : GraphEdge} {v : String} :
    e ∈ g.edgesFrom v ↔ e ∈ g.edges ∧ e.source = v := by
  rw [edgesFrom, List.mem_filter, decide_eq_true_eq]

/-- The nodes of a path along edges. -/
theorem nodes_of_route {es : List GraphEdge} {v w : String}
    (h : Route GraphEdge.target g.edgesFrom v es w) :
    (v :: es.map GraphEdge.target).IsChain g.Follows ∧
      (v :: es.map GraphEdge.target).getLast? = some w := by
  induction h with
  | refl => exact ⟨.singleton _, rfl⟩
  | @head v w e es he _ ih =>
      obtain ⟨hmem, hsource⟩ := mem_edgesFrom.mp he
      rw [List.map_cons]
      exact ⟨.cons_cons ⟨e, hmem, hsource, rfl⟩ ih.1, by rw [List.getLast?_cons_cons, ih.2]⟩

theorem exists_route {w : String} : ∀ {rest : List String} {v : String},
    (v :: rest).IsChain g.Follows → (v :: rest).getLast? = some w →
      ∃ es, Route GraphEdge.target g.edgesFrom v es w ∧ es.map GraphEdge.target = rest := by
  intro rest
  induction rest with
  | nil =>
      intro v _ hlast
      obtain rfl := Option.some.inj hlast
      exact ⟨[], .refl, rfl⟩
  | cons x rest ih =>
      intro v hchain hlast
      rw [List.isChain_cons_cons] at hchain
      rw [List.getLast?_cons_cons] at hlast
      obtain ⟨e, he, hsource, rfl⟩ := hchain.1
      obtain ⟨es, hroute, rfl⟩ := ih hchain.2 hlast
      exact ⟨e :: es, .head (mem_edgesFrom.mpr ⟨he, hsource⟩) hroute, rfl⟩

/-- A simple path is the list of nodes of the edges of one. -/
theorem simplePath_iff {p : List String} :
    g.SimplePath source target maxDepth p ↔
      ∃ es, g.EdgePath source target maxDepth es ∧ source :: es.map GraphEdge.target = p := by
  constructor
  · rintro ⟨hstarts, hends, hnodup, hfollows, hbounded⟩
    obtain ⟨rest, rfl⟩ : ∃ rest, p = source :: rest := List.head?_eq_some_iff.mp hstarts
    obtain ⟨es, hroute, rfl⟩ := exists_route hfollows hends
    refine ⟨es, ⟨hroute, hnodup, ?_⟩, rfl⟩
    rw [List.length_cons, List.length_map] at hbounded
    exact Nat.le_of_succ_le_succ hbounded
  · rintro ⟨es, ⟨hroute, hnodup, hbounded⟩, rfl⟩
    obtain ⟨hfollows, hends⟩ := nodes_of_route hroute
    refine ⟨rfl, hends, hnodup, hfollows, ?_⟩
    rw [List.length_cons, List.length_map]
    exact Nat.succ_le_succ hbounded

/-- The paths that the search enumerates, by their edges. -/
def edgePaths (g : GraphRecord) (source target : String) (maxDepth : Nat) :
    List (List GraphEdge) :=
  routes GraphEdge.target g.edgesFrom target maxDepth [source] (g.edgesFrom source)

theorem mem_edgePaths (hne : source ≠ target) {es : List GraphEdge} :
    es ∈ g.edgePaths source target maxDepth ↔ g.EdgePath source target maxDepth es := by
  rw [edgePaths, mem_routes]
  constructor
  · rintro ⟨_, hroute, hnodup, havoids, hlength⟩
    refine ⟨hroute, List.nodup_cons.mpr ⟨fun hmem => ?_, hnodup⟩, hlength⟩
    exact havoids source hmem (List.mem_singleton.mpr rfl)
  · rintro ⟨hroute, hnodup, hbounded⟩
    rw [List.nodup_cons] at hnodup
    refine ⟨?_, hroute, hnodup.2, fun x hx hmem => ?_, hbounded⟩
    · rintro rfl
      cases hroute
      exact hne rfl
    · rw [List.mem_singleton.mp hmem] at hx
      exact hnodup.1 hx

theorem nodup_edgePaths (hedges : g.edges.Nodup) :
    (g.edgePaths source target maxDepth).Nodup :=
  nodup_routes (fun _ => hedges.filter _) (hedges.filter _)

/-- Between two nodes the search lists the nodes of the enumerated paths, up to the cap. -/
theorem Indexed.allPaths_eq (h : g.Indexed) (hne : source ≠ target) (hdepth : 1 ≤ maxDepth) :
    g.allPaths source target maxDepth =
      ((g.edgePaths source target maxDepth).map fun es =>
        source :: es.map GraphEdge.target).take maxPaths := by
  by_cases hmissing : g.nodes.contains source = false ∨ g.nodes.contains target = false
  · -- no edge leaves or enters what is not a node
    have hnone : g.edgePaths source target maxDepth = [] := by
      rw [List.eq_nil_iff_forall_not_mem]
      intro es hes
      obtain ⟨hroute, _, _⟩ := (mem_edgePaths hne).mp hes
      have hends : ∀ v w es, Route GraphEdge.target g.edgesFrom v es w → v ≠ w →
          v ∈ g.nodes.keys ∧ w ∈ g.nodes.keys := by
        intro v w es hroute
        induction hroute with
        | refl => exact fun hne => absurd rfl hne
        | @head v w e es he hrest ih =>
            intro _
            obtain ⟨hmem, rfl⟩ := mem_edgesFrom.mp he
            obtain ⟨hsource, htarget⟩ := h.closed e hmem
            by_cases hlast : e.target = w
            · exact ⟨hsource, hlast ▸ htarget⟩
            · exact ⟨hsource, (ih hlast).2⟩
      obtain ⟨hsource, htarget⟩ := hends source target es hroute hne
      rw [mem_keys_iff] at hsource htarget
      rw [hsource, htarget] at hmissing
      simp at hmissing
    rw [allPaths, if_pos hmissing, hnone]
    rfl
  · have hnodes : routes id g.children target maxDepth [source] (g.children source) =
        (g.edgePaths source target maxDepth).map (List.map GraphEdge.target) := by
      rw [h.children_eq, edgePaths, map_routes]
    rw [allPaths, if_neg hmissing, if_neg hne,
      pathsLoop_eq _ _ _ _ (.start source _ hdepth) (Nat.zero_le _), remaining, remaining,
      List.append_nil, List.nil_append]
    show (List.map _ (routes id g.children target maxDepth [source] (g.children source))).take _ = _
    rw [hnodes, List.map_map]
    rfl

theorem manyPaths_iff (hedges : g.edges.Nodup) (hne : source ≠ target) :
    g.ManyPaths source target maxDepth ↔
      maxPaths ≤ (g.edgePaths source target maxDepth).length := by
  constructor
  · rintro ⟨l, hnodup, hlength, hpaths⟩
    have hsub : l ⊆ g.edgePaths source target maxDepth := fun es hes =>
      (mem_edgePaths hne).mpr (hpaths es hes)
    exact hlength ▸ (List.subperm_of_subset hnodup hsub).length_le
  · intro hmany
    refine ⟨(g.edgePaths source target maxDepth).take maxPaths, ?_, ?_, fun es hes => ?_⟩
    · exact (nodup_edgePaths hedges).sublist (List.take_sublist _ _)
    · rw [List.length_take, Nat.min_eq_left hmany]
    · exact (mem_edgePaths hne).mp (List.mem_of_mem_take hes)

/-- The enumerated paths have different nodes exactly if no edge of one has a parallel one. -/
theorem nodup_nodes_iff (hedges : g.edges.Nodup) (hne : source ≠ target) :
    ((g.edgePaths source target maxDepth).map fun es =>
        source :: es.map GraphEdge.target).Nodup ↔ g.Unparalleled source target maxDepth := by
  constructor
  · intro hnodup es hes e he e' he' hsource htarget
    obtain ⟨p, q, rfl⟩ := List.append_of_mem he
    have hparallel : g.EdgePath source target maxDepth (p ++ e' :: q) := by
      have hsame : (p ++ e' :: q).map GraphEdge.target = (p ++ e :: q).map GraphEdge.target := by
        simp [htarget]
      refine ⟨hes.route.exchange (fun u hu => ?_) htarget, ?_, ?_⟩
      · exact mem_edgesFrom.mpr ⟨he', hsource.trans (mem_edgesFrom.mp hu).2⟩
      · rw [hsame]
        exact hes.nodup
      · have hbounded := hes.bounded
        rw [List.length_append, List.length_cons] at hbounded ⊢
        exact hbounded
    have heq := List.inj_on_of_nodup_map hnodup ((mem_edgePaths hne).mpr hparallel)
      ((mem_edgePaths hne).mpr hes) (by simp [htarget])
    exact (List.cons.inj (List.append_cancel_left heq)).1
  · intro hsingle
    refine List.Nodup.map_on (fun es hes es' hes' heq => ?_) (nodup_edgePaths hedges)
    have hpath := (mem_edgePaths hne).mp hes
    refine hpath.route.eq_of_nodes ((mem_edgePaths hne).mp hes').route (List.cons.inj heq).2 ?_
    intro e he u e' hu hu' htarget
    have hsource := (mem_edgesFrom.mp hu').2.trans (mem_edgesFrom.mp hu).2.symm
    exact hsingle es hpath e he e' (mem_edgesFrom.mp hu').1 hsource htarget

/-- The paths are listed as they should be exactly if the list is cut off or no edge of a path has a
parallel one. -/
theorem Indexed.listsPaths_iff (h : g.Indexed) (hedges : g.edges.Nodup) (hne : source ≠ target)
    (hdepth : 1 ≤ maxDepth) :
    g.ListsPaths source target maxDepth ↔
      g.ManyPaths source target maxDepth ∨ g.Unparalleled source target maxDepth := by
  rw [manyPaths_iff hedges hne, ← nodup_nodes_iff hedges hne]
  have hlisted := h.allPaths_eq hne hdepth
  have hmem : ∀ p, p ∈ (g.edgePaths source target maxDepth).map
        (fun es => source :: es.map GraphEdge.target) ↔
      g.SimplePath source target maxDepth p := by
    intro p
    simp only [List.mem_map, mem_edgePaths hne, simplePath_iff]
  have hlength : (g.edgePaths source target maxDepth).length = ((g.edgePaths source target
      maxDepth).map fun es => source :: es.map GraphEdge.target).length :=
    (List.length_map _).symm
  rw [hlength]
  generalize (g.edgePaths source target maxDepth).map
    (fun es => source :: es.map GraphEdge.target) = paths at hlisted hmem ⊢
  constructor
  · rintro ⟨_, honce⟩
    by_cases hmany : maxPaths ≤ paths.length
    · exact .inl hmany
    · rw [hlisted, List.take_of_length_le (by omega)] at honce
      refine .inr (List.nodup_iff_count_eq_one.mpr fun p hp => ?_)
      exact honce (by omega) p ((hmem p).mp hp)
  · intro hcondition
    constructor
    · intro p hp
      rw [hlisted] at hp
      exact (hmem p).mp (List.mem_of_mem_take hp)
    · intro hfew p hp
      rw [hlisted, List.length_take] at hfew
      have hnodup := hcondition.resolve_left (by omega)
      rw [hlisted, List.take_of_length_le (by omega)]
      exact List.count_eq_one_of_mem hnodup ((hmem p).mpr hp)

end GraphRecord

namespace GraphProjection

open GraphRecord

/-- In every projected graph the paths are listed as they should be exactly if the list is cut off or
no edge of a path has a parallel one. -/
theorem allPaths_listsPaths_iff (digits : DigitTable) (now : String) (state : CompiledKnowledge)
    {g : GraphRecord} (h : projectRecord digits now state = .ok g) {source target : String}
    (hne : source ≠ target) {maxDepth : Nat} (hdepth : 1 ≤ maxDepth) :
    g.ListsPaths source target maxDepth ↔
      g.ManyPaths source target maxDepth ∨ g.Unparalleled source target maxDepth :=
  (projectRecord_indexed h).2.2.listsPaths_iff ((projectRecord_distinct h).of_map _) hne hdepth

/-- Two similar objects with a memory in common: one supports the other, and each is derived from the
other. -/
def sharedState : CompiledKnowledge where
  projectId := "p1"
  activeKnowledge :=
    [ReasoningEngine.rule "k1" "Storage" "use sqlite" "m1",
      ReasoningEngine.rule "k2" "Storage" "use sqlite" "m1"]
  supportGraph := .ofList [("k1", ["k2"])]
  derivationChains := .ofList [("k1", ["k2"]), ("k2", ["k1"])]

theorem allPaths_listsPaths_iff_shared :
    ∃ g, projectRecord .asciiOnly "" sharedState = .ok g ∧
      (g.ListsPaths "k1" "k2" 10 ↔ g.ManyPaths "k1" "k2" 10 ∨ g.Unparalleled "k1" "k2" 10) := by
  obtain ⟨g, hg⟩ : ∃ g, projectRecord .asciiOnly "" sharedState = .ok g := ⟨_, rfl⟩
  exact ⟨g, hg, allPaths_listsPaths_iff .asciiOnly "" sharedState hg (by decide) (by decide)⟩

/-- The one path between the two is listed twice. -/
theorem allPaths_shared :
    ∃ g, projectRecord .asciiOnly "" sharedState = .ok g ∧
      g.allPaths "k1" "k2" 10 = [["k1", "k2"], ["k1", "k2"]] ∧ ¬g.ListsPaths "k1" "k2" 10 := by
  obtain ⟨g, hg⟩ : ∃ g, projectRecord .asciiOnly "" sharedState = .ok g := ⟨_, rfl⟩
  obtain ⟨_, hedges, hindexed⟩ := projectRecord_indexed hg
  have hedges : g.edges = [⟨"k1", "k2", .supports, 4 / 5⟩, ⟨"k2", "k1", .derivedFrom, 9 / 10⟩,
      ⟨"k1", "k2", .derivedFrom, 9 / 10⟩] := by
    rw [hedges]
    decide +kernel
  have hlisted : g.allPaths "k1" "k2" 10 = [["k1", "k2"], ["k1", "k2"]] := by
    rw [hindexed.allPaths_eq (by decide) (by decide), edgePaths]
    have hfrom : g.edgesFrom "k1" =
        [⟨"k1", "k2", .supports, 4 / 5⟩, ⟨"k1", "k2", .derivedFrom, 9 / 10⟩] := by
      rw [edgesFrom, hedges]
      decide +kernel
    rw [hfrom]
    rfl
  refine ⟨g, hg, hlisted, fun hlists => ?_⟩
  have honce := hlists.once (by rw [hlisted]; decide) ["k1", "k2"]
    (hlists.sound _ (by rw [hlisted]; decide))
  rw [hlisted] at honce
  exact absurd honce (by decide)

end GraphProjection

end RationaleVault
