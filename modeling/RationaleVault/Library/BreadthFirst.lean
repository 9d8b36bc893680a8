import Mathlib.Data.List.Basic
import Mathlib.Logic.Relation
import RationaleVault.Library.Distances
import RationaleVault.Library.Forest

/-!
# Breadth-first search

A search takes nodes from a queue and enters their neighbors at its end. It visits what can be
reached from its start among the allowed nodes. Searches from all nodes, one after the other,
divide an undirected graph into its connected components. A search that stores depths and stops at
a bound visits what walks within the bound lead to.
-/

universe u

namespace BreadthFirst

variable {κ : Type u} [DecidableEq κ] (next : κ → List κ) (allowed : List κ)

/-- The loop over the queue: the visited nodes, and those of this search in their order. -/
def explore (queue visited component : List κ) : List κ × List κ :=
  match queue with
  | [] => (visited, component)
  | v :: queue =>
      if _h : v ∈ visited ∨ v ∉ allowed then explore queue visited component
      else
        explore (queue ++ (next v).filter fun w => w ∉ v :: visited ∧ w ∈ allowed) (v :: visited)
          (component ++ [v])
  termination_by (DepthFirst.unmet allowed visited, queue.length)
  decreasing_by
    · exact Prod.Lex.right _ (Nat.lt_succ_self _)
    · rw [not_or, not_not] at _h
      exact Prod.Lex.left _ _ (DepthFirst.unmet_cons_lt _h.2 _h.1)

omit [DecidableEq κ] in
/-- A step from a node to an allowed neighbor. -/
def Adjacent (v w : κ) : Prop := w ∈ next v ∧ w ∈ allowed

/-- A search between two steps. -/
structure Exploring (root : κ) (before queue visited component : List κ) : Prop where
  visited_iff : ∀ x, x ∈ visited ↔ x ∈ component ∨ x ∈ before
  nodup : component.Nodup
  fresh : ∀ x ∈ component, x ∉ before ∧ x ∈ allowed
  reached : ∀ x ∈ component ++ queue, Relation.ReflTransGen (Adjacent next allowed) root x
  started : root ∈ allowed → root ∈ visited ∨ root ∈ queue
  pending : ∀ v ∈ component, ∀ w, Adjacent next allowed v w → w ∈ visited ∨ w ∈ queue

variable {next allowed} {root v : κ} {before queue visited component : List κ}

omit [DecidableEq κ] in
theorem Exploring.start (root : κ) (before : List κ) :
    Exploring next allowed root before [root] before [] where
  visited_iff := by simp
  nodup := List.nodup_nil
  fresh := by simp
  reached := by
    intro x hx
    obtain rfl := List.mem_singleton.mp hx
    exact .refl
  started _ := .inr List.mem_cons_self
  pending := by simp

omit [DecidableEq κ] in
/-- A node that was visited or is not allowed is passed over. -/
theorem Exploring.skip (h : Exploring next allowed root before (v :: queue) visited component)
    (hv : v ∈ visited ∨ v ∉ allowed) :
    Exploring next allowed root before queue visited component where
  visited_iff := h.visited_iff
  nodup := h.nodup
  fresh := h.fresh
  reached := by
    intro x hx
    apply h.reached
    rcases List.mem_append.mp hx with hx | hx
    · exact List.mem_append_left _ hx
    · exact List.mem_append_right _ (List.mem_cons_of_mem _ hx)
  started := by
    intro hroot
    rcases h.started hroot with hvisited | hqueue
    · exact .inl hvisited
    · rcases List.mem_cons.mp hqueue with rfl | hqueue
      · exact .inl (hv.resolve_right (not_not.mpr hroot))
      · exact .inr hqueue
  pending := by
    intro u hu w hw
    rcases h.pending u hu w hw with hvisited | hqueue
    · exact .inl hvisited
    · rcases List.mem_cons.mp hqueue with rfl | hqueue
      · exact .inl (hv.resolve_right (not_not.mpr hw.2))
      · exact .inr hqueue

/-- A new node is visited and its neighbors are queued. -/
theorem Exploring.visit (h : Exploring next allowed root before (v :: queue) visited component)
    (hv : v ∉ visited) (hallowed : v ∈ allowed) :
    Exploring next allowed root before
      (queue ++ (next v).filter fun w => w ∉ v :: visited ∧ w ∈ allowed) (v :: visited)
      (component ++ [v]) := by
  have hreached := h.reached v (by simp)
  have hfresh : v ∉ component ∧ v ∉ before := not_or.mp fun hmem => hv ((h.visited_iff v).mpr hmem)
  constructor
  · intro x
    rw [List.mem_cons, h.visited_iff, List.mem_append, List.mem_singleton]
    tauto
  · rw [List.nodup_append]
    refine ⟨h.nodup, by simp, fun x hx y hy heq => ?_⟩
    obtain rfl := List.mem_singleton.mp hy
    exact hfresh.1 (heq ▸ hx)
  · intro x hx
    rcases List.mem_append.mp hx with hx | hx
    · exact h.fresh x hx
    · obtain rfl := List.mem_singleton.mp hx
      exact ⟨hfresh.2, hallowed⟩
  · intro x hx
    simp only [List.mem_append, List.mem_filter, List.mem_singleton, decide_eq_true_eq] at hx
    rcases hx with (hx | rfl) | hx | ⟨hnext, _, hxallowed⟩
    · exact h.reached x (List.mem_append_left _ hx)
    · exact hreached
    · exact h.reached x (List.mem_append_right _ (List.mem_cons_of_mem _ hx))
    · exact hreached.tail ⟨hnext, hxallowed⟩
  · intro hroot
    rcases h.started hroot with hvisited | hqueue
    · exact .inl (List.mem_cons_of_mem _ hvisited)
    · rcases List.mem_cons.mp hqueue with rfl | hqueue
      · exact .inl List.mem_cons_self
      · exact .inr (List.mem_append_left _ hqueue)
  · intro u hu w hw
    rw [List.mem_append, List.mem_singleton] at hu
    rcases hu with hu | rfl
    · rcases h.pending u hu w hw with hvisited | hqueue
      · exact .inl (List.mem_cons_of_mem _ hvisited)
      · rcases List.mem_cons.mp hqueue with rfl | hqueue
        · exact .inl List.mem_cons_self
        · exact .inr (List.mem_append_left _ hqueue)
    · by_cases hmem : w ∈ u :: visited
      · exact .inl hmem
      · refine .inr (List.mem_append_right _ (List.mem_filter.mpr ⟨hw.1, ?_⟩))
        simpa using And.intro (by simpa using hmem) hw.2

/-- The search ends with an empty queue. -/
theorem Exploring.explore (h : Exploring next allowed root before queue visited component) :
    Exploring next allowed root before [] (explore next allowed queue visited component).1
      (explore next allowed queue visited component).2 := by
  induction queue, visited, component using explore.induct next allowed with
  | case1 visited component =>
      rw [BreadthFirst.explore]
      exact h
  | case2 visited component v queue hv ih =>
      rw [BreadthFirst.explore, dif_pos hv]
      exact ih (h.skip hv)
  | case3 visited component v queue hv ih =>
      rw [BreadthFirst.explore, dif_neg hv]
      rw [not_or, not_not] at hv
      exact ih (h.visit hv.1 hv.2)

/-! ## Undirected graphs -/

/-- One search, if the node was not visited before. -/
def search (next : κ → List κ) (allowed : List κ) (found : List κ × List (List κ)) (root : κ) :
    List κ × List (List κ) :=
  if root ∈ found.1 then found
  else
    let s := explore next allowed [root] found.1 []
    (s.1, found.2 ++ [s.2])

/-- Searches from some nodes: the components in the order in which they are found. -/
def components (next : κ → List κ) (allowed roots : List κ) : List (List κ) :=
  (roots.foldl (search next allowed) ([], [])).2

/-- Searches that rewrite every component before they store it find what searches without that
find. -/
theorem foldl_search_map {μ : Type*} (f : List κ → μ) (next : κ → List κ)
    (allowed roots : List κ) :
    (roots.foldl (fun (found : List κ × List μ) root =>
      if root ∈ found.1 then found
      else
        let s := explore next allowed [root] found.1 []
        (s.1, found.2 ++ [f s.2])) ([], [])).2 = (components next allowed roots).map f := by
  have hfold : ∀ (l : List κ) (found : List κ × List (List κ)),
      l.foldl (fun (found : List κ × List μ) root =>
          if root ∈ found.1 then found
          else
            let s := explore next allowed [root] found.1 []
            (s.1, found.2 ++ [f s.2])) (found.1, found.2.map f) =
        ((l.foldl (search next allowed) found).1,
          (l.foldl (search next allowed) found).2.map f) := by
    intro l
    induction l with
    | nil => exact fun _ => rfl
    | cons root rest ih =>
        intro found
        rw [List.foldl_cons, List.foldl_cons, ← ih]
        congr 1
        unfold search
        split_ifs with hvisited
        · rfl
        · simp
  exact congrArg Prod.snd (hfold roots ([], []))

omit [DecidableEq κ] in
/-- Components that were found: they are apart, and each holds what its nodes reach. -/
structure Divided (next : κ → List κ) (allowed : List κ) (found : List κ × List (List κ)) :
    Prop where
  visited_iff : ∀ x, x ∈ found.1 ↔ x ∈ found.2.flatten
  nodup : found.2.flatten.Nodup
  within : ∀ x ∈ found.2.flatten, x ∈ allowed
  ne_nil : ∀ c ∈ found.2, c ≠ []
  component : ∀ c ∈ found.2, ∀ v ∈ c, ∀ w,
    w ∈ c ↔ Relation.ReflTransGen (Adjacent next allowed) v w

section Components

variable (hsymm : ∀ v ∈ allowed, ∀ w, Adjacent next allowed v w → Adjacent next allowed w v)
include hsymm

omit [DecidableEq κ] in
theorem reach_symm {v w : κ} (hv : v ∈ allowed)
    (h : Relation.ReflTransGen (Adjacent next allowed) v w) :
    w ∈ allowed ∧ Relation.ReflTransGen (Adjacent next allowed) w v := by
  induction h with
  | refl => exact ⟨hv, .refl⟩
  | tail _ hstep ih => exact ⟨hstep.2, .head (hsymm _ ih.1 _ hstep) ih.2⟩

/-- A search that starts outside of a closed set of visited nodes finds what its start reaches. -/
theorem mem_explore_iff (hroot : root ∈ allowed) (hbefore : root ∉ before)
    (hclosed : ∀ v ∈ before, v ∈ allowed ∧ ∀ w, Adjacent next allowed v w → w ∈ before) {x : κ} :
    x ∈ (explore next allowed [root] before []).2 ↔
      Relation.ReflTransGen (Adjacent next allowed) root x := by
  have h := (Exploring.start root before : Exploring next allowed root before _ _ _).explore
  have hapart : ∀ x, Relation.ReflTransGen (Adjacent next allowed) root x → x ∉ before := by
    intro x hx hmem
    have hback := (reach_symm hsymm hroot hx).2
    have hall : ∀ y, Relation.ReflTransGen (Adjacent next allowed) x y → y ∈ before := by
      intro y hy
      induction hy with
      | refl => exact hmem
      | tail _ hstep ih => exact (hclosed _ ih).2 _ hstep
    exact hbefore (hall root hback)
  have hmem : root ∈ (explore next allowed [root] before []).2 := by
    rcases h.started hroot with hvisited | hqueue
    · exact ((h.visited_iff root).mp hvisited).resolve_right hbefore
    · cases hqueue
  constructor
  · exact fun hx => h.reached x (List.mem_append_left _ hx)
  · intro hx
    induction hx with
    | refl => exact hmem
    | tail hpath hstep ih =>
        rcases h.pending _ ih _ hstep with hvisited | hqueue
        · exact ((h.visited_iff _).mp hvisited).resolve_right (hapart _ (hpath.tail hstep))
        · cases hqueue

theorem Divided.search {found : List κ × List (List κ)} (h : Divided next allowed found)
    (hroot : root ∈ allowed) :
    Divided next allowed (search next allowed found root) ∧
      root ∈ (search next allowed found root).1 ∧
      ∀ x ∈ found.1, x ∈ (search next allowed found root).1 := by
  unfold BreadthFirst.search
  split_ifs with hvisited
  · exact ⟨h, hvisited, fun x hx => hx⟩
  · have hclosed : ∀ v ∈ found.1, v ∈ allowed ∧ ∀ w, Adjacent next allowed v w → w ∈ found.1 := by
      intro v hv
      have hflat := (h.visited_iff v).mp hv
      obtain ⟨c, hc, hvc⟩ := List.mem_flatten.mp hflat
      refine ⟨h.within v hflat, fun w hw => (h.visited_iff w).mpr ?_⟩
      exact List.mem_flatten.mpr ⟨c, hc, (h.component c hc v hvc w).mpr (.single hw)⟩
    have hmem : ∀ x, x ∈ (explore next allowed [root] found.1 []).2 ↔
        Relation.ReflTransGen (Adjacent next allowed) root x :=
      fun x => mem_explore_iff hsymm hroot hvisited hclosed
    have hexplored :
        Exploring next allowed root found.1 [] (explore next allowed [root] found.1 []).1
          (explore next allowed [root] found.1 []).2 :=
      (Exploring.start root found.1).explore
    have hrootmem := (hmem root).mpr .refl
    refine ⟨⟨?_, ?_, ?_, ?_, ?_⟩, (hexplored.visited_iff root).mpr (.inl hrootmem),
      fun x hx => (hexplored.visited_iff x).mpr (.inr hx)⟩
    · intro x
      simp only [List.flatten_append, List.flatten_singleton, List.mem_append]
      rw [hexplored.visited_iff, h.visited_iff, or_comm]
    · simp only [List.flatten_append, List.flatten_singleton]
      rw [List.nodup_append]
      refine ⟨h.nodup, hexplored.nodup, fun x hx y hy heq => ?_⟩
      exact (hexplored.fresh y hy).1 ((h.visited_iff y).mpr (heq ▸ hx))
    · simp only [List.flatten_append, List.flatten_singleton]
      intro x hx
      rcases List.mem_append.mp hx with hx | hx
      · exact h.within x hx
      · exact (hexplored.fresh x hx).2
    · intro c hc
      rcases List.mem_append.mp hc with hc | hc
      · exact h.ne_nil c hc
      · obtain rfl := List.mem_singleton.mp hc
        exact List.ne_nil_of_mem hrootmem
    · intro c hc v hv w
      rcases List.mem_append.mp hc with hc | hc
      · exact h.component c hc v hv w
      · obtain rfl := List.mem_singleton.mp hc
        have hpath := (hmem v).mp hv
        rw [hmem]
        constructor
        · exact fun hw => (reach_symm hsymm hroot hpath).2.trans hw
        · exact fun hw => hpath.trans hw

theorem Divided.foldl_search {roots : List κ} (hroots : ∀ r ∈ roots, r ∈ allowed)
    {found : List κ × List (List κ)} (h : Divided next allowed found) :
    Divided next allowed (roots.foldl (BreadthFirst.search next allowed) found) ∧
      ∀ x, x ∈ roots ∨ x ∈ found.1 →
        x ∈ (roots.foldl (BreadthFirst.search next allowed) found).1 := by
  induction roots generalizing found with
  | nil => exact ⟨h, fun x hx => hx.resolve_left List.not_mem_nil⟩
  | cons r rest ih =>
      obtain ⟨hnext, hr, hkeep⟩ := h.search hsymm (hroots r List.mem_cons_self)
      obtain ⟨hdone, hall⟩ := ih (fun x hx => hroots x (List.mem_cons_of_mem _ hx)) hnext
      refine ⟨hdone, fun x hx => hall x ?_⟩
      rcases hx with hx | hx
      · rcases List.mem_cons.mp hx with rfl | hx
        · exact .inr hr
        · exact .inl hx
      · exact .inr (hkeep x hx)

/-- Searches from all nodes divide them into the connected components. -/
theorem components_spec (hnodup : allowed.Nodup) {roots : List κ}
    (hroots : ∀ x, x ∈ roots ↔ x ∈ allowed) :
    (components next allowed roots).flatten.Perm allowed ∧
      (∀ c ∈ components next allowed roots, c ≠ []) ∧
      ∀ c ∈ components next allowed roots, ∀ v ∈ c, ∀ w,
        w ∈ c ↔ Relation.ReflTransGen (Adjacent next allowed) v w := by
  have hempty : Divided next allowed ([], []) :=
    ⟨by simp, by simp, by simp, by simp, by simp⟩
  obtain ⟨h, hall⟩ := hempty.foldl_search hsymm fun r hr => (hroots r).mp hr
  refine ⟨(List.perm_ext_iff_of_nodup h.nodup hnodup).mpr fun x => ?_, h.ne_nil, h.component⟩
  constructor
  · exact h.within x
  · exact fun hx => (h.visited_iff x).mp (hall x (.inl ((hroots x).mpr hx)))

end Components

/-- Where all nodes reach each other, the first search finds all of them. -/
theorem components_of_connected (hnodup : allowed.Nodup) {roots : List κ}
    (hroots : ∀ x, x ∈ roots ↔ x ∈ allowed) (hne : allowed ≠ [])
    (hreach : ∀ v ∈ allowed, ∀ w ∈ allowed, Relation.ReflTransGen (Adjacent next allowed) v w) :
    ∃ c, components next allowed roots = [c] ∧ c.Perm allowed := by
  obtain ⟨root, rest, rfl⟩ : ∃ root rest, roots = root :: rest := by
    obtain ⟨x, hx⟩ := List.exists_mem_of_ne_nil allowed hne
    exact List.exists_cons_of_ne_nil (List.ne_nil_of_mem ((hroots x).mpr hx))
  have hroot : root ∈ allowed := (hroots root).mp List.mem_cons_self
  have h : Exploring next allowed root [] [] (explore next allowed [root] [] []).1
      (explore next allowed [root] [] []).2 := (Exploring.start root []).explore
  have hvisited : ∀ x ∈ allowed, x ∈ (explore next allowed [root] [] []).1 := by
    intro x hx
    induction hreach root hroot x hx with
    | refl => exact (h.started hroot).resolve_right List.not_mem_nil
    | tail hpath hstep ih =>
        have hmem := ih (by
          rcases Relation.ReflTransGen.cases_tail hpath with rfl | ⟨_, _, hlast⟩
          · exact hroot
          · exact hlast.2)
        have hcomponent := ((h.visited_iff _).mp hmem).resolve_right List.not_mem_nil
        exact (h.pending _ hcomponent _ hstep).resolve_right List.not_mem_nil
  have hskip : ∀ (l : List κ) (found : List κ × List (List κ)), (∀ x ∈ l, x ∈ found.1) →
      l.foldl (search next allowed) found = found := by
    intro l found hl
    induction l with
    | nil => rfl
    | cons x l ih =>
        rw [List.foldl_cons, search, if_pos (hl x List.mem_cons_self)]
        exact ih fun y hy => hl y (List.mem_cons_of_mem _ hy)
  refine ⟨(explore next allowed [root] [] []).2, ?_, ?_⟩
  · have hfirst : search next allowed ([], []) root =
        ((explore next allowed [root] [] []).1, [(explore next allowed [root] [] []).2]) := by
      rw [search, if_neg List.not_mem_nil]
      rfl
    rw [components, List.foldl_cons, hfirst, hskip]
    exact fun x hx => hvisited x ((hroots x).mp (List.mem_cons_of_mem _ hx))
  · apply (List.perm_ext_iff_of_nodup h.nodup hnodup).mpr
    intro x
    constructor
    · exact fun hx => (h.fresh x hx).2
    · exact fun hx => ((h.visited_iff x).mp (hvisited x hx)).resolve_right List.not_mem_nil

/-! ## Searches up to a distance -/

omit [DecidableEq κ] in
/-- A search with a bound between two steps: the queue and the visited nodes hold the depths at
which nodes are met. -/
structure Bounded (hop : κ → κ → Prop) (root : κ) (bound : Nat) (queue done : List (κ × Nat)) :
    Prop where
  started : (root, 0) ∈ done ∨ (root, 0) ∈ queue
  within : ∀ e ∈ done, e.2 ≤ bound
  walk : ∀ e ∈ done ++ queue, Walks.Walk hop e.2 root e.1
  nodup : (done.map Prod.fst).Nodup
  sorted : queue.Pairwise fun e e' => e.2 ≤ e'.2
  close : ∀ e ∈ queue, ∀ e' ∈ queue, e.2 ≤ e'.2 + 1
  earlier : ∀ e ∈ done, ∀ e' ∈ queue, e.2 ≤ e'.2
  pending : ∀ e ∈ done, ∀ w, hop e.1 w →
    (∃ d ≤ e.2 + 1, (w, d) ∈ done) ∨ (w, e.2 + 1) ∈ queue ∨ bound < e.2 + 1

namespace Bounded

variable {hop : κ → κ → Prop} {bound d : Nat} {rest done : List (κ × Nat)}

omit [DecidableEq κ] in
theorem start (hop : κ → κ → Prop) (root : κ) (bound : Nat) :
    Bounded hop root bound [(root, 0)] [] where
  started := .inr List.mem_cons_self
  within := by simp
  walk := by
    intro e he
    obtain rfl := List.mem_singleton.mp he
    exact .refl
  nodup := List.nodup_nil
  sorted := List.pairwise_singleton _ _
  close := by
    intro e he e' he'
    rw [List.mem_singleton.mp he, List.mem_singleton.mp he']
    exact Nat.le_succ _
  earlier := by simp
  pending := by simp

omit [DecidableEq κ] in
/-- A node that was visited, or lies behind the bound, is passed over. -/
theorem skip (h : Bounded hop root bound ((v, d) :: rest) done)
    (hv : v ∈ done.map Prod.fst ∨ bound < d) : Bounded hop root bound rest done := by
  have hvisited : v ∈ done.map Prod.fst → ∃ d' ≤ d, (v, d') ∈ done := by
    intro hmem
    obtain ⟨⟨_, d'⟩, hdone, rfl⟩ := List.mem_map.mp hmem
    exact ⟨d', h.earlier _ hdone _ List.mem_cons_self, hdone⟩
  constructor
  · rcases h.started with hdone | hqueue
    · exact .inl hdone
    · rcases List.mem_cons.mp hqueue with heq | hqueue
      · obtain ⟨rfl, rfl⟩ := Prod.mk.inj heq
        obtain ⟨d', hd', hdone⟩ := hvisited (hv.resolve_right (Nat.not_lt_zero _))
        obtain rfl : d' = 0 := Nat.le_zero.mp hd'
        exact .inl hdone
      · exact .inr hqueue
  · exact h.within
  · intro e he
    apply h.walk
    rcases List.mem_append.mp he with he | he
    · exact List.mem_append_left _ he
    · exact List.mem_append_right _ (List.mem_cons_of_mem _ he)
  · exact h.nodup
  · exact (List.pairwise_cons.mp h.sorted).2
  · exact fun e he e' he' => h.close e (List.mem_cons_of_mem _ he) e' (List.mem_cons_of_mem _ he')
  · exact fun e he e' he' => h.earlier e he e' (List.mem_cons_of_mem _ he')
  · intro e he w hw
    rcases h.pending e he w hw with hdone | hqueue | hbound
    · exact .inl hdone
    · rcases List.mem_cons.mp hqueue with heq | hqueue
      · obtain ⟨rfl, rfl⟩ := Prod.mk.inj heq
        exact hv.elim (fun hmem => .inl (hvisited hmem)) fun hbound => .inr (.inr hbound)
      · exact .inr (.inl hqueue)
    · exact .inr (.inr hbound)

omit [DecidableEq κ] in
/-- A new node within the bound is visited, and what it leads to is queued. -/
theorem visit {new : List κ} (h : Bounded hop root bound ((v, d) :: rest) done)
    (hv : v ∉ done.map Prod.fst) (hd : d ≤ bound) (hnew : ∀ w ∈ new, hop v w)
    (hall : ∀ w, hop v w → w ∈ new ∨ w = v ∨ w ∈ done.map Prod.fst) :
    Bounded hop root bound (rest ++ new.map fun w => (w, d + 1)) (done ++ [(v, d)]) := by
  have hhead : ∀ e ∈ rest, d ≤ e.2 := (List.pairwise_cons.mp h.sorted).1
  have htail : ∀ e ∈ rest, e.2 ≤ d + 1 := fun e he =>
    h.close e (List.mem_cons_of_mem _ he) _ List.mem_cons_self
  have hqueued : ∀ e ∈ rest ++ new.map (fun w => (w, d + 1)),
      e ∈ rest ∨ e.2 = d + 1 ∧ hop v e.1 := by
    intro e he
    rcases List.mem_append.mp he with he | he
    · exact .inl he
    · obtain ⟨w, hw, rfl⟩ := List.mem_map.mp he
      exact .inr ⟨rfl, hnew w hw⟩
  have hvisited : ∀ e ∈ done ++ [(v, d)], e ∈ done ∨ e = (v, d) := by
    intro e he
    rcases List.mem_append.mp he with he | he
    · exact .inl he
    · exact .inr (List.mem_singleton.mp he)
  have hwalk : Walks.Walk hop d root v :=
    h.walk (v, d) (List.mem_append_right _ List.mem_cons_self)
  constructor
  · rcases h.started with hdone | hqueue
    · exact .inl (List.mem_append_left _ hdone)
    · rcases List.mem_cons.mp hqueue with heq | hqueue
      · exact .inl (List.mem_append_right _ (List.mem_singleton.mpr heq))
      · exact .inr (List.mem_append_left _ hqueue)
  · intro e he
    rcases hvisited e he with he | rfl
    · exact h.within e he
    · exact hd
  · intro e he
    rcases List.mem_append.mp he with he | he
    · rcases hvisited e he with he | rfl
      · exact h.walk e (List.mem_append_left _ he)
      · exact hwalk
    · rcases hqueued e he with he | ⟨hdepth, hedge⟩
      · exact h.walk e (List.mem_append_right _ (List.mem_cons_of_mem _ he))
      · rw [hdepth]
        exact hwalk.tail hedge
  · rw [List.map_append, List.nodup_append]
    refine ⟨h.nodup, by simp, fun x hx y hy heq => hv ?_⟩
    obtain rfl : y = v := by simpa using hy
    exact heq ▸ hx
  · rw [List.pairwise_append]
    refine ⟨(List.pairwise_cons.mp h.sorted).2, ?_, ?_⟩
    · rw [List.pairwise_map]
      exact List.pairwise_of_forall fun _ _ => Nat.le_refl _
    · intro e he e' he'
      obtain ⟨w, _, rfl⟩ := List.mem_map.mp he'
      exact htail e he
  · intro e he e' he'
    have hupper : e.2 ≤ d + 1 := (hqueued e he).elim (htail e) fun hnew => hnew.1.le
    have hlower : d ≤ e'.2 := (hqueued e' he').elim (hhead e') fun hnew => by omega
    omega
  · intro e he e' he'
    have hlower : d ≤ e'.2 := (hqueued e' he').elim (hhead e') fun hnew => by omega
    rcases hvisited e he with he | rfl
    · exact (h.earlier e he (v, d) List.mem_cons_self).trans hlower
    · exact hlower
  · intro e he w hw
    rcases hvisited e he with he | rfl
    · rcases h.pending e he w hw with ⟨d', hd', hdone⟩ | hqueue | hbound
      · exact .inl ⟨d', hd', List.mem_append_left _ hdone⟩
      · rcases List.mem_cons.mp hqueue with heq | hqueue
        · obtain ⟨rfl, hdepth⟩ := Prod.mk.inj heq
          exact .inl ⟨d, hdepth.ge, List.mem_append_right _ (by simp)⟩
        · exact .inr (.inl (List.mem_append_left _ hqueue))
      · exact .inr (.inr hbound)
    · rcases hall w hw with hmem | rfl | hmem
      · exact .inr (.inl (List.mem_append_right _ (List.mem_map_of_mem hmem)))
      · exact .inl ⟨d, Nat.le_succ d, List.mem_append_right _ (by simp)⟩
      · obtain ⟨⟨_, d'⟩, hdone, rfl⟩ := List.mem_map.mp hmem
        have hle : d' ≤ d := h.earlier _ hdone (v, d) List.mem_cons_self
        exact .inl ⟨d', by omega, List.mem_append_left _ hdone⟩

omit [DecidableEq κ] in
/-- With an empty queue the visited nodes are those within the bound. -/
theorem mem_iff (h : Bounded hop root bound [] done) {w : κ} :
    w ∈ done.map Prod.fst ↔ ∃ n ≤ bound, Walks.Walk hop n root w := by
  constructor
  · intro hw
    obtain ⟨e, he, rfl⟩ := List.mem_map.mp hw
    exact ⟨e.2, h.within e he, h.walk e (List.mem_append_left _ he)⟩
  · rintro ⟨n, hn, hwalk⟩
    have hdone : ∀ {n x}, Walks.Walk hop n root x → n ≤ bound → ∃ d ≤ n, (x, d) ∈ done := by
      intro n x hwalk
      generalize hroot : root = r at hwalk
      induction hwalk with
      | refl =>
          subst hroot
          exact fun _ => ⟨0, le_rfl, h.started.resolve_right List.not_mem_nil⟩
      | @tail n u x w _ hedge ih =>
          intro hle
          obtain ⟨d, hd, hmem⟩ := ih hroot (by omega)
          rcases h.pending _ hmem w hedge with ⟨d', hd', hmem'⟩ | hqueue | hbound
          · have hle' : d' ≤ d + 1 := hd'
            exact ⟨d', by omega, hmem'⟩
          · cases hqueue
          · have hlt : bound < d + 1 := hbound
            omega
    obtain ⟨d, _, hmem⟩ := hdone hwalk hn
    exact List.mem_map_of_mem hmem

end Bounded

end BreadthFirst
