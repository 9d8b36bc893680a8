import Mathlib.Algebra.BigOperators.Group.List.Basic
import Mathlib.Algebra.GroupWithZero.Nat
import Mathlib.Data.List.Nodup

/-!
# Simple paths to a target

A backtracking search extends a path by one arc after the other, stops at the target, and goes back
when a node has no arcs left. Listed by their arcs the paths are distinct; parallel arcs make
different paths through the same nodes.
-/

universe u v

namespace SimplePaths

variable {κ : Type u} {α : Type v} (dst : α → κ) (out : κ → List α)

/-- A path along arcs. -/
inductive Route : κ → List α → κ → Prop
  | refl {v : κ} : Route v [] v
  | head {v w : κ} {a : α} {p : List α} (ha : a ∈ out v) (hp : Route (dst a) p w) :
      Route v (a :: p) w

variable [DecidableEq κ] (target : κ)

/-- The simple paths of at most `n` arcs to the target that start along one of some arcs and keep
out of the visited nodes. -/
def routes : (n : Nat) → (visited : List κ) → (todo : List α) → List (List α)
  | 0, _, _ => []
  | n + 1, visited, todo => todo.flatMap fun a =>
      if dst a ∈ visited then []
      else if dst a = target then [[a]]
      else (routes n (visited ++ [dst a]) (out (dst a))).map (a :: ·)

variable {dst out target} {n : Nat} {v w : κ} {a : α} {p todo : List α} {visited : List κ}

omit [DecidableEq κ] in
theorem Route.mem_of_ne_nil (h : Route dst out v p w) (hp : p ≠ []) : w ∈ p.map dst := by
  induction h with
  | refl => exact absurd rfl hp
  | @head v w a p _ hrest ih =>
      cases hrest with
      | refl => exact List.mem_singleton.mpr rfl
      | head _ _ => exact List.mem_cons_of_mem _ (ih (List.cons_ne_nil _ _))

omit [DecidableEq κ] in
/-- An arc of a path may be exchanged for a parallel one. -/
theorem Route.exchange {a' : α} {q : List α} (h : Route dst out v (p ++ a :: q) w)
    (hout : ∀ u, a ∈ out u → a' ∈ out u) (hdst : dst a' = dst a) :
    Route dst out v (p ++ a' :: q) w := by
  induction p generalizing v with
  | nil =>
      cases h with
      | head ha hrest => exact .head (hout v ha) (hdst ▸ hrest)
  | cons b p ih =>
      cases h with
      | head hb hrest => exact .head hb (ih hrest)

omit [DecidableEq κ] in
/-- Where the arcs of a path have no parallel ones, its nodes determine it. -/
theorem Route.eq_of_nodes {w' : κ} {p' : List α} (h : Route dst out v p w)
    (h' : Route dst out v p' w') (hnodes : p.map dst = p'.map dst)
    (hsingle : ∀ a ∈ p, ∀ u a', a ∈ out u → a' ∈ out u → dst a' = dst a → a' = a) : p = p' := by
  induction h generalizing p' with
  | refl => exact (List.map_eq_nil_iff.mp hnodes.symm).symm
  | @head v w a p ha _ ih =>
      cases h' with
      | refl => cases hnodes
      | @head _ _ b q hb hq =>
          rw [List.map_cons, List.map_cons, List.cons.injEq] at hnodes
          obtain rfl := hsingle a List.mem_cons_self v b ha hb hnodes.1.symm
          rw [ih hq hnodes.2 fun c hc => hsingle c (List.mem_cons_of_mem _ hc)]

@[simp] theorem routes_nil : routes dst out target n visited [] = [] := by
  cases n with
  | zero => rfl
  | succ n => rfl

/-- A visited node is passed over. -/
theorem routes_cons_of_mem (h : dst a ∈ visited) :
    routes dst out target n visited (a :: todo) = routes dst out target n visited todo := by
  cases n with
  | zero => rfl
  | succ n => rw [routes, routes, List.flatMap_cons, if_pos h, List.nil_append]

/-- An arc to the target is a path. -/
theorem routes_cons_target (h : dst a ∉ visited) (htarget : dst a = target) :
    routes dst out target (n + 1) visited (a :: todo) =
      [a] :: routes dst out target (n + 1) visited todo := by
  rw [routes, routes, List.flatMap_cons, if_neg h, if_pos htarget]
  rfl

/-- An arc to another new node is followed. -/
theorem routes_cons_of_ne (h : dst a ∉ visited) (htarget : dst a ≠ target) :
    routes dst out target (n + 1) visited (a :: todo) =
      (routes dst out target n (visited ++ [dst a]) (out (dst a))).map (a :: ·) ++
        routes dst out target (n + 1) visited todo := by
  rw [routes, routes, List.flatMap_cons, if_neg h, if_neg htarget]

theorem mem_routes : p ∈ routes dst out target n visited (out v) ↔
    p ≠ [] ∧ Route dst out v p target ∧ (p.map dst).Nodup ∧ (∀ x ∈ p.map dst, x ∉ visited) ∧
      p.length ≤ n := by
  induction n generalizing visited v p with
  | zero =>
      refine iff_of_false List.not_mem_nil ?_
      rintro ⟨hne, _, _, _, hlength⟩
      exact hne (List.eq_nil_of_length_eq_zero (Nat.le_zero.mp hlength))
  | succ n ih =>
      rw [routes, List.mem_flatMap]
      constructor
      · rintro ⟨a, ha, hmem⟩
        split_ifs at hmem with hvisited htarget
        · cases hmem
        · obtain rfl := List.mem_singleton.mp hmem
          refine ⟨List.cons_ne_nil _ _, .head ha (htarget ▸ .refl), List.nodup_singleton _, ?_, ?_⟩
          · simpa using hvisited
          · exact Nat.succ_le_succ (Nat.zero_le n)
        · obtain ⟨q, hq, rfl⟩ := List.mem_map.mp hmem
          obtain ⟨_, hroute, hnodup, havoids, hlength⟩ := ih.mp hq
          simp only [List.mem_append, List.mem_singleton, not_or] at havoids
          refine ⟨List.cons_ne_nil _ _, .head ha hroute, ?_, ?_, Nat.succ_le_succ hlength⟩
          · exact List.nodup_cons.mpr ⟨fun hmem => (havoids _ hmem).2 rfl, hnodup⟩
          · intro x hx
            rcases List.mem_cons.mp hx with rfl | hx
            · exact hvisited
            · exact (havoids x hx).1
      · rintro ⟨_, hroute, hnodup, havoids, hlength⟩
        cases hroute with
        | refl => contradiction
        | @head _ _ a q ha hrest =>
            rw [List.map_cons, List.nodup_cons] at hnodup
            refine ⟨a, ha, ?_⟩
            rw [if_neg (havoids (dst a) List.mem_cons_self)]
            by_cases htarget : dst a = target
            · have hq : q = [] := by
                by_contra hne
                exact hnodup.1 (htarget ▸ hrest.mem_of_ne_nil hne)
              rw [if_pos htarget, hq]
              exact List.mem_singleton.mpr rfl
            · have hq : q ≠ [] := by
                rintro rfl
                cases hrest
                exact htarget rfl
              rw [if_neg htarget]
              refine List.mem_map_of_mem (ih.mpr ⟨hq, hrest, hnodup.2, fun x hx => ?_, ?_⟩)
              · rw [List.mem_append, List.mem_singleton, not_or]
                refine ⟨havoids x (List.mem_cons_of_mem _ hx), ?_⟩
                rintro rfl
                exact hnodup.1 hx
              · exact Nat.le_of_succ_le_succ hlength

/-- Where no arc is listed twice, no path is. -/
theorem nodup_routes (hout : ∀ v, (out v).Nodup) (htodo : todo.Nodup) :
    (routes dst out target n visited todo).Nodup := by
  induction n generalizing visited todo with
  | zero => exact List.nodup_nil
  | succ n ih =>
      have hhead : ∀ a, ∀ p ∈ (if dst a ∈ visited then []
          else if dst a = target then [[a]]
          else (routes dst out target n (visited ++ [dst a]) (out (dst a))).map (a :: ·)),
          p.head? = some a := by
        intro a p hp
        split_ifs at hp
        · cases hp
        · rw [List.mem_singleton.mp hp]
          rfl
        · obtain ⟨q, _, rfl⟩ := List.mem_map.mp hp
          rfl
      rw [routes, List.nodup_flatMap]
      refine ⟨fun a _ => ?_, htodo.imp fun hne p hp hp' => hne ?_⟩
      · split_ifs
        · exact List.nodup_nil
        · exact List.nodup_singleton _
        · exact (ih (hout _)).map fun _ _ heq => (List.cons.inj heq).2
      · exact Option.some.inj ((hhead _ p hp).symm.trans (hhead _ p hp'))

/-- The nodes of the paths are the paths along the ends of the arcs. -/
theorem map_routes : (routes dst out target n visited todo).map (List.map dst) =
    routes id (fun v => (out v).map dst) target n visited (todo.map dst) := by
  induction n generalizing visited todo with
  | zero => rfl
  | succ n ih =>
      rw [routes, routes, List.map_flatMap, List.flatMap_map]
      congr 1
      funext a
      dsimp only [id]
      split_ifs
      · rfl
      · rfl
      · rw [← ih, List.map_map, List.map_map]
        rfl

/-! ## The steps of a search -/

variable (children : κ → List κ)

omit [DecidableEq κ] in
/-- How long a frame with some children is busy, if paths go `n` levels deeper. -/
def frameCost : (n : Nat) → (todo : List κ) → Nat
  | 0, todo => todo.length + 1
  | n + 1, todo => (todo.map fun w => frameCost n (children w) + 1).sum + 1

/-- The same for a stack of frames, for a path of `k` nodes and a bound on its length. -/
def potential (bound : Nat) : (k : Nat) → (frames : List (List κ)) → Nat
  | _, [] => 0
  | k, todo :: frames => frameCost children (bound - k) todo + potential bound (k - 1) frames

variable {children} {bound k : Nat} {rest : List κ} {frames : List (List κ)}

omit [DecidableEq κ] in
theorem frameCost_cons_lt : frameCost children n rest < frameCost children n (w :: rest) := by
  cases n with
  | zero => exact Nat.lt_succ_self _
  | succ n =>
      rw [frameCost, frameCost, List.map_cons, List.sum_cons]
      omega

omit [DecidableEq κ] in
/-- Passing over a child. -/
theorem potential_skip_lt : potential children bound k (rest :: frames) <
    potential children bound k ((w :: rest) :: frames) := by
  rw [potential, potential]
  exact Nat.add_lt_add_right frameCost_cons_lt _

omit [DecidableEq κ] in
/-- Closing a frame. -/
theorem potential_leave_lt : potential children bound (k - 1) frames <
    potential children bound k ([] :: frames) := by
  have hpos : 0 < frameCost children (bound - k) ([] : List κ) := by
    cases bound - k with
    | zero => exact Nat.one_pos
    | succ n => exact Nat.one_pos
  rw [potential]
  omega

omit [DecidableEq κ] in
/-- Opening a frame for a child. -/
theorem potential_enter_lt (hk : k < bound) :
    potential children bound (k + 1) (children w :: rest :: frames) <
      potential children bound k ((w :: rest) :: frames) := by
  obtain ⟨n, hn⟩ : ∃ n, bound - k = n + 1 := ⟨bound - k - 1, by omega⟩
  have hdeeper : bound - (k + 1) = n := by omega
  rw [potential, potential, potential, hdeeper, Nat.add_sub_cancel, hn, frameCost, frameCost,
    List.map_cons, List.sum_cons]
  omega

end SimplePaths
