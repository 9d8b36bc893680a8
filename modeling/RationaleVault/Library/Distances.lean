import Mathlib.Data.List.Nodup
import Mathlib.Data.List.Pairwise
import Mathlib.Data.Nat.Find
import Mathlib.Logic.Relation
import Mathlib.Order.Bounds.Basic
import RationaleVault.Library.Forest

/-!
# Walks and distances

A walk of some length along the edges of a graph. Where no node is listed as a successor twice and
no cycle is met, exactly one walk leads from a root to every node behind it, and a search that
allows no node twice goes through.

The distance of a node is the length of a shortest walk to it. A search that enters a node into its
queue only once, together with its depth, meets every node at its distance.
-/

universe u

namespace Walks

variable {κ : Type u} {edge : κ → κ → Prop}

/-- A walk with its number of edges. -/
inductive Walk (edge : κ → κ → Prop) : Nat → κ → κ → Prop
  | refl {v : κ} : Walk edge 0 v v
  | tail {n : Nat} {u v w : κ} (hwalk : Walk edge n u v) (hedge : edge v w) :
      Walk edge (n + 1) u w

theorem Walk.reach {n : Nat} {v w : κ} (h : Walk edge n v w) : Relation.ReflTransGen edge v w := by
  induction h with
  | refl => exact .refl
  | tail _ hedge ih => exact ih.tail hedge

theorem Walk.eq_of_zero {v w : κ} (h : Walk edge 0 v w) : v = w := by
  cases h
  rfl

/-- A path of a search, from its innermost node back to the root, is a walk. -/
theorem walk_of_isChain {root : κ} {path : List κ} :
    ∀ v, (v :: (path ++ [root])).IsChain (fun x y => edge y x) →
      Walk edge (path.length + 1) root v := by
  induction path with
  | nil =>
      intro v h
      exact .tail .refl (List.isChain_cons_cons.mp h).1
  | cons u path ih =>
      intro v h
      obtain ⟨hedge, hrest⟩ := List.isChain_cons_cons.mp h
      exact .tail (ih u hrest) hedge

/-! ## Nodes that are listed once -/

variable (succ : κ → List κ) (root : κ)

/-- A cycle that the root leads to. -/
def ReachesCycle : Prop :=
  ∃ c, Relation.ReflTransGen (DepthFirst.Edge succ) root c ∧
    Relation.TransGen (DepthFirst.Edge succ) c c

/-- A node that is a successor of two nodes behind the root, or twice of one. -/
def Shares [DecidableEq κ] : Prop :=
  ∃ x y w, Relation.ReflTransGen (DepthFirst.Edge succ) root x ∧
    Relation.ReflTransGen (DepthFirst.Edge succ) root y ∧ w ∈ succ x ∧ w ∈ succ y ∧
      (x ≠ y ∨ 1 < (succ x).count w)

variable {succ root}

/-- Where nothing is shared, the way back from a cycle stays on cycles. -/
theorem cycle_root [DecidableEq κ] (hshares : ¬Shares succ root) (hcycle : ReachesCycle succ root) :
    Relation.TransGen (DepthFirst.Edge succ) root root := by
  obtain ⟨c, hreach, hcycle⟩ := hcycle
  induction hreach with
  | refl => exact hcycle
  | @tail x y hpath hedge ih =>
      obtain ⟨p, hround, hlast⟩ := Relation.TransGen.tail'_iff.mp hcycle
      have hxp : x = p := by
        by_contra hne
        exact hshares ⟨x, p, y, hpath, (hpath.tail hedge).trans hround, hedge, hlast, .inl hne⟩
      subst hxp
      exact ih (.head' hedge hround)

/-- The root and the successors of the nodes behind it are listed once exactly if there is no cycle
and nothing is shared. -/
theorem nodup_listed_iff [DecidableEq κ] {reached : List κ} (hnodup : reached.Nodup)
    (hreached : ∀ x, x ∈ reached ↔ Relation.ReflTransGen (DepthFirst.Edge succ) root x) :
    (root :: reached.flatMap succ).Nodup ↔ ¬ReachesCycle succ root ∧ ¬Shares succ root := by
  rw [List.nodup_cons, List.nodup_flatMap]
  constructor
  · rintro ⟨hroot, hsingle, hpairwise⟩
    have hshares : ¬Shares succ root := by
      rintro ⟨x, y, w, hx, hy, hwx, hwy, hne | hcount⟩
      · have : Std.Symm (Function.onFun List.Disjoint succ) :=
          ⟨fun _ _ hapart _ hx hy => hapart hy hx⟩
        exact hpairwise.forall ((hreached x).mpr hx) ((hreached y).mpr hy) hne hwx hwy
      · have hle := List.nodup_iff_count_le_one.mp (hsingle x ((hreached x).mpr hx)) w
        omega
    refine ⟨fun hcycle => hroot ?_, hshares⟩
    obtain ⟨p, hround, hlast⟩ := Relation.TransGen.tail'_iff.mp (cycle_root hshares hcycle)
    exact List.mem_flatMap.mpr ⟨p, (hreached p).mpr hround, hlast⟩
  · rintro ⟨hacyclic, hshares⟩
    refine ⟨fun hmem => ?_, fun x hx => ?_, ?_⟩
    · obtain ⟨p, hp, hlast⟩ := List.mem_flatMap.mp hmem
      exact hacyclic ⟨root, .refl, .tail' ((hreached p).mp hp) hlast⟩
    · rw [List.nodup_iff_count_le_one]
      intro w
      by_contra hcount
      have hpath := (hreached x).mp hx
      have hw : w ∈ succ x := List.count_pos_iff.mp (by omega)
      exact hshares ⟨x, x, w, hpath, hpath, hw, hw, .inr (by omega)⟩
    · apply hnodup.imp_of_mem
      intro x y hx hy hne w hwx hwy
      exact hshares ⟨x, y, w, (hreached x).mp hx, (hreached y).mp hy, hwx, hwy, .inl hne⟩

end Walks

/-! ## Distances -/

namespace Distances

open Walks

variable {κ : Type u} {hop : κ → κ → Prop} {root v w : κ} {bound d n : Nat}

/-- The length of a shortest walk. -/
def Distance (hop : κ → κ → Prop) (root w : κ) (d : Nat) : Prop := IsLeast {n | Walk hop n root w} d

theorem exists_distance (h : Walk hop n root w) : ∃ d ≤ n, Distance hop root w d := by
  classical
  have hex : ∃ n, Walk hop n root w := ⟨n, h⟩
  exact ⟨Nat.find hex, Nat.find_min' hex h, Nat.find_spec hex, fun m hm => Nat.find_min' hex hm⟩

theorem Distance.unique {d' : Nat} (h : Distance hop root w d) (h' : Distance hop root w d') :
    d = d' :=
  IsLeast.unique h h'

/-- Another node is not at distance zero. -/
theorem Distance.pos (h : Distance hop root w d) (hne : w ≠ root) : 1 ≤ d := by
  rcases Nat.eq_zero_or_pos d with rfl | hpos
  · exact absurd h.1.eq_of_zero.symm hne
  · exact hpos

/-! ## Searches that enter every node once -/

/-- A search between two steps: what it has taken from the queue, what is queued, and the depths. -/
structure Entering (hop : κ → κ → Prop) (root : κ) (bound : Nat) (queue done : List (κ × Nat)) :
    Prop where
  started : (root, 0) ∈ done ++ queue
  within : ∀ e ∈ done ++ queue, e.2 ≤ bound
  walk : ∀ e ∈ done ++ queue, Walk hop e.2 root e.1
  nodup : ((done ++ queue).map Prod.fst).Nodup
  sorted : (done ++ queue).Pairwise fun e e' => e.2 ≤ e'.2
  close : ∀ e ∈ queue, ∀ e' ∈ queue, e.2 ≤ e'.2 + 1
  pending : ∀ e ∈ done, e.2 < bound → ∀ w, hop e.1 w →
    ∃ d ≤ e.2 + 1, (w, d) ∈ done ++ queue

namespace Entering

variable {rest done : List (κ × Nat)}

theorem start (hop : κ → κ → Prop) (root : κ) (bound : Nat) :
    Entering hop root bound [(root, 0)] [] where
  started := List.mem_cons_self
  within := by simp
  walk := by
    intro e he
    obtain rfl := List.mem_singleton.mp he
    exact .refl
  nodup := List.nodup_singleton _
  sorted := List.pairwise_singleton _ _
  close := by simp
  pending := by simp

/-- What was met is at most one step farther than the head of the queue. -/
theorem le_succ (h : Entering hop root bound ((v, d) :: rest) done) {e : κ × Nat}
    (he : e ∈ done ++ (v, d) :: rest) : e.2 ≤ d + 1 := by
  rcases List.mem_append.mp he with he | he
  · have hle := (List.pairwise_append.mp h.sorted).2.2 e he (v, d) List.mem_cons_self
    exact Nat.le_succ_of_le hle
  · exact h.close e he (v, d) List.mem_cons_self

theorem le_of_mem (h : Entering hop root bound ((v, d) :: rest) done) {e : κ × Nat}
    (he : e ∈ rest) : d ≤ e.2 :=
  (List.pairwise_cons.mp (List.pairwise_append.mp h.sorted).2.1).1 e he

/-- A node is taken from the queue, and what it leads to is entered unless it was before. At the
bound nothing is entered. -/
theorem visit (h : Entering hop root bound ((v, d) :: rest) done) (new : List κ)
    (hbound : d < bound ∨ new = []) (hnew : ∀ w ∈ new, hop v w) (hnodup : new.Nodup)
    (hfresh : ∀ w ∈ new, w ∉ (done ++ (v, d) :: rest).map Prod.fst)
    (hall : d < bound → ∀ w, hop v w → w ∈ new ∨ w ∈ (done ++ (v, d) :: rest).map Prod.fst) :
    Entering hop root bound (rest ++ new.map fun w => (w, d + 1)) (done ++ [(v, d)]) := by
  have hsplit : done ++ [(v, d)] ++ (rest ++ new.map fun w => (w, d + 1)) =
      (done ++ (v, d) :: rest) ++ new.map fun w => (w, d + 1) := by simp
  have hentered : ∀ e ∈ new.map (fun w => (w, d + 1)), e.2 = d + 1 ∧ e.1 ∈ new ∧ d < bound := by
    intro e he
    obtain ⟨w, hw, rfl⟩ := List.mem_map.mp he
    exact ⟨rfl, hw, hbound.resolve_right (List.ne_nil_of_mem hw)⟩
  constructor
  · rw [hsplit]
    exact List.mem_append_left _ h.started
  · rw [hsplit]
    intro e he
    rcases List.mem_append.mp he with he | he
    · exact h.within e he
    · obtain ⟨hdepth, _, hlt⟩ := hentered e he
      omega
  · rw [hsplit]
    intro e he
    rcases List.mem_append.mp he with he | he
    · exact h.walk e he
    · obtain ⟨hdepth, hmem, _⟩ := hentered e he
      rw [hdepth]
      exact (h.walk (v, d) (by simp)).tail (hnew e.1 hmem)
  · have hmap : (new.map fun w => (w, d + 1)).map Prod.fst = new := by simp [Function.comp_def]
    rw [hsplit, List.map_append, hmap, List.nodup_append]
    refine ⟨h.nodup, hnodup, fun x hx y hy heq => hfresh y hy ?_⟩
    exact heq ▸ hx
  · rw [hsplit, List.pairwise_append]
    refine ⟨h.sorted, ?_, fun e he e' he' => ?_⟩
    · rw [List.pairwise_map]
      exact List.pairwise_of_forall fun _ _ => Nat.le_refl _
    · rw [(hentered e' he').1]
      exact h.le_succ he
  · intro e he e' he'
    have hle : e.2 ≤ d + 1 := by
      rcases List.mem_append.mp he with he | he
      · exact h.le_succ (by simp [he])
      · exact (hentered e he).1.le
    have hge : d ≤ e'.2 := by
      rcases List.mem_append.mp he' with he' | he'
      · exact h.le_of_mem he'
      · rw [(hentered e' he').1]
        exact Nat.le_succ d
    omega
  · rw [hsplit]
    intro e he hlt w hw
    rcases List.mem_append.mp he with he | he
    · obtain ⟨d', hd', hmem⟩ := h.pending e he hlt w hw
      exact ⟨d', hd', List.mem_append_left _ hmem⟩
    · obtain rfl := List.mem_singleton.mp he
      rcases hall hlt w hw with hmem | hmem
      · exact ⟨d + 1, le_rfl, List.mem_append_right _ (List.mem_map_of_mem hmem)⟩
      · obtain ⟨e', he', rfl⟩ := List.mem_map.mp hmem
        exact ⟨e'.2, h.le_succ he', List.mem_append_left _ he'⟩

/-- Along a walk that is not longer than what is queued everything was met. -/
theorem exists_mem_of_walk {queue : List (κ × Nat)} (h : Entering hop root bound queue done)
    (hwalk : Walk hop n root w) (hbound : n ≤ bound) (hqueue : ∀ e ∈ queue, n ≤ e.2) :
    ∃ d ≤ n, (w, d) ∈ done ++ queue := by
  generalize hroot : root = r at hwalk
  induction hwalk with
  | refl =>
      subst hroot
      exact ⟨0, le_rfl, h.started⟩
  | @tail n u x w _ hedge ih =>
      obtain ⟨d, hd, hmem⟩ := ih (by omega) (fun e he => Nat.le_of_succ_le (hqueue e he)) hroot
      have hdone : (x, d) ∈ done := by
        rcases List.mem_append.mp hmem with hmem | hmem
        · exact hmem
        · have hle := hqueue (x, d) hmem
          dsimp only at hle
          omega
      have hlt : d < bound := by omega
      obtain ⟨d', hd', hmem'⟩ := h.pending (x, d) hdone hlt w hedge
      exact ⟨d', hd'.trans (Nat.succ_le_succ hd), hmem'⟩

/-- What was met was met at its distance. -/
theorem distance {queue : List (κ × Nat)} (h : Entering hop root bound queue done)
    (hmem : (w, d) ∈ done ++ queue) : Distance hop root w d := by
  refine ⟨h.walk (w, d) hmem, fun n hwalk => ?_⟩
  by_contra hlt
  rw [not_le] at hlt
  have hqueue : ∀ e ∈ queue, n ≤ e.2 := by
    intro e he
    rcases List.mem_append.mp hmem with hdone | hqueued
    · exact hlt.le.trans ((List.pairwise_append.mp h.sorted).2.2 (w, d) hdone e he)
    · have hclose := h.close (w, d) hqueued e he
      dsimp only at hclose
      omega
  obtain ⟨d', hd', hmem'⟩ :=
    h.exists_mem_of_walk hwalk (hlt.le.trans (h.within (w, d) hmem)) hqueue
  have hsame : d = d' := congrArg Prod.snd (List.inj_on_of_nodup_map h.nodup hmem hmem' rfl)
  omega

/-- With an empty queue every node within the bound was met at its distance. -/
theorem mem_iff (h : Entering hop root bound [] done) {w : κ} {d : Nat} :
    (w, d) ∈ done ↔ d ≤ bound ∧ Distance hop root w d := by
  constructor
  · intro hmem
    have hmem : (w, d) ∈ done ++ [] := List.mem_append_left _ hmem
    exact ⟨h.within (w, d) hmem, h.distance hmem⟩
  · rintro ⟨hd, hdistance⟩
    obtain ⟨d', _, hmem⟩ := h.exists_mem_of_walk hdistance.1 hd (by simp)
    rw [hdistance.unique (h.distance hmem)]
    exact (List.mem_append.mp hmem).resolve_right List.not_mem_nil

end Entering

end Distances
