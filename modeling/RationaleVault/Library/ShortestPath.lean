import Mathlib.Algebra.Order.Monoid.Defs
import Mathlib.Data.List.Basic
import Mathlib.Logic.Function.Basic
import Mathlib.Order.Bounds.Defs
import RationaleVault.Library.Dag

/-!
# Shortest paths

Dijkstra's algorithm keeps a distance and a predecessor for every node that it has met, and a heap
with an entry for every distance it has written. Entries of visited nodes are dropped when they are
taken out. A node that is taken out with the least entry has its final distance: the distances of
visited nodes are below the heap, and the arcs out of them are relaxed.
-/

universe u v

namespace ShortestPath

variable {κ : Type u} {W : Type v} [AddCommMonoid W] [LinearOrder W]

/-- A walk along arcs with its total weight. -/
inductive Walk (arcs : κ → List (κ × W)) : W → κ → κ → Prop
  | refl {v : κ} : Walk arcs 0 v v
  | tail {t : W} {u v : κ} {a : κ × W} (hwalk : Walk arcs t u v) (ha : a ∈ arcs v) :
      Walk arcs (t + a.2) u a.1

/-- The weight of a path: the least one among parallel arcs counts. -/
inductive Weighs (arcs : κ → List (κ × W)) : List κ → W → Prop
  | single {v : κ} : Weighs arcs [v] 0
  | step {v w : κ} {rest : List κ} {x t : W} (hx : IsLeast {x | (w, x) ∈ arcs v} x)
      (hrest : Weighs arcs (w :: rest) t) : Weighs arcs (v :: w :: rest) (x + t)

variable {arcs : κ → List (κ × W)}

omit [LinearOrder W] in
/-- What a walk leads to is reached along arcs. -/
theorem Walk.reach {t : W} {v w : κ} (h : Walk arcs t v w) :
    Relation.ReflTransGen (fun v w => ∃ x, (w, x) ∈ arcs v) v w := by
  induction h with
  | refl => exact .refl
  | @tail t u v a _ ha ih => exact ih.tail ⟨a.2, ha⟩

omit [LinearOrder W] in
theorem exists_walk {v w : κ}
    (h : Relation.ReflTransGen (fun v w => ∃ x, (w, x) ∈ arcs v) v w) : ∃ t, Walk arcs t v w := by
  induction h with
  | refl => exact ⟨0, .refl⟩
  | tail _ hedge ih =>
      obtain ⟨t, hwalk⟩ := ih
      obtain ⟨x, hx⟩ := hedge
      exact ⟨t + x, hwalk.tail hx⟩

theorem Weighs.concat {path : List κ} {t x : W} {v w : κ} (h : Weighs arcs path t)
    (hlast : path.getLast? = some v) (hx : IsLeast {x | (w, x) ∈ arcs v} x) :
    Weighs arcs (path ++ [w]) (t + x) := by
  induction h with
  | single =>
      obtain rfl := Option.some.inj hlast
      rw [add_comm]
      exact .step hx .single
  | @step u u' rest y t hy _ ih =>
      rw [List.getLast?_cons_cons] at hlast
      rw [add_assoc]
      exact .step hy (ih hlast)

/-! ## The search -/

/-- The distances, the predecessors and the heap; the predecessor of the source is `none`. -/
structure State (κ : Type u) (W : Type v) where
  dist : κ → Option W
  prev : κ → Option (Option κ)
  heap : List (W × κ)

/-- The predecessor of a node, as a list. -/
def parents (prev : κ → Option (Option κ)) (v : κ) : List κ := ((prev v).getD none).toList

variable [DecidableEq κ]

/-- Relax one arc of a node at a distance. -/
def relax (d : W) (v : κ) (s : State κ W) (a : κ × W) : State κ W :=
  if ∀ old ∈ s.dist a.1, d + a.2 < old then
    { dist := Function.update s.dist a.1 (some (d + a.2))
      prev := Function.update s.prev a.1 (some (some v))
      heap := (d + a.2, a.1) :: s.heap }
  else s

/-- Follow the predecessors back to the source. -/
def unwind (prev : κ → Option (Option κ)) : (fuel : Nat) → κ → Option (List κ)
  | 0, _ => none
  | fuel + 1, v =>
      match prev v with
      | none => none
      | some none => some [v]
      | some (some p) => (unwind prev fuel p).map (v :: ·)

omit [DecidableEq κ] in
/-- The search between two steps, with the arcs that are left to relax. -/
structure Invariant (arcs : κ → List (κ × W)) (source : κ) (todo : List (κ × κ × W))
    (s : State κ W) (visited : List κ) : Prop where
  start : s.dist source = some 0
  walk : ∀ v d, s.dist v = some d → Walk arcs d source v
  above : ∀ e ∈ s.heap, ∃ d ≤ e.1, s.dist e.2 = some d
  live : ∀ v d, s.dist v = some d → v ∉ visited → (d, v) ∈ s.heap
  settled : ∀ v ∈ visited, ∃ d, s.dist v = some d ∧ ∀ e ∈ s.heap, d ≤ e.1
  relaxed : ∀ v ∈ visited, ∀ d, s.dist v = some d → ∀ a ∈ arcs v,
    (v, a) ∈ todo ∨ ∃ d' ≤ d + a.2, s.dist a.1 = some d'
  prev_iff : ∀ v, (s.prev v).isSome ↔ (s.dist v).isSome
  root : ∀ v, s.prev v = some none → v = source
  parent : ∀ v p, s.prev v = some (some p) → p ∈ visited ∧
    ∃ dp x, s.dist p = some dp ∧ (v, x) ∈ arcs p ∧ s.dist v = some (dp + x)
  order : Dag.Finished (parents s.prev) visited

/-- The search before the first step. -/
def initial (source : κ) : State κ W where
  dist := Function.update (fun _ => none) source (some 0)
  prev := Function.update (fun _ => none) source (some none)
  heap := [(0, source)]

theorem Invariant.initial (arcs : κ → List (κ × W)) (source : κ) :
    Invariant arcs source [] (ShortestPath.initial source) [] := by
  have hdist : ∀ v d, (ShortestPath.initial source : State κ W).dist v = some d →
      v = source ∧ d = 0 := by
    intro v d hd
    by_cases hv : v = source
    · subst hv
      simp only [ShortestPath.initial, Function.update_self, Option.some.injEq] at hd
      exact ⟨rfl, hd.symm⟩
    · simp [ShortestPath.initial, Function.update_of_ne hv] at hd
  have hprev : ∀ v p, (ShortestPath.initial source : State κ W).prev v = some p →
      v = source ∧ p = none := by
    intro v p hp
    by_cases hv : v = source
    · subst hv
      simp only [ShortestPath.initial, Function.update_self, Option.some.injEq] at hp
      exact ⟨rfl, hp.symm⟩
    · simp [ShortestPath.initial, Function.update_of_ne hv] at hp
  have hstart : (ShortestPath.initial source : State κ W).dist source = some 0 := by
    simp [ShortestPath.initial]
  constructor
  · exact hstart
  · intro v d hd
    obtain ⟨rfl, rfl⟩ := hdist v d hd
    exact .refl
  · intro e he
    obtain rfl := List.mem_singleton.mp he
    exact ⟨0, le_rfl, hstart⟩
  · intro v d hd _
    obtain ⟨rfl, rfl⟩ := hdist v d hd
    exact List.mem_cons_self
  · simp
  · simp
  · intro v
    by_cases hv : v = source
    · subst hv
      simp [ShortestPath.initial]
    · simp [ShortestPath.initial, Function.update_of_ne hv]
  · exact fun v hv => (hprev v none hv).1
  · intro v p hp
    have hnone := (hprev v _ hp).2
    cases hnone
  · exact .nil

/-! ## Steps -/

variable {source v target : κ} {d : W} {a : κ × W} {e : W × κ} {todo : List (κ × κ × W)}
  {s : State κ W} {visited : List κ} {rest : List (W × κ)}

omit [DecidableEq κ] [AddCommMonoid W] [LinearOrder W] in
theorem mem_parents {prev : κ → Option (Option κ)} {p : κ} :
    p ∈ parents prev v ↔ prev v = some (some p) := by
  unfold parents
  cases prev v with
  | none => simp
  | some q => simp

omit [DecidableEq κ] in
/-- An entry of a visited node is dropped. -/
theorem Invariant.drop (h : Invariant arcs source todo s visited)
    (hperm : (e :: rest).Perm s.heap) (hv : e.2 ∈ visited) :
    Invariant arcs source todo { s with heap := rest } visited := by
  have hsub : ∀ e' ∈ rest, e' ∈ s.heap := fun e' he' => hperm.subset (List.mem_cons_of_mem _ he')
  refine ⟨h.start, h.walk, fun e' he' => h.above e' (hsub e' he'), fun u du hu hnot => ?_,
    fun u hu => ?_, h.relaxed, h.prev_iff, h.root, h.parent, h.order⟩
  · rcases List.mem_cons.mp (hperm.symm.subset (h.live u du hu hnot)) with heq | hmem
    · have hu' : u = e.2 := congrArg Prod.snd heq
      exact absurd (hu' ▸ hv) hnot
    · exact hmem
  · obtain ⟨du, hdu, hall⟩ := h.settled u hu
    exact ⟨du, hdu, fun e' he' => hall e' (hsub e' he')⟩

omit [DecidableEq κ] in
/-- The least entry of a node that was not visited holds its distance. -/
theorem Invariant.dist_of_least (h : Invariant arcs source todo s visited)
    (hperm : ((d, v) :: rest).Perm s.heap) (hmin : ∀ e ∈ rest, d ≤ e.1) (hv : v ∉ visited) :
    s.dist v = some d := by
  obtain ⟨dv, hle, hdv⟩ := h.above (d, v) (hperm.subset List.mem_cons_self)
  have hge : d ≤ dv := by
    rcases List.mem_cons.mp (hperm.symm.subset (h.live v dv hdv hv)) with heq | hmem
    · exact (congrArg Prod.fst heq).ge
    · exact hmin _ hmem
  rw [hdv, le_antisymm hle hge]

omit [DecidableEq κ] in
/-- A visited node whose arcs are being relaxed; its distance is the greatest among the visited
nodes. -/
structure Relaxing (arcs : κ → List (κ × W)) (source v : κ) (d : W) (todo : List (κ × κ × W))
    (s : State κ W) (visited : List κ) : Prop extends Invariant arcs source todo s visited where
  mem : v ∈ visited
  dist_eq : s.dist v = some d
  greatest : ∀ u ∈ visited, ∀ du, s.dist u = some du → du ≤ d

omit [DecidableEq κ] in
/-- The node of the least entry is visited. -/
theorem Invariant.settle (h : Invariant arcs source [] s visited)
    (hperm : ((d, v) :: rest).Perm s.heap) (hmin : ∀ e ∈ rest, d ≤ e.1) (hv : v ∉ visited) :
    Relaxing arcs source v d ((arcs v).map fun a => (v, a)) { s with heap := rest }
      (v :: visited) := by
  have hdist := h.dist_of_least hperm hmin hv
  have hhead : (d, v) ∈ s.heap := hperm.subset List.mem_cons_self
  have hsub : ∀ e' ∈ rest, e' ∈ s.heap := fun e' he' => hperm.subset (List.mem_cons_of_mem _ he')
  refine ⟨⟨h.start, h.walk, fun e' he' => h.above e' (hsub e' he'), fun u du hu hnot => ?_,
    fun u hu => ?_, fun u hu du hdu a ha => ?_, h.prev_iff, h.root, fun u p hp => ?_, ?_⟩,
    List.mem_cons_self, hdist, fun u hu du hdu => ?_⟩
  · rw [List.mem_cons, not_or] at hnot
    rcases List.mem_cons.mp (hperm.symm.subset (h.live u du hu hnot.2)) with heq | hmem
    · exact absurd (congrArg Prod.snd heq) hnot.1
    · exact hmem
  · rcases List.mem_cons.mp hu with rfl | hu
    · exact ⟨d, hdist, hmin⟩
    · obtain ⟨du, hdu, hall⟩ := h.settled u hu
      exact ⟨du, hdu, fun e' he' => hall e' (hsub e' he')⟩
  · rcases List.mem_cons.mp hu with rfl | hu
    · exact .inl (List.mem_map_of_mem ha)
    · exact .inr ((h.relaxed u hu du hdu a ha).resolve_left List.not_mem_nil)
  · obtain ⟨hmem, hrest⟩ := h.parent u p hp
    exact ⟨List.mem_cons_of_mem _ hmem, hrest⟩
  · exact .cons hv (fun p hp => (h.parent v p (mem_parents.mp hp)).1) h.order
  · rcases List.mem_cons.mp hu with rfl | hu
    · exact (Option.some.inj (hdist.symm.trans hdu)).ge
    · obtain ⟨du', hdu', hall⟩ := h.settled u hu
      rw [Option.some.inj (hdu.symm.trans hdu')]
      exact hall _ hhead

variable [IsOrderedCancelAddMonoid W] (hpos : ∀ v, ∀ a ∈ arcs v, 0 ≤ a.2)
include hpos

omit [DecidableEq κ] in
theorem Walk.nonneg {t : W} {u v : κ} (h : Walk arcs t u v) : 0 ≤ t := by
  induction h with
  | refl => exact le_rfl
  | tail _ ha ih => exact add_nonneg ih (hpos _ _ ha)

/-- Relaxing one arc. -/
theorem Relaxing.relax (h : Relaxing arcs source v d ((v, a) :: todo) s visited)
    (ha : a ∈ arcs v) : Relaxing arcs source v d todo (relax d v s a) visited := by
  have hle : d ≤ d + a.2 := le_add_of_nonneg_right (hpos v a ha)
  unfold ShortestPath.relax
  split_ifs with hless
  · -- only the target changes: it was not visited, and it is not the source
    have hnot : a.1 ∉ visited := by
      intro hmem
      obtain ⟨dw, hdw, _⟩ := h.settled _ hmem
      exact absurd (hless dw hdw) (not_lt.mpr ((h.greatest _ hmem dw hdw).trans hle))
    have hother : ∀ u ∈ visited, u ≠ a.1 := fun u hu heq => hnot (heq ▸ hu)
    have hsource : source ≠ a.1 := by
      intro heq
      have hd := (h.walk v d h.dist_eq).nonneg hpos
      exact absurd (hless 0 (heq ▸ h.start)) (not_lt.mpr (hd.trans hle))
    have hset : Function.update s.dist a.1 (some (d + a.2)) a.1 = some (d + a.2) :=
      Function.update_self _ _ _
    have hkeep : ∀ u, u ≠ a.1 → Function.update s.dist a.1 (some (d + a.2)) u = s.dist u :=
      fun u hu => Function.update_of_ne hu _ _
    have hkeepPrev : ∀ u, u ≠ a.1 → Function.update s.prev a.1 (some (some v)) u = s.prev u :=
      fun u hu => Function.update_of_ne hu _ _
    have hnew : ∀ u du, Function.update s.dist a.1 (some (d + a.2)) u = some du →
        u = a.1 ∧ du = d + a.2 ∨ u ≠ a.1 ∧ s.dist u = some du := by
      intro u du hu
      by_cases heq : u = a.1
      · rw [heq, hset, Option.some.injEq] at hu
        exact .inl ⟨heq, hu.symm⟩
      · rw [hkeep u heq] at hu
        exact .inr ⟨heq, hu⟩
    refine ⟨⟨(hkeep source hsource).trans h.start, fun u du hu => ?_, fun e he => ?_,
      fun u du hu hnot' => ?_, fun u hu => ?_, fun u hu du hdu b hb => ?_, fun u => ?_,
      fun u hu => ?_, fun u p hp => ?_, ?_⟩, h.mem, (hkeep v (hother v h.mem)).trans h.dist_eq,
      fun u hu du hdu => ?_⟩
    · rcases hnew u du hu with ⟨rfl, rfl⟩ | ⟨_, hold⟩
      · exact (h.walk v d h.dist_eq).tail ha
      · exact h.walk u du hold
    · rcases List.mem_cons.mp he with rfl | he
      · exact ⟨_, le_rfl, hset⟩
      · obtain ⟨d', hd', hdist⟩ := h.above e he
        by_cases heq : e.2 = a.1
        · refine ⟨d + a.2, (hless d' (heq ▸ hdist)).le.trans hd', ?_⟩
          rw [heq]
          exact hset
        · exact ⟨d', hd', (hkeep _ heq).trans hdist⟩
    · rcases hnew u du hu with ⟨rfl, rfl⟩ | ⟨_, hold⟩
      · exact List.mem_cons_self
      · exact List.mem_cons_of_mem _ (h.live u du hold hnot')
    · obtain ⟨du, hdu, hall⟩ := h.settled u hu
      refine ⟨du, (hkeep u (hother u hu)).trans hdu, fun e he => ?_⟩
      rcases List.mem_cons.mp he with rfl | he
      · exact (h.greatest u hu du hdu).trans hle
      · exact hall e he
    · have hold : s.dist u = some du := (hkeep u (hother u hu)).symm.trans hdu
      rcases h.relaxed u hu du hold b hb with hmem | ⟨d', hd', hdist⟩
      · rcases List.mem_cons.mp hmem with heq | hmem
        · obtain ⟨rfl, rfl⟩ := Prod.mk.inj heq
          rw [Option.some.inj (hold.symm.trans h.dist_eq)]
          exact .inr ⟨_, le_rfl, hset⟩
        · exact .inl hmem
      · by_cases heq : b.1 = a.1
        · refine .inr ⟨d + a.2, (hless d' (heq ▸ hdist)).le.trans hd', ?_⟩
          rw [heq]
          exact hset
        · exact .inr ⟨d', hd', (hkeep _ heq).trans hdist⟩
    · by_cases heq : u = a.1
      · simp [heq]
      · dsimp only
        rw [hkeep u heq, hkeepPrev u heq]
        exact h.prev_iff u
    · by_cases heq : u = a.1
      · simp [heq] at hu
      · exact h.root u ((hkeepPrev u heq).symm.trans hu)
    · by_cases heq : u = a.1
      · have hp : p = v := by
          simp only [heq, Function.update_self, Option.some.injEq] at hp
          exact hp.symm
        rw [hp, heq]
        exact ⟨h.mem, d, a.2, (hkeep v (hother v h.mem)).trans h.dist_eq, ha, hset⟩
      · obtain ⟨hmem, dp, x, hdp, hx, hdist⟩ := h.parent u p ((hkeepPrev u heq).symm.trans hp)
        exact ⟨hmem, dp, x, (hkeep p (hother p hmem)).trans hdp, hx, (hkeep u heq).trans hdist⟩
    · apply h.order.congr
      intro u hu
      exact congrArg (fun p : Option (Option κ) => (p.getD none).toList)
        (hkeepPrev u (hother u hu))
    · exact h.greatest u hu du ((hkeep u (hother u hu)).symm.trans hdu)
  · obtain ⟨old, hold, hge⟩ : ∃ old, s.dist a.1 = some old ∧ old ≤ d + a.2 := by
      simpa using hless
    refine ⟨⟨h.start, h.walk, h.above, h.live, h.settled, fun u hu du hdu b hb => ?_, h.prev_iff,
      h.root, h.parent, h.order⟩, h.mem, h.dist_eq, h.greatest⟩
    rcases h.relaxed u hu du hdu b hb with hmem | hdone
    · rcases List.mem_cons.mp hmem with heq | hmem
      · obtain ⟨rfl, rfl⟩ := Prod.mk.inj heq
        rw [Option.some.inj (hdu.symm.trans h.dist_eq)]
        exact .inr ⟨old, hge, hold⟩
      · exact .inl hmem
    · exact .inr hdone

theorem Relaxing.foldl {l : List (κ × W)} (hl : ∀ a ∈ l, a ∈ arcs v)
    (h : Relaxing arcs source v d (l.map fun a => (v, a)) s visited) :
    Relaxing arcs source v d [] (l.foldl (ShortestPath.relax d v) s) visited := by
  induction l generalizing s with
  | nil => exact h
  | cons a l ih =>
      apply ih fun b hb => hl b (List.mem_cons_of_mem _ hb)
      exact h.relax hpos (hl a List.mem_cons_self)

/-- Taking out the least entry of a new node and relaxing its arcs. -/
theorem Invariant.visit (h : Invariant arcs source [] s visited)
    (hperm : ((d, v) :: rest).Perm s.heap) (hmin : ∀ e ∈ rest, d ≤ e.1) (hv : v ∉ visited) :
    Invariant arcs source [] ((arcs v).foldl (ShortestPath.relax d v) { s with heap := rest })
      (v :: visited) :=
  ((h.settle hperm hmin hv).foldl hpos fun _ ha => ha).toInvariant

/-! ## What is found -/

/-- Of a walk from the source the end is visited at most at its weight, or an entry of the heap is
not above it. -/
theorem Invariant.visited_or_heap (h : Invariant arcs source [] s visited) {t : W} {u : κ}
    (hwalk : Walk arcs t source u) :
    (∃ du ≤ t, s.dist u = some du ∧ u ∈ visited) ∨ ∃ e ∈ s.heap, e.1 ≤ t := by
  have hlive : ∀ u du t, s.dist u = some du → du ≤ t →
      (∃ du ≤ t, s.dist u = some du ∧ u ∈ visited) ∨ ∃ e ∈ s.heap, e.1 ≤ t := by
    intro u du t hdu hle
    by_cases hu : u ∈ visited
    · exact .inl ⟨du, hle, hdu, hu⟩
    · exact .inr ⟨_, h.live u du hdu hu, hle⟩
  generalize hroot : source = root at hwalk
  induction hwalk with
  | refl =>
      subst hroot
      exact hlive source 0 0 h.start le_rfl
  | @tail t root w a _ ha ih =>
      have hgrow : t ≤ t + a.2 := le_add_of_nonneg_right (hpos w a ha)
      rcases ih hroot with ⟨dw, hle, hdw, hmem⟩ | ⟨e, he, hle⟩
      · obtain ⟨d', hd', hdist⟩ := (h.relaxed w hmem dw hdw a ha).resolve_left List.not_mem_nil
        exact hlive a.1 d' _ hdist (hd'.trans (add_le_add hle le_rfl))
      · exact .inr ⟨e, he, hle.trans hgrow⟩

omit hpos in
/-- From every node that was met the predecessors lead back along a path of its distance. -/
theorem Invariant.unwind (h : Invariant arcs source [] s visited) {fuel : Nat}
    (hdist : s.dist v = some d)
    (hfuel : ∀ p, s.prev v = some (some p) → Dag.rank visited p < fuel) :
    ∃ path, unwind s.prev (fuel + 1) v = some path ∧ path.head? = some v ∧
      path.getLast? = some source ∧ Weighs arcs path.reverse d := by
  have hroot : ∀ fuel v d, s.dist v = some d → s.prev v = some none →
      ∃ path, ShortestPath.unwind s.prev (fuel + 1) v = some path ∧ path.head? = some v ∧
        path.getLast? = some source ∧ Weighs arcs path.reverse d := by
    intro fuel v d hdist hprev
    obtain rfl := h.root v hprev
    obtain rfl : 0 = d := Option.some.inj (h.start.symm.trans hdist)
    exact ⟨[v], by rw [ShortestPath.unwind, hprev], rfl, rfl, .single⟩
  have hmet : ∀ v d, s.dist v = some d → s.prev v = some none ∨ ∃ p, s.prev v = some (some p) := by
    intro v d hdist
    have hsome : (s.prev v).isSome := (h.prev_iff v).mpr (by rw [hdist]; rfl)
    obtain ⟨q, hq⟩ := Option.isSome_iff_exists.mp hsome
    cases q with
    | none => exact .inl hq
    | some p => exact .inr ⟨p, hq⟩
  induction fuel generalizing v d with
  | zero =>
      rcases hmet v d hdist with hprev | ⟨p, hprev⟩
      · exact hroot 0 v d hdist hprev
      · exact absurd (hfuel p hprev) (Nat.not_lt_zero _)
  | succ fuel ih =>
      rcases hmet v d hdist with hprev | ⟨p, hprev⟩
      · exact hroot (fuel + 1) v d hdist hprev
      · obtain ⟨hmem, dp, x, hdp, hx, hsum⟩ := h.parent v p hprev
        obtain ⟨path, hpath, hhead, hlast, hweighs⟩ := ih hdp fun q hq => by
          have hlt := h.order.rank_lt hmem (mem_parents.mpr hq)
          have hp := hfuel p hprev
          omega
        obtain rfl : d = dp + x := Option.some.inj (hdist.symm.trans hsum)
        refine ⟨v :: path, ?_, rfl, ?_, ?_⟩
        · rw [ShortestPath.unwind, hprev]
          simp [hpath]
        · cases path with
          | nil => cases hhead
          | cons w rest =>
              rw [List.getLast?_cons_cons]
              exact hlast
        · rw [List.reverse_cons]
          apply hweighs.concat (by rw [List.getLast?_reverse, hhead])
          refine ⟨hx, fun y hy => ?_⟩
          obtain ⟨d', hd', hv⟩ :=
            (h.relaxed p hmem dp hdp (v, y) hy).resolve_left List.not_mem_nil
          rw [Option.some.inj (hv.symm.trans hdist)] at hd'
          exact le_of_add_le_add_left hd'

omit hpos [DecidableEq κ] [IsOrderedCancelAddMonoid W] in
/-- The end of a search for a target. -/
structure Found (arcs : κ → List (κ × W)) (source target : κ) (s : State κ W) (fuel : Nat) :
    Prop where
  prev_iff : (s.prev target).isSome ↔ (s.dist target).isSome
  reached : ∀ t, Walk arcs t source target → (s.dist target).isSome
  walk : ∀ d, s.dist target = some d → Walk arcs d source target
  least : ∀ d, s.dist target = some d → ∀ t, Walk arcs t source target → d ≤ t
  path : ∀ d, s.dist target = some d → ∃ path, ShortestPath.unwind s.prev fuel target = some path ∧
    path.head? = some target ∧ path.getLast? = some source ∧ Weighs arcs path.reverse d

/-- The search ends when the heap is empty. -/
theorem Invariant.found_of_empty (h : Invariant arcs source [] s visited) (hheap : s.heap = []) :
    Found arcs source target s (visited.length + 1) := by
  have hvisited : ∀ t, Walk arcs t source target →
      ∃ d ≤ t, s.dist target = some d ∧ target ∈ visited := by
    intro t hwalk
    apply (h.visited_or_heap hpos hwalk).resolve_right
    rintro ⟨e, he, _⟩
    rw [hheap] at he
    cases he
  refine ⟨h.prev_iff target, fun t hwalk => ?_, fun d hd => h.walk target d hd,
    fun d hd t hwalk => ?_, fun d hd => ?_⟩
  · obtain ⟨d, _, hd, _⟩ := hvisited t hwalk
    rw [hd]
    rfl
  · obtain ⟨d', hle, hd', _⟩ := hvisited t hwalk
    rwa [Option.some.inj (hd.symm.trans hd')]
  · obtain ⟨_, _, _, hmem⟩ := hvisited d (h.walk target d hd)
    apply h.unwind hd
    intro p hp
    exact (h.order.rank_lt hmem (mem_parents.mpr hp)).trans_le (Dag.rank_le visited target)

/-- The search ends when the least entry is the target's. -/
theorem Invariant.found_of_least (h : Invariant arcs source [] s visited)
    (hperm : ((d, target) :: rest).Perm s.heap) (hmin : ∀ e ∈ rest, d ≤ e.1)
    (htarget : target ∉ visited) :
    Found arcs source target { s with heap := rest } (visited.length + 2) := by
  have hdist := h.dist_of_least hperm hmin htarget
  refine ⟨h.prev_iff target, fun _ _ => ?_, fun d' hd' => h.walk target d' hd',
    fun d' hd' t hwalk => ?_, fun d' hd' => ?_⟩
  · dsimp only
    rw [hdist]
    rfl
  · rw [Option.some.inj (hd'.symm.trans hdist)]
    rcases h.visited_or_heap hpos hwalk with ⟨_, _, _, hmem⟩ | ⟨e, he, hle⟩
    · exact absurd hmem htarget
    · rcases List.mem_cons.mp (hperm.symm.subset he) with rfl | he
      · exact hle
      · exact (hmin e he).trans hle
  · apply h.unwind hd'
    intro p _
    exact Nat.lt_succ_of_le (Dag.rank_le visited p)

end ShortestPath
