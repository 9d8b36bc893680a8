import Mathlib.Data.List.Rotate
import RationaleVault.Library.Forest

/-!
# Cycles of a depth-first search

An edge back to the path closes a cycle. The cycles closed in one search are simple. They are all
the simple cycles, each once up to rotation, exactly if every strong component unfolds from its first
node: one simple path leads to each of its nodes, and the edges back are listed once.
-/

universe u

namespace DepthFirst

variable {κ : Type u} {succ : κ → List κ}

/-- A list of nodes with the first one repeated at the end. -/
def close : List κ → List κ
  | [] => []
  | v :: rest => v :: (rest ++ [v])

/-- The nodes of a simple cycle, from any of them on. -/
structure SimpleCycle (succ : κ → List κ) (c : List κ) : Prop where
  ne_nil : c ≠ []
  nodup : c.Nodup
  isChain : (close c).IsChain (Edge succ)

/-- A path without a node twice. -/
structure SimplePath (succ : κ → List κ) (r v : κ) (q : List κ) : Prop where
  isChain : q.IsChain (Edge succ)
  nodup : q.Nodup
  head : q.head? = some r
  last : q.getLast? = some v

/-- One simple path leads from the first node to the other one, and what leads back to this path
is listed once. -/
structure Unfolds (succ : κ → List κ) [DecidableEq κ] (r v : κ) : Prop where
  unique : ∀ q q', SimplePath succ r v q → SimplePath succ r v q' → q = q'
  once : ∀ q, SimplePath succ r v q → ∀ w ∈ q, (succ v).count w ≤ 1

theorem exists_simplePath {x y : κ} (h : Relation.ReflTransGen (Edge succ) x y) :
    ∃ q, SimplePath succ x y q := by
  induction h with
  | refl => exact ⟨[x], .singleton x, by simp, rfl, rfl⟩
  | @tail b c _ hedge ih =>
      obtain ⟨q, hchain, hnodup, hhead, hlast⟩ := ih
      by_cases hc : c ∈ q
      · -- the path that goes on to `c` is cut where it meets it
        obtain ⟨s, t, rfl⟩ := List.append_of_mem hc
        have hprefix : s ++ [c] <+: s ++ c :: t := ⟨t, by simp⟩
        refine ⟨s ++ [c], hchain.prefix hprefix, hnodup.sublist hprefix.sublist, ?_, by simp⟩
        cases s with
        | nil => exact hhead
        | cons a s => exact hhead
      · refine ⟨q ++ [c], ?_, ?_, ?_, by simp⟩
        · apply hchain.append (.singleton c)
          intro a ha b' hb'
          obtain rfl : c = b' := by simpa using hb'
          obtain rfl : b = a := Option.some.inj (hlast.symm.trans ha)
          exact hedge
        · rw [List.nodup_append]
          refine ⟨hnodup, by simp, fun a ha b' hb' heq => hc ?_⟩
          rw [← List.mem_singleton.mp hb', ← heq]
          exact ha
        · cases q with
          | nil => simp at hhead
          | cons a q => exact hhead

theorem SimplePath.ne_nil {r v : κ} {q : List κ} (h : SimplePath succ r v q) : q ≠ [] := by
  rintro rfl
  cases h.head

/-- An edge back to the start of a simple path closes a cycle. -/
theorem SimplePath.simpleCycle {x y : κ} {q : List κ} (h : SimplePath succ y x q)
    (hedge : y ∈ succ x) : SimpleCycle succ q := by
  refine ⟨h.ne_nil, h.nodup, ?_⟩
  obtain ⟨rest, rfl⟩ : ∃ rest, q = y :: rest := List.head?_eq_some_iff.mp h.head
  have hclosed : ((y :: rest) ++ [y]).IsChain (Edge succ) := by
    apply h.isChain.append (.singleton y)
    intro a ha b hb
    obtain rfl : y = b := by simpa using hb
    obtain rfl : x = a := Option.some.inj (h.last.symm.trans ha)
    exact hedge
  exact hclosed

theorem SimpleCycle.rotate {s t : List κ} (h : SimpleCycle succ (s ++ t)) :
    SimpleCycle succ (t ++ s) := by
  obtain ⟨hne, hnodup, hchain⟩ := h
  have hperm : (t ++ s).Perm (s ++ t) := List.perm_append_comm
  refine ⟨fun hnil => hne (List.perm_nil.mp (hnil ▸ hperm).symm), hperm.nodup_iff.mpr hnodup, ?_⟩
  cases s with
  | nil => simpa using hchain
  | cons a s =>
      cases t with
      | nil => simpa using hchain
      | cons b t =>
          have hwhole : (a :: s ++ b :: t ++ [a]).IsChain (Edge succ) := by
            simpa [close] using hchain
          have hgoal : (b :: t ++ a :: s ++ [b]).IsChain (Edge succ) := by
            have hleft : (a :: s ++ [b]).IsChain (Edge succ) :=
              hwhole.prefix ⟨t ++ [a], by simp⟩
            have hright : (b :: t ++ [a]).IsChain (Edge succ) :=
              hwhole.suffix ⟨a :: s, by simp⟩
            have hjoin : (b :: t ++ [a] ++ (s ++ [b])).IsChain (Edge succ) :=
              hright.append_overlap (by simpa using hleft) (by simp)
            simpa using hjoin
          simpa [close] using hgoal

theorem reach_of_isChain {x y : κ} {l : List κ} (h : (x :: l).IsChain (Edge succ))
    (hy : y ∈ x :: l) : Relation.ReflTransGen (Edge succ) x y :=
  h.induction (fun y => Relation.ReflTransGen (Edge succ) x y) _
    (fun _ _ hedge hpath => hpath.tail hedge) (fun _ => .refl) y hy

/-- The nodes of a cycle have successors, and belong to one strong component. -/
theorem SimpleCycle.succ_same {c : List κ} (h : SimpleCycle succ c) {x y : κ} (hx : x ∈ c)
    (hy : y ∈ c) : ∃ z ∈ succ x, Same succ x y := by
  have hreach : ∀ x ∈ c, (∃ z, z ∈ succ x) ∧
      ∀ y ∈ c, Relation.ReflTransGen (Edge succ) x y := by
    intro x hx
    obtain ⟨s, t, rfl⟩ := List.append_of_mem hx
    have hchain : (x :: (t ++ s ++ [x])).IsChain (Edge succ) := h.rotate.isChain
    constructor
    · obtain ⟨z, hz⟩ : ∃ z, (t ++ s ++ [x]).head? = some z := by
        cases t ++ s with
        | nil => exact ⟨x, rfl⟩
        | cons z l => exact ⟨z, rfl⟩
      exact ⟨z, (List.isChain_cons.mp hchain).1 z hz⟩
    · intro y hy
      apply reach_of_isChain hchain
      simp only [List.mem_append, List.mem_cons] at hy ⊢
      tauto
  obtain ⟨⟨z, hz⟩, hxall⟩ := hreach x hx
  exact ⟨z, hz, hxall y hy, (hreach y hy).2 x hx⟩

theorem SimpleCycle.mono {succ' : κ → List κ} {c : List κ} (h : SimpleCycle succ c)
    (hle : ∀ v w, w ∈ succ v → w ∈ succ' v) : SimpleCycle succ' c where
  ne_nil := h.ne_nil
  nodup := h.nodup
  isChain := h.isChain.imp fun v w hedge => hle v w hedge

/-! ## Edges back to the path -/

variable [DecidableEq κ]

/-- The cycle that an edge from the innermost node of a path closes. -/
def closing (e : κ × List κ) (w : κ) : List κ :=
  let path := (e.1 :: e.2).reverse
  path.drop (path.idxOf w) ++ [w]

/-- The cycles that edges to some nodes close. -/
def closings (e : κ × List κ) (ws : List κ) : List (List κ) :=
  (ws.filter fun w => w ∈ e.1 :: e.2).map (closing e)

/-- The cycles that are closed in a search. -/
def backCycles (succ : κ → List κ) (F : List (κ × List κ)) : List (List κ) :=
  F.flatMap fun e => closings e (succ e.1)

variable {F : List (κ × List κ)} {roots a b p : List κ} {r u v w : κ}

theorem closing_eq (hnodup : (v :: p).Nodup) (heq : v :: p = a ++ w :: b) :
    closing (v, p) w = close (w :: a.reverse) := by
  have hpath : (v :: p).reverse = b.reverse ++ w :: a.reverse := by simp [heq]
  have hfresh : w ∉ b.reverse := by
    rw [heq, List.nodup_append, List.nodup_cons] at hnodup
    simpa using hnodup.2.1.1
  simp only [closing]
  rw [hpath, List.idxOf_append_of_notMem hfresh, List.idxOf_cons_self, Nat.add_zero,
    List.drop_left]
  rfl

omit [DecidableEq κ] in
theorem dropLast_close (c : List κ) : (close c).dropLast = c := by
  cases c with
  | nil => rfl
  | cons v rest =>
      have hlast : close (v :: rest) = (v :: rest) ++ [v] := rfl
      rw [hlast, List.dropLast_concat]

/-- What is closed: an edge from a node back to one on its path. -/
theorem mem_backCycles {l : List κ} (h : Forest succ [] roots [] F) :
    l ∈ backCycles succ F ↔ ∃ v p a w b, (v, p) ∈ F ∧ v :: p = a ++ w :: b ∧ w ∈ succ v ∧
      l = close (w :: a.reverse) := by
  simp only [backCycles, closings, List.mem_flatMap, List.mem_map, List.mem_filter,
    decide_eq_true_eq]
  constructor
  · rintro ⟨⟨v, p⟩, hmem, w, ⟨hw, hpath⟩, rfl⟩
    obtain ⟨a, b, heq⟩ := List.append_of_mem hpath
    exact ⟨v, p, a, w, b, hmem, heq, hw, closing_eq (h.nodup_of_mem hmem) heq⟩
  · rintro ⟨v, p, a, w, b, hmem, heq, hw, rfl⟩
    exact ⟨(v, p), hmem, w, ⟨hw, by simp [heq]⟩, closing_eq (h.nodup_of_mem hmem) heq⟩

omit [DecidableEq κ] in
/-- From a node of a path inwards, a path is a simple path. -/
theorem simplePath_of_mem (h : Forest succ [] roots [] F) (hmem : (v, p) ∈ F)
    (heq : v :: p = a ++ w :: b) : SimplePath succ w v (w :: a.reverse) := by
  have hprefix : a ++ [w] <+: v :: p := ⟨b, by simp [heq]⟩
  have hreverse : w :: a.reverse = (a ++ [w]).reverse := by simp
  refine ⟨?_, ?_, rfl, ?_⟩
  · rw [hreverse, List.isChain_reverse]
    exact List.IsChain.prefix (h.isChain_of_mem hmem) hprefix
  · rw [hreverse, List.nodup_reverse]
    exact (h.nodup_of_mem hmem).sublist hprefix.sublist
  · rw [hreverse, List.getLast?_reverse]
    obtain ⟨t, ht⟩ := hprefix
    cases a with
    | nil =>
        rw [List.nil_append] at heq
        rw [(List.cons.inj heq).1]
        rfl
    | cons x a =>
        rw [(List.cons.inj heq).1]
        rfl

/-- Everything that is closed is a simple cycle. -/
theorem backCycles_sound (h : Forest succ [] roots [] F) :
    ∀ l ∈ backCycles succ F, ∃ c, SimpleCycle succ c ∧ l = close c := by
  intro l hl
  obtain ⟨v, p, a, w, b, hmem, heq, hw, rfl⟩ := (mem_backCycles h).mp hl
  exact ⟨_, (simplePath_of_mem h hmem heq).simpleCycle hw, rfl⟩

/-- A search that meets a node on a cycle closes a cycle. -/
theorem backCycles_ne_nil (h : Forest succ [] roots [] F) {x : κ} (hx : x ∈ nodes F)
    (hcycle : Relation.TransGen (Edge succ) x x) : backCycles succ F ≠ [] := by
  obtain ⟨r, hr, hsame⟩ := h.exists_entersFirst hx
  have hself : Relation.TransGen (Edge succ) r r :=
    (Relation.TransGen.trans_right hsame.1 hcycle).trans_left hsame.2
  obtain ⟨u, hforth, hedge⟩ := Relation.TransGen.tail'_iff.mp hself
  obtain ⟨p, hp, hrp⟩ := h.below_first hr ⟨hforth, .single hedge⟩
  obtain ⟨a, b, heq⟩ := List.append_of_mem hrp
  exact List.ne_nil_of_mem ((mem_backCycles h).mpr ⟨u, p, a, r, b, hp, heq, hedge, rfl⟩)

/-! ## All simple cycles -/

/-- A list of closed walks that holds every simple cycle once, up to rotation, and nothing else. -/
structure ListsCycles (succ : κ → List κ) (cycles : List (List κ)) : Prop where
  sound : ∀ l ∈ cycles, ∃ c, SimpleCycle succ c ∧ l = close c
  once : ∀ c, SimpleCycle succ c → cycles.countP (fun l => l.dropLast.IsRotated c) = 1

theorem ListsCycles.perm {cycles cycles' : List (List κ)} (h : ListsCycles succ cycles)
    (hperm : cycles.Perm cycles') : ListsCycles succ cycles' where
  sound := fun l hl => h.sound l (hperm.mem_iff.mpr hl)
  once := fun c hc => (hperm.countP_eq _).symm.trans (h.once c hc)

section Complete

variable (h : Forest succ [] roots [] F)
include h

/-- If all simple cycles are closed, an edge within a strong component leads back to the path, or
its node is entered along it. -/
theorem back_or_below (hall : ListsCycles succ (backCycles succ F)) {x y : κ} (hedge : y ∈ succ x)
    (hback : Relation.ReflTransGen (Edge succ) y x) :
    ∃ p, (x, p) ∈ F ∧ (y ∈ x :: p ∨ (y, x :: p) ∈ F) := by
  obtain ⟨q, hq⟩ := exists_simplePath hback
  have hcount := hall.once q (hq.simpleCycle hedge)
  have hpos : 0 < (backCycles succ F).countP fun l => l.dropLast.IsRotated q := by
    rw [hcount]
    exact Nat.one_pos
  obtain ⟨l, hl, hrotated⟩ := List.countP_pos_iff.mp hpos
  obtain ⟨v, p, a, w, b, hmem, heq, hw, rfl⟩ := (mem_backCycles h).mp hl
  have hrotated : (w :: a.reverse).IsRotated q := by
    simpa [dropLast_close] using hrotated
  obtain ⟨n, hn, hrotate⟩ := List.isRotated_iff_mod.mp hrotated
  -- the cycle that was closed is `s ++ t`, the one from `y` on is `t ++ s`
  obtain ⟨s, t, hst, rfl⟩ : ∃ s t, w :: a.reverse = s ++ t ∧ t ++ s = q :=
    ⟨_, _, (List.take_append_drop n _).symm, by rw [← hrotate, List.rotate_eq_drop_append_take hn]⟩
  have hpath := simplePath_of_mem h hmem heq
  cases s with
  | nil =>
      have hhead := hq.head
      have hlast := hq.last
      rw [List.append_nil, ← List.nil_append t, ← hst] at hhead hlast
      obtain rfl : w = y := Option.some.inj (hpath.head.symm.trans hhead)
      obtain rfl : v = x := Option.some.inj (hpath.last.symm.trans hlast)
      exact ⟨p, hmem, .inl (by simp [heq])⟩
  | cons w' s =>
      cases t with
      | nil =>
          have hhead := hq.head
          have hlast := hq.last
          rw [List.nil_append, ← List.append_nil (w' :: s), ← hst] at hhead hlast
          obtain rfl : w = y := Option.some.inj (hpath.head.symm.trans hhead)
          obtain rfl : v = x := Option.some.inj (hpath.last.symm.trans hlast)
          exact ⟨p, hmem, .inl (by simp [heq])⟩
      | cons y' t =>
          obtain rfl : y' = y := by simpa using hq.head
          obtain ⟨s', hs'⟩ : ∃ s', w' :: s = s' ++ [x] := by
            have hlast : (w' :: s).getLast? = some x := by
              have hlast := hq.last
              rwa [List.getLast?_append_of_ne_nil _ (List.cons_ne_nil _ _)] at hlast
            exact List.getLast?_eq_some_iff.mp hlast
          have hsplit : v :: p = (t.reverse ++ [y']) ++ x :: (s'.reverse ++ b) := by
            have hreverse : a ++ [w] = t.reverse ++ y' :: x :: s'.reverse := by
              have := congrArg List.reverse hst
              rw [hs'] at this
              simpa using this
            calc v :: p = (a ++ [w]) ++ b := by simp [heq]
              _ = (t.reverse ++ [y']) ++ x :: (s'.reverse ++ b) := by rw [hreverse]; simp
          exact ⟨_, h.suffix_of_mem hmem hsplit, .inr (h.suffix_of_mem hmem (a := t.reverse)
            (by rw [hsplit]; simp))⟩

/-- Then simple paths within a strong component are the paths of the search. -/
theorem path_of_simplePath (hall : ListsCycles succ (backCycles succ F))
    (hr : EntersFirst succ F r) {q : List κ} :
    ∀ v, Same succ r v → SimplePath succ r v q →
      ∃ pr pv, (r, pr) ∈ F ∧ (v, pv) ∈ F ∧ v :: pv = q.reverse ++ pr := by
  induction q using List.reverseRecOn with
  | nil => exact fun v _ hq => absurd rfl hq.ne_nil
  | append_singleton q v' ih =>
      intro v hsame hq
      obtain rfl : v' = v := by simpa using hq.last
      rcases List.eq_nil_or_concat q with rfl | ⟨q, x, rfl⟩
      · obtain rfl : v' = r := by simpa using hq.head
        obtain ⟨⟨_, p⟩, hp, rfl⟩ := List.mem_map.mp hr.mem
        exact ⟨p, p, hp, hp, rfl⟩
      · rw [List.concat_eq_append] at *
        have hprefix : q ++ [x] <+: q ++ [x] ++ [v'] := List.prefix_append _ _
        have hqx : SimplePath succ r x (q ++ [x]) := by
          have hchain : (q ++ [x]).IsChain (Edge succ) := List.IsChain.prefix hq.isChain hprefix
          refine ⟨hchain, hq.nodup.sublist hprefix.sublist, ?_, by simp⟩
          have hhead := hq.head
          rwa [List.head?_append_of_ne_nil _ (by simp)] at hhead
        have hedge : v' ∈ succ x := by
          have hchain := List.isChain_append.mp hq.isChain
          exact hchain.2.2 x (by simp) v' (by simp)
        have hrx : Relation.ReflTransGen (Edge succ) r x := by
          obtain ⟨rest, hrest⟩ := List.head?_eq_some_iff.mp hqx.head
          apply List.relationReflTransGen_of_exists_isChain_cons rest
          · exact hrest ▸ hqx.isChain
          · have hlast := hqx.last
            rw [hrest, List.getLast?_eq_some_getLast (List.cons_ne_nil _ _)] at hlast
            exact Option.some.inj hlast
        have hsamex : Same succ r x := ⟨hrx, .head hedge hsame.2⟩
        obtain ⟨pr, px, hpr, hpx, hsplit⟩ := ih x hsamex hqx
        obtain ⟨px', hpx', hcases⟩ :=
          back_or_below h hall hedge (hsame.2.trans hrx)
        obtain rfl := h.path_unique hpx hpx'
        refine ⟨pr, x :: px, hpr, ?_, by rw [hsplit]; simp⟩
        refine hcases.resolve_left fun hmem => ?_
        rw [hsplit, List.mem_append, List.mem_reverse] at hmem
        rcases hmem with hmem | hmem
        · exact (List.nodup_append.mp hq.nodup).2.2 v' hmem v' (by simp) rfl
        · exact hr.first v' hsame.symm (h.before_of_mem hpr hmem)

theorem unfolds_of_lists (hall : ListsCycles succ (backCycles succ F))
    (hr : EntersFirst succ F r) (hsame : Same succ r v) : Unfolds succ r v := by
  constructor
  · intro q q' hq hq'
    obtain ⟨pr, pv, hpr, hpv, hsplit⟩ := path_of_simplePath h hall hr v hsame hq
    obtain ⟨pr', pv', hpr', hpv', hsplit'⟩ := path_of_simplePath h hall hr v hsame hq'
    obtain rfl := h.path_unique hpr hpr'
    obtain rfl := h.path_unique hpv hpv'
    exact List.reverse_injective (List.append_cancel_right (hsplit.symm.trans hsplit'))
  · intro q hq w hw
    obtain ⟨pr, pv, hpr, hpv, hsplit⟩ := path_of_simplePath h hall hr v hsame hq
    by_contra hmany
    have hwmem : w ∈ v :: pv := by
      rw [hsplit, List.mem_append, List.mem_reverse]
      exact .inl hw
    have hwsucc : w ∈ succ v := List.count_pos_iff.mp (by omega)
    obtain ⟨a, b, heq⟩ := List.append_of_mem hwmem
    have hcycle := (simplePath_of_mem h hpv heq).simpleCycle hwsucc
    have hcount := hall.once _ hcycle
    -- the entry of `v` alone closes the cycle as often as it lists the edge
    have hle : (succ v).count w ≤ (closings (v, pv) (succ v)).countP fun l =>
        l.dropLast.IsRotated (w :: a.reverse) := by
      rw [closings, List.countP_map, List.count_eq_countP, List.countP_filter]
      apply List.countP_mono_left
      intro x _ hx
      obtain rfl : x = w := by simpa using hx
      simp only [Function.comp_apply, closing_eq (h.nodup_of_mem hpv) heq, dropLast_close,
        Bool.and_eq_true, decide_eq_true_eq]
      exact ⟨List.IsRotated.refl _, hwmem⟩
    have hsub : (closings (v, pv) (succ v)).countP
          (fun l => l.dropLast.IsRotated (w :: a.reverse)) ≤
        (backCycles succ F).countP fun l => l.dropLast.IsRotated (w :: a.reverse) := by
      obtain ⟨s, t, rfl⟩ := List.append_of_mem hpv
      rw [backCycles, List.flatMap_append, List.flatMap_cons, List.countP_append,
        List.countP_append]
      dsimp only
      omega
    omega

omit [DecidableEq κ] in
/-- A closed cycle with the nodes of a path from `t` to `u` is closed by the edge from `u` back to
`t`. -/
theorem closed_unique {t x : κ} {pu tail c : List κ} (hu : (u, pu) ∈ F)
    (hpu : u :: pu = c.reverse ++ t :: tail) (hmem : (v, p) ∈ F) (heq : v :: p = a ++ x :: b)
    (hperm : (x :: a.reverse).Perm (t :: c)) : v = u ∧ x = t := by
  have hnodes : ∀ y, y ∈ a ++ [x] ↔ y ∈ c.reverse ++ [t] := by
    intro y
    have hy := hperm.mem_iff (a := y)
    simpa [or_comm] using hy
  have hhead : ∀ {y : κ} {s l m : List κ}, y :: l = s ++ m → ∀ z, [z] <+: m → y ∈ s ++ [z] := by
    intro y s l m hy z hz
    cases s with
    | nil =>
        obtain ⟨k, rfl⟩ := hz
        rw [(List.cons.inj hy).1]
        simp
    | cons y' s =>
        rw [(List.cons.inj hy).1]
        simp
  have hv : v ∈ u :: pu := by
    have hmem := (hnodes v).mp (hhead heq x ⟨b, rfl⟩)
    rw [hpu]
    exact List.IsPrefix.subset ⟨tail, by simp⟩ hmem
  have hu' : u ∈ v :: p := by
    have hmem := (hnodes u).mpr (hhead hpu t ⟨tail, rfl⟩)
    rw [heq]
    exact List.IsPrefix.subset ⟨b, by simp⟩ hmem
  obtain rfl : v = u := by
    rcases List.mem_cons.mp hv with heq | hv
    · exact heq
    · rcases List.mem_cons.mp hu' with heq | hu'
      · exact heq.symm
      · exact absurd (h.before_of_mem hmem hu') (h.not_before (h.before_of_mem hu hv))
  obtain rfl := h.path_unique hmem hu
  have hlength : a.length = c.reverse.length := by
    have hlength := hperm.length_eq
    simpa using hlength
  exact ⟨rfl, (List.cons.inj (List.append_inj (heq.symm.trans hpu) hlength).2).1⟩

/-- If every strong component unfolds from its first node, every simple cycle is closed once. -/
theorem once_of_unfolds (hsucc : ∀ v, succ v ≠ [] → v ∈ nodes F)
    (hall : ∀ r, EntersFirst succ F r → ∀ v, Same succ r v → Unfolds succ r v) {c : List κ}
    (hc : SimpleCycle succ c) :
    (backCycles succ F).countP (fun l => l.dropLast.IsRotated c) = 1 := by
  -- the cycle from its first node `t` on, and its last node `u`
  obtain ⟨s, t, s', hsplit, htc, hs⟩ := exists_first (P := fun x => x ∈ c) (l := nodes F) (by
    obtain ⟨x, hx⟩ := List.exists_mem_of_ne_nil c hc.ne_nil
    obtain ⟨y, hy, _⟩ := hc.succ_same hx hx
    exact ⟨x, hsucc x (List.ne_nil_of_mem hy), hx⟩)
  obtain ⟨m, m', rfl⟩ := List.append_of_mem htc
  have hrotated : (m ++ t :: m').IsRotated (t :: (m' ++ m)) := List.isRotated_append
  have hcycle : SimpleCycle succ (t :: (m' ++ m)) := hc.rotate
  have hcmem : ∀ x, x ∈ m' ++ m → x ∈ m ++ t :: m' := fun x hx =>
    hrotated.mem_iff.mpr (List.mem_cons_of_mem t hx)
  generalize m' ++ m = rest at *
  have hchain : ((t :: rest) ++ [t]).IsChain (Edge succ) := hcycle.isChain
  obtain ⟨u, hlast⟩ : ∃ u, (t :: rest).getLast? = some u :=
    ⟨_, List.getLast?_eq_some_getLast (List.cons_ne_nil _ _)⟩
  have hedge : t ∈ succ u := (List.isChain_append.mp hchain).2.2 u hlast t rfl
  -- the first node `r` of the component, and the simple path from it around to `u`
  have htmem : t ∈ nodes F := by simp [hsplit]
  obtain ⟨r, hr, hrt⟩ := h.exists_entersFirst htmem
  obtain ⟨pt, hpt, hrpt⟩ := h.below_first hr hrt
  obtain ⟨a, b, ht⟩ := List.append_of_mem hrpt
  have hrootpath := simplePath_of_mem h hpt ht
  have hq : SimplePath succ r u (r :: a.reverse ++ rest) := by
    refine ⟨?_, ?_, rfl, ?_⟩
    · have hinner : (t :: rest).IsChain (Edge succ) := (List.isChain_append.mp hchain).1
      apply hrootpath.isChain.append hinner.tail
      intro x hx y hy
      obtain rfl : t = x := Option.some.inj (hrootpath.last.symm.trans hx)
      exact (List.isChain_cons.mp hinner).1 y hy
    · rw [List.nodup_append]
      refine ⟨hrootpath.nodup, (List.nodup_cons.mp hcycle.nodup).2, ?_⟩
      rintro x hx y hy rfl
      have hxpt : x ∈ t :: pt := by
        rw [ht]
        simp only [List.mem_cons, List.mem_reverse, List.mem_append] at hx ⊢
        tauto
      rcases List.mem_cons.mp hxpt with rfl | hxpt
      · exact (List.nodup_cons.mp hcycle.nodup).1 hy
      · exact hs x (h.mem_of_before hsplit (h.before_of_mem hpt hxpt)) (hcmem x hy)
    · cases rest with
      | nil =>
          rw [List.append_nil, hrootpath.last]
          exact hlast
      | cons y rest =>
          rw [List.getLast?_append_of_ne_nil _ (List.cons_ne_nil _ _)]
          exact hlast
  have hru : Same succ r u := by
    have htu : Same succ t u := by
      obtain ⟨_, _, hsame⟩ := hcycle.succ_same List.mem_cons_self (List.mem_of_getLast? hlast)
      exact hsame
    exact hrt.trans htu
  obtain ⟨pu, hpu, hrpu⟩ := h.below_first hr hru
  obtain ⟨a', b', hu⟩ := List.append_of_mem hrpu
  have hunfolds := hall r hr u hru
  -- it is the path of the search, so the edge from `u` leads back to it
  have hpath : u :: pu = rest.reverse ++ t :: pt := by
    have hsame := hunfolds.unique _ _ (simplePath_of_mem h hpu hu) hq
    have ha' : a' = rest.reverse ++ a := by
      have htail := congrArg List.reverse (List.cons.inj hsame).2
      simpa using htail
    obtain rfl := h.path_unique (h.suffix_of_mem hpt ht) (h.suffix_of_mem hpu hu)
    rw [hu, ha', ht, List.append_assoc]
  have hcongr : ∀ l : List κ, l.IsRotated (m ++ t :: m') ↔ l.IsRotated (t :: rest) := fun l =>
    ⟨fun hl => hl.trans hrotated, fun hl => hl.trans hrotated.symm⟩
  have hself : closing (u, pu) t = close (t :: rest) := by
    rw [closing_eq (h.nodup_of_mem hpu) hpath, List.reverse_reverse]
  have hcount : (closings (u, pu) (succ u)).countP (fun l => l.dropLast.IsRotated (t :: rest)) =
      (succ u).count t := by
    rw [closings, List.countP_map, List.count_eq_countP, List.countP_filter]
    apply List.countP_congr
    intro w _
    simp only [Function.comp_apply, Bool.and_eq_true, decide_eq_true_eq, beq_iff_eq]
    constructor
    · rintro ⟨hw, hwmem⟩
      obtain ⟨s₁, s₂, heq⟩ := List.append_of_mem hwmem
      rw [closing_eq (h.nodup_of_mem hpu) heq, dropLast_close] at hw
      exact (closed_unique h hpu hpath hpu heq hw.perm).2
    · rintro rfl
      rw [hself, dropLast_close]
      exact ⟨List.IsRotated.refl _, by simp [hpath]⟩
  have hothers : ∀ part : List (κ × List κ), (∀ e ∈ part, e ∈ F) → u ∉ nodes part →
      (part.flatMap fun e => closings e (succ e.1)).countP
        (fun l => l.dropLast.IsRotated (t :: rest)) = 0 := by
    intro part hpart hupart
    rw [List.countP_eq_zero]
    intro l hl hrot
    obtain ⟨⟨v, p⟩, hmem, hl⟩ := List.mem_flatMap.mp hl
    obtain ⟨w, hw, rfl⟩ := List.mem_map.mp hl
    have hwmem : w ∈ v :: p := by simpa using (List.mem_filter.mp hw).2
    obtain ⟨s₁, s₂, heq⟩ := List.append_of_mem hwmem
    rw [closing_eq (h.nodup_of_mem (hpart _ hmem)) heq, dropLast_close, decide_eq_true_eq] at hrot
    obtain ⟨rfl, _⟩ := closed_unique h hpu hpath (hpart _ hmem) heq hrot.perm
    exact hupart (mem_nodes hmem)
  have hone : (succ u).count t = 1 := by
    have hle := hunfolds.once _ hq t (by
      have htlast := List.mem_of_getLast? hrootpath.last
      exact List.mem_append_left _ htlast)
    have hpos := List.count_pos_iff.mpr hedge
    omega
  obtain ⟨F₁, F₂, hF⟩ := List.append_of_mem hpu
  have hapart : u ∉ nodes F₁ ∧ u ∉ nodes F₂ := by
    have hnodup := h.nodup
    rw [hF, nodes_append, nodes_cons, List.nodup_append, List.nodup_cons] at hnodup
    exact ⟨fun hmem => hnodup.2.2 u hmem u List.mem_cons_self rfl, hnodup.2.1.1⟩
  simp only [hcongr]
  rw [backCycles, hF, List.flatMap_append, List.flatMap_cons, List.countP_append,
    List.countP_append, hothers F₁ (fun e he => by simp [hF, he]) hapart.1,
    hothers F₂ (fun e he => by simp [hF, he]) hapart.2]
  dsimp only
  rw [hcount, hone]

/-- The cycles closed in a search are all the simple cycles exactly if every strong component
unfolds from its first node. -/
theorem listsCycles_iff (hsucc : ∀ v, succ v ≠ [] → v ∈ nodes F) :
    ListsCycles succ (backCycles succ F) ↔
      ∀ r, EntersFirst succ F r → ∀ v, Same succ r v → Unfolds succ r v := by
  constructor
  · exact fun hall r hr v hv => unfolds_of_lists h hall hr hv
  · exact fun hall => ⟨backCycles_sound h, fun c hc => once_of_unfolds h hsucc hall hc⟩

omit h

/-- Every strong component unfolds from the node at which a depth-first search enters it. -/
def Unfolding (succ : κ → List κ) (roots : List κ) : Prop :=
  ∀ F, Forest succ [] roots [] F →
    ∀ r, EntersFirst succ F r → ∀ v, Same succ r v → Unfolds succ r v

/-- The cycles that are closed in a search from all nodes with successors. -/
theorem listsCycles_iff_unfolding (h : Forest succ [] roots [] F)
    (hsucc : ∀ v, succ v ≠ [] → v ∈ nodes F) :
    ListsCycles succ (backCycles succ F) ↔ Unfolding succ roots := by
  rw [listsCycles_iff h hsucc]
  constructor
  · intro hall F' hF'
    obtain rfl := h.unique hF'
    exact hall
  · exact fun hall => hall F h

end Complete

end DepthFirst
