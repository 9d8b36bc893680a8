import Mathlib.Algebra.Order.Monoid.Defs
import Mathlib.Data.List.MinMax
import RationaleVault.Library.Table

/-!
# The best of a list

A scan that keeps the first element of the greatest positive score finds what `List.argmax` finds.
The best `k` elements by a score, with ties in any order. When only part of the
elements was ranked, the best of the part are the best of all exactly if the
part alone outranks every element left out. A stable sort also tells which of
its elements come before a given one. Points by rank fuse two rankings: what
stands before in both has more points.
-/

namespace Best

variable {α β : Type*}

/-- The first element of the greatest score, when that score is positive. -/
def best (score : α → Nat) (l : List α) : Option α := (l.argmax score).filter fun a => 0 < score a

@[simp] theorem best_nil (score : α → Nat) : best score [] = none := rfl

/-- The scan with the best element so far and its score. -/
theorem foldl_eq (score : α → Nat) (l : List α) :
    l.foldl (fun b a => if b.2 < score a then (some a, score a) else b) (none, 0) =
      (best score l, ((best score l).map score).getD 0) := by
  induction l using List.reverseRecOn with
  | nil => rfl
  | append_singleton l a ih =>
      rw [List.foldl_append, ih, best, best, List.argmax_concat]
      cases hmax : l.argmax score with
      | none =>
          by_cases hpos : 0 < score a <;> simp [Option.filter, hpos]
      | some c =>
          by_cases hc : 0 < score c
          · by_cases hlt : score c < score a
            · have hpos : 0 < score a := hc.trans hlt
              simp [Option.filter, hc, hlt, hpos]
            · simp [Option.filter, hc, hlt]
          · obtain hzero : score c = 0 := by omega
            by_cases hpos : 0 < score a <;> simp [Option.filter, hzero, hpos]

/-- Only the scores matter. -/
theorem argmax_map (score : β → Nat) (f : α → β) (l : List α) :
    (l.map f).argmax score = (l.argmax (score ∘ f)).map f := by
  induction l using List.reverseRecOn with
  | nil => rfl
  | append_singleton l a ih =>
      rw [List.map_append, List.map_singleton, List.argmax_concat, List.argmax_concat, ih]
      cases hmax : l.argmax (score ∘ f) with
      | none => rfl
      | some c => by_cases hlt : score (f c) < score (f a) <;> simp [hlt]

theorem best_map (score : β → Nat) (f : α → β) (l : List α) :
    best score (l.map f) = (best (score ∘ f) l).map f := by
  rw [best, best, argmax_map]
  cases l.argmax (score ∘ f) with
  | none => rfl
  | some c => by_cases hpos : 0 < score (f c) <;> simp [Option.filter, hpos]

theorem score_pos {score : α → Nat} {l : List α} {a : α} (h : best score l = some a) :
    0 < score a := by
  simpa using (Option.filter_eq_some_iff.mp h).2

/-- There is a best element as soon as one score is positive. -/
theorem exists_best {score : α → Nat} {l : List α} {a : α} (ha : a ∈ l) (hpos : 0 < score a) :
    ∃ b, best score l = some b := by
  cases hmax : l.argmax score with
  | none =>
      rw [List.argmax_eq_none] at hmax
      exact absurd (hmax ▸ ha) (by simp)
  | some c =>
      have hle : score a ≤ score c := by
        by_contra hlt
        exact List.not_lt_of_mem_argmax ha hmax (by omega)
      exact ⟨c, by simp [best, hmax, Option.filter, hpos.trans_le hle]⟩

end Best

/-! ## The best of a list -/

namespace Ranking

variable {α β : Type*} [LinearOrder β] {score : α → β}

/-- The elements in descending order, with ties in any order. -/
structure Ranked (score : α → β) (rows ranked : List α) : Prop where
  perm : ranked.Perm rows
  sorted : ranked.Pairwise fun r r' => score r' ≤ score r

/-- The best `k` elements. -/
def IsTop (score : α → β) (k : Nat) (rows top : List α) : Prop :=
  ∃ ranked, Ranked score rows ranked ∧ top = ranked.take k

theorem ranked_orderByDesc (score : α → β) (rows : List α) :
    Ranked score rows (Table.orderByDesc score rows) where
  perm := List.perm_insertionSort _ rows
  sorted := by
    have : Std.Total fun r r' : α => score r' ≤ score r := ⟨fun a b => le_total _ _⟩
    have : IsTrans α fun r r' => score r' ≤ score r := ⟨fun a b c hab hbc => hbc.trans hab⟩
    exact List.pairwise_insertionSort _ rows

theorem Ranked.of_perm {rows rows' ranked : List α} (h : Ranked score rows ranked)
    (hperm : rows.Perm rows') : Ranked score rows' ranked := ⟨h.perm.trans hperm, h.sorted⟩

theorem IsTop.of_perm {k : Nat} {rows rows' top : List α} (h : IsTop score k rows top)
    (hperm : rows.Perm rows') : IsTop score k rows' top := by
  obtain ⟨ranked, hranked, rfl⟩ := h
  exact ⟨ranked, hranked.of_perm hperm, rfl⟩

/-! ## Scores -/

theorem Ranked.sorted_map {rows ranked : List α} (h : Ranked score rows ranked) :
    (ranked.map score).Pairwise fun x y => y ≤ x := List.pairwise_map.mpr h.sorted

/-- All rankings of the same elements have the same scores. -/
theorem Ranked.map_eq {rows ranked ranked' : List α} (h : Ranked score rows ranked)
    (h' : Ranked score rows ranked') : ranked.map score = ranked'.map score := by
  have hperm := (h.perm.trans h'.perm.symm).map score
  exact hperm.eq_of_pairwise (fun x y _ _ hxy hyx => le_antisymm hyx hxy) h.sorted_map
    h'.sorted_map

/-- Rearranging a list without changing what stands before its last element changes nothing. -/
theorem eq_of_perm_of_take {l l' : List α} (hperm : l.Perm l')
    (htake : l.take (l'.length - 1) = l'.take (l'.length - 1)) : l = l' := by
  have hlength := hperm.length_eq
  rcases List.eq_nil_or_concat l' with rfl | ⟨init', last', rfl⟩
  · exact List.eq_nil_of_length_eq_zero hlength
  rcases List.eq_nil_or_concat l with rfl | ⟨init, last, rfl⟩
  · simp at hlength
  have hinits : init.length = init'.length := by simpa using hlength
  have hinit : init = init' := by simpa [← hinits] using htake
  rw [hinit, List.concat_eq_append, List.concat_eq_append, List.perm_append_left_iff,
    List.singleton_perm_singleton] at hperm
  rw [hinit, hperm]

/-! ## Leaving elements out -/

/-- An element that is not among the first `k` of a ranking is outranked by them. -/
theorem Ranked.le_of_mem_drop {k : Nat} {rows ranked : List α} (h : Ranked score rows ranked)
    {x y : α} (hx : x ∈ ranked.drop k) (hy : y ∈ ranked.take k) : score x ≤ score y := by
  have hsorted := h.sorted
  rw [← List.take_append_drop k ranked, List.pairwise_append] at hsorted
  exact hsorted.2.2 y hy x hx

/-- An element that `k` elements of a ranking outrank is outranked by the first `k`. -/
theorem Ranked.le_of_le_countP {k : Nat} {rows ranked : List α} (h : Ranked score rows ranked)
    {x y : α} (hcount : k ≤ ranked.countP fun y => score x ≤ score y) (hy : y ∈ ranked.take k) :
    score x ≤ score y := by
  by_contra hlt
  obtain ⟨before, after, hsplit⟩ := List.append_of_mem hy
  have hsorted := h.sorted
  have hranked : ranked = before ++ y :: (after ++ ranked.drop k) := by
    conv_lhs => rw [← List.take_append_drop k ranked, hsplit]
    rw [List.append_assoc, List.cons_append]
  rw [hranked, List.pairwise_append, List.pairwise_cons] at hsorted
  -- from `y` on nothing reaches the score of `x`
  have hlow : (y :: (after ++ ranked.drop k)).countP (fun y => score x ≤ score y) = 0 := by
    rw [List.countP_eq_zero]
    intro z hz hle
    rcases List.mem_cons.mp hz with rfl | hz
    · exact hlt (of_decide_eq_true hle)
    · exact hlt ((of_decide_eq_true hle).trans (hsorted.2.1.1 z hz))
  have hlength : before.length < k := by
    have htake := congrArg List.length hsplit
    rw [List.length_append, List.length_cons, List.length_take] at htake
    omega
  rw [hranked, List.countP_append, hlow, Nat.add_zero] at hcount
  exact absurd (hcount.trans List.countP_le_length) (Nat.not_le.mpr hlength)

/-- The best of the part are the best of all exactly if `k` elements of the part reach the score of
every element that is left out. -/
theorem Ranked.isTop_append_iff {k : Nat} {part rest ranked : List α}
    (h : Ranked score part ranked) : IsTop score k (part ++ rest) (ranked.take k) ↔
      ∀ x ∈ rest, k ≤ part.countP fun y => score x ≤ score y := by
  have hcount : ∀ x, part.countP (fun y => score x ≤ score y) =
      ranked.countP fun y => score x ≤ score y := fun x => (h.perm.countP_eq _).symm
  constructor
  · rintro ⟨all, hall, htake⟩ x hx
    have hdrop : (all.drop k).Perm (ranked.drop k ++ rest) := by
      apply (List.perm_append_left_iff (ranked.take k)).mp
      calc
        ranked.take k ++ all.drop k = all := by rw [htake, List.take_append_drop]
        List.Perm _ (part ++ rest) := hall.perm
        List.Perm _ (ranked ++ rest) := (h.perm.symm.append_right rest)
        _ = ranked.take k ++ (ranked.drop k ++ rest) := by
          rw [← List.append_assoc, List.take_append_drop]
    have hout : x ∈ all.drop k := hdrop.mem_iff.mpr (List.mem_append_right _ hx)
    have hfull : (ranked.take k).length = k := by
      have hlength := List.length_pos_of_mem hout
      rw [List.length_drop] at hlength
      rw [htake, List.length_take]
      omega
    have htop : (ranked.take k).countP (fun y => score x ≤ score y) = k := by
      rw [List.countP_eq_length.mpr, hfull]
      intro y hy
      exact decide_eq_true (hall.le_of_mem_drop hout (htake ▸ hy))
    rw [hcount, ← htop]
    exact (List.take_sublist k ranked).countP_le
  · intro hrest
    refine ⟨ranked.take k ++ Table.orderByDesc score (ranked.drop k ++ rest), ⟨?_, ?_⟩, ?_⟩
    · calc
        List.Perm (ranked.take k ++ Table.orderByDesc score (ranked.drop k ++ rest))
            (ranked.take k ++ (ranked.drop k ++ rest)) :=
          (ranked_orderByDesc score _).perm.append_left _
        _ = ranked ++ rest := by rw [← List.append_assoc, List.take_append_drop]
        List.Perm _ (part ++ rest) := h.perm.append_right rest
    · refine List.pairwise_append.mpr ⟨h.sorted.sublist (List.take_sublist k ranked),
        (ranked_orderByDesc score _).sorted, fun y hy x hx => ?_⟩
      rcases List.mem_append.mp (Table.mem_orderByDesc.mp hx) with hx | hx
      · exact h.le_of_mem_drop hx hy
      · exact h.le_of_le_countP (hcount x ▸ hrest x hx) hy
    · by_cases hk : ranked.length < k
      · have hnone : rest = [] := by
          rw [List.eq_nil_iff_forall_not_mem]
          intro x hx
          have hle := (hrest x hx).trans List.countP_le_length
          rw [← h.perm.length_eq] at hle
          omega
        rw [List.drop_eq_nil_of_le hk.le, hnone]
        simp [Table.orderByDesc, List.take_take]
      · rw [List.take_left']
        rw [List.length_take]
        omega

/-! ## Places in a stable sort -/

theorem orderByDesc_cons (score : α → β) (a : α) (rows : List α) :
    Table.orderByDesc score (a :: rows) =
      (Table.orderByDesc score rows).orderedInsert (fun r r' => score r' ≤ score r) a := rfl

theorem orderedInsert_append {a : α} {front back : List α}
    (h : ∀ r ∈ front, score a < score r) :
    (front ++ back).orderedInsert (fun r r' => score r' ≤ score r) a =
      front ++ back.orderedInsert (fun r r' => score r' ≤ score r) a := by
  induction front with
  | nil => rfl
  | cons r rest ih =>
      rw [List.forall_mem_cons] at h
      rw [List.cons_append, List.orderedInsert_cons, if_neg (not_le.mpr h.1), ih h.2,
        List.cons_append]

theorem orderedInsert_append_cons {a x : α} {front back : List α} (h : score x ≤ score a) :
    (front ++ x :: back).orderedInsert (fun r r' => score r' ≤ score r) a =
      front.orderedInsert (fun r r' => score r' ≤ score r) a ++ x :: back := by
  induction front with
  | nil => rw [List.nil_append, List.orderedInsert_cons, if_pos h]; rfl
  | cons r rest ih =>
      rw [List.cons_append, List.orderedInsert_cons, List.orderedInsert_cons]
      by_cases hr : score r ≤ score a
      · rw [if_pos hr, if_pos hr]
        rfl
      · rw [if_neg hr, if_neg hr, ih]
        rfl

/-- What comes before and after an element in the stable sort. -/
theorem orderByDesc_split (score : α → β) (before after : List α) (x : α) :
    ∃ front back, Table.orderByDesc score (before ++ x :: after) = front ++ x :: back ∧
      front.Perm (before.filter (fun r => score x ≤ score r) ++
        after.filter fun r => score x < score r) := by
  induction before with
  | nil =>
      have hsorted := (ranked_orderByDesc score after).sorted
      have hperm := (ranked_orderByDesc score after).perm
      refine ⟨(Table.orderByDesc score after).filter fun r => score x < score r,
        (Table.orderByDesc score after).filter fun r => ¬ score x < score r, ?_, ?_⟩
      · have hsplit : ∀ {l : List α}, l.Pairwise (fun r r' => score r' ≤ score r) →
            l.orderedInsert (fun r r' => score r' ≤ score r) x =
              l.filter (fun r => score x < score r) ++
                x :: l.filter fun r => ¬ score x < score r := by
          intro l hl
          induction l with
          | nil => rfl
          | cons r rest ih =>
              rw [List.pairwise_cons] at hl
              by_cases hr : score x < score r
              · rw [List.orderedInsert_cons, if_neg (not_le.mpr hr), ih hl.2,
                  List.filter_cons_of_pos (by simpa using hr),
                  List.filter_cons_of_neg (by simpa using hr)]
                rfl
              · have hlow : ∀ r' ∈ r :: rest, ¬ score x < score r' := by
                  intro r' hr' hlt
                  rcases List.mem_cons.mp hr' with rfl | hr'
                  · exact hr hlt
                  · exact hr (hlt.trans_le (hl.1 r' hr'))
                rw [List.orderedInsert_cons, if_pos (not_lt.mp hr),
                  List.filter_eq_nil_iff.mpr (by simpa using hlow),
                  List.filter_eq_self.mpr (by simpa using hlow)]
                rfl
        exact hsplit hsorted
      · exact hperm.filter _
  | cons b rest ih =>
      obtain ⟨front, back, hsort, hfront⟩ := ih
      rw [List.cons_append, orderByDesc_cons, hsort]
      by_cases hb : score x ≤ score b
      · refine ⟨front.orderedInsert (fun r r' => score r' ≤ score r) b, back,
          orderedInsert_append_cons hb, ?_⟩
        rw [List.filter_cons_of_pos (by simpa using hb), List.cons_append]
        exact (List.perm_orderedInsert _ b front).trans (hfront.cons b)
      · have hlow : ∀ r ∈ front ++ [x], score b < score r := by
          intro r hr
          rcases List.mem_append.mp hr with hr | hr
          · have hr := hfront.mem_iff.mp hr
            simp only [List.mem_append, List.mem_filter, decide_eq_true_eq] at hr
            exact (not_le.mp hb).trans_le (hr.elim (fun h => h.2) fun h => h.2.le)
          · exact List.mem_singleton.mp hr ▸ not_le.mp hb
        refine ⟨front, back.orderedInsert (fun r r' => score r' ≤ score r) b, ?_, ?_⟩
        · have hinsert : (front ++ [x] ++ back).orderedInsert _ b = _ := orderedInsert_append hlow
          simpa using hinsert
        · rwa [List.filter_cons_of_neg (by simpa using hb)]

/-- All of the best `k` have a property exactly if `k` elements come before every element that does
not have it. -/
theorem forall_mem_take_orderByDesc_iff {rows : List α} {k : Nat} {p : α → Prop} :
    (∀ x ∈ (Table.orderByDesc score rows).take k, p x) ↔
      ∀ before x after, rows = before ++ x :: after → ¬ p x →
        k ≤ before.countP (fun r => score x ≤ score r) +
          after.countP fun r => score x < score r := by
  have hcount : ∀ {front before after : List α} {x : α},
      front.Perm (before.filter (fun r => score x ≤ score r) ++
        after.filter fun r => score x < score r) →
      front.length = before.countP (fun r => score x ≤ score r) +
        after.countP fun r => score x < score r := by
    intro front before after x hfront
    rw [hfront.length_eq, List.length_append, ← List.countP_eq_length_filter,
      ← List.countP_eq_length_filter]
  constructor
  · rintro hall before x after rfl hx
    obtain ⟨front, back, hsort, hfront⟩ := orderByDesc_split score before after x
    by_contra hlt
    rw [← hcount hfront] at hlt
    apply hx (hall x _)
    rw [hsort, List.take_append, List.mem_append]
    obtain ⟨n, hn⟩ : ∃ n, k - front.length = n + 1 := ⟨k - front.length - 1, by omega⟩
    rw [hn, List.take_succ_cons]
    exact Or.inr List.mem_cons_self
  · intro h x hx
    by_contra hpx
    have hmem : x ∈ rows := Table.mem_orderByDesc.mp (List.mem_of_mem_take hx)
    -- the first place of `x`
    obtain ⟨before, after, rfl, hbefore⟩ := List.eq_append_cons_of_mem hmem
    obtain ⟨front, back, hsort, hfront⟩ := orderByDesc_split score before after x
    have hk := h before x after rfl hpx
    rw [← hcount hfront] at hk
    rw [hsort, List.take_append_of_le_length hk] at hx
    have hx := hfront.mem_iff.mp (List.mem_of_mem_take hx)
    simp only [List.mem_append, List.mem_filter, decide_eq_true_eq] at hx
    rcases hx with ⟨hx, -⟩ | ⟨-, hlt⟩
    · exact hbefore hx
    · exact lt_irrefl _ hlt

/-- An element with a higher score stands before one with a lower score. -/
theorem Ranked.pair_sublist {rows ranked : List α} (h : Ranked score rows ranked) {a b : α}
    (ha : a ∈ rows) (hb : b ∈ rows) (hlt : score b < score a) : [a, b].Sublist ranked := by
  have hne : a ≠ b := by
    rintro rfl
    exact lt_irrefl _ hlt
  rcases Table.pair_sublist_or (h.perm.mem_iff.mpr ha) (h.perm.mem_iff.mpr hb) hne with hab | hba
  · exact hab
  · exact absurd (List.pairwise_iff_forall_sublist.mp h.sorted hba) (not_le.mpr hlt)

/-! ## Points by rank -/

section Points

variable {κ R : Type*} [DecidableEq κ] [AddCommMonoid R]

/-- The points of a key in a list whose first element has rank `n`. -/
def points (weight : Nat → R) : Nat → List κ → κ → R
  | _, [], _ => 0
  | n, x :: rest, i => (if x = i then weight n else 0) + points weight (n + 1) rest i

variable {weight : Nat → R} {n : Nat} {l l' : List κ} {a b : κ}

theorem points_of_not_mem (ha : a ∉ l) : points weight n l a = 0 := by
  induction l generalizing n with
  | nil => rfl
  | cons x rest ih =>
      obtain ⟨hne, hrest⟩ := not_or.mp (List.mem_cons.not.mp ha)
      rw [points, if_neg (Ne.symm hne), ih hrest, add_zero]

theorem points_cons_self (ha : a ∉ l) : points weight n (a :: l) a = weight n := by
  rw [points, if_pos rfl, points_of_not_mem ha, add_zero]

theorem points_cons_of_ne (hne : a ≠ b) :
    points weight n (a :: l) b = points weight (n + 1) l b := by
  rw [points, if_neg hne, zero_add]

variable [PartialOrder R] (hpos : ∀ m, 0 ≤ weight m) (hanti : StrictAnti weight)
include hpos

theorem points_nonneg (hl : l.Nodup) : 0 ≤ points weight n l a := by
  induction l generalizing n with
  | nil => exact le_rfl
  | cons x rest ih =>
      obtain ⟨hx, hrest⟩ := List.nodup_cons.mp hl
      by_cases hxa : x = a
      · subst hxa
        exact (hpos n).trans_eq (points_cons_self hx).symm
      · exact (ih hrest).trans_eq (points_cons_of_ne hxa).symm

include hanti

/-- Nothing has more points than the first element of a list. -/
theorem points_le (hl : l.Nodup) : points weight n l a ≤ weight n := by
  induction l generalizing n with
  | nil => exact hpos n
  | cons x rest ih =>
      obtain ⟨hx, hrest⟩ := List.nodup_cons.mp hl
      by_cases hxa : x = a
      · subst hxa
        exact (points_cons_self hx).le
      · exact (points_cons_of_ne hxa).trans_le
          ((ih hrest).trans (hanti.antitone (Nat.le_succ n)))

theorem points_lt (hl : l.Nodup) (hab : [a, b].Sublist l) :
    points weight n l b < points weight n l a := by
  induction l generalizing n with
  | nil => cases hab
  | cons x rest ih =>
      obtain ⟨hx, hrest⟩ := List.nodup_cons.mp hl
      cases hab with
      | cons _ hab =>
          have hxa : x ≠ a := fun heq => hx (heq ▸ hab.subset List.mem_cons_self)
          have hxb : x ≠ b := fun heq =>
            hx (heq ▸ hab.subset (List.mem_cons_of_mem _ List.mem_cons_self))
          rw [points_cons_of_ne hxa, points_cons_of_ne hxb]
          exact ih hrest hab
      | cons_cons _ hb =>
          have hab : a ≠ b := fun heq => hx (heq ▸ List.singleton_sublist.mp hb)
          rw [points_cons_self hx, points_cons_of_ne hab]
          exact (points_le hpos hanti hrest).trans_lt (hanti (Nat.lt_succ_self n))

/-- One list puts an element before another, and the other list does not disagree. -/
theorem add_points_lt [IsOrderedCancelAddMonoid R] (hl : l.Nodup) (hl' : l'.Nodup)
    (hab : [a, b].Sublist l) (hother : [a, b].Sublist l' ∨ b ∉ l') :
    points weight n l b + points weight n l' b < points weight n l a + points weight n l' a := by
  apply add_lt_add_of_lt_of_le (points_lt hpos hanti hl hab)
  rcases hother with hab' | hb
  · exact (points_lt hpos hanti hl' hab').le
  · rw [points_of_not_mem hb]
    exact points_nonneg hpos hl'

end Points

end Ranking
