import Mathlib.Algebra.Order.Field.Rat
import Mathlib.Data.List.Pairwise
import Mathlib.Data.List.Sort
import Mathlib.Data.String.Basic
import RationaleVault.Python

/-!
# Sorting by keys that may not compare

Texts compare with texts and numbers with numbers. A comparison sort of pairwise
different keys succeeds exactly if any two of them compare: in its result each
key was compared with its neighbour, so keys of two kinds would have met.
-/

namespace RationaleVault

/-- `a < b` does not raise. -/
def AtomNorm.comparable : AtomNorm → AtomNorm → Bool
  | .str _, .str _ => true
  | .num _, .num _ => true
  | _, _ => false

/-- `a <= b` for keys that compare. -/
def AtomNorm.le : AtomNorm → AtomNorm → Bool
  | .str s, .str t => s ≤ t
  | .num p, .num q => p ≤ q
  | _, _ => false

/-- `a < b` does not raise for pairs, which are compared where they first differ. -/
def AtomNorm.pairComparable (a b : AtomNorm × AtomNorm) : Bool :=
  if a.1 = b.1 then a.2 = b.2 || comparable a.2 b.2 else comparable a.1 b.1

/-- `a <= b` for pairs that compare. -/
def AtomNorm.pairLe (a b : AtomNorm × AtomNorm) : Bool :=
  if a.1 = b.1 then a.2 = b.2 || le a.2 b.2 else le a.1 b.1

/-- `sorted(xs, key=key)` for pairwise different keys. -/
def sortedBy {α κ : Type} (comparable le : κ → κ → Bool) (key : α → κ) (xs : List α) :
    Except Exc (List α) :=
  if xs.Pairwise fun x y => comparable (key x) (key y) = true then
    .ok (xs.insertionSort fun x y => le (key x) (key y))
  else .error .typeError

/-- The keys that compare are ordered among themselves. -/
structure Comparison {κ : Type} (comparable le : κ → κ → Bool) : Prop where
  symm : ∀ a b, comparable a b = true → comparable b a = true
  refl : ∀ a, le a a = true
  total : ∀ a b, comparable a b = true → le a b = true ∨ le b a = true
  antisymm : ∀ a b, le a b = true → le b a = true → a = b
  trans : ∀ a b c, le a b = true → le b c = true → le a c = true

section

variable {α κ : Type} {comparable le : κ → κ → Bool} {key : α → κ} {xs ys : List α}

theorem sortedBy_perm (h : sortedBy comparable le key xs = .ok ys) : ys.Perm xs := by
  rw [sortedBy] at h
  split at h
  · rw [← Except.ok.inj h]
    exact List.perm_insertionSort _ xs
  · cases h

/-- Sorting elements of which any two compare leaves them in order. -/
theorem Comparison.pairwise_insertionSort (hc : Comparison comparable le)
    (h : xs.Pairwise fun x y => comparable (key x) (key y) = true) :
    (xs.insertionSort fun x y => le (key x) (key y)).Pairwise fun x y =>
      le (key x) (key y) = true := by
  have : Std.Symm fun x y => comparable (key x) (key y) = true := ⟨fun _ _ => hc.symm _ _⟩
  have hall : ∀ x ∈ xs, ∀ y ∈ xs, le (key x) (key y) = true ∨ le (key y) (key x) = true := by
    intro x hx y hy
    by_cases hxy : x = y
    · exact Or.inl (hxy ▸ hc.refl _)
    · exact hc.total _ _ (h.forall hx hy hxy)
  -- the relation is total only among the elements of the list
  let r : {x // x ∈ xs} → {x // x ∈ xs} → Prop := fun x y => le (key x.1) (key y.1) = true
  have : Std.Total r := ⟨fun x y => hall x.1 x.2 y.1 y.2⟩
  have : IsTrans _ r := ⟨fun x y z => hc.trans _ _ _⟩
  have hsorted := List.pairwise_insertionSort r xs.attach
  have hmap := List.map_insertionSort r (fun x y => le (key x) (key y) = true) Subtype.val
    xs.attach fun _ _ _ _ => Iff.rfl
  rw [List.attach_map_subtype_val] at hmap
  rw [← hmap, List.pairwise_map]
  exact hsorted

/-- Whether sorting raises and what it returns does not depend on the order of the elements. -/
theorem Comparison.sortedBy_eq_of_perm (hc : Comparison comparable le) (hperm : xs.Perm ys)
    (hkeys : (xs.map key).Nodup) : sortedBy comparable le key xs = sortedBy comparable le key ys := by
  have : Std.Symm fun x y => comparable (key x) (key y) = true := ⟨fun _ _ => hc.symm _ _⟩
  rw [sortedBy, sortedBy]
  by_cases h : xs.Pairwise fun x y => comparable (key x) (key y) = true
  · have h' := (hperm.pairwise_iff fun hxy => hc.symm _ _ hxy).mp h
    rw [if_pos h, if_pos h']
    congr 1
    refine List.Perm.eq_of_pairwise (fun x y hx hy hxy hyx => ?_) (hc.pairwise_insertionSort h)
      (hc.pairwise_insertionSort h') ?_
    · have hy' : y ∈ xs := hperm.mem_iff.mpr ((List.mem_insertionSort _).mp hy)
      exact List.inj_on_of_nodup_map hkeys ((List.mem_insertionSort _).mp hx) hy'
        (hc.antisymm _ _ hxy hyx)
    · exact (List.perm_insertionSort _ xs).trans
        (hperm.trans (List.perm_insertionSort _ ys).symm)
  · have h' : ¬ ys.Pairwise fun x y => comparable (key x) (key y) = true := fun h' =>
      h ((hperm.pairwise_iff fun hxy => hc.symm _ _ hxy).mpr h')
    rw [if_neg h, if_neg h']

/-- Sorting what was sorted changes nothing. -/
theorem Comparison.sortedBy_sorted (hc : Comparison comparable le) (hkeys : (xs.map key).Nodup)
    (h : sortedBy comparable le key xs = .ok ys) : sortedBy comparable le key ys = .ok ys :=
  (hc.sortedBy_eq_of_perm (sortedBy_perm h).symm hkeys).symm.trans h

end

/-! ## Pairs of scalars -/

namespace AtomNorm

theorem comparable_symm {a b : AtomNorm} (h : comparable a b = true) : comparable b a = true := by
  cases a <;> cases b <;> first | rfl | cases h

theorem le_or_le {a b : AtomNorm} (h : comparable a b = true) : le a b = true ∨ le b a = true := by
  cases a with
  | null => cases h
  | num p =>
      cases b with
      | num q => simpa [le] using le_total p q
      | null => cases h
      | str t => cases h
  | str s =>
      cases b with
      | str t => simpa [le] using le_total s t
      | null => cases h
      | num q => cases h

theorem eq_of_le_of_le {a b : AtomNorm} (h : le a b = true) (h' : le b a = true) : a = b := by
  cases a with
  | null => cases h
  | num p =>
      cases b with
      | num q => rw [le_antisymm (of_decide_eq_true h) (of_decide_eq_true h')]
      | null => cases h
      | str t => cases h
  | str s =>
      cases b with
      | str t => rw [le_antisymm (of_decide_eq_true h) (of_decide_eq_true h')]
      | null => cases h
      | num q => cases h

theorem le_of_le_of_le {a b c : AtomNorm} (h : le a b = true) (h' : le b c = true) :
    le a c = true := by
  cases a with
  | null => cases h
  | num p =>
      cases b with
      | num q =>
          cases c with
          | num r => exact decide_eq_true ((of_decide_eq_true h).trans (of_decide_eq_true h'))
          | null => cases h'
          | str t => cases h'
      | null => cases h
      | str t => cases h
  | str s =>
      cases b with
      | str t =>
          cases c with
          | str r => exact decide_eq_true ((of_decide_eq_true h).trans (of_decide_eq_true h'))
          | null => cases h'
          | num q => cases h'
      | null => cases h
      | num q => cases h

/-- Pairs are ordered as their first parts, and for equal first parts as their second ones. -/
theorem pairLe_iff {a b : AtomNorm × AtomNorm} :
    pairLe a b = true ↔
      (a.1 = b.1 ∧ (a.2 = b.2 ∨ le a.2 b.2 = true)) ∨ (a.1 ≠ b.1 ∧ le a.1 b.1 = true) := by
  rw [pairLe]
  by_cases h : a.1 = b.1 <;> simp [h]

/-- Pairs compare as tuples do. -/
theorem comparison_pair : Comparison pairComparable pairLe where
  symm a b h := by
    rw [pairComparable] at h ⊢
    by_cases heq : a.1 = b.1
    · rw [if_pos heq.symm, Bool.or_eq_true, decide_eq_true_eq]
      rw [if_pos heq, Bool.or_eq_true, decide_eq_true_eq] at h
      exact h.imp Eq.symm comparable_symm
    · rw [if_neg (Ne.symm heq)]
      rw [if_neg heq] at h
      exact comparable_symm h
  refl a := by rw [pairLe_iff]; exact Or.inl ⟨rfl, Or.inl rfl⟩
  total a b h := by
    rw [pairComparable] at h
    rw [pairLe_iff, pairLe_iff]
    by_cases heq : a.1 = b.1
    · rw [if_pos heq, Bool.or_eq_true, decide_eq_true_eq] at h
      rcases h with h | h
      · exact Or.inl (Or.inl ⟨heq, Or.inl h⟩)
      · exact (le_or_le h).imp (fun h => Or.inl ⟨heq, Or.inr h⟩)
          fun h => Or.inl ⟨heq.symm, Or.inr h⟩
    · rw [if_neg heq] at h
      exact (le_or_le h).imp (fun h => Or.inr ⟨heq, h⟩) fun h => Or.inr ⟨Ne.symm heq, h⟩
  antisymm a b h h' := by
    rw [pairLe_iff] at h h'
    rcases h with ⟨heq, h⟩ | ⟨hne, h⟩
    · rcases h' with ⟨-, h'⟩ | ⟨hne, -⟩
      · apply Prod.ext heq
        rcases h with h | h
        · exact h
        · exact h'.elim Eq.symm fun h' => eq_of_le_of_le h h'
      · exact absurd heq.symm hne
    · rcases h' with ⟨heq, -⟩ | ⟨-, h'⟩
      · exact absurd heq.symm hne
      · exact absurd (eq_of_le_of_le h h') hne
  trans a b c h h' := by
    rw [pairLe_iff] at h h' ⊢
    rcases h with ⟨heq, h⟩ | ⟨hne, h⟩
    · rcases h' with ⟨heq', h'⟩ | ⟨hne', h'⟩
      · refine Or.inl ⟨heq.trans heq', ?_⟩
        rcases h with h | h
        · exact h ▸ h'
        · exact Or.inr (h'.elim (fun h' => h' ▸ h) fun h' => le_of_le_of_le h h')
      · exact Or.inr ⟨heq ▸ hne', heq ▸ h'⟩
    · rcases h' with ⟨heq', -⟩ | ⟨-, h'⟩
      · exact Or.inr ⟨heq' ▸ hne, heq' ▸ h⟩
      · refine Or.inr ⟨fun heq => hne ?_, le_of_le_of_le h h'⟩
        exact eq_of_le_of_le h (heq ▸ h')

end AtomNorm

end RationaleVault
