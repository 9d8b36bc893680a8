import Mathlib.Data.Finset.Card
import Mathlib.Data.Finset.SymmDiff
import Mathlib.Data.List.Sort
import Mathlib.Order.SymmDiff

/-!
# Sets as sorted lists

A set is kept as the list of its elements in order, each once. Two lists with
the same members give one such list. What was added to a list and what was
removed from it turn the one set into the other, and their number is a distance
between the sets.
-/

namespace SortedSet

variable {α : Type*} [LinearOrder α]

/-- The elements of a list in order, each once. -/
def ofList (xs : List α) : List α := xs.dedup.insertionSort (· ≤ ·)

/-- The elements of the first list that are not in the second. -/
def sdiff (xs ys : List α) : List α := ofList (xs.filter fun x => !ys.contains x)

/-- A set without what was removed and with what was added. -/
def patch (xs added removed : List α) : List α :=
  ofList ((xs.filter fun x => !removed.contains x) ++ added)

/-- The number of elements that were added or removed. -/
def dist (xs ys : List α) : Nat := (sdiff ys xs).length + (sdiff xs ys).length

variable {xs ys zs : List α} {x : α}

@[simp] theorem mem_ofList : x ∈ ofList xs ↔ x ∈ xs := by
  rw [ofList, List.mem_insertionSort, List.mem_dedup]

@[simp] theorem mem_sdiff : x ∈ sdiff xs ys ↔ x ∈ xs ∧ x ∉ ys := by simp [sdiff]

theorem pairwise_ofList (xs : List α) : (ofList xs).Pairwise (· < ·) := by
  have hle : (ofList xs).Pairwise (· ≤ ·) := List.pairwise_insertionSort _ _
  have hne : (ofList xs).Nodup := (List.perm_insertionSort _ _).nodup_iff.mpr xs.nodup_dedup
  exact (hle.and hne).imp fun h => lt_of_le_of_ne h.1 h.2

/-- Lists with the same members are one set. -/
theorem ofList_congr (h : ∀ x, x ∈ xs ↔ x ∈ ys) : ofList xs = ofList ys := by
  have hasymm : ∀ a b : α, a ∈ ofList xs → b ∈ ofList ys → a < b → b < a → a = b :=
    fun a b _ _ hab hba => absurd hba hab.asymm
  apply List.Perm.eq_of_pairwise hasymm
  · exact pairwise_ofList xs
  · exact pairwise_ofList ys
  · rw [List.perm_ext_iff_of_nodup ((pairwise_ofList xs).imp fun h => h.ne)
      ((pairwise_ofList ys).imp fun h => h.ne)]
    simpa using h

theorem ofList_eq_ofList_iff : ofList xs = ofList ys ↔ ∀ x, x ∈ xs ↔ x ∈ ys :=
  ⟨fun h x => by rw [← mem_ofList, h, mem_ofList], ofList_congr⟩

@[simp] theorem ofList_ofList (xs : List α) : ofList (ofList xs) = ofList xs :=
  ofList_congr fun _ => mem_ofList

theorem length_ofList (xs : List α) : (ofList xs).length = xs.toFinset.card := by
  rw [ofList, List.length_insertionSort, List.card_toFinset]

/-! ## Differences -/

/-- What was added and removed turns the one set into the other. -/
theorem patch_sdiff (xs ys : List α) : patch xs (sdiff ys xs) (sdiff xs ys) = ofList ys := by
  apply ofList_congr
  intro x
  by_cases hx : x ∈ xs <;> by_cases hy : x ∈ ys <;> simp [hx, hy]

theorem length_sdiff (xs ys : List α) :
    (sdiff xs ys).length = (xs.toFinset \ ys.toFinset).card := by
  rw [sdiff, length_ofList]
  congr 1
  ext x
  simp

theorem dist_eq_card (xs ys : List α) :
    dist xs ys = (symmDiff xs.toFinset ys.toFinset).card := by
  rw [dist, length_sdiff, length_sdiff, symmDiff_def, Finset.sup_eq_union,
    Finset.card_union_of_disjoint disjoint_sdiff_sdiff, Nat.add_comm]

theorem dist_comm (xs ys : List α) : dist xs ys = dist ys xs := Nat.add_comm ..

theorem dist_triangle (xs ys zs : List α) : dist xs zs ≤ dist xs ys + dist ys zs := by
  rw [dist_eq_card, dist_eq_card, dist_eq_card]
  exact (Finset.card_le_card (symmDiff_triangle ..)).trans (Finset.card_union_le ..)

theorem sdiff_eq_nil_iff : sdiff xs ys = [] ↔ ∀ x ∈ xs, x ∈ ys := by
  rw [List.eq_nil_iff_forall_not_mem]
  exact forall_congr' fun x => by rw [mem_sdiff, not_and_not_right]

/-- Nothing was added or removed exactly if the sets are the same. -/
theorem dist_eq_zero_iff : dist xs ys = 0 ↔ ofList xs = ofList ys := by
  rw [dist, Nat.add_eq_zero_iff, List.length_eq_zero_iff, List.length_eq_zero_iff,
    sdiff_eq_nil_iff, sdiff_eq_nil_iff, ofList_eq_ofList_iff]
  exact ⟨fun h x => ⟨h.2 x, h.1 x⟩, fun h => ⟨fun x => (h x).mpr, fun x => (h x).mp⟩⟩

end SortedSet
