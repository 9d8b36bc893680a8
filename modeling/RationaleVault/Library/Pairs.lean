import Mathlib.Data.List.Nodup

/-!
# What is found between the elements of a list

Every element is compared with each later one. A comparison that reads both sides
alike finds the same in every order of the list.
-/

universe u v w

namespace Pairs

variable {α : Type u} {β : Type v} {γ : Type w}

/-- What is found between an element and a later one. -/
def pairs (f : α → α → Option β) : List α → List β
  | [] => []
  | a :: rest => rest.filterMap (f a) ++ pairs f rest

variable {f : α → α → Option β}

theorem mem_pairs {l : List α} {b : β} :
    b ∈ pairs f l ↔ ∃ a a', [a, a'].Sublist l ∧ f a a' = some b := by
  induction l with
  | nil => simp [pairs]
  | cons a rest ih =>
      rw [pairs, List.mem_append, List.mem_filterMap, ih]
      constructor
      · rintro (⟨a', ha', hf⟩ | ⟨a₁, a₂, hsub, hf⟩)
        · exact ⟨a, a', (List.singleton_sublist.mpr ha').cons_cons a, hf⟩
        · exact ⟨a₁, a₂, hsub.cons a, hf⟩
      · rintro ⟨a₁, a₂, hsub, hf⟩
        cases hsub with
        | cons _ hsub => exact Or.inr ⟨a₁, a₂, hsub, hf⟩
        | cons_cons _ hsub => exact Or.inl ⟨a₂, List.singleton_sublist.mp hsub, hf⟩

theorem filterMap_pairs (g : β → Option γ) (l : List α) :
    (pairs f l).filterMap g = pairs (fun a a' => (f a a').bind g) l := by
  induction l with
  | nil => rfl
  | cons a rest ih => rw [pairs, List.filterMap_append, List.filterMap_filterMap, ih, pairs]

theorem pairs_congr {f' : α → α → Option β} {l : List α}
    (h : ∀ a ∈ l, ∀ a' ∈ l, f a a' = f' a a') : pairs f l = pairs f' l := by
  induction l with
  | nil => rfl
  | cons a rest ih =>
      have hrest : rest.filterMap (f a) = rest.filterMap (f' a) :=
        List.filterMap_congr fun a' ha' => h a List.mem_cons_self a' (List.mem_cons_of_mem _ ha')
      have htail : pairs f rest = pairs f' rest :=
        ih fun x hx y hy => h x (List.mem_cons_of_mem _ hx) y (List.mem_cons_of_mem _ hy)
      rw [pairs, pairs, hrest, htail]

/-- Every element of a list with each later one. -/
def couples (l : List α) : List (α × α) := pairs (fun a a' => some (a, a')) l

theorem mem_couples {l : List α} {p : α × α} : p ∈ couples l ↔ [p.1, p.2].Sublist l := by
  rw [couples, mem_pairs]
  constructor
  · rintro ⟨a, a', hsub, heq⟩
    cases heq
    exact hsub
  · intro hsub
    exact ⟨p.1, p.2, hsub, rfl⟩

theorem couples_cons (a : α) (rest : List α) :
    couples (a :: rest) = rest.map (Prod.mk a) ++ couples rest := by
  rw [couples, couples, pairs]
  congr 1
  exact congrFun List.filterMap_eq_map' rest

theorem nodup_couples {l : List α} (hl : l.Nodup) : (couples l).Nodup := by
  induction l with
  | nil => exact .nil
  | cons a rest ih =>
      obtain ⟨hfresh, hrest⟩ := List.nodup_cons.mp hl
      rw [couples_cons, List.nodup_append']
      refine ⟨hrest.map fun _ _ h => congrArg Prod.snd h, ih hrest, ?_⟩
      intro p hp hp'
      obtain ⟨a', _, rfl⟩ := List.mem_map.mp hp
      exact hfresh ((mem_couples.mp hp').subset List.mem_cons_self)

/-- A comparison that reads both sides alike does not see the order of the list. -/
theorem pairs_perm (hf : ∀ a a', f a a' = f a' a) {l l' : List α} (h : l.Perm l') :
    (pairs f l).Perm (pairs f l') := by
  induction h with
  | nil => exact .refl _
  | cons a h ih => exact (h.filterMap (f a)).append ih
  | swap a b rest =>
      have hboth : ∀ a b : α, pairs f (a :: b :: rest) =
          (f a b).toList ++ (rest.filterMap (f a) ++ rest.filterMap (f b)) ++ pairs f rest := by
        intro a b
        rw [pairs, pairs, List.filterMap_cons]
        cases f a b <;> simp
      rw [hboth, hboth, hf b a]
      apply List.Perm.append_right
      exact List.perm_append_comm.append_left _
  | trans _ _ ih ih' => exact ih.trans ih'

end Pairs
