import Mathlib.Data.List.Basic
import Mathlib.Logic.Basic

/-!
# Items that can be retired

A shelf shows the items that were put on it by their keys and says which of them are
active. Putting an item makes it active. Retiring items before others are put
differs from not retiring them only at the items that are not put again.
-/

universe u v

/-- What is shown under each key, and whether it is active. -/
abbrev ItemShelf (κ : Type u) (β : Type v) := κ → Option (β × Bool)

namespace ItemShelf

variable {κ : Type u} {β : Type v} {S S' : ItemShelf κ β} {k : κ}

def Active (S : ItemShelf κ β) (k : κ) : Prop := ∃ b, S k = some (b, true)

/-- Retire the items that the test picks. -/
def retire (S : ItemShelf κ β) (p : κ → β → Bool) : ItemShelf κ β := fun k =>
  (S k).map fun x => (x.1, x.2 && !p k x.1)

theorem retire_apply (p : κ → β → Bool) (k : κ) :
    S.retire p k = (S k).map fun x => (x.1, x.2 && !p k x.1) := rfl

theorem active_retire {p : κ → β → Bool} :
    (S.retire p).Active k ↔ ∃ b, S k = some (b, true) ∧ p k b = false := by
  simp only [Active, retire_apply, Option.map_eq_some_iff, Prod.exists, Prod.mk.injEq,
    Bool.and_eq_true, Bool.not_eq_true']
  constructor
  · rintro ⟨_, b, _, hb, rfl, rfl, hp⟩
    exact ⟨b, hb, hp⟩
  · rintro ⟨b, hb, hp⟩
    exact ⟨b, b, true, hb, rfl, rfl, hp⟩

theorem retire_of_not_active {p : κ → β → Bool}
    (h : ∀ k b, S k = some (b, true) → p k b = false) : S.retire p = S := by
  funext k
  rw [retire_apply]
  cases hk : S k with
  | none => rfl
  | some x =>
      obtain ⟨b, active⟩ := x
      cases active with
      | false => rfl
      | true => simp [h k b hk]

variable [DecidableEq κ]

/-- Put an item on the shelf. -/
def put (S : ItemShelf κ β) (e : κ × β) : ItemShelf κ β := fun k =>
  if e.1 = k then some (e.2, true) else S k

theorem put_of_ne {e : κ × β} (h : e.1 ≠ k) : S.put e k = S k := if_neg h

/-- Put items on the shelf one after the other. -/
def putAll (S : ItemShelf κ β) (es : List (κ × β)) : ItemShelf κ β := es.foldl put S

theorem putAll_cons (e : κ × β) (es : List (κ × β)) :
    S.putAll (e :: es) = (S.put e).putAll es := rfl

theorem putAll_of_not_mem {es : List (κ × β)} (h : k ∉ es.map Prod.fst) : S.putAll es k = S k := by
  induction es generalizing S with
  | nil => rfl
  | cons e rest ih =>
      rw [List.map_cons, List.mem_cons, not_or] at h
      rw [putAll_cons, ih h.2, put_of_ne (Ne.symm h.1)]

/-- What was on the shelf does not matter under the keys of the new items. -/
theorem putAll_congr {es : List (κ × β)} (h : k ∈ es.map Prod.fst ∨ S k = S' k) :
    S.putAll es k = S'.putAll es k := by
  induction es generalizing S S' with
  | nil => exact h.resolve_left (by simp)
  | cons e rest ih =>
      rw [putAll_cons, putAll_cons]
      apply ih
      by_cases hk : e.1 = k
      · exact Or.inr (by rw [put, put, if_pos hk, if_pos hk])
      · rw [List.map_cons, List.mem_cons] at h
        rw [put_of_ne hk, put_of_ne hk]
        exact h.imp_left fun hmem => hmem.resolve_left (Ne.symm hk)

/-- What is active after items were put is active when others were not retired before. -/
theorem active_of_active_early {p : κ → β → Bool} {es : List (κ × β)}
    (h : ((S.retire p).putAll es).Active k) : (S.putAll es).Active k := by
  by_cases hnew : k ∈ es.map Prod.fst
  · have hput : (S.retire p).putAll es k = S.putAll es k := putAll_congr (Or.inl hnew)
    rwa [Active, hput] at h
  · rw [Active, putAll_of_not_mem hnew] at h
    obtain ⟨b, hb, _⟩ := active_retire.mp h
    exact ⟨b, (putAll_of_not_mem hnew).trans hb⟩

/-- Where every item that is retired early is put again or retired late, the shelf is the same. -/
theorem early_eq_late {p q : κ → β → Bool} {es : List (κ × β)}
    (h : ∀ k b, S k = some (b, true) → p k b = true → k ∉ es.map Prod.fst → q k b = true) :
    ((S.retire p).putAll es).retire q = (S.putAll es).retire q := by
  funext k
  rw [retire_apply, retire_apply]
  by_cases hnew : k ∈ es.map Prod.fst
  · have hput : (S.retire p).putAll es k = S.putAll es k := putAll_congr (Or.inl hnew)
    rw [hput]
  · rw [putAll_of_not_mem hnew, putAll_of_not_mem hnew, retire_apply]
    cases hk : S k with
    | none => rfl
    | some x =>
        obtain ⟨b, active⟩ := x
        cases active with
        | false => rfl
        | true =>
            cases hp : p k b with
            | false => simp [hp]
            | true => simp [hp, h k b hk hp hnew]

/-- Items that are retired early and items that are retired late. -/
theorem active_early_iff_late {p q : κ → β → Bool} {es : List (κ × β)} :
    (∀ k, ((S.putAll es).retire q).Active k ↔ (((S.retire p).putAll es).retire q).Active k) ↔
      ∀ k b, S k = some (b, true) → p k b = true → k ∉ es.map Prod.fst → q k b = true := by
  constructor
  · intro h k b hk hp hnew
    by_contra hq
    rw [Bool.not_eq_true] at hq
    have hlate : ((S.putAll es).retire q).Active k := by
      rw [active_retire, putAll_of_not_mem hnew]
      exact ⟨b, hk, hq⟩
    obtain ⟨b', hb', _⟩ := active_retire.mp ((h k).mp hlate)
    rw [putAll_of_not_mem hnew] at hb'
    obtain ⟨b'', hb'', hp'⟩ := active_retire.mp ⟨b', hb'⟩
    obtain rfl : b = b'' := (Prod.mk.inj (Option.some.inj (hk.symm.trans hb''))).1
    rw [hp] at hp'
    cases hp'
  · intro h k
    rw [early_eq_late h]

end ItemShelf
