import Mathlib.Data.List.Induction
import Mathlib.Order.Lattice
import RationaleVault.Library.Fold

/-!
# Registers that keep the last write

A register is overwritten or cleared by timed writes and keeps nothing of
what it held before. A reader who asks for an earlier time can see that the
present value is too young, but no longer what it replaced. The rule below
says for which write histories the answer is still right.
-/

universe u v w

namespace LastWrite

variable {τ : Type u} {α : Type v} {β : Type w}

/-- What a register holds after the writes; a write of `none` clears it. -/
def final (writes : List (τ × Option α)) : Option α := writes.getLast?.bind Prod.snd

@[simp] theorem final_nil : final ([] : List (τ × Option α)) = none := rfl

theorem final_concat (writes : List (τ × Option α)) (w : τ × Option α) :
    final (writes ++ [w]) = w.2 := by
  simp [final]

/-- A register that held `start` before the writes. -/
def finalFrom (start : Option α) (writes : List (τ × Option α)) : Option α :=
  writes.foldl (fun _ w => w.2) start

theorem finalFrom_none (writes : List (τ × Option α)) : finalFrom none writes = final writes := by
  induction writes using List.reverseRecOn with
  | nil => rfl
  | append_singleton writes w _ =>
      rw [final_concat, finalFrom, List.foldl_append]
      rfl

/-- A fold that writes the register at some of its elements leaves the last of these writes. -/
theorem finalFrom_filterMap {ε σ ι : Type*} {f : σ → ι → Except ε σ} (read : σ → Option α)
    {write : ι → Option (τ × Option α)}
    (hstep : ∀ s x s', f s x = .ok s' → read s' = ((write x).map Prod.snd).getD (read s))
    {l : List ι} {s s' : σ} (h : l.foldlM f s = .ok s') :
    read s' = finalFrom (read s) (l.filterMap write) := by
  induction l generalizing s with
  | nil =>
      rw [List.foldlM_nil, Except.pure_eq_ok_iff] at h
      exact congrArg read h.symm
  | cons x rest ih =>
      rw [List.foldlM_cons, Except.bind_eq_ok_iff] at h
      obtain ⟨t, ht, hrest⟩ := h
      rw [ih hrest, hstep s x t ht, List.filterMap_cons]
      cases write x with
      | none => rfl
      | some w => rfl

/-! ## Registers that have to be created -/

/-- A write creates the register, or changes it if it exists. -/
inductive Write (α : Type v)
  | create (value : α)
  | update (value : α)

namespace Write

def value : Write α → α
  | create v => v
  | update v => v

/-- The register after the write. -/
def apply : Write α → Option α → Option α
  | create v, _ => some v
  | update v, held => held.map fun _ => v

end Write

section Holds

variable {ι : Type w} {write : ι → Option (Write α)} {l : List ι} {v : α}

/-- Some element creates the register. -/
def Created (write : ι → Option (Write α)) (l : List ι) : Prop :=
  ∃ x ∈ l, ∃ v, write x = some (.create v)

/-- The last write to a register that was created by then writes `v`. -/
def Holds (write : ι → Option (Write α)) (l : List ι) (v : α) : Prop :=
  ∃ A x B w, l = A ++ x :: B ∧ write x = some w ∧ w.value = v ∧ Created write (A ++ [x]) ∧
    ∀ y ∈ B, write y = none

theorem not_holds_nil : ¬ Holds write [] v := by
  rintro ⟨A, x, B, w, h, _⟩
  simp at h

theorem created_concat {x : ι} :
    Created write (l ++ [x]) ↔ Created write l ∨ ∃ v, write x = some (.create v) := by
  simp [Created, or_and_right, exists_or]

theorem holds_concat_of_none {x : ι} (hx : write x = none) :
    Holds write (l ++ [x]) v ↔ Holds write l v := by
  constructor
  · rintro ⟨A, y, B, w, hl, hy, hw, hcreated, hrest⟩
    rcases List.eq_nil_or_concat B with rfl | ⟨B, z, rfl⟩
    · obtain ⟨rfl, heq⟩ := List.append_inj' hl rfl
      obtain rfl := (List.cons.inj heq).1
      cases hx.symm.trans hy
    · rw [List.concat_eq_append, ← List.cons_append, ← List.append_assoc] at hl
      refine ⟨A, y, B, w, (List.append_inj' hl rfl).1, hy, hw, hcreated, fun z' hz' => ?_⟩
      exact hrest z' (by simp [hz'])
  · rintro ⟨A, y, B, w, rfl, hy, hw, hcreated, hrest⟩
    refine ⟨A, y, B ++ [x], w, by simp, hy, hw, hcreated, fun z hz => ?_⟩
    rcases List.mem_append.mp hz with hz | hz
    · exact hrest z hz
    · rw [List.mem_singleton.mp hz, hx]

theorem holds_concat_of_some {x : ι} {w : Write α} (hx : write x = some w) :
    Holds write (l ++ [x]) v ↔ w.value = v ∧ Created write (l ++ [x]) := by
  constructor
  · rintro ⟨A, y, B, w', hl, hy, hw, hcreated, hrest⟩
    rcases List.eq_nil_or_concat B with rfl | ⟨B, z, rfl⟩
    · obtain ⟨rfl, heq⟩ := List.append_inj' hl rfl
      obtain rfl := (List.cons.inj heq).1
      rw [hx] at hy
      exact ⟨Option.some.inj hy ▸ hw, hcreated⟩
    · rw [List.concat_eq_append, ← List.cons_append, ← List.append_assoc] at hl
      obtain rfl := (List.cons.inj (List.append_inj' hl rfl).2).1
      have hnone := hrest x (by simp)
      cases hx.symm.trans hnone
  · rintro ⟨rfl, hcreated⟩
    exact ⟨l, x, [], w, rfl, hx, rfl, hcreated, by simp⟩

/-- A list with an element of a kind splits at the last one. -/
theorem exists_last_split {p : ι → Prop} (h : ∃ x ∈ l, p x) :
    ∃ A x B, l = A ++ x :: B ∧ p x ∧ ∀ y ∈ B, ¬ p y := by
  induction l using List.reverseRecOn with
  | nil => simp at h
  | append_singleton l x ih =>
      by_cases hx : p x
      · exact ⟨l, x, [], rfl, hx, by simp⟩
      · obtain ⟨y, hy, hpy⟩ := h
        have hmem : y ∈ l := by
          rcases List.mem_append.mp hy with hy | hy
          · exact hy
          · exact absurd (List.mem_singleton.mp hy ▸ hpy) hx
        obtain ⟨A, z, B, rfl, hz, hrest⟩ := ih ⟨y, hmem, hpy⟩
        refine ⟨A, z, B ++ [x], by simp, hz, fun y hy => ?_⟩
        rcases List.mem_append.mp hy with hy | hy
        · exact hrest y hy
        · rw [List.mem_singleton.mp hy]
          exact hx

/-- Two splits of a list are at one place, or one of them lies in the rest of the other. -/
theorem split_cases {A B A' B' : List ι} {x y : ι} (h : A ++ x :: B = A' ++ y :: B') :
    (A = A' ∧ x = y ∧ B = B') ∨ (∃ C, B = C ++ y :: B' ∧ A' = A ++ x :: C) ∨
      ∃ C, B' = C ++ x :: B ∧ A = A' ++ y :: C := by
  induction A generalizing A' with
  | nil =>
      cases A' with
      | nil =>
          obtain ⟨hx, hB⟩ := List.cons.inj h
          exact Or.inl ⟨rfl, hx, hB⟩
      | cons a A' =>
          obtain ⟨rfl, hB⟩ := List.cons.inj h
          exact Or.inr (Or.inl ⟨A', hB, rfl⟩)
  | cons a A ih =>
      cases A' with
      | nil =>
          obtain ⟨rfl, hB⟩ := List.cons.inj h
          exact Or.inr (Or.inr ⟨A, hB.symm, rfl⟩)
      | cons a' A' =>
          obtain ⟨rfl, hrest⟩ := List.cons.inj h
          rcases ih hrest with ⟨rfl, hx, hB⟩ | ⟨C, hB, rfl⟩ | ⟨C, hB, rfl⟩
          · exact Or.inl ⟨rfl, hx, hB⟩
          · exact Or.inr (Or.inl ⟨C, hB, rfl⟩)
          · exact Or.inr (Or.inr ⟨C, hB, rfl⟩)

/-- Writes of one value after the creation leave that value. -/
theorem holds_append {A B : List ι} (hcreated : Created write A) (hsome : ∃ y ∈ B, write y ≠ none)
    (hall : ∀ y ∈ B, ∀ w, write y = some w → w.value = v) : Holds write (A ++ B) v := by
  obtain ⟨C, y, D, rfl, hy, hrest⟩ := exists_last_split hsome
  obtain ⟨w, hw⟩ := Option.ne_none_iff_exists'.mp hy
  obtain ⟨z, hz, v', hz'⟩ := hcreated
  exact ⟨A ++ C, y, D, w, by simp, hw, hall y (by simp) w hw, ⟨z, by simp [hz], v', hz'⟩,
    fun y' hy' => not_not.mp (hrest y' hy')⟩

/-- A fold that writes the register at some of its elements holds what the last write left. -/
theorem read_eq_some_iff {ε σ : Type*} {f : σ → ι → Except ε σ} (read : σ → Option α)
    (hstep : ∀ s x s', f s x = .ok s' →
      read s' = ((write x).map fun w => w.apply (read s)).getD (read s))
    {s s' : σ} (hs : read s = none) (h : l.foldlM f s = .ok s') :
    (read s' = some v ↔ Holds write l v) ∧ (read s' = none ↔ ¬ Created write l) := by
  induction l using List.reverseRecOn generalizing s' v with
  | nil =>
      rw [List.foldlM_nil, Except.pure_eq_ok_iff] at h
      rw [← h, hs]
      simp [not_holds_nil, Created]
  | append_singleton l x ih =>
      rw [List.foldlM_append, Except.bind_eq_ok_iff] at h
      obtain ⟨t, ht, hx⟩ := h
      simp only [List.foldlM_cons, List.foldlM_nil, bind_pure] at hx
      have hread := hstep t x s' hx
      cases hw : write x with
      | none =>
          rw [hw] at hread
          rw [holds_concat_of_none hw, created_concat, hw, hread]
          simpa using ih ht
      | some w =>
          rw [hw] at hread
          rw [holds_concat_of_some hw, created_concat, hw, hread]
          have hheld := (ih (v := v) ht).2
          cases w with
          | create v' => simp [Write.apply, Write.value]
          | update v' =>
              cases hr : read t with
              | none => simp [Write.apply, hheld.mp hr]
              | some held =>
                  have hcreated : Created write l := by
                    by_contra hno
                    rw [hheld.mpr hno] at hr
                    cases hr
                  simp [Write.apply, Write.value, hcreated]

end Holds

/-! ## Reading as of a time -/

variable [LinearOrder τ]

/-- The writes up to a time. -/
def upTo (t : τ) (writes : List (τ × Option α)) : List (τ × Option α) :=
  writes.filter fun w => w.1 ≤ t

/-- Restricting the history of writes is restricting what they come from. -/
theorem filterMap_filter {ι : Type w} {write : ι → Option (τ × Option α)} {time : ι → τ}
    (htime : ∀ x w, write x = some w → w.1 = time x) (t : τ) (l : List ι) :
    (l.filter fun x => time x ≤ t).filterMap write = upTo t (l.filterMap write) := by
  induction l with
  | nil => rfl
  | cons x rest ih =>
      cases hw : write x with
      | none => rw [List.filterMap_cons_none hw, ← ih, List.filter_cons]; split <;> simp [hw]
      | some w =>
          rw [List.filterMap_cons_some hw, upTo, List.filter_cons, List.filter_cons,
            htime x w hw]
          split
          · rw [List.filterMap_cons_some hw, ih, upTo]
          · rw [ih, upTo]

/-- A reader that takes too young a value for no value sees what the register held at time
`t` exactly when nothing was written since, or what it held then looks like no value. -/
theorem read_eq_iff {t : τ} {writes : List (τ × Option α)} {late : α → Bool}
    (hsorted : writes.Pairwise fun w w' => w.1 ≤ w'.1)
    (hlate : ∀ w ∈ writes, ∀ a, w.2 = some a → late a = decide (t < w.1))
    (view : Option α → β) :
    view ((final writes).filter fun a => !late a) = view (final (upTo t writes)) ↔
      (∀ w ∈ writes, w.1 ≤ t) ∨ view (final (upTo t writes)) = view none := by
  by_cases hall : ∀ w ∈ writes, w.1 ≤ t
  · refine iff_of_true ?_ (Or.inl hall)
    have hself : upTo t writes = writes :=
      List.filter_eq_self.mpr fun w hw => by simpa using hall w hw
    rw [hself]
    congr 1
    cases hfinal : final writes with
    | none => rfl
    | some a =>
        obtain ⟨w, hw, hwa⟩ := Option.bind_eq_some_iff.mp hfinal
        have hmem := List.mem_of_getLast? hw
        have hfresh : late a = false := by
          rw [hlate w hmem a hwa]
          simpa using hall w hmem
        simp [hfresh]
  · -- the last write is younger than `t`, so what the register holds is not shown
    have hnone : (final writes).filter (fun a => !late a) = none := by
      cases hfinal : final writes with
      | none => rfl
      | some a =>
          obtain ⟨w, hw, hwa⟩ := Option.bind_eq_some_iff.mp hfinal
          have hmem := List.mem_of_getLast? hw
          have hlast : t < w.1 := by
            by_contra hle
            apply hall
            intro w' hw'
            obtain ⟨init, hinit⟩ := List.getLast?_eq_some_iff.mp hw
            rw [hinit] at hw' hsorted
            rcases List.mem_append.mp hw' with hw' | hw'
            · have hbefore : w'.1 ≤ w.1 := (List.pairwise_append.mp hsorted).2.2 w' hw' w (by simp)
              exact le_trans hbefore (not_lt.mp hle)
            · rw [List.mem_singleton] at hw'
              exact hw' ▸ not_lt.mp hle
          simp [hlate w hmem a hwa, hlast]
    rw [hnone]
    constructor
    · exact fun h => Or.inr h.symm
    · rintro (h | h)
      · exact absurd h hall
      · exact h.symm

end LastWrite
