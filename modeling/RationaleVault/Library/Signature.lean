import Mathlib.Data.List.Basic

/-!
# Binding the arguments of a call

A function has named parameters, some with a default. A call gives the first
arguments by position and others by keyword. It binds every parameter to a value
exactly if it gives no more arguments than there are parameters, names no
unknown and no given one, and leaves out only parameters that have a default.
-/

/-- The parameters of a function in order, and the defaults of those that have one. -/
structure Signature (α : Type*) where
  params : List String
  defaults : List (String × α)

namespace Signature

variable {α : Type*} (S : Signature α) (args : List α) (kwargs : List (String × α))

/-- Whether the position of a parameter is given. -/
def Given (p : String) : Prop := p ∈ S.params.take args.length

instance (p : String) : Decidable (S.Given args p) := inferInstanceAs (Decidable (_ ∈ _))

/-- The value of a parameter: given by position, by keyword or by default. -/
def value (p : String) : Option α :=
  (S.params.zip args ++ kwargs ++ S.defaults).lookup p

/-- The call is in order. -/
structure Accepts : Prop where
  few : args.length ≤ S.params.length
  known : ∀ kw ∈ kwargs, kw.1 ∈ S.params ∧ ¬ S.Given args kw.1
  complete : ∀ p ∈ S.params, (S.value args kwargs p).isSome

/-- The parameters with their values. -/
def bind : Option (List (String × α)) :=
  if args.length ≤ S.params.length ∧ ∀ kw ∈ kwargs, kw.1 ∈ S.params ∧ ¬ S.Given args kw.1 then
    S.params.mapM fun p => (S.value args kwargs p).map fun v => (p, v)
  else none

theorem isSome_mapM {β γ : Type*} {f : β → Option γ} {l : List β} :
    (l.mapM f).isSome ↔ ∀ x ∈ l, (f x).isSome := by
  induction l with
  | nil => simp
  | cons x rest ih =>
      rw [List.mapM_cons, List.forall_mem_cons, ← ih]
      cases f x with
      | none => simp
      | some y => cases rest.mapM f with
        | none => simp
        | some ys => simp

variable {S args kwargs}

theorem isSome_bind : (S.bind args kwargs).isSome ↔ S.Accepts args kwargs := by
  rw [bind]
  split
  next h =>
    rw [isSome_mapM]
    constructor
    · exact fun hall => ⟨h.1, h.2, fun p hp => by simpa using hall p hp⟩
    · exact fun hok p hp => by simpa using hok.complete p hp
  next h => exact ⟨fun hnone => absurd hnone (by simp), fun hok => absurd ⟨hok.few, hok.known⟩ h⟩

theorem bind_eq_none : S.bind args kwargs = none ↔ ¬ S.Accepts args kwargs := by
  rw [← isSome_bind, Option.not_isSome_iff_eq_none]

/-- A keyword that names no parameter is refused. -/
theorem bind_eq_none_of_unknown {kw : String × α} (h : kw ∈ kwargs) (hkw : kw.1 ∉ S.params) :
    S.bind args kwargs = none :=
  bind_eq_none.mpr fun hok => hkw (hok.known kw h).1

end Signature
