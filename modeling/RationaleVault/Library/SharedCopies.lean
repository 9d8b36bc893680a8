import Mathlib.Data.List.Induction
import Mathlib.Logic.Function.Basic

/-!
# Processes that change copies of one stored value

Each process loads the stored value, changes its copy and stores the whole copy.
What every change keeps holds of the stored value and of all copies, however the
processes interleave. If every change starts from a copy that is still current,
the stored value is that of one process that makes the changes in turn.
-/

namespace SharedCopies

variable {ι σ ω : Type*} [DecidableEq ι]

structure World (ι σ : Type*) where
  stored : σ
  copies : ι → σ

inductive Step (ι ω : Type*)
  | load (i : ι)
  | change (i : ι) (op : ω)

/-- All processes start from the same value. -/
def World.initial (s : σ) : World ι σ := ⟨s, fun _ => s⟩

-- `apply op s` is `none` where the change is refused
variable (apply : ω → σ → Option σ)

/-- A refused change stores nothing. -/
def World.step (w : World ι σ) : Step ι ω → World ι σ
  | .load i => { w with copies := Function.update w.copies i w.stored }
  | .change i op =>
      match apply op (w.copies i) with
      | some s => ⟨s, Function.update w.copies i s⟩
      | none => w

def World.run (w : World ι σ) (steps : List (Step ι ω)) : World ι σ := steps.foldl (step apply) w

/-- The value after one change of one process. -/
def attempt (s : σ) (op : ω) : σ := (apply op s).getD s

/-- The change of a step. -/
def Step.op? : Step ι ω → Option ω
  | .load _ => none
  | .change _ op => some op

/-- The process that changes its copy has a current one. -/
def World.Fresh (w : World ι σ) : Step ι ω → Prop
  | .load _ => True
  | .change i _ => w.copies i = w.stored

/-- Every change of the run starts from a current copy. -/
def World.FreshRun (w : World ι σ) : List (Step ι ω) → Prop
  | [] => True
  | a :: rest => w.Fresh a ∧ (w.step apply a).FreshRun rest

variable {apply} {w : World ι σ}

/-- The rule for invariants of any interleaving. -/
theorem World.run_invariant {P : σ → Prop}
    (happly : ∀ op s s', P s → apply op s = some s' → P s') (hstored : P w.stored)
    (hcopies : ∀ i, P (w.copies i)) (steps : List (Step ι ω)) :
    P (w.run apply steps).stored ∧ ∀ i, P ((w.run apply steps).copies i) := by
  induction steps generalizing w with
  | nil => exact ⟨hstored, hcopies⟩
  | cons a rest ih =>
      have hupdate : ∀ i s, P s → ∀ j, P (Function.update w.copies i s j) := by
        intro i s hs j
        rcases eq_or_ne j i with rfl | hne
        · rwa [Function.update_self]
        · rw [Function.update_of_ne hne]
          exact hcopies j
      cases a with
      | load i => exact ih hstored (hupdate i _ hstored)
      | change i op =>
          rw [run, List.foldl_cons, step]
          cases h : apply op (w.copies i) with
          | none => exact ih hstored hcopies
          | some s =>
              have hs : P s := happly op _ s (hcopies i) h
              exact ih hs (hupdate i s hs)

theorem World.stored_step_of_fresh {a : Step ι ω} (h : w.Fresh a) :
    (w.step apply a).stored = a.op?.elim w.stored (attempt apply w.stored) := by
  cases a with
  | load i => rfl
  | change i op =>
      have hcopy : w.copies i = w.stored := h
      rw [step, hcopy, Step.op?, Option.elim_some, attempt]
      cases apply op w.stored <;> rfl

/-- A run of changes from current copies stores what one process would store. -/
theorem World.stored_of_fresh {steps : List (Step ι ω)} (h : w.FreshRun apply steps) :
    (w.run apply steps).stored = (steps.filterMap Step.op?).foldl (attempt apply) w.stored := by
  induction steps generalizing w with
  | nil => rfl
  | cons a rest ih =>
      rw [run, List.foldl_cons]
      refine (ih h.2).trans ?_
      rw [stored_step_of_fresh h.1]
      cases a <;> rfl

theorem World.freshRun_append {before after : List (Step ι ω)} :
    w.FreshRun apply (before ++ after) ↔
      w.FreshRun apply before ∧ (w.run apply before).FreshRun apply after := by
  induction before generalizing w with
  | nil => simp [FreshRun, run]
  | cons a rest ih => rw [List.cons_append, FreshRun, FreshRun, ih, and_assoc]; rfl

end SharedCopies
