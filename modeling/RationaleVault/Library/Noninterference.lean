import Mathlib.Data.List.Basic

/-!
# Runs without interference

A system serves the requests of several parties. When a party's own requests
act on its part of the state as they would on that part alone, and the requests
of the others leave that part alone, the party sees of every run what it would
see of a run of its own requests.
-/

universe u v

namespace Noninterference

variable {σ : Type u} {α : Type v}

/-- Every request of the run meets the condition in the state it is served in. -/
def Along (ok : σ → α → Prop) (step : σ → α → σ) (s : σ) (as : List α) : Prop :=
  ∀ pre a post, as = pre ++ a :: post → ok (pre.foldl step s) a

theorem Along.head {ok : σ → α → Prop} {step : σ → α → σ} {s : σ} {a : α} {as : List α}
    (h : Along ok step s (a :: as)) : ok s a := h [] a as rfl

theorem Along.tail {ok : σ → α → Prop} {step : σ → α → σ} {s : σ} {a : α} {as : List α}
    (h : Along ok step s (a :: as)) : Along ok step (step s a) as :=
  fun pre b post heq => h (a :: pre) b post (by rw [heq]; rfl)

theorem along_nil (ok : σ → α → Prop) (step : σ → α → σ) (s : σ) : Along ok step s [] :=
  fun pre a post h => absurd (congrArg List.length h) (by simp)

theorem Along.cons {ok : σ → α → Prop} {step : σ → α → σ} {s : σ} {a : α} {as : List α}
    (ha : ok s a) (has : Along ok step (step s a) as) : Along ok step s (a :: as) := by
  intro pre b post h
  cases pre with
  | nil => exact (List.cons.inj h).1 ▸ ha
  | cons c rest =>
      obtain ⟨rfl, htail⟩ := List.cons.inj h
      exact has rest b post htail

theorem Along.concat {ok : σ → α → Prop} {step : σ → α → σ} {s : σ} {as : List α} {a : α}
    (has : Along ok step s as) (ha : ok (as.foldl step s) a) : Along ok step s (as ++ [a]) := by
  intro pre b post h
  rcases List.eq_nil_or_concat post with rfl | ⟨mid, c, rfl⟩
  · obtain ⟨rfl, hlast⟩ := List.append_inj' h rfl
    exact (List.cons.inj hlast).1 ▸ ha
  · have hsplit : as ++ [a] = (pre ++ b :: mid) ++ [c] := by simpa using h
    exact has pre b mid (List.append_inj' hsplit rfl).1

theorem Along.init {ok : σ → α → Prop} {step : σ → α → σ} {s : σ} {as : List α} {a : α}
    (h : Along ok step s (as ++ [a])) : Along ok step s as := fun pre b post heq =>
  h pre b (post ++ [a]) (by rw [heq]; simp)

variable {step : σ → α → σ} {mine : α → Bool} {ok : σ → α → Prop}

/-- The unwinding rule. -/
theorem view_run (view : σ → σ) (inv : σ → Prop)
    (hinv : ∀ s a, inv s → inv (step s a))
    (hlocal : ∀ s a, inv s → ok s a → mine a = true → view (step s a) = step (view s) a)
    (hframe : ∀ s a, inv s → ok s a → mine a = false → view (step s a) = view s)
    {s : σ} (hs : inv s) {as : List α} (has : Along ok step s as) :
    view (as.foldl step s) = (as.filter mine).foldl step (view s) := by
  induction as generalizing s with
  | nil => rfl
  | cons a rest ih =>
      rw [List.foldl_cons, ih (hinv s a hs) has.tail]
      cases hmine : mine a with
      | true => rw [List.filter_cons_of_pos hmine, List.foldl_cons, hlocal s a hs has.head hmine]
      | false => rw [List.filter_cons_of_neg (by simp [hmine]), hframe s a hs has.head hmine]

end Noninterference
