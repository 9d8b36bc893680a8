import Mathlib.Data.List.Nodup

/-!
# Greedy clusters

A scan makes every element that is not yet claimed a leader and collects the later elements
that are not claimed and close to it. A leader that finds none is passed over and is not
claimed: only clusters of two or more elements are kept, and only they claim their elements.
-/

universe u v

namespace Greedy

variable {α : Type u} {κ : Type v} [DecidableEq κ] (key : α → κ) (close : α → α → Bool)

/-- A leader and what it collects of the later elements. -/
def collect (claimed : List κ) (leader : α) (later : List α) : List α :=
  leader :: later.filter fun x => decide (key x ∉ claimed) && close leader x

/-- The clusters of the elements that are still to be scanned. -/
def clustersFrom : List α → List κ → List (List α)
  | [], _ => []
  | x :: rest, claimed =>
      if key x ∈ claimed then clustersFrom rest claimed
      else
        let cluster := collect key close claimed x rest
        if 1 < cluster.length then cluster :: clustersFrom rest (claimed ++ cluster.map key)
        else clustersFrom rest claimed

omit [DecidableEq κ] in
/-- What a scan promises of each cluster. -/
structure Cluster (xs : List α) (claimed : List κ) (c : List α) : Prop where
  sublist : c.Sublist xs
  free : ∀ x ∈ c, key x ∉ claimed
  led : ∃ leader members, c = leader :: members ∧ members ≠ [] ∧
    ∀ x ∈ members, close leader x = true

variable {key close} {xs : List α} {claimed : List κ} {x : α} {c : List α}

omit [DecidableEq κ] in
/-- A cluster of a shorter scan with more claims is one of the longer scan. -/
theorem Cluster.weaken {more : List κ} (h : Cluster key close xs (claimed ++ more) c) :
    Cluster key close (x :: xs) claimed c where
  sublist := h.sublist.cons x
  free y hy hmem := h.free y hy (List.mem_append_left _ hmem)
  led := h.led

theorem cluster_collect (hx : key x ∉ claimed)
    (hlength : 1 < (collect key close claimed x xs).length) :
    Cluster key close (x :: xs) claimed (collect key close claimed x xs) where
  sublist := List.filter_sublist.cons_cons x
  free y hy := by
    rcases List.mem_cons.mp hy with rfl | hy
    · exact hx
    · exact of_decide_eq_true (Bool.and_eq_true_iff.mp (List.mem_filter.mp hy).2).1
  led := by
    refine ⟨x, _, rfl, ?_, fun y hy => (Bool.and_eq_true_iff.mp (List.mem_filter.mp hy).2).2⟩
    intro hnil
    rw [collect, hnil] at hlength
    exact Nat.lt_irrefl _ hlength

theorem cluster_of_mem (hc : c ∈ clustersFrom key close xs claimed) :
    Cluster key close xs claimed c := by
  induction xs generalizing claimed with
  | nil => cases hc
  | cons x rest ih =>
      have hlater : c ∈ clustersFrom key close rest claimed →
          Cluster key close (x :: rest) claimed c := by
        intro hc
        have hlater : Cluster key close rest (claimed ++ []) c := by
          rw [List.append_nil]
          exact ih hc
        exact hlater.weaken
      simp only [clustersFrom] at hc
      split_ifs at hc with hclaimed hlength
      · exact hlater hc
      · rcases List.mem_cons.mp hc with rfl | hc
        · exact cluster_collect hclaimed hlength
        · exact (ih hc).weaken
      · exact hlater hc

/-- Elements with different keys: none is in two clusters, or twice in one. -/
theorem nodup_clustersFrom (hkeys : (xs.map key).Nodup) :
    ((clustersFrom key close xs claimed).flatten.map key).Nodup := by
  induction xs generalizing claimed with
  | nil => exact List.nodup_nil
  | cons x rest ih =>
      have hrest : (rest.map key).Nodup := (List.nodup_cons.mp hkeys).2
      simp only [clustersFrom]
      split_ifs with hclaimed hlength
      · exact ih hrest
      · rw [List.flatten_cons, List.map_append, List.nodup_append]
        have hcollect : Cluster key close (x :: rest) claimed
            (collect key close claimed x rest) := cluster_collect hclaimed hlength
        refine ⟨hkeys.sublist (hcollect.sublist.map key), ih hrest, ?_⟩
        -- a later cluster avoids the keys that this one has claimed
        rintro _ hmem _ hlater rfl
        obtain ⟨y, hy, heq⟩ := List.mem_map.mp hlater
        obtain ⟨c, hc, hyc⟩ := List.mem_flatten.mp hy
        exact (cluster_of_mem hc).free y hyc (heq ▸ List.mem_append_right _ hmem)
      · exact ih hrest

end Greedy
