import Mathlib.Data.Finset.Card
import Mathlib.Data.List.Dedup
import Mathlib.Data.List.Induction

/-!
# The first item of each key

A loop keeps an item when its key has not been seen before. What is kept has
pairwise distinct keys, and every key of the list is the key of a kept item,
in the order in which the keys are met.
-/

universe u v

namespace Distinct

variable {α : Type u} {κ : Type v} [DecidableEq κ] (key : α → κ)

/-- One more item is kept unless its key has been seen. -/
def add (s : List α × Finset κ) (a : α) : List α × Finset κ :=
  if key a ∈ s.2 then s else (s.1 ++ [a], insert (key a) s.2)

/-- The first item of each key. -/
def firsts (l : List α) : List α := (l.foldl (add key) ([], ∅)).1

variable {key}

/-- The keys that have been seen are those of all items so far. -/
theorem mem_seen {l : List α} {k : κ} :
    k ∈ (l.foldl (add key) ([], ∅)).2 ↔ k ∈ l.map key := by
  induction l using List.reverseRecOn with
  | nil => simp
  | append_singleton before a ih =>
      rw [List.foldl_concat, add, List.map_append, List.mem_append, List.map_singleton,
        List.mem_singleton, ← ih]
      split_ifs with hseen
      · constructor
        · exact Or.inl
        · rintro (hk | rfl)
          · exact hk
          · exact hseen
      · rw [Finset.mem_insert, or_comm]

theorem firsts_concat (l : List α) (a : α) :
    firsts key (l ++ [a]) =
      if key a ∈ l.map key then firsts key l else firsts key l ++ [a] := by
  rw [firsts, List.foldl_concat, add]
  by_cases hseen : key a ∈ l.map key
  · rw [if_pos (mem_seen.mpr hseen), if_pos hseen]
    rfl
  · rw [if_neg (mt mem_seen.mp hseen), if_neg hseen]
    rfl

theorem mem_of_mem_firsts {l : List α} {a : α} (h : a ∈ firsts key l) : a ∈ l := by
  induction l using List.reverseRecOn with
  | nil => exact h
  | append_singleton before b ih =>
      rw [firsts_concat] at h
      split_ifs at h with hseen
      · exact List.mem_append_left [b] (ih h)
      · exact (List.mem_append.mp h).elim (fun h => List.mem_append_left [b] (ih h))
          (List.mem_append_right before)

theorem mem_map_firsts {l : List α} {k : κ} : k ∈ (firsts key l).map key ↔ k ∈ l.map key := by
  induction l using List.reverseRecOn with
  | nil => rfl
  | append_singleton before a ih =>
      rw [firsts_concat, List.map_append, List.map_singleton, List.mem_append, List.mem_singleton]
      split_ifs with hseen
      · rw [ih]
        constructor
        · exact Or.inl
        · rintro (hk | rfl)
          · exact hk
          · exact hseen
      · rw [List.map_append, List.mem_append, ih, List.map_singleton, List.mem_singleton]

/-- No key is kept twice. -/
theorem nodup_map_firsts (l : List α) : ((firsts key l).map key).Nodup := by
  induction l using List.reverseRecOn with
  | nil => exact .nil
  | append_singleton before a ih =>
      rw [firsts_concat]
      split_ifs with hseen
      · exact ih
      · rw [List.map_append, List.map_singleton, List.nodup_append']
        refine ⟨ih, List.nodup_singleton _, ?_⟩
        rw [List.disjoint_singleton, mem_map_firsts]
        exact hseen

/-- As many items are kept as there are keys. -/
theorem length_firsts (l : List α) : (firsts key l).length = (l.map key).toFinset.card := by
  have hkeys : ((firsts key l).map key).toFinset = (l.map key).toFinset := by
    ext k
    rw [List.mem_toFinset, List.mem_toFinset, mem_map_firsts]
  rw [← List.length_map key, ← hkeys, List.toFinset_card_of_nodup (nodup_map_firsts l)]

/-- Where the key tells the items of a list apart every item is kept. -/
theorem mem_firsts {l : List α} (hkey : ∀ a ∈ l, ∀ b ∈ l, key a = key b → a = b) {a : α} :
    a ∈ firsts key l ↔ a ∈ l := by
  refine ⟨mem_of_mem_firsts, fun ha => ?_⟩
  obtain ⟨b, hb, hba⟩ := List.mem_map.mp (mem_map_firsts.mpr (List.mem_map_of_mem (f := key) ha))
  exact hkey b (mem_of_mem_firsts hb) a ha hba ▸ hb

/-! ## The order of the first items -/

/-- A loop that enters a key unless it is there already. -/
theorem foldl_keys (key : α → κ) (l : List α) :
    l.foldl (fun seen a => if key a ∈ seen then seen else seen ++ [key a]) [] =
      (firsts key l).map key := by
  induction l using List.reverseRecOn with
  | nil => rfl
  | append_singleton before a ih =>
      rw [List.foldl_concat, ih, firsts_concat]
      simp only [mem_map_firsts]
      split_ifs with hseen
      · rfl
      · rw [List.map_append, List.map_singleton]

/-- Of one key the first item is kept. -/
theorem filter_firsts (l : List α) (k : κ) :
    (firsts key l).filter (fun a => key a = k) = (l.find? fun a => key a = k).toList := by
  induction l using List.reverseRecOn with
  | nil => rfl
  | append_singleton before a ih =>
      rw [firsts_concat, List.find?_append, apply_ite (List.filter fun a => key a = k),
        List.filter_append, ih]
      by_cases hfound : k ∈ before.map key
      · obtain ⟨b, hb, rfl⟩ := List.mem_map.mp hfound
        have hsome : (before.find? fun c => key c = key b).isSome :=
          List.find?_isSome.mpr ⟨b, hb, decide_eq_true rfl⟩
        obtain ⟨c, hc⟩ := Option.isSome_iff_exists.mp hsome
        split_ifs with hseen
        · rw [hc, Option.some_or]
        · have hne : key a ≠ key b := fun h => hseen (h ▸ hfound)
          simp [hc, hne]
      · have hnone : (before.find? fun c => key c = k) = none := by
          rw [List.find?_eq_none]
          intro c hc hkey
          exact hfound (List.mem_map.mpr ⟨c, hc, of_decide_eq_true hkey⟩)
        rw [hnone, Option.none_or, Option.toList_none, List.nil_append]
        by_cases hkey : key a = k
        · rw [if_neg (hkey ▸ hfound)]
          simp [hkey]
        · simp [hkey]

theorem firsts_sublist (l : List α) : (firsts key l).Sublist l := by
  induction l using List.reverseRecOn with
  | nil => exact .slnil
  | append_singleton before a ih =>
      rw [firsts_concat]
      split_ifs with hseen
      · exact ih.trans (List.sublist_append_left before [a])
      · exact ih.append (List.Sublist.refl [a])

/-- An item that is kept comes before all others with its key. -/
theorem eq_or_rel_of_mem_firsts {r : α → α → Prop} {l : List α} (hl : l.Pairwise r) {a b : α}
    (ha : a ∈ firsts key l) (hb : b ∈ l) (hkey : key b = key a) : a = b ∨ r a b := by
  induction l using List.reverseRecOn with
  | nil => cases hb
  | append_singleton before x ih =>
      obtain ⟨hbefore, -, hlast⟩ := List.pairwise_append.mp hl
      rw [firsts_concat] at ha
      have hold : a ∈ firsts key before → a = b ∨ r a b := by
        intro ha
        rcases List.mem_append.mp hb with hb | hb
        · exact ih hbefore ha hb
        · exact Or.inr (hlast a (mem_of_mem_firsts ha) b hb)
      split_ifs at ha with hseen
      · exact hold ha
      · rcases List.mem_append.mp ha with ha | ha
        · exact hold ha
        · obtain rfl := List.mem_singleton.mp ha
          rcases List.mem_append.mp hb with hb | hb
          · exact absurd (hkey ▸ List.mem_map_of_mem hb) hseen
          · exact Or.inl (List.mem_singleton.mp hb).symm

end Distinct
