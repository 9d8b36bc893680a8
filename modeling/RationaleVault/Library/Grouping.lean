import Mathlib.Data.List.Induction
import RationaleVault.Library.OrdDict

/-!
# Grouping by a key

A loop that puts every element into the group of its key, opening the group at
its first element. The group of a key is what the elements with that key make
of it, whatever stands between them.
-/

universe u v w x

namespace Grouping

variable {α : Type u} {κ : Type v} {ι : Type w} {ν : Type x} [DictKey κ ι] [DecidableEq ι]
variable (key : α → κ) (first : α → ν) (put : ν → α → ν)

/-- Put one element into its group. -/
def add (groups : OrdDict κ ν) (a : α) : OrdDict κ ν :=
  groups.set (key a) (put ((groups.get? (key a)).getD (first a)) a)

/-- The groups of a list in the order of their first elements. -/
def group (l : List α) : OrdDict κ ν := l.foldl (add key first put) .empty

/-- What the elements of one group make of it. -/
def collect : List α → Option ν
  | [] => none
  | a :: rest => some ((a :: rest).foldl put (first a))

variable {key first put}

theorem collect_concat (l : List α) (a : α) :
    collect first put (l ++ [a]) = some (put ((collect first put l).getD (first a)) a) := by
  cases l with
  | nil => rfl
  | cons b rest => simp [collect]

theorem group_concat (l : List α) (a : α) :
    group key first put (l ++ [a]) = add key first put (group key first put l) a := by
  rw [group, List.foldl_append]
  rfl

/-- A group holds the elements with its key. -/
theorem get?_group (l : List α) (k : κ) :
    (group key first put l).get? k =
      collect first put (l.filter fun a => DictKey.norm (key a) = DictKey.norm k) := by
  induction l using List.reverseRecOn with
  | nil => rfl
  | append_singleton l a ih =>
      rw [group_concat, add, OrdDict.get?_set, List.filter_append]
      by_cases hk : DictKey.norm (key a) = DictKey.norm k
      · rw [if_pos hk, OrdDict.get?_congr hk, ih, List.filter_cons_of_pos (by simpa using hk),
          List.filter_nil, collect_concat]
      · rw [if_neg hk, List.filter_cons_of_neg (by simpa using hk), List.filter_nil,
          List.append_nil, ih]

/-- Every entry is the group of some elements. -/
theorem entries_group {l : List α} {e : κ × ν} (he : e ∈ (group key first put l).entries) :
    ∃ a rest, l.filter (fun a => DictKey.norm (key a) = DictKey.norm e.1) = a :: rest ∧
      e.2 = (a :: rest).foldl put (first a) := by
  have hget := OrdDict.get?_of_mem he
  rw [get?_group] at hget
  cases hl : l.filter fun a => DictKey.norm (key a) = DictKey.norm e.1 with
  | nil => rw [hl] at hget; cases hget
  | cons a rest =>
      rw [hl, collect, Option.some.injEq] at hget
      exact ⟨a, rest, rfl, hget.symm⟩

/-- The key of an element has a group. -/
theorem contains_group {l : List α} {a : α} (ha : a ∈ l) :
    (group key first put l).contains (key a) = true := by
  have hmem : a ∈ l.filter fun b => DictKey.norm (key b) = DictKey.norm (key a) :=
    List.mem_filter.mpr ⟨ha, by simp⟩
  rw [OrdDict.contains, get?_group]
  cases hl : l.filter fun b => DictKey.norm (key b) = DictKey.norm (key a) with
  | nil => rw [hl] at hmem; cases hmem
  | cons b rest => rfl

/-! ## The order of the groups -/

theorem normKeys_group_concat (l : List α) (a : α) :
    (group key first put (l ++ [a])).normKeys =
      if DictKey.norm (key a) ∈ (group key first put l).normKeys then
        (group key first put l).normKeys
      else (group key first put l).normKeys ++ [DictKey.norm (key a)] := by
  rw [group_concat, add, OrdDict.normKeys_set]

theorem mem_normKeys_group {l : List α} {k : ι} :
    k ∈ (group key first put l).normKeys ↔ k ∈ l.map fun a => DictKey.norm (key a) := by
  induction l using List.reverseRecOn with
  | nil => exact Iff.rfl
  | append_singleton l a ih =>
      rw [normKeys_group_concat, List.map_append, List.map_singleton, List.mem_append, ← ih]
      split_ifs with hold
      · constructor
        · exact Or.inl
        · rintro (hk | hk)
          · exact hk
          · rwa [List.mem_singleton.mp hk]
      · rw [List.mem_append]

theorem pair_sublist_concat {β : Type*} {l : List β} {j k x : β} (h : [j, k].Sublist (l ++ [x])) :
    [j, k].Sublist l ∨ j ∈ l ∧ k = x := by
  have hreverse : [k, j].Sublist (x :: l.reverse) := by simpa using h.reverse
  cases hreverse with
  | cons _ hsub => exact Or.inl (by simpa using hsub.reverse)
  | cons_cons _ hsub => exact Or.inr ⟨List.mem_reverse.mp (List.singleton_sublist.mp hsub), rfl⟩

/-- The group of the key that is met first comes first. -/
theorem find?_of_pair_sublist {l : List α} {j k : ι}
    (h : [j, k].Sublist (group key first put l).normKeys) :
    (l.map fun a => DictKey.norm (key a)).find? (fun x => x = j ∨ x = k) = some j := by
  induction l using List.reverseRecOn with
  | nil => cases h
  | append_singleton l a ih =>
      rw [normKeys_group_concat] at h
      rw [List.map_append, List.find?_append]
      split_ifs at h with hold
      · rw [ih h, Option.some_or]
      · rcases pair_sublist_concat h with hsub | ⟨hj, rfl⟩
        · rw [ih hsub, Option.some_or]
        · -- the second key is new, so only the first one can be met before
          have hmet : j ∈ l.map fun a => DictKey.norm (key a) := mem_normKeys_group.mp hj
          rw [mem_normKeys_group] at hold
          cases hfind : (l.map fun a => DictKey.norm (key a)).find?
              fun x => x = j ∨ x = DictKey.norm (key a) with
          | none =>
              have hnot := List.find?_eq_none.mp hfind j hmet
              simp at hnot
          | some x =>
              have hx : x = j ∨ x = DictKey.norm (key a) := by
                simpa using List.find?_some hfind
              rcases hx with rfl | rfl
              · rfl
              · exact absurd (List.mem_of_find?_eq_some hfind) hold

/-! ## Groups that are lists -/

variable {β : Type x}

/-- Enter what every element gives at the end of the list of its key. -/
def lists (key : α → κ) (f : α → β) (l : List α) : OrdDict κ (List β) :=
  group key (fun _ => []) (fun g a => g ++ [f a]) l

theorem getD_lists (key : α → κ) (f : α → β) (l : List α) (k : κ) :
    ((lists key f l).get? k).getD [] =
      (l.filter fun a => DictKey.norm (key a) = DictKey.norm k).map f := by
  have hfold : ∀ (m : List α) (g : List β), m.foldl (fun g a => g ++ [f a]) g = g ++ m.map f := by
    intro m
    induction m with
    | nil => simp
    | cons a rest ih =>
        intro g
        rw [List.foldl_cons, ih, List.map_cons, List.append_assoc, List.singleton_append]
  rw [lists, get?_group]
  cases l.filter fun a => DictKey.norm (key a) = DictKey.norm k with
  | nil => rfl
  | cons a rest => rw [collect, Option.getD_some, hfold, List.nil_append]

/-- A list is opened for an element. -/
theorem lists_ne_nil {key : α → κ} {f : α → β} {l : List α} {k : κ} {g : List β}
    (h : (lists key f l).get? k = some g) : g ≠ [] := by
  have hgroup : (lists key f l).get? k = collect (fun _ => []) (fun g a => g ++ [f a])
      (l.filter fun a => DictKey.norm (key a) = DictKey.norm k) := get?_group l k
  have hg := getD_lists key f l k
  rw [h, Option.getD_some] at hg
  rw [h] at hgroup
  cases hfilter : l.filter fun a => DictKey.norm (key a) = DictKey.norm k with
  | nil =>
      rw [hfilter] at hgroup
      cases hgroup
  | cons a rest =>
      rw [hg, hfilter]
      exact List.cons_ne_nil _ _

end Grouping
