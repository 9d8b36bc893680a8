import RationaleVault.Library.OrdDict

/-!
# What the elements of a list say

Some elements of a list say something, and the first or the last of them is heard.
It does not matter in which order they speak exactly when those that say something
all say the same.
-/

universe u v w

namespace Heard

variable {α : Type u} {β : Type v}

/-- No two elements say different things. -/
def Unanimous (g : α → Option β) (l : List α) : Prop :=
  ∀ a ∈ l, ∀ a' ∈ l, ∀ x x', g a = some x → g a' = some x' → x = x'

variable {g : α → Option β} {l l' : List α}

theorem Unanimous.findSome?_eq_some_iff (h : Unanimous g l) {x : β} :
    l.findSome? g = some x ↔ ∃ a ∈ l, g a = some x := by
  constructor
  · exact List.exists_of_findSome?_eq_some
  · rintro ⟨a, ha, hx⟩
    cases hfind : l.findSome? g with
    | none =>
        have hnone := List.findSome?_eq_none_iff.mp hfind a ha
        rw [hx] at hnone
        cases hnone
    | some x' =>
        obtain ⟨a', ha', hx'⟩ := List.exists_of_findSome?_eq_some hfind
        rw [h a' ha' a ha x' x hx' hx]

theorem Unanimous.perm (h : Unanimous g l) (hperm : l'.Perm l) : Unanimous g l' :=
  fun a ha a' ha' => h a (hperm.mem_iff.mp ha) a' (hperm.mem_iff.mp ha')

/-- Where no two disagree, anyone may be heard. -/
theorem Unanimous.findSome?_perm (h : Unanimous g l) (hperm : l'.Perm l) :
    l'.findSome? g = l.findSome? g := by
  apply Option.ext
  intro x
  rw [h.findSome?_eq_some_iff, (h.perm hperm).findSome?_eq_some_iff]
  simp only [hperm.mem_iff]

/-- Where one thing is heard in every order, no two disagree. -/
theorem unanimous_of_heard {y : β}
    (h : ∀ l' : List α, l'.Perm l → ∀ x, l'.findSome? g = some x → x = y) : Unanimous g l := by
  have hfirst : ∀ a ∈ l, ∀ x, g a = some x → x = y := by
    intro a ha x hx
    obtain ⟨before, after, rfl⟩ := List.append_of_mem ha
    apply h (a :: (before ++ after)) List.perm_middle.symm
    rw [List.findSome?_cons, hx]
  intro a ha a' ha' x x' hx hx'
  rw [hfirst a ha x hx, hfirst a' ha' x' hx']

/-- A loop that keeps what was said last. -/
theorem foldl_getD (g : α → Option β) (l : List α) (start : β) :
    l.foldl (fun kept a => (g a).getD kept) start = (l.reverse.findSome? g).getD start := by
  induction l using List.reverseRecOn with
  | nil => rfl
  | append_singleton l a ih =>
      rw [List.foldl_append, List.foldl_cons, List.foldl_nil, List.reverse_append,
        List.reverse_singleton, List.singleton_append, List.findSome?_cons, ih]
      cases g a with
      | none => rfl
      | some x => rfl

variable {κ : Type u} {ι : Type v} {ν : Type w} [DictKey κ ι] [DecidableEq ι]

/-- A dictionary that is written entry by entry keeps the last one of a key. -/
theorem get?_ofList (entries : List (κ × ν)) (k : κ) :
    (OrdDict.ofList entries).get? k =
      (entries.reverse.find? fun e => DictKey.norm e.1 = DictKey.norm k).map Prod.snd := by
  induction entries using List.reverseRecOn with
  | nil => rfl
  | append_singleton entries e ih =>
      rw [OrdDict.ofList_concat, OrdDict.get?_set, List.reverse_append, List.reverse_singleton,
        List.singleton_append, List.find?_cons]
      by_cases he : DictKey.norm e.1 = DictKey.norm k
      · rw [if_pos he, decide_eq_true he]
        rfl
      · rw [if_neg he, decide_eq_false he, ih]

end Heard
