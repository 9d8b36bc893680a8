import Mathlib.Algebra.BigOperators.Group.List.Basic
import RationaleVault.Library.OrdDict

/-!
# Counting by key

A loop adds one to the count of each element's key. An element may have no key and is not
counted then. Elements taken key after key are the elements of the list in another order.
-/

universe u v w x

namespace Tally

variable {α : Type u} {κ : Type v} {ι : Type w} [DictKey κ ι] [DecidableEq ι]

/-- `d[k] = d.get(k, 0) + 1`. -/
def bump (d : OrdDict κ Nat) (k : κ) : OrdDict κ Nat := d.set k ((d.get? k).getD 0 + 1)

/-- How many elements of the list have the key. -/
def count (key : α → Option ι) (l : List α) (i : ι) : Nat := l.countP fun a => key a = some i

/-- The dictionary holds the count of every key that occurs. -/
def Counts (key : α → Option ι) (l : List α) (d : OrdDict κ Nat) : Prop :=
  ∀ k, d.get? k =
    if count key l (DictKey.norm k) = 0 then none else some (count key l (DictKey.norm k))

variable {key : α → Option ι} {l : List α} {d : OrdDict κ Nat}

theorem count_concat (a : α) (i : ι) :
    count key (l ++ [a]) i = count key l i + if key a = some i then 1 else 0 := by
  rw [count, List.countP_append, List.countP_singleton]
  simp only [decide_eq_true_eq]
  rfl

theorem count_pos_iff {i : ι} : 0 < count key l i ↔ ∃ a ∈ l, key a = some i := by
  rw [count, List.countP_pos_iff]
  simp only [decide_eq_true_eq]

theorem Counts.nil : Counts key [] (.empty : OrdDict κ Nat) := fun _ => rfl

theorem Counts.getD (h : Counts key l d) (k : κ) :
    (d.get? k).getD 0 = count key l (DictKey.norm k) := by
  rw [h k]
  split_ifs with hzero
  · exact hzero.symm
  · rfl

/-- An element without a key is not counted. -/
theorem Counts.concat_of_none (h : Counts key l d) {a : α} (ha : key a = none) :
    Counts key (l ++ [a]) d := by
  intro k
  have hcount : count key (l ++ [a]) (DictKey.norm k) = count key l (DictKey.norm k) := by
    rw [count_concat, ha, if_neg (Option.some_ne_none _).symm, Nat.add_zero]
  rw [hcount]
  exact h k

theorem Counts.concat_bump (h : Counts key l d) {a : α} {k : κ}
    (ha : key a = some (DictKey.norm k)) : Counts key (l ++ [a]) (bump d k) := by
  intro k'
  rw [bump, OrdDict.get?_set, count_concat, ha, h.getD k]
  by_cases hk : DictKey.norm k = DictKey.norm k'
  · rw [if_pos hk, if_pos (congrArg some hk), if_neg (Nat.succ_ne_zero _), hk]
  · rw [if_neg hk, if_neg fun heq => hk (Option.some.inj heq), Nat.add_zero]
    exact h k'

theorem Counts.mem_entries (h : Counts key l d) {e : κ × Nat} (he : e ∈ d.entries) :
    e.2 = count key l (DictKey.norm e.1) ∧ 0 < e.2 := by
  have hget := OrdDict.get?_of_mem he
  rw [h e.1] at hget
  split_ifs at hget with hzero
  have heq := Option.some.inj hget
  exact ⟨heq.symm, heq ▸ Nat.pos_of_ne_zero hzero⟩

theorem Counts.mem_normKeys (h : Counts key l d) (k : κ) :
    DictKey.norm k ∈ d.normKeys ↔ ∃ a ∈ l, key a = some (DictKey.norm k) := by
  rw [← OrdDict.contains_iff, OrdDict.contains, h k, ← count_pos_iff, Nat.pos_iff_ne_zero]
  split_ifs with hzero <;> simp [hzero]

omit [DictKey κ ι] [DecidableEq ι] in
/-- Of two tests the stronger one counts as many elements exactly when they agree on the list. -/
theorem countP_eq_countP_iff {p q : α → Bool} (hpq : ∀ a ∈ l, p a = true → q a = true) :
    l.countP p = l.countP q ↔ ∀ a ∈ l, q a = true → p a = true := by
  induction l with
  | nil => simp
  | cons a l ih =>
      have hle : l.countP p ≤ l.countP q :=
        List.countP_mono_left fun b hb => hpq b (List.mem_cons_of_mem a hb)
      have ha := hpq a List.mem_cons_self
      rw [List.forall_mem_cons, ← ih fun b hb => hpq b (List.mem_cons_of_mem a hb)]
      rw [List.countP_cons, List.countP_cons]
      by_cases hq : q a = true
      · by_cases hp : p a = true
        · simp [hp, hq]
        · simp only [hp, hq, if_true, Bool.false_eq_true, if_false]
          constructor
          · intro h
            omega
          · rintro ⟨h, -⟩
            cases h trivial
      · have hp : ¬p a = true := fun hp => hq (ha hp)
        simp [hp, hq]

variable {γ : Type x} [DecidableEq γ]

/-- When no element is listed twice, an element that is listed is in exactly one list. -/
theorem countP_mem_eq_one {f : α → List γ} {l : List α} (hnodup : (l.flatMap f).Nodup) {x : γ}
    (hx : x ∈ l.flatMap f) : l.countP (fun a => x ∈ f a) = 1 := by
  induction l with
  | nil => cases hx
  | cons a rest ih =>
      rw [List.flatMap_cons, List.nodup_append] at hnodup
      obtain ⟨-, hrest, hapart⟩ := hnodup
      rw [List.countP_cons]
      by_cases ha : x ∈ f a
      · have hnone : rest.countP (fun b => x ∈ f b) = 0 := by
          rw [List.countP_eq_zero]
          intro b hb hxb
          have hlater := List.mem_flatMap.mpr ⟨b, hb, of_decide_eq_true hxb⟩
          exact hapart x ha x hlater rfl
        rw [hnone, if_pos (decide_eq_true ha)]
      · rw [List.flatMap_cons] at hx
        rw [ih hrest ((List.mem_append.mp hx).resolve_left ha), if_neg (by simpa using ha)]

/-! ## Fibers -/

/-- The elements of each key in turn are the elements of the list. -/
theorem perm_fibers {f : α → γ} {cs : List γ} (hcs : cs.Nodup) {l : List α}
    (hl : ∀ a ∈ l, f a ∈ cs) : (cs.flatMap fun c => l.filter fun a => f a = c).Perm l := by
  induction cs generalizing l with
  | nil =>
      have hnil : l = [] := List.eq_nil_iff_forall_not_mem.mpr fun a ha => List.not_mem_nil (hl a ha)
      rw [hnil]
      exact .refl _
  | cons c cs ih =>
      obtain ⟨hc, hcs⟩ := List.nodup_cons.mp hcs
      have hrest : ∀ a ∈ l.filter (fun a => ¬f a = c), f a ∈ cs := by
        intro a ha
        obtain ⟨ha, hne⟩ := List.mem_filter.mp ha
        exact (List.mem_cons.mp (hl a ha)).resolve_left (of_decide_eq_true hne)
      have hfibers : (cs.flatMap fun c' => l.filter fun a => f a = c') =
          cs.flatMap fun c' => (l.filter fun a => ¬f a = c).filter fun a => f a = c' := by
        apply List.flatMap_congr
        intro c' hc'
        rw [List.filter_filter]
        apply List.filter_congr
        intro a _
        by_cases hac : f a = c'
        · have hne : ¬c' = c := fun heq => hc (heq ▸ hc')
          simp [hac, hne]
        · simp [hac]
      rw [List.flatMap_cons, hfibers]
      refine ((ih hcs hrest).append_left _).trans ?_
      simp only [decide_not]
      exact List.filter_append_perm _ l

/-- A sum over a list key by key. -/
theorem sum_fibers {β : Type*} [AddCommMonoid β] {f : α → γ} {cs : List γ} (hcs : cs.Nodup)
    {l : List α} (hl : ∀ a ∈ l, f a ∈ cs) (g : α → β) :
    (cs.map fun c => ((l.filter fun a => f a = c).map g).sum).sum = (l.map g).sum := by
  rw [← ((perm_fibers hcs hl).map g).sum_eq, List.map_flatMap, List.flatMap, List.sum_flatten,
    List.map_map]
  rfl

end Tally
