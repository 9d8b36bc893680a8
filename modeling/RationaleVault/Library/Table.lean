import Mathlib.Data.List.MinMax
import Mathlib.Data.List.Perm.Basic
import Mathlib.Data.List.Sort

/-!
# Queries on a table of rows

A table is a list of rows in insertion order. `orderBy` is a stable sort, so
rows with equal keys keep their insertion order; `maxD` is a maximum with a
default for no rows. `insert` refuses a row whose values cannot be bound or
whose primary key is taken.
-/

namespace Table

variable {α β : Type*} [LinearOrder β]

/-- `ORDER BY key ASC`, ties in insertion order. -/
def orderBy (key : α → β) (rows : List α) : List α :=
  rows.insertionSort fun r r' => key r ≤ key r'

/-- `ORDER BY key DESC`, ties in insertion order. -/
def orderByDesc (key : α → β) (rows : List α) : List α :=
  rows.insertionSort fun r r' => key r' ≤ key r

/-- `COALESCE(MAX(x), d)`. -/
def maxD (d : β) (xs : List β) : β := xs.max?.getD d

@[simp] theorem mem_orderBy {key : α → β} {rows : List α} {r : α} :
    r ∈ orderBy key rows ↔ r ∈ rows := List.mem_insertionSort _

@[simp] theorem mem_orderByDesc {key : α → β} {rows : List α} {r : α} :
    r ∈ orderByDesc key rows ↔ r ∈ rows := List.mem_insertionSort _

theorem orderBy_perm (key : α → β) (rows : List α) : (orderBy key rows).Perm rows :=
  List.perm_insertionSort _ rows

/-- Sorting each of several lists moves no row from one list to another. -/
theorem flatten_map_orderBy_perm (key : α → β) (tables : List (List α)) :
    (tables.map (orderBy key)).flatten.Perm tables.flatten := by
  rw [← List.flatMap_def, ← List.flatMap_id]
  exact List.Perm.flatMap_left tables fun rows _ => orderBy_perm key rows

/-- Rows that are already in order are returned as they are. -/
theorem orderBy_eq_self {key : α → β} {rows : List α}
    (h : rows.Pairwise fun r r' => key r ≤ key r') : orderBy key rows = rows :=
  h.insertionSort_eq

/-- The first row in descending order has the largest key. -/
theorem head?_orderByDesc {key : α → β} {rows : List α} {r : α}
    (h : (orderByDesc key rows).head? = some r) : r ∈ rows ∧ ∀ r' ∈ rows, key r' ≤ key r := by
  have hsorted : (orderByDesc key rows).Pairwise fun r r' => key r' ≤ key r := by
    have : Std.Total fun r r' : α => key r' ≤ key r := ⟨fun a b => le_total _ _⟩
    have : IsTrans α fun r r' => key r' ≤ key r := ⟨fun a b c hab hbc => hbc.trans hab⟩
    exact List.pairwise_insertionSort _ rows
  obtain ⟨rest, hrest⟩ : ∃ rest, orderByDesc key rows = r :: rest := by
    cases hl : orderByDesc key rows with
    | nil => simp [hl] at h
    | cons a rest =>
        rw [hl, List.head?_cons, Option.some.injEq] at h
        exact ⟨rest, by rw [h]⟩
  have hmem : ∀ r', r' ∈ rows ↔ r' ∈ r :: rest := fun r' => by rw [← hrest, mem_orderByDesc]
  refine ⟨(hmem r).mpr (by simp), fun r' hr' => ?_⟩
  rw [hrest, List.pairwise_cons] at hsorted
  rcases List.mem_cons.mp ((hmem r').mp hr') with rfl | hr
  · exact le_refl _
  · exact hsorted.1 r' hr

@[simp] theorem maxD_nil (d : β) : maxD d [] = d := rfl

theorem maxD_mem {d : β} {xs : List β} (h : xs ≠ []) : maxD d xs ∈ xs := by
  cases hm : xs.max? with
  | none => exact absurd (List.max?_eq_none_iff.mp hm) h
  | some m =>
      rw [maxD, hm, Option.getD_some]
      exact List.max?_mem hm

theorem le_maxD {d : β} {xs : List β} {x : β} (h : x ∈ xs) : x ≤ maxD d xs := by
  cases hm : xs.max? with
  | none => rw [List.max?_eq_none_iff.mp hm] at h; simp at h
  | some m =>
      rw [maxD, hm, Option.getD_some]
      exact (List.max?_eq_some_iff.mp hm).2 x h

/-- The maximum is the only element that bounds the others. -/
theorem maxD_eq {d m : β} {xs : List β} (hm : m ∈ xs) (hle : ∀ x ∈ xs, x ≤ m) :
    maxD d xs = m :=
  le_antisymm (hle _ (maxD_mem (List.ne_nil_of_mem hm))) (le_maxD hm)

/-- When every new element exceeds all old ones, the old ones do not matter. -/
theorem maxD_append_of_lt {d : β} {xs ys : List β} (hy : ys ≠ [])
    (h : ∀ x ∈ xs, ∀ y ∈ ys, x < y) : maxD d (xs ++ ys) = maxD d ys := by
  have hm := maxD_mem (d := d) hy
  refine maxD_eq (List.mem_append_right _ hm) fun x hx => ?_
  rcases List.mem_append.mp hx with hx | hx
  · exact (h x hx _ hm).le
  · exact le_maxD hx

/-- Appending does not raise the maximum exactly when the new part reaches it. -/
theorem maxD_append_eq_iff {d : β} {xs ys : List β} (hx : xs ≠ []) (hy : ys ≠ []) :
    maxD d (xs ++ ys) = maxD d ys ↔ maxD d xs ≤ maxD d ys := by
  constructor
  · intro h
    rw [← h]
    exact le_maxD (List.mem_append_left _ (maxD_mem hx))
  · intro h
    refine maxD_eq (List.mem_append_right _ (maxD_mem hy)) fun x hmem => ?_
    rcases List.mem_append.mp hmem with hmem | hmem
    · exact (le_maxD hmem).trans h
    · exact le_maxD hmem

/-! ## Ties -/

theorem not_pair_sublist_swap {α : Type*} {a b : α} {l : List α} (hl : l.Nodup)
    (h : [a, b].Sublist l) (h' : [b, a].Sublist l) : False := by
  induction l with
  | nil => cases h
  | cons x rest ih =>
      rw [List.nodup_cons] at hl
      cases h with
      | cons _ h =>
          cases h' with
          | cons _ h' => exact ih hl.2 h h'
          | cons_cons _ h' => exact hl.1 (h.subset (by simp))
      | cons_cons _ h =>
          cases h' with
          | cons _ h' => exact hl.1 (h'.subset (by simp))
          | cons_cons _ h' => exact hl.1 (List.singleton_sublist.mp h)

/-- Two members of a list stand in one of the two orders. -/
theorem pair_sublist_or {α : Type*} {a b : α} {l : List α} (ha : a ∈ l) (hb : b ∈ l)
    (hne : a ≠ b) : [a, b].Sublist l ∨ [b, a].Sublist l := by
  induction l with
  | nil => cases ha
  | cons x rest ih =>
      rcases List.mem_cons.mp ha with rfl | ha'
      · have hb' := (List.mem_cons.mp hb).resolve_left (Ne.symm hne)
        exact Or.inl ((List.singleton_sublist.mpr hb').cons_cons a)
      · rcases List.mem_cons.mp hb with rfl | hb'
        · exact Or.inr ((List.singleton_sublist.mpr ha').cons_cons b)
        · exact (ih ha' hb').imp (·.cons x) (·.cons x)

/-- What SQL promises of `ORDER BY`: the selected rows, sorted, with ties in any order. -/
structure Ordered (key : α → β) (rows result : List α) : Prop where
  perm : result.Perm rows
  sorted : result.Pairwise fun r r' => key r ≤ key r'

theorem ordered_orderBy (key : α → β) (rows : List α) : Ordered key rows (orderBy key rows) where
  perm := List.perm_insertionSort _ rows
  sorted := by
    have : Std.Total fun r r' : α => key r ≤ key r' := ⟨fun a b => le_total _ _⟩
    have : IsTrans α fun r r' => key r ≤ key r' := ⟨fun a b c hab hbc => hab.trans hbc⟩
    exact List.pairwise_insertionSort _ rows

private theorem filter_orderedInsert (key : α → β) (p : α → Bool) (a : α) {l : List α}
    (hl : l.Pairwise fun r r' => key r ≤ key r') :
    (l.orderedInsert (fun r r' => key r ≤ key r') a).filter p =
      if p a then (l.filter p).orderedInsert (fun r r' => key r ≤ key r') a else l.filter p := by
  induction l with
  | nil => cases hp : p a <;> simp [hp]
  | cons b rest ih =>
      rw [List.pairwise_cons] at hl
      by_cases hab : key a ≤ key b
      · -- everything from `b` on is at least `a`, so `a` stays in front after filtering
        have hfront : ∀ l' : List α, (∀ r ∈ l', key a ≤ key r) →
            l'.orderedInsert (fun r r' => key r ≤ key r') a = a :: l' := by
          intro l' h
          cases l' with
          | nil => rfl
          | cons c l'' => simp [h c List.mem_cons_self]
        have hle : ∀ r ∈ (b :: rest).filter p, key a ≤ key r := by
          intro r hr
          rcases List.mem_cons.mp (List.mem_of_mem_filter hr) with rfl | hr
          · exact hab
          · exact hab.trans (hl.1 r hr)
        rw [hfront _ hle, List.orderedInsert_cons, if_pos hab, List.filter_cons]
      · rw [List.orderedInsert_cons, if_neg hab, List.filter_cons, List.filter_cons, ih hl.2]
        split_ifs <;> simp [hab]

/-- Filtering and a stable sort commute. -/
theorem filter_orderBy (key : α → β) (p : α → Bool) (rows : List α) :
    (orderBy key rows).filter p = orderBy key (rows.filter p) := by
  induction rows with
  | nil => rfl
  | cons a rest ih =>
      have hcons : ∀ l : List α, orderBy key (a :: l) =
          (orderBy key l).orderedInsert (fun r r' => key r ≤ key r') a := fun _ => rfl
      rw [hcons, filter_orderedInsert key p a (ordered_orderBy key rest).sorted, ih]
      cases hp : p a with
      | true => rw [if_pos rfl, List.filter_cons_of_pos hp, hcons]
      | false => rw [if_neg Bool.false_ne_true, List.filter_cons_of_neg (by simp [hp])]

/-- What a sorted table has up to some key comes first. -/
theorem filter_isPrefix {key : α → β} {l : List α}
    (hsorted : l.Pairwise fun r r' => key r ≤ key r') {p : α → Bool}
    (hp : ∀ r r', key r ≤ key r' → p r' = true → p r = true) : l.filter p <+: l := by
  induction l with
  | nil => exact List.prefix_refl []
  | cons a rest ih =>
      rw [List.pairwise_cons] at hsorted
      cases ha : p a with
      | true =>
          rw [List.filter_cons_of_pos ha]
          exact List.cons_prefix_cons.mpr ⟨rfl, ih hsorted.2⟩
      | false =>
          have hnone : (a :: rest).filter p = [] := by
            apply List.filter_eq_nil_iff.mpr
            intro r hr hpr
            rcases List.mem_cons.mp hr with rfl | hr
            · simp [ha] at hpr
            · exact absurd (hp a r (hsorted.1 r hr) hpr) (by simp [ha])
          rw [hnone]
          exact List.nil_prefix

/-- Two rows with one key can come back in the opposite order. -/
theorem exists_ordered_swap (key : α → β) {rows : List α} {a b : α} (h : [a, b].Sublist rows)
    (hkey : key a = key b) : ∃ result, Ordered key rows result ∧ [b, a].Sublist result := by
  obtain ⟨hperm, hsorted⟩ := ordered_orderBy key rows.reverse
  refine ⟨orderBy key rows.reverse, ⟨hperm.trans rows.reverse_perm, hsorted⟩, ?_⟩
  have hreverse : [b, a].Sublist rows.reverse := by simpa using h.reverse
  exact List.pair_sublist_insertionSort (r := fun r r' => key r ≤ key r') hkey.ge hreverse

/-! ## Places in order -/

/-- A test that an element passes only if the earlier ones do is passed up to the number of elements
that pass it. -/
theorem getD_passes_iff {α : Type*} {p : α → Bool} {l : List α} {d : α}
    (hmono : l.Pairwise fun a b => p b = true → p a = true) {i : Nat} (hi : i < l.length) :
    p (l.getD i d) = true ↔ i < l.countP p := by
  induction l generalizing i with
  | nil => cases hi
  | cons a rest ih =>
      obtain ⟨ha, hrest⟩ := List.pairwise_cons.mp hmono
      rw [List.countP_cons]
      by_cases hp : p a = true
      · cases i with
        | zero => simp [hp]
        | succ i =>
            rw [List.getD_cons_succ, ih hrest (Nat.lt_of_succ_lt_succ hi), if_pos hp]
            exact Nat.succ_lt_succ_iff.symm
      · have hnone : ∀ b ∈ rest, ¬p b = true := fun b hb hpb => hp (ha b hb hpb)
        rw [List.countP_eq_zero.mpr hnone, if_neg hp]
        refine iff_of_false ?_ (Nat.not_lt_zero i)
        cases i with
        | zero => exact hp
        | succ i =>
            have hlt : i < rest.length := Nat.lt_of_succ_lt_succ hi
            rw [List.getD_cons_succ, List.getD_eq_getElem?_getD, List.getElem?_eq_getElem hlt]
            exact hnone _ (List.getElem_mem hlt)

section Places

variable {l : List β} {d x : β} {i : Nat} (hl : l.Pairwise (· ≤ ·)) (hi : i < l.length)
include hl hi

theorem getD_le_iff : l.getD i d ≤ x ↔ i < l.countP fun y => y ≤ x := by
  rw [← getD_passes_iff (d := d) _ hi, decide_eq_true_eq]
  exact hl.imp fun hab hb => decide_eq_true (hab.trans (of_decide_eq_true hb))

theorem getD_lt_iff : l.getD i d < x ↔ i < l.countP fun y => y < x := by
  rw [← getD_passes_iff (d := d) _ hi, decide_eq_true_eq]
  exact hl.imp fun hab hb => decide_eq_true (hab.trans_lt (of_decide_eq_true hb))

/-- What stands at a place: at most that many elements are less, and more are not greater. -/
theorem getD_eq_iff : l.getD i d = x ↔
    l.countP (fun y => y < x) ≤ i ∧ i < l.countP fun y => y ≤ x := by
  rw [← getD_le_iff hl hi, ← not_lt, ← getD_lt_iff hl hi, not_lt, le_antisymm_iff]
  exact and_comm

end Places

/-! ## Distinct keys -/

/-- Rows with distinct keys come back in one order only. -/
theorem orderBy_eq_of_perm {key : α → β} {rows rows' : List α} (hperm : rows.Perm rows')
    (hkeys : (rows.map key).Nodup) : orderBy key rows = orderBy key rows' := by
  refine List.Perm.eq_of_pairwise (fun a b ha hb hab hba => ?_)
    (ordered_orderBy key rows).sorted (ordered_orderBy key rows').sorted ?_
  · have hb' : b ∈ rows := hperm.mem_iff.mpr (mem_orderBy.mp hb)
    exact List.inj_on_of_nodup_map hkeys (mem_orderBy.mp ha) hb' (le_antisymm hab hba)
  · exact (orderBy_perm key rows).trans (hperm.trans (orderBy_perm key rows').symm)

/-- Sorting by the rows themselves forgets their order. -/
theorem orderBy_id_eq_of_perm {rows rows' : List β} (hperm : rows.Perm rows') :
    orderBy id rows = orderBy id rows' := by
  apply List.Perm.eq_of_pairwise (fun a b _ _ hab hba => le_antisymm hab hba)
    (ordered_orderBy id rows).sorted (ordered_orderBy id rows').sorted
  exact (orderBy_perm id rows).trans (hperm.trans (orderBy_perm id rows').symm)

/-- Rows that stand in one order before a stable sort do so behind it. -/
theorem pair_sublist_orderBy_iff {key : α → β} {rows : List α} (hrows : rows.Nodup) {a b : α}
    (hkey : key a = key b) : [a, b].Sublist (orderBy key rows) ↔ [a, b].Sublist rows := by
  have hkeep : ∀ {x y : α}, key x = key y → [x, y].Sublist rows →
      [x, y].Sublist (orderBy key rows) := fun hxy hsub =>
    List.pair_sublist_insertionSort (r := fun r r' => key r ≤ key r') hxy.le hsub
  refine ⟨fun hsub => ?_, hkeep hkey⟩
  have hnodup : (orderBy key rows).Nodup := (orderBy_perm key rows).nodup_iff.mpr hrows
  have hne : a ≠ b := by
    rintro rfl
    exact absurd (hnodup.sublist hsub) (by simp)
  have ha : a ∈ rows := mem_orderBy.mp (hsub.subset List.mem_cons_self)
  have hb : b ∈ rows := mem_orderBy.mp (hsub.subset (List.mem_cons_of_mem _ List.mem_cons_self))
  rcases pair_sublist_or ha hb hne with hab | hba
  · exact hab
  · exact (not_pair_sublist_swap hnodup hsub (hkeep hkey.symm hba)).elim

/-- Two orders of distinct rows are sorted alike exactly when rows with one key stand in the same
order. -/
theorem orderBy_eq_iff {key : α → β} {rows rows' : List α} (hperm : rows.Perm rows')
    (hrows : rows.Nodup) : orderBy key rows = orderBy key rows' ↔
      ∀ a b, key a = key b → [a, b].Sublist rows → [a, b].Sublist rows' := by
  have hrows' : rows'.Nodup := hperm.nodup_iff.mp hrows
  constructor
  · intro h a b hkey hsub
    rw [← pair_sublist_orderBy_iff hrows hkey, h] at hsub
    exact (pair_sublist_orderBy_iff hrows' hkey).mp hsub
  · intro h
    have hpairwise : ∀ {l : List α}, l.Nodup →
        (∀ a b, key a = key b → [a, b].Sublist l → [a, b].Sublist rows') →
        (orderBy key l).Pairwise fun a b =>
          key a ≤ key b ∧ (key a = key b → [a, b].Sublist rows') := by
      intro l hl hsame
      apply List.pairwise_iff_forall_sublist.mpr
      intro a b hsub
      refine ⟨List.pairwise_iff_forall_sublist.mp (ordered_orderBy key l).sorted hsub, ?_⟩
      exact fun hkey => hsame a b hkey ((pair_sublist_orderBy_iff hl hkey).mp hsub)
    apply List.Perm.eq_of_pairwise _ (hpairwise hrows h) (hpairwise hrows' fun _ _ _ hsub => hsub)
      ((orderBy_perm key rows).trans (hperm.trans (orderBy_perm key rows').symm))
    intro a b _ _ hab hba
    have hkey : key a = key b := le_antisymm hab.1 hba.1
    exact (not_pair_sublist_swap hrows' (hab.2 hkey) (hba.2 hkey.symm)).elim

/-- Sorting sorted rows changes nothing. -/
theorem orderBy_orderBy (key : α → β) (rows : List α) :
    orderBy key (orderBy key rows) = orderBy key rows :=
  orderBy_eq_self (ordered_orderBy key rows).sorted

/-- A map that keeps the keys can be applied before or after sorting. -/
theorem map_orderBy {γ : Type*} (key : α → β) (key' : γ → β) (f : α → γ)
    (hkey : ∀ r, key' (f r) = key r) (rows : List α) :
    (orderBy key rows).map f = orderBy key' (rows.map f) := by
  apply List.map_insertionSort
  intro a _ b _
  rw [hkey, hkey]

section Lookup

variable {κ ν : Type*} [DecidableEq κ]

theorem lookup_eq_some_of_mem {l : List (κ × ν)} (hkeys : (l.map Prod.fst).Nodup) {k : κ} {x : ν}
    (h : (k, x) ∈ l) : l.lookup k = some x := by
  obtain ⟨l₁, l₂, rfl⟩ := List.append_of_mem h
  apply List.lookup_eq_some_iff.mpr
  refine ⟨l₁, l₂, rfl, fun m hm => ?_⟩
  rw [List.map_append, List.map_cons, List.nodup_append] at hkeys
  have hne := hkeys.2.2 m.1 (List.mem_map_of_mem hm) k List.mem_cons_self
  simpa using Ne.symm hne

/-- With distinct keys the order of the entries does not matter to a lookup. -/
theorem lookup_eq_of_perm {l l' : List (κ × ν)} (hperm : l.Perm l')
    (hkeys : (l.map Prod.fst).Nodup) (k : κ) : l.lookup k = l'.lookup k := by
  have hkeys' : (l'.map Prod.fst).Nodup := (hperm.map Prod.fst).nodup_iff.mp hkeys
  cases h : l'.lookup k with
  | some x =>
      obtain ⟨l₁, l₂, rfl, _⟩ := List.lookup_eq_some_iff.mp h
      exact lookup_eq_some_of_mem hkeys (hperm.mem_iff.mpr (by simp))
  | none =>
      rw [List.lookup_eq_none_iff] at h ⊢
      exact fun m hm => h m (hperm.mem_iff.mp hm)

theorem lookup_map {μ : Type*} (f : ν → μ) (l : List (κ × ν)) (k : κ) :
    (l.map fun m => (m.1, f m.2)).lookup k = (l.lookup k).map f := by
  induction l with
  | nil => rfl
  | cons m rest ih =>
      rw [List.map_cons, List.lookup_cons, List.lookup_cons, ih]
      cases k == m.1 <;> rfl

/-- With distinct keys a search for a key finds the row with that key. -/
theorem find?_key_eq_some_iff {key : α → κ} {rows : List α} (hkeys : (rows.map key).Nodup) {k : κ}
    {r : α} : rows.find? (fun x => key x = k) = some r ↔ r ∈ rows ∧ key r = k := by
  constructor
  · intro h
    exact ⟨List.mem_of_find?_eq_some h, by simpa using List.find?_some h⟩
  · rintro ⟨hr, rfl⟩
    cases h : rows.find? fun x => key x = key r with
    | none =>
        have hnone := List.find?_eq_none.mp h r hr
        simp at hnone
    | some x =>
        have hkey : key x = key r := by simpa using List.find?_some h
        rw [List.inj_on_of_nodup_map hkeys (List.mem_of_find?_eq_some h) hr hkey]

/-- The order of the rows does not matter to it. -/
theorem find?_key_congr {key : α → κ} {rows rows' : List α} (hkeys : (rows.map key).Nodup)
    (hkeys' : (rows'.map key).Nodup) (hmem : ∀ r, r ∈ rows ↔ r ∈ rows') (k : κ) :
    rows.find? (fun x => key x = k) = rows'.find? fun x => key x = k := by
  ext r
  rw [find?_key_eq_some_iff hkeys, find?_key_eq_some_iff hkeys', hmem]

end Lookup

/-! ## Insertion under a primary key -/

section Insert

variable {α κ ε : Type*} [DecidableEq κ]

/-- `INSERT` of one row. -/
def insert (bind : α → Except ε Unit) (key : α → κ) (conflict : ε) (rows : List α) (r : α) :
    Except ε (List α) :=
  match bind r with
  | .error e => .error e
  | .ok () => if key r ∈ rows.map key then .error conflict else .ok (rows ++ [r])

/-- The inserts of one transaction, one after another. -/
def insertAll (bind : α → Except ε Unit) (key : α → κ) (conflict : ε) :
    (rows news : List α) → Except ε (List α)
  | rows, [] => .ok rows
  | rows, r :: rest =>
      match insert bind key conflict rows r with
      | .error e => .error e
      | .ok rows' => insertAll bind key conflict rows' rest

variable {bind : α → Except ε Unit} {key : α → κ} {conflict : ε}

theorem insert_eq_ok_iff {rows rows' : List α} {r : α} :
    insert bind key conflict rows r = .ok rows' ↔
      bind r = .ok () ∧ key r ∉ rows.map key ∧ rows' = rows ++ [r] := by
  rw [insert]
  cases bind r with
  | error e => simp
  | ok u =>
      by_cases h : key r ∈ rows.map key
      · simp [h]
      · simp [h, eq_comm]

/-- A transaction that goes through adds its rows at the end and keeps the key. -/
theorem insertAll_eq_ok {rows news rows' : List α}
    (h : insertAll bind key conflict rows news = .ok rows') (hrows : (rows.map key).Nodup) :
    rows' = rows ++ news ∧ (rows'.map key).Nodup ∧ ∀ r ∈ news, bind r = .ok () := by
  induction news generalizing rows with
  | nil =>
      rw [insertAll, Except.ok.injEq] at h
      subst h
      simpa using hrows
  | cons r rest ih =>
      rw [insertAll] at h
      cases hinsert : insert bind key conflict rows r with
      | error e => simp [hinsert] at h
      | ok next =>
          obtain ⟨hbind, hfree, rfl⟩ := insert_eq_ok_iff.mp hinsert
          rw [hinsert] at h
          have hnext : ((rows ++ [r]).map key).Nodup := by
            rw [List.map_append, List.map_singleton]
            exact List.nodup_append.mpr ⟨hrows, List.nodup_singleton _, by
              rintro a ha b hb rfl
              exact hfree (List.mem_singleton.mp hb ▸ ha)⟩
          obtain ⟨rfl, hnodup, hrest⟩ := ih h hnext
          refine ⟨by simp, hnodup, ?_⟩
          intro r' hr'
          rcases List.mem_cons.mp hr' with rfl | hr'
          · exact hbind
          · exact hrest r' hr'

/-- When no key is taken, a transaction fails only on a value that cannot be bound. -/
theorem insertAll_of_nodup (bind : α → Except ε Unit) (conflict : ε) {rows news : List α}
    (h : ((rows ++ news).map key).Nodup) :
    (∃ r ∈ news, ∃ e, bind r = .error e ∧ insertAll bind key conflict rows news = .error e) ∨
      (∀ r ∈ news, bind r = .ok ()) ∧
        insertAll bind key conflict rows news = .ok (rows ++ news) := by
  induction news generalizing rows with
  | nil => simp [insertAll]
  | cons r rest ih =>
      cases hbind : bind r with
      | error e =>
          refine .inl ⟨r, List.mem_cons_self, e, hbind, ?_⟩
          simp [insertAll, insert, hbind]
      | ok u =>
          have hfree : key r ∉ rows.map key := by
            intro hmem
            rw [List.map_append, List.nodup_append] at h
            exact h.2.2 _ hmem _ (by simp) rfl
          have hinsert : insert bind key conflict rows r = .ok (rows ++ [r]) :=
            insert_eq_ok_iff.mpr ⟨hbind, hfree, rfl⟩
          rw [insertAll, hinsert]
          have hrest : (((rows ++ [r]) ++ rest).map key).Nodup := by
            rwa [List.append_assoc, List.singleton_append]
          obtain ⟨r', hr', e, he, hrun⟩ | ⟨hall, hrun⟩ := ih hrest
          · exact .inl ⟨r', List.mem_cons_of_mem _ hr', e, he, hrun⟩
          · refine .inr ⟨?_, by simpa using hrun⟩
            intro r' hr'
            rcases List.mem_cons.mp hr' with rfl | hr'
            · exact hbind
            · exact hall r' hr'

end Insert

/-! ## Replacing -/

section Replace

variable {α κ : Type*} [DecidableEq κ] {key : α → κ} {rows : List α}

/-- `INSERT OR REPLACE`: the row with the key goes and the new row comes last. -/
def replace (key : α → κ) (rows : List α) (r : α) : List α :=
  (rows.filter fun r' => key r' ≠ key r) ++ [r]

theorem mem_replace {r x : α} : x ∈ replace key rows r ↔ x ∈ rows ∧ key x ≠ key r ∨ x = r := by
  simp [replace]

/-- Replacing a row takes it out of its place. -/
theorem replace_append_cons {before after : List α} {r₀ r : α}
    (hkeys : ((before ++ r₀ :: after).map key).Nodup) (hkey : key r₀ = key r) :
    replace key (before ++ r₀ :: after) r = before ++ after ++ [r] := by
  rw [List.map_append, List.map_cons, List.nodup_middle, List.nodup_cons, ← List.map_append,
    hkey, List.mem_map] at hkeys
  have hother : ∀ x ∈ before ++ after, key x ≠ key r := fun x hx h => hkeys.1 ⟨x, hx, h⟩
  rw [replace, List.filter_append, List.filter_cons_of_neg (by simp [hkey]), ← List.filter_append,
    List.filter_eq_self.mpr fun x hx => by simpa using hother x hx]

theorem nodup_replace (hkeys : (rows.map key).Nodup) (r : α) :
    ((replace key rows r).map key).Nodup := by
  rw [replace, List.map_append, List.map_singleton]
  apply List.Nodup.append (hkeys.sublist (List.filter_sublist.map key)) (List.nodup_singleton _)
  intro k hk hk'
  obtain ⟨x, hx, rfl⟩ := List.mem_map.mp hk
  exact (by simpa using (List.mem_filter.mp hx).2 : key x ≠ key r) (List.mem_singleton.mp hk')

/-- A key with a row has one place. -/
theorem exists_append_cons (key : α → κ) (rows : List α) (k : κ) :
    (∃ before r after, rows = before ++ r :: after ∧ key r = k) ∨ ∀ x ∈ rows, key x ≠ k := by
  by_cases h : ∃ x ∈ rows, key x = k
  · obtain ⟨x, hx, hk⟩ := h
    obtain ⟨before, after, rfl⟩ := List.append_of_mem hx
    exact Or.inl ⟨before, x, after, rfl, hk⟩
  · exact Or.inr fun x hx hk => h ⟨x, hx, hk⟩

end Replace

end Table
