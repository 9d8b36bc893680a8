import Mathlib.Data.List.Induction
import Mathlib.Data.List.Nodup

/-!
# Insertion-ordered dictionaries

A dictionary is a list of entries whose keys have pairwise distinct normal
forms. Two keys address the same entry exactly when their normal forms agree,
so a key type whose equality is coarser than identity (numbers written in
several ways, say) is covered as well as a plain string key. Writing to a
present key keeps the entry's position and its first key; writing to a new
key appends.
-/

universe u v w

/-- Keys are compared through their normal form. -/
class DictKey (κ : Type u) (ι : outParam (Type v)) where
  norm : κ → ι

instance : DictKey String String := ⟨id⟩

@[simp] theorem DictKey.norm_string (s : String) : DictKey.norm s = s := rfl

/-- Entries in insertion order, at most one for each normal form. -/
structure OrdDict (κ : Type u) (ν : Type w) {ι : Type v} [DictKey κ ι] where
  entries : List (κ × ν)
  nodup : (entries.map fun e => DictKey.norm e.1).Nodup

namespace OrdDict

variable {κ : Type u} {ι : Type v} {ν μ : Type w} [DictKey κ ι]

@[ext] theorem ext {d d' : OrdDict κ ν} (h : d.entries = d'.entries) : d = d' := by
  cases d; cases d'; cases h; rfl

instance [DecidableEq κ] [DecidableEq ν] : DecidableEq (OrdDict κ ν) := fun d d' =>
  decidable_of_iff (d.entries = d'.entries) ⟨ext, congrArg entries⟩

/-- The dictionary without entries. -/
def empty : OrdDict κ ν := ⟨[], by simp⟩

instance : Inhabited (OrdDict κ ν) := ⟨empty⟩

@[simp] theorem entries_empty : (empty : OrdDict κ ν).entries = [] := rfl

def keys (d : OrdDict κ ν) : List κ := d.entries.map Prod.fst

def values (d : OrdDict κ ν) : List ν := d.entries.map Prod.snd

/-- The normal forms present, in insertion order. -/
def normKeys (d : OrdDict κ ν) : List ι := d.entries.map fun e => DictKey.norm e.1

/-- The entries with every key in normal form. -/
def normEntries (d : OrdDict κ ν) : List (ι × ν) := d.entries.map fun e => (DictKey.norm e.1, e.2)

theorem normKeys_nodup (d : OrdDict κ ν) : d.normKeys.Nodup := d.nodup

theorem norm_mem_normKeys {d : OrdDict κ ν} {k : κ} (h : k ∈ d.keys) :
    DictKey.norm k ∈ d.normKeys := by
  obtain ⟨e, he, rfl⟩ := List.mem_map.mp h
  exact List.mem_map.mpr ⟨e, he, rfl⟩

@[simp] theorem values_empty : (empty : OrdDict κ ν).values = [] := rfl

/-- Change every value and keep the keys. -/
def mapVals (f : ν → μ) (d : OrdDict κ ν) : OrdDict κ μ :=
  ⟨d.entries.map fun e => (e.1, f e.2), by
    simpa [List.map_map, Function.comp_def] using d.nodup⟩

@[simp] theorem entries_mapVals (f : ν → μ) (d : OrdDict κ ν) :
    (d.mapVals f).entries = d.entries.map fun e => (e.1, f e.2) := rfl

@[simp] theorem values_mapVals (f : ν → μ) (d : OrdDict κ ν) :
    (d.mapVals f).values = d.values.map f := by
  simp [values, mapVals, List.map_map, Function.comp_def]

@[simp] theorem keys_mapVals (f : ν → μ) (d : OrdDict κ ν) : (d.mapVals f).keys = d.keys := by
  simp [keys, mapVals, List.map_map, Function.comp_def]

variable [DecidableEq ι]

/-- The value stored under the first entry with the key's normal form. -/
def lookupIn (k : κ) : List (κ × ν) → Option ν
  | [] => none
  | e :: rest => if DictKey.norm e.1 = DictKey.norm k then some e.2 else lookupIn k rest

def get? (d : OrdDict κ ν) (k : κ) : Option ν := lookupIn k d.entries

def contains (d : OrdDict κ ν) (k : κ) : Bool := (d.get? k).isSome

/-- Overwrite the entry with the key's normal form, or append a new entry. -/
def setIn (k : κ) (x : ν) : List (κ × ν) → List (κ × ν)
  | [] => [(k, x)]
  | e :: rest =>
      if DictKey.norm e.1 = DictKey.norm k then (e.1, x) :: rest else e :: setIn k x rest

theorem norm_setIn (k : κ) (x : ν) (l : List (κ × ν)) :
    (setIn k x l).map (fun e => DictKey.norm e.1) =
      if DictKey.norm k ∈ l.map (fun e => DictKey.norm e.1)
      then l.map (fun e => DictKey.norm e.1)
      else l.map (fun e => DictKey.norm e.1) ++ [DictKey.norm k] := by
  induction l with
  | nil => simp [setIn]
  | cons e rest ih =>
      by_cases h : DictKey.norm e.1 = DictKey.norm k
      · simp [setIn, h]
      · simp only [setIn, h, if_false, List.map_cons, ih, List.mem_cons, Ne.symm h, false_or]
        split <;> simp

theorem nodup_setIn {l : List (κ × ν)} (k : κ) (x : ν)
    (h : (l.map fun e => DictKey.norm e.1).Nodup) :
    ((setIn k x l).map fun e => DictKey.norm e.1).Nodup := by
  rw [norm_setIn]
  split
  · exact h
  · rename_i hk
    exact List.nodup_append.mpr ⟨h, by simp, by
      intro a ha b hb hab
      simp only [List.mem_singleton] at hb
      subst hb; subst hab
      exact hk ha⟩

/-- `d[k] = x`. -/
def set (d : OrdDict κ ν) (k : κ) (x : ν) : OrdDict κ ν :=
  ⟨setIn k x d.entries, nodup_setIn k x d.nodup⟩

@[simp] theorem entries_set (d : OrdDict κ ν) (k : κ) (x : ν) :
    (d.set k x).entries = setIn k x d.entries := rfl

theorem normKeys_set (d : OrdDict κ ν) (k : κ) (x : ν) :
    (d.set k x).normKeys =
      if DictKey.norm k ∈ d.normKeys then d.normKeys
      else d.normKeys ++ [DictKey.norm k] :=
  norm_setIn k x d.entries

@[simp] theorem get?_empty (k : κ) : (empty : OrdDict κ ν).get? k = none := rfl

theorem lookupIn_setIn (k k' : κ) (x : ν) (l : List (κ × ν)) :
    lookupIn k' (setIn k x l) =
      if DictKey.norm k = DictKey.norm k' then some x else lookupIn k' l := by
  induction l with
  | nil => simp [setIn, lookupIn]
  | cons e rest ih =>
      by_cases h : DictKey.norm e.1 = DictKey.norm k
      · by_cases h' : DictKey.norm k = DictKey.norm k' <;> simp [setIn, lookupIn, h, h']
      · by_cases h' : DictKey.norm k = DictKey.norm k'
        · simp [setIn, lookupIn, ih, h', h' ▸ h]
        · simp [setIn, lookupIn, h, ih, h']

theorem get?_set (d : OrdDict κ ν) (k k' : κ) (x : ν) :
    (d.set k x).get? k' =
      if DictKey.norm k = DictKey.norm k' then some x else d.get? k' :=
  lookupIn_setIn k k' x d.entries

@[simp] theorem get?_set_self (d : OrdDict κ ν) (k : κ) (x : ν) :
    (d.set k x).get? k = some x := by
  simp [get?_set]

theorem get?_set_of_ne (d : OrdDict κ ν) {k k' : κ} (x : ν)
    (h : DictKey.norm k ≠ DictKey.norm k') : (d.set k x).get? k' = d.get? k' := by
  simp [get?_set, h]

theorem lookupIn_isSome_iff (k : κ) (l : List (κ × ν)) :
    (lookupIn k l).isSome ↔ DictKey.norm k ∈ l.map fun e => DictKey.norm e.1 := by
  induction l with
  | nil => simp [lookupIn]
  | cons e rest ih =>
      by_cases h : DictKey.norm e.1 = DictKey.norm k
      · simp [lookupIn, h]
      · simp only [lookupIn, h, if_false, ih, List.map_cons, List.mem_cons, Ne.symm h, false_or]

theorem contains_iff (d : OrdDict κ ν) (k : κ) :
    d.contains k = true ↔ DictKey.norm k ∈ d.normKeys :=
  lookupIn_isSome_iff k d.entries

theorem lookupIn_mem {k : κ} {x : ν} {l : List (κ × ν)} (h : lookupIn k l = some x) :
    ∃ e ∈ l, DictKey.norm e.1 = DictKey.norm k ∧ e.2 = x := by
  induction l with
  | nil => simp [lookupIn] at h
  | cons e rest ih =>
      by_cases he : DictKey.norm e.1 = DictKey.norm k
      · simp only [lookupIn, he, if_true, Option.some.injEq] at h
        exact ⟨e, by simp, he, h⟩
      · simp only [lookupIn, he, if_false] at h
        obtain ⟨e', hm, hn, hv⟩ := ih h
        exact ⟨e', by simp [hm], hn, hv⟩

theorem lookupIn_of_mem {l : List (κ × ν)} {e : κ × ν}
    (h : (l.map fun e => DictKey.norm e.1).Nodup) (he : e ∈ l) : lookupIn e.1 l = some e.2 := by
  induction l with
  | nil => simp at he
  | cons e' rest ih =>
      rw [List.map_cons, List.nodup_cons] at h
      rcases List.mem_cons.mp he with rfl | he
      · simp [lookupIn]
      · have hne : DictKey.norm e'.1 ≠ DictKey.norm e.1 := fun heq =>
          h.1 (heq ▸ List.mem_map.mpr ⟨e, he, rfl⟩)
        rw [lookupIn, if_neg hne]
        exact ih h.2 he

/-- Looking up the key of an entry finds the entry. -/
theorem get?_of_mem {d : OrdDict κ ν} {e : κ × ν} (he : e ∈ d.entries) : d.get? e.1 = some e.2 :=
  lookupIn_of_mem d.nodup he

theorem lookupIn_eq_none {k : κ} {l : List (κ × ν)}
    (h : DictKey.norm k ∉ l.map fun e => DictKey.norm e.1) : lookupIn k l = none := by
  cases hl : lookupIn k l with
  | none => rfl
  | some x => exact absurd ((lookupIn_isSome_iff k l).mp (by rw [hl]; rfl)) h

/-- Looking up among the entries whose value is kept. -/
theorem lookupIn_filter (p : ν → Bool) (k : κ) {l : List (κ × ν)}
    (h : (l.map fun e => DictKey.norm e.1).Nodup) :
    lookupIn k (l.filter fun e => p e.2) = (lookupIn k l).filter p := by
  induction l with
  | nil => rfl
  | cons e rest ih =>
      rw [List.map_cons, List.nodup_cons] at h
      by_cases hk : DictKey.norm e.1 = DictKey.norm k
      · rw [lookupIn, if_pos hk]
        cases hp : p e.2 with
        | true =>
            simp [hp, lookupIn, hk, Option.filter]
        | false =>
            have hrest : lookupIn k rest = none := lookupIn_eq_none (hk ▸ h.1)
            rw [List.filter_cons_of_neg (by simp [hp]), ih h.2, hrest]
            simp [hp, Option.filter]
      · rw [lookupIn, if_neg hk, ← ih h.2, List.filter_cons]
        split
        · rw [lookupIn, if_neg hk]
        · rfl

/-- A written value is the new one or was there before. -/
theorem mem_setIn {k : κ} {x : ν} {l : List (κ × ν)} {e : κ × ν} (h : e ∈ setIn k x l) :
    (DictKey.norm e.1 = DictKey.norm k ∧ e.2 = x) ∨ e ∈ l := by
  induction l with
  | nil =>
      simp only [setIn, List.mem_singleton] at h
      subst h
      exact Or.inl ⟨rfl, rfl⟩
  | cons e' rest ih =>
      by_cases he : DictKey.norm e'.1 = DictKey.norm k
      · simp only [setIn, he, if_true, List.mem_cons] at h
        rcases h with rfl | h
        · exact Or.inl ⟨he, rfl⟩
        · exact Or.inr (by simp [h])
      · simp only [setIn, he, if_false, List.mem_cons] at h
        rcases h with rfl | h
        · exact Or.inr (by simp)
        · rcases ih h with h | h
          · exact Or.inl h
          · exact Or.inr (by simp [h])

/-- What holds of every entry survives a write of an entry for which it holds. -/
theorem forall_entries_set {p : ι → ν → Prop} {d : OrdDict κ ν} {k : κ} {x : ν}
    (hd : ∀ e ∈ d.entries, p (DictKey.norm e.1) e.2) (hx : p (DictKey.norm k) x) :
    ∀ e ∈ (d.set k x).entries, p (DictKey.norm e.1) e.2 := by
  intro e he
  rcases mem_setIn he with ⟨hn, hv⟩ | h
  · rw [hn, hv]; exact hx
  · exact hd e h

/-- Read, change and write back; an absent key leaves the dictionary as it is. -/
def modify (d : OrdDict κ ν) (k : κ) (f : ν → ν) : OrdDict κ ν :=
  match d.get? k with
  | none => d
  | some x => d.set k (f x)

/-- Keys with one normal form address one entry. -/
theorem get?_congr {d : OrdDict κ ν} {k k' : κ} (h : DictKey.norm k = DictKey.norm k') :
    d.get? k = d.get? k' := by
  simp only [get?]
  induction d.entries with
  | nil => rfl
  | cons e rest ih => simp [lookupIn, h, ih]

theorem contains_congr {d : OrdDict κ ν} {k k' : κ} (h : DictKey.norm k = DictKey.norm k') :
    d.contains k = d.contains k' :=
  congrArg Option.isSome (get?_congr h)

theorem get?_eq_some_iff (d : OrdDict κ ν) (k : κ) (x : ν) :
    d.get? k = some x ↔ ∃ e ∈ d.entries, DictKey.norm e.1 = DictKey.norm k ∧ e.2 = x := by
  constructor
  · exact lookupIn_mem
  · rintro ⟨e, he, hk, rfl⟩
    rw [← get?_congr hk, get?_of_mem he]

theorem mem_values_iff {d : OrdDict κ ν} {x : ν} : x ∈ d.values ↔ ∃ k, d.get? k = some x := by
  constructor
  · intro hx
    obtain ⟨e, he, rfl⟩ := List.mem_map.mp hx
    exact ⟨e.1, get?_of_mem he⟩
  · rintro ⟨k, hk⟩
    obtain ⟨e, he, _, rfl⟩ := lookupIn_mem hk
    exact List.mem_map_of_mem he

/-- Lookup does not see the order of the entries. -/
theorem get?_eq_of_perm {d d' : OrdDict κ ν} (h : d.entries.Perm d'.entries) (k : κ) :
    d.get? k = d'.get? k := by
  apply Option.ext
  intro x
  rw [get?_eq_some_iff, get?_eq_some_iff]
  simp only [h.mem_iff]

theorem get?_modify (d : OrdDict κ ν) (k k' : κ) (f : ν → ν) :
    (d.modify k f).get? k' =
      if DictKey.norm k = DictKey.norm k' then (d.get? k').map f else d.get? k' := by
  unfold modify
  by_cases hn : DictKey.norm k = DictKey.norm k'
  · have hsame : d.get? k = d.get? k' := get?_congr hn
    cases hget : d.get? k with
    | none => rw [if_pos hn, ← hsame, hget]; rfl
    | some x => rw [if_pos hn, ← hsame, hget, get?_set, if_pos hn]; rfl
  · cases hget : d.get? k with
    | none => rw [if_neg hn]
    | some x => rw [if_neg hn, get?_set_of_ne _ _ hn]

@[simp] theorem normKeys_modify (d : OrdDict κ ν) (k : κ) (f : ν → ν) :
    (d.modify k f).normKeys = d.normKeys := by
  unfold modify
  cases hget : d.get? k with
  | none => rfl
  | some x =>
      have hmem : DictKey.norm k ∈ d.normKeys := by
        rw [← contains_iff, contains, hget]
        rfl
      rw [normKeys_set, if_pos hmem]

/-- `d.pop(k, None)`: the entries without the one that has the key's normal form. -/
def erase (d : OrdDict κ ν) (k : κ) : OrdDict κ ν :=
  ⟨d.entries.filter fun e => DictKey.norm e.1 ≠ DictKey.norm k,
    d.nodup.sublist (List.filter_sublist.map _)⟩

theorem get?_erase (d : OrdDict κ ν) (k k' : κ) :
    (d.erase k).get? k' =
      if DictKey.norm k = DictKey.norm k' then none else d.get? k' := by
  simp only [get?, erase]
  induction d.entries with
  | nil => simp [lookupIn]
  | cons e rest ih =>
      by_cases he : DictKey.norm e.1 = DictKey.norm k
      · rw [List.filter_cons_of_neg (by simpa using he), ih]
        split
        · rfl
        · rename_i hk
          rw [lookupIn, if_neg (he ▸ hk)]
      · rw [List.filter_cons_of_pos (by simpa using he), lookupIn, lookupIn, ih]
        by_cases hk : DictKey.norm k = DictKey.norm k'
        · rw [if_pos hk, if_pos hk, if_neg (hk ▸ he)]
        · rw [if_neg hk, if_neg hk]

/-- Write the entries of a list one after another. -/
def ofList (l : List (κ × ν)) : OrdDict κ ν :=
  l.foldl (fun d e => d.set e.1 e.2) empty

theorem setIn_of_not_mem {k : κ} {x : ν} {l : List (κ × ν)}
    (h : DictKey.norm k ∉ l.map fun e => DictKey.norm e.1) : setIn k x l = l ++ [(k, x)] := by
  induction l with
  | nil => rfl
  | cons e rest ih =>
      simp only [List.map_cons, List.mem_cons, not_or] at h
      simp [setIn, Ne.symm h.1, ih h.2]

theorem setIn_setIn (k : κ) (x y : ν) (l : List (κ × ν)) :
    setIn k y (setIn k x l) = setIn k y l := by
  induction l with
  | nil => simp [setIn]
  | cons e rest ih =>
      by_cases he : DictKey.norm e.1 = DictKey.norm k
      · simp [setIn, he]
      · simp [setIn, he, ih]

@[simp] theorem set_set (d : OrdDict κ ν) (k : κ) (x y : ν) :
    (d.set k x).set k y = d.set k y :=
  ext (setIn_setIn k x y d.entries)

@[simp] theorem modify_set (d : OrdDict κ ν) (k : κ) (x : ν) (f : ν → ν) :
    (d.set k x).modify k f = d.set k (f x) := by
  simp [modify]

theorem mapVals_set (f : ν → μ) (d : OrdDict κ ν) (k : κ) (x : ν) :
    (d.set k x).mapVals f = (d.mapVals f).set k (f x) := by
  apply ext
  simp only [entries_mapVals, entries_set]
  induction d.entries with
  | nil => rfl
  | cons e rest ih =>
      by_cases he : DictKey.norm e.1 = DictKey.norm k
      · simp [setIn, he]
      · simp [setIn, he, ih]

theorem get?_mapVals (f : ν → μ) (d : OrdDict κ ν) (k : κ) :
    (d.mapVals f).get? k = (d.get? k).map f := by
  simp only [get?, entries_mapVals]
  induction d.entries with
  | nil => rfl
  | cons e rest ih =>
      by_cases he : DictKey.norm e.1 = DictKey.norm k
      · simp [lookupIn, he]
      · simp [lookupIn, he, ih]

theorem entries_foldl_set (l : List (κ × ν)) (d : OrdDict κ ν)
    (h : (d.normKeys ++ l.map fun e => DictKey.norm e.1).Nodup) :
    (l.foldl (fun d e => d.set e.1 e.2) d).entries = d.entries ++ l := by
  induction l generalizing d with
  | nil => simp
  | cons e rest ih =>
      have hk : DictKey.norm e.1 ∉ d.normKeys := by
        intro hmem
        exact (List.nodup_append.mp h).2.2 _ hmem _ (by simp) rfl
      have hset : (d.set e.1 e.2).entries = d.entries ++ [e] := setIn_of_not_mem hk
      have hnext : (d.set e.1 e.2).normKeys = d.normKeys ++ [DictKey.norm e.1] := by
        rw [normKeys_set, if_neg hk]
      simp only [List.foldl_cons]
      rw [ih _ (by rw [hnext]; simpa using h), hset]
      simp

/-- Distinct keys are kept with their order. -/
theorem entries_ofList {l : List (κ × ν)} (h : (l.map fun e => DictKey.norm e.1).Nodup) :
    (ofList l).entries = l := by
  simpa [ofList] using entries_foldl_set l empty (by simpa [normKeys] using h)

theorem ofList_concat (l : List (κ × ν)) (e : κ × ν) :
    ofList (l ++ [e]) = (ofList l).set e.1 e.2 := by
  rw [ofList, List.foldl_append]
  rfl

/-- A key has the value it was given last. -/
theorem get?_ofList_eq_some_iff {l : List (κ × ν)} {k : κ} {x : ν} :
    (ofList l).get? k = some x ↔ ∃ before e after, l = before ++ e :: after ∧
      DictKey.norm e.1 = DictKey.norm k ∧ e.2 = x ∧
        ∀ e' ∈ after, DictKey.norm e'.1 ≠ DictKey.norm k := by
  induction l using List.reverseRecOn with
  | nil =>
      constructor
      · intro h
        cases h
      · rintro ⟨before, e, after, h, _⟩
        simp at h
  | append_singleton l last ih =>
      rw [ofList_concat, get?_set]
      split
      · rename_i hlast
        constructor
        · intro hx
          exact ⟨l, last, [], rfl, hlast, by simpa using hx, by simp⟩
        · rintro ⟨before, e, after, hl, _, hx, hafter⟩
          cases after using List.reverseRecOn with
          | nil =>
              obtain ⟨_, hlast⟩ := List.append_inj' hl rfl
              rw [List.singleton_inj.mp hlast, hx]
          | append_singleton after e' =>
              rw [← List.cons_append, ← List.append_assoc] at hl
              obtain ⟨_, heq⟩ := List.append_inj' hl rfl
              exact absurd (List.singleton_inj.mp heq ▸ hlast) (hafter e' (by simp))
      · rename_i hlast
        rw [ih]
        constructor
        · rintro ⟨before, e, after, rfl, hk, hx, hafter⟩
          refine ⟨before, e, after ++ [last], by simp, hk, hx, ?_⟩
          intro e' he'
          rcases List.mem_append.mp he' with he' | he'
          · exact hafter e' he'
          · rw [List.mem_singleton.mp he']
            exact hlast
        · rintro ⟨before, e, after, hl, hk, hx, hafter⟩
          cases after using List.reverseRecOn with
          | nil =>
              obtain ⟨_, heq⟩ := List.append_inj' hl rfl
              exact absurd (List.singleton_inj.mp heq ▸ hk) hlast
          | append_singleton after e' =>
              rw [← List.cons_append, ← List.append_assoc] at hl
              obtain ⟨hl, _⟩ := List.append_inj' hl rfl
              exact ⟨before, e, after, hl, hk, hx, fun e'' h => hafter e'' (by simp [h])⟩

theorem contains_ofList {l : List (κ × ν)} {e : κ × ν} (he : e ∈ l) :
    (ofList l).contains e.1 = true := by
  induction l using List.reverseRecOn with
  | nil => cases he
  | append_singleton l last ih =>
      rw [ofList_concat, contains, get?_set]
      split
      · rfl
      · rename_i hne
        rcases List.mem_append.mp he with he | he
        · exact ih he
        · exact absurd (List.mem_singleton.mp he ▸ rfl) hne

theorem ofList_entries (d : OrdDict κ ν) : ofList d.entries = d :=
  ext (entries_ofList d.nodup)

/-! ### Dictionaries up to the spelling of their keys -/

omit [DecidableEq ι] in
theorem values_eq_map_normEntries (d : OrdDict κ ν) : d.values = d.normEntries.map Prod.snd := by
  simp [values, normEntries, List.map_map, Function.comp_def]

omit [DecidableEq ι] in
theorem normKeys_eq_map_normEntries (d : OrdDict κ ν) : d.normKeys = d.normEntries.map Prod.fst := by
  simp [normKeys, normEntries, List.map_map, Function.comp_def]

/-- Lookup does not see how the keys are spelled. -/
theorem get?_eq_of_normEntries {d d' : OrdDict κ ν} (h : d.normEntries = d'.normEntries) (k : κ) :
    d.get? k = d'.get? k := by
  simp only [normEntries] at h
  simp only [get?]
  generalize d.entries = l at h
  generalize d'.entries = l' at h
  induction l generalizing l' with
  | nil =>
      obtain rfl := List.map_eq_nil_iff.mp h.symm
      rfl
  | cons e rest ih =>
      obtain ⟨e', rest', rfl, he, hrest⟩ := List.map_eq_cons_iff.mp h.symm
      simp only [Prod.mk.injEq] at he
      rw [lookupIn, lookupIn, he.1, he.2, ih rest' hrest.symm]

theorem contains_eq_of_normEntries {d d' : OrdDict κ ν} (h : d.normEntries = d'.normEntries)
    (k : κ) : d.contains k = d'.contains k := by
  rw [contains, contains, get?_eq_of_normEntries h]

theorem normEntries_set_eq {d d' : OrdDict κ ν} (h : d.normEntries = d'.normEntries) {k k' : κ}
    (hk : DictKey.norm k = DictKey.norm k') (x : ν) :
    (d.set k x).normEntries = (d'.set k' x).normEntries := by
  simp only [normEntries, entries_set] at h ⊢
  generalize d.entries = l at h
  generalize d'.entries = l' at h
  induction l generalizing l' with
  | nil =>
      obtain rfl := List.map_eq_nil_iff.mp h.symm
      simp [setIn, hk]
  | cons e rest ih =>
      obtain ⟨e', rest', rfl, he, hrest⟩ := List.map_eq_cons_iff.mp h.symm
      simp only [Prod.mk.injEq] at he
      rw [setIn, setIn, he.1, hk]
      split_ifs with hn
      · simp [he.1, hrest]
      · rw [List.map_cons, List.map_cons, ih rest' hrest.symm, he.1, he.2]

end OrdDict
