import RationaleVault.Library.OrdDict

/-!
# Dictionaries of values that know their keys

Every value is stored under a key that can be read off the value. Such a
dictionary is given by its values in any order, so a sorted list of them says
all that lookups can find.
-/

universe u v w

/-- A dictionary whose values are stored under their own keys. -/
structure KeyedDict {κ : Type u} {ι : Type v} {ν : Type w} [DictKey κ ι] (key : ν → κ) where
  dict : OrdDict κ ν
  keyed : ∀ e ∈ dict.entries, DictKey.norm e.1 = DictKey.norm (key e.2)

namespace KeyedDict

variable {κ : Type u} {ι : Type v} {ν : Type w} [DictKey κ ι] {key : ν → κ}

/-- The dictionary without values. -/
def empty : KeyedDict key where
  dict := .empty
  keyed := by simp

def values (d : KeyedDict key) : List ν := d.dict.values

theorem nodup_values (d : KeyedDict key) : (d.values.map fun x => DictKey.norm (key x)).Nodup := by
  have hkeys : (d.values.map fun x => DictKey.norm (key x)) = d.dict.normKeys := by
    rw [values, OrdDict.values, OrdDict.normKeys, List.map_map]
    exact List.map_congr_left fun e he => (d.keyed e he).symm
  rw [hkeys]
  exact d.dict.nodup

variable [DecidableEq ι]

def get? (d : KeyedDict key) (k : κ) : Option ν := d.dict.get? k

/-- `d[key(x)] = x`. -/
def put (d : KeyedDict key) (x : ν) : KeyedDict key where
  dict := d.dict.set (key x) x
  keyed := by
    intro e he
    rcases OrdDict.mem_setIn he with ⟨hk, hx⟩ | he
    · rw [hk, hx]
    · exact d.keyed e he

/-- `d.pop(k, None)`. -/
def erase (d : KeyedDict key) (k : κ) : KeyedDict key where
  dict := d.dict.erase k
  keyed e he := d.keyed e (List.mem_of_mem_filter he)

/-- `{key(x): x for x in xs}`. -/
def ofList (key : ν → κ) (xs : List ν) : KeyedDict key := xs.foldl put empty

theorem get?_put (d : KeyedDict key) (x : ν) (k : κ) :
    (d.put x).get? k = if DictKey.norm (key x) = DictKey.norm k then some x else d.get? k :=
  OrdDict.get?_set d.dict (key x) k x

theorem get?_erase (d : KeyedDict key) (k k' : κ) :
    (d.erase k).get? k' = if DictKey.norm k = DictKey.norm k' then none else d.get? k' :=
  OrdDict.get?_erase d.dict k k'

theorem get?_eq_some_iff (d : KeyedDict key) (k : κ) (x : ν) :
    d.get? k = some x ↔ x ∈ d.values ∧ DictKey.norm (key x) = DictKey.norm k := by
  rw [get?, OrdDict.get?_eq_some_iff]
  constructor
  · rintro ⟨e, he, hk, rfl⟩
    exact ⟨List.mem_map_of_mem he, (d.keyed e he).symm.trans hk⟩
  · rintro ⟨hx, hk⟩
    obtain ⟨e, he, rfl⟩ := List.mem_map.mp hx
    exact ⟨e, he, (d.keyed e he).trans hk, rfl⟩

theorem mem_values_iff (d : KeyedDict key) (x : ν) : x ∈ d.values ↔ d.get? (key x) = some x := by
  rw [get?_eq_some_iff]
  exact (and_iff_left rfl).symm

theorem mem_values_put {d : KeyedDict key} {x y : ν} (h : y ∈ (d.put x).values) :
    y = x ∨ y ∈ d.values := by
  obtain ⟨e, he, rfl⟩ := List.mem_map.mp h
  rcases OrdDict.mem_setIn he with ⟨-, hx⟩ | he
  · exact Or.inl hx
  · exact Or.inr (List.mem_map_of_mem he)

/-- Dictionaries with equal lookups have the same values. -/
theorem values_perm {d d' : KeyedDict key} (h : ∀ k, d.get? k = d'.get? k) :
    d.values.Perm d'.values := by
  apply (List.perm_ext_iff_of_nodup d.nodup_values.of_map d'.nodup_values.of_map).mpr
  intro x
  rw [mem_values_iff, mem_values_iff, h]

/-- Values with different keys are all kept, in their order. -/
theorem values_ofList {xs : List ν} (h : (xs.map fun x => DictKey.norm (key x)).Nodup) :
    (ofList key xs).values = xs := by
  have hdict : ∀ d : KeyedDict key, (xs.foldl put d).dict =
      (xs.map fun x => (key x, x)).foldl (fun d e => d.set e.1 e.2) d.dict := by
    clear h
    induction xs with
    | nil => exact fun d => rfl
    | cons x rest ih => exact fun d => ih (d.put x)
  have hentries : (ofList key xs).dict.entries = xs.map fun x => (key x, x) := by
    rw [ofList, hdict]
    apply OrdDict.entries_ofList
    rwa [List.map_map]
  rw [values, OrdDict.values, hentries, List.map_map]
  exact List.map_id xs

/-- Every value of a list is found under its key, or a later one of the same key is. -/
theorem exists_get?_ofList {xs : List ν} {x : ν} (hx : x ∈ xs) :
    ∃ y, (ofList key xs).get? (key x) = some y := by
  induction xs using List.reverseRecOn with
  | nil => cases hx
  | append_singleton before y ih =>
      rw [ofList, List.foldl_concat, get?_put]
      by_cases hkey : DictKey.norm (key y) = DictKey.norm (key x)
      · exact ⟨y, if_pos hkey⟩
      · rw [if_neg hkey]
        refine ih ((List.mem_append.mp hx).resolve_right fun hlast => hkey ?_)
        rw [List.mem_singleton.mp hlast]

theorem mem_of_mem_values_ofList {xs : List ν} {x : ν} (h : x ∈ (ofList key xs).values) :
    x ∈ xs := by
  induction xs using List.reverseRecOn with
  | nil => cases h
  | append_singleton before y ih =>
      rw [ofList, List.foldl_concat] at h
      rcases mem_values_put h with rfl | h
      · exact List.mem_append_right _ (List.mem_singleton_self x)
      · exact List.mem_append_left _ (ih h)

/-- A dictionary is restored from its values in any order. -/
theorem get?_ofList {d : KeyedDict key} {xs : List ν} (h : xs.Perm d.values) (k : κ) :
    (ofList key xs).get? k = d.get? k := by
  have hnodup : (xs.map fun x => DictKey.norm (key x)).Nodup :=
    (h.map _).nodup_iff.mpr d.nodup_values
  apply Option.ext
  intro x
  rw [get?_eq_some_iff, get?_eq_some_iff, values_ofList hnodup, h.mem_iff]

end KeyedDict
