import Mathlib.Data.List.Sort
import RationaleVault.Library.Json
import RationaleVault.Library.Numerals

/-!
# The Python behaviour the program relies on

Payloads are free-form JSON objects and the reducers never validate them, so
every operation applied to a payload value keeps its run-time type check:
subscripting, hashing, iterating and comparing return an exception where the
interpreter raises one. UUIDs and timestamps are kept with their text form.
-/

namespace RationaleVault

/-- Exceptions raised by the modelled code. -/
inductive Exc
  | keyError (key : String)
  | typeError
  | indexError
  | zeroDivisionError
  | attributeError (name : String)
  | valueError (message : String)
  | overflowError
  | integrityError
  | operationalError (message : String)
  | jsonDecodeError
  | notImplementedError (message : String)
  | runtimeError (message : String)
  | recursionError
  | projectionNotFoundError (message : String)
  | cyclicDependencyError (message : String)
  | duplicateProjectionError (message : String)
  | missingDependencyError (message : String)
  | invalidDependencyKindError (message : String)
  | circularDependencyError (message : String)
  | missingProjectBootstrap (message : String)
  deriving DecidableEq

end RationaleVault

open RationaleVault

/-- `p.get(key, default)`. -/
def JsonObj.getD (p : JsonObj) (key : String) (default : Json) : Json :=
  (p.lookup key).getD default

/-- `p.get(key)`. -/
def JsonObj.get (p : JsonObj) (key : String) : Json := p.getD key .null

/-- `p[key]`. -/
def JsonObj.getItem (p : JsonObj) (key : String) : Except Exc Json :=
  match p.lookup key with
  | some v => .ok v
  | none => .error (.keyError key)

/-- `p[key] = v`: a present key keeps its position. -/
def JsonObj.set (p : JsonObj) (key : String) (v : Json) : JsonObj :=
  match p with
  | [] => [(key, v)]
  | m :: rest => if m.1 = key then (key, v) :: rest else m :: JsonObj.set rest key v

/-- `p.setdefault(key, v)`. -/
def JsonObj.setdefault (p : JsonObj) (key : String) (v : Json) : JsonObj :=
  match p.lookup key with
  | some _ => p
  | none => p.set key v

/-- What is left after `p.pop(key, default)`. -/
def JsonObj.pop (p : JsonObj) (key : String) : JsonObj := p.filter fun m => m.1 != key

theorem JsonObj.lookup_set (p : JsonObj) (key : String) (v : Json) (k : String) :
    List.lookup k (p.set key v) = if k = key then some v else List.lookup k p := by
  induction p with
  | nil =>
      rw [set, List.lookup_cons, List.lookup_nil]
      by_cases hk : k = key
      · simp [hk]
      · rw [beq_eq_false_iff_ne.mpr hk, if_neg hk]
  | cons m rest ih =>
      rw [set]
      by_cases hm : m.1 = key
      · rw [if_pos hm, List.lookup_cons, List.lookup_cons, hm]
        by_cases hk : k = key
        · simp [hk]
        · rw [beq_eq_false_iff_ne.mpr hk, if_neg hk]
      · rw [if_neg hm, List.lookup_cons, List.lookup_cons, ih]
        by_cases hk : k = m.1
        · simp [hk, hm]
        · rw [beq_eq_false_iff_ne.mpr hk]

theorem JsonObj.lookup_pop (p : JsonObj) (key k : String) :
    List.lookup k (p.pop key) = if k = key then none else List.lookup k p := by
  rw [pop]
  induction p with
  | nil => simp
  | cons m rest ih =>
      by_cases hm : m.1 = key
      · rw [List.filter_cons_of_neg (by simpa using hm), ih, List.lookup_cons, hm]
        by_cases hk : k = key
        · rw [if_pos hk, if_pos hk]
        · rw [if_neg hk, if_neg hk, beq_eq_false_iff_ne.mpr hk]
      · rw [List.filter_cons_of_pos (by simpa using hm), List.lookup_cons, List.lookup_cons, ih]
        by_cases hk : k = m.1
        · simp [hk, hm]
        · rw [beq_eq_false_iff_ne.mpr hk]

namespace Json

/-- `bool(v)`. -/
def truthy : Json → Bool
  | .atom .null => false
  | .atom (.bool b) => b
  | .atom (.int n) => n != 0
  | .atom (.float x) => x.value != 0
  | .atom (.str s) => s != ""
  | .arr items => !items.isEmpty
  | .obj members => !members.isEmpty

/-- Truth value of a key. -/
def truthyKey : AtomNorm → Bool
  | .null => false
  | .num q => q != 0
  | .str s => s != ""

/-- Keys that are equal have the same truth value. -/
theorem truthy_atom (a : Atom) : truthy (.atom a) = truthyKey (DictKey.norm a) := by
  cases a with
  | null => rfl
  | bool b => cases b <;> simp [truthy, DictKey.norm, Atom.norm, truthyKey]
  | int n =>
      have hcast : ((n : ℚ) = 0) ↔ n = 0 := by exact_mod_cast Iff.rfl
      simp [truthy, DictKey.norm, Atom.norm, truthyKey, bne, BEq.beq, hcast]
  | float x => rfl
  | str s => rfl

/-- The key under which a value is stored in a dict or set. Lists and dicts are unhashable. -/
def hash : Json → Except Exc Atom
  | .atom a => .ok a
  | .arr _ => .error .typeError
  | .obj _ => .error .typeError

/-- Whether a dictionary lookup with this key does not raise. -/
def hashable : Json → Bool
  | .atom _ => true
  | .arr _ => false
  | .obj _ => false

@[simp] theorem hash_atom (a : Atom) : hash (.atom a) = .ok a := rfl

/-- `v == n` for an integer `n`. -/
def eqInt (v : Json) (n : Int) : Bool :=
  match v with
  | .atom a => DictKey.norm a == DictKey.norm (Atom.int n)
  | .arr _ => false
  | .obj _ => false

@[simp] theorem eqInt_int (m n : Int) : eqInt (.int m) n = decide (m = n) := by
  have hcast : ((m : ℚ) = n) ↔ m = n := by exact_mod_cast Iff.rfl
  by_cases h : m = n <;> simp [eqInt, DictKey.norm, Atom.norm, hcast, h]

/-- What equals one integer equals no other. -/
theorem eqInt_eq_decide {v : Json} {n : Int} (h : v.eqInt n = true) (m : Int) :
    v.eqInt m = decide (n = m) := by
  cases v with
  | atom a =>
      rw [eqInt, beq_iff_eq] at h
      rw [eqInt, h]
      exact eqInt_int n m
  | arr items => cases h
  | obj members => cases h

/-- A key and a text address one entry exactly when the value is that text. -/
theorem norm_eq_str_iff {v : Json} {key : Atom} (h : v.hash = .ok key) (s : String) :
    DictKey.norm key = DictKey.norm (Atom.str s) ↔ v = .str s := by
  cases v with
  | atom a =>
      cases h
      constructor
      · exact fun hnorm => congrArg Json.atom (Atom.eq_of_norm_eq_str hnorm)
      · intro heq
        rw [Json.atom.inj heq]
  | arr items => cases h
  | obj members => cases h

/-- `v[key]` with a string key: only a dict accepts it. -/
def getItem (v : Json) (key : String) : Except Exc Json :=
  match v with
  | .obj members => JsonObj.getItem members key
  | .atom _ => .error .typeError
  | .arr _ => .error .typeError

/-- `list(v)`, which is also what `for x in v` visits. -/
def toList : Json → Except Exc (List Json)
  | .arr items => .ok items
  | .obj members => .ok (members.map fun m => .str m.1)
  | .atom (.str s) => .ok (s.toList.map fun c => .str (String.singleton c))
  | .atom _ => .error .typeError

/-- `list(v)` as a stored value. -/
def copyList (v : Json) : Except Exc Json :=
  match v.toList with
  | .ok items => .ok (.arr items)
  | .error e => .error e

/-- Whether the value is a list. -/
def isArr : Json → Bool
  | .arr _ => true
  | _ => false

@[simp] theorem toList_arr (items : List Json) : toList (.arr items) = .ok items := rfl

/-- Exactly the lists are copied without change. -/
theorem copyList_eq_self_iff (v : Json) : copyList v = .ok v ↔ v.isArr = true := by
  cases v with
  | atom a => cases a <;> simp [copyList, toList, isArr]
  | arr items => simp [copyList, isArr]
  | obj members => simp [copyList, toList, isArr]

end Json

namespace Atom

/-- The number a scalar counts as in a comparison. -/
def number? : Atom → Option ℚ
  | .bool b => some (if b then 1 else 0)
  | .int n => some n
  | .float x => some x.value
  | .null => none
  | .str _ => none

@[simp] theorem number?_int (n : Int) : (Atom.int n).number? = some (n : ℚ) := rfl

/-- `sorted(keys)` for distinct scalars. Numbers and strings cannot be compared with each
other, and any comparison sort of a mixed collection meets such a pair. -/
def sorted (keys : List Atom) : Except Exc (List Atom) :=
  if keys.all isStr then
    .ok (keys.insertionSort fun a b => (match a, b with
      | .str s, .str t => decide (s ≤ t)
      | _, _ => true) = true)
  else if keys.all fun a => a.number?.isSome then
    .ok (keys.insertionSort fun a b => a.number?.getD 0 ≤ b.number?.getD 0)
  else if keys.length ≤ 1 then .ok keys
  else .error .typeError

theorem sorted_of_isStr {keys : List Atom} (h : ∀ k ∈ keys, k.isStr = true) :
    ∃ l, sorted keys = .ok l := by
  have hall : keys.all isStr = true := List.all_eq_true.mpr h
  exact ⟨_, by rw [sorted, if_pos hall]⟩

/-- A scalar that equals an integer counts as that integer. -/
theorem number?_of_norm {a : Atom} {n : Int} (h : DictKey.norm a = DictKey.norm (Atom.int n)) :
    a.number? = some (n : ℚ) := by
  cases a with
  | null => simp [DictKey.norm, Atom.norm] at h
  | bool b => simpa [DictKey.norm, Atom.norm, number?] using h
  | int m => simpa [DictKey.norm, Atom.norm, number?] using h
  | float x => simpa [DictKey.norm, Atom.norm, number?] using h
  | str s => simp [DictKey.norm, Atom.norm] at h

/-- Text of a dictionary key in a JSON document. -/
def jsonKey : Atom → String
  | .null => "null"
  | .bool b => if b then "true" else "false"
  | .int n => toString n
  | .float x => String.ofList x.text
  | .str s => s

end Atom

namespace Json

/-- `v > n` for an integer `n`: only numbers can be compared with it. -/
def gtInt (v : Json) (n : Int) : Except Exc Bool :=
  match v with
  | .atom a =>
      match a.number? with
      | some q => .ok (decide ((n : ℚ) < q))
      | none => .error .typeError
  | .arr _ => .error .typeError
  | .obj _ => .error .typeError

/-- `v <= n` for an integer `n`. -/
def leInt (v : Json) (n : Int) : Except Exc Bool := (v.gtInt n).map fun later => !later

/-- `a or b`. -/
def orElse (a b : Json) : Json := if a.truthy then a else b

/-- The member of an enumeration with the given value. -/
def enum {α : Type} (members : List α) (value : α → String) (message : String) (v : Json) :
    Except Exc α :=
  match members.find? fun m => v = .str (value m) with
  | some m => .ok m
  | none => .error (.valueError message)

/-- An enumeration reads the value of its member as that member. -/
theorem enum_value {α : Type} {members : List α} {value : α → String}
    (h : (members.map value).Nodup) {m : α} (hm : m ∈ members) (message : String) :
    enum members value message (.str (value m)) = .ok m := by
  rw [enum]
  cases hfind : members.find? fun m' => Json.str (value m) = .str (value m') with
  | none => simpa using List.find?_eq_none.mp hfind m hm
  | some m' =>
      have hvalue : value m = value m' := by simpa using List.find?_some hfind
      rw [List.inj_on_of_nodup_map h hm (List.mem_of_find?_eq_some hfind) hvalue]

/-- What equals an integer compares as it does. -/
theorem gtInt_of_eqInt {v : Json} {m : Int} (h : v.eqInt m = true) (n : Int) :
    v.gtInt n = .ok (decide (n < m)) := by
  cases v with
  | atom a =>
      rw [eqInt, beq_iff_eq] at h
      have hlt : ((n : ℚ) < m) ↔ n < m := Rat.intCast_lt_intCast
      simp [gtInt, Atom.number?_of_norm h, hlt]
  | arr items => cases h
  | obj members => cases h

end Json

namespace RationaleVault

/-! ## UUIDs -/

/-- A 128-bit identifier. -/
structure UUID where
  int : Nat
  bound : int < 2 ^ 128
  deriving DecidableEq

namespace UUID

/-- `UUID(int=0)`. -/
def zero : UUID := ⟨0, by decide⟩

/-- `str(u)`: groups of 8, 4, 4, 4 and 12 digits. -/
def str (u : UUID) : String :=
  let h := Hex.encode 32 u.int
  String.ofList (h.take 8 ++ '-' :: (h.drop 8).take 4 ++ '-' :: (h.drop 12).take 4 ++
    '-' :: (h.drop 16).take 4 ++ '-' :: h.drop 20)

/-- `UUID(s)`: hyphens are dropped and 32 digits must remain. -/
def parse (s : String) : Except Exc UUID :=
  let digits := s.toList.filter (· != '-')
  match Hex.decode digits with
  | some n =>
      if h : digits.length = 32 ∧ n < 2 ^ 128 then .ok ⟨n, h.2⟩
      else .error (.valueError "badly formed hexadecimal UUID string")
  | none => .error (.valueError "badly formed hexadecimal UUID string")

theorem filter_hyphen_str (u : UUID) : u.str.toList.filter (· != '-') = Hex.encode 32 u.int := by
  have hall : ∀ l : List Char, l.Sublist (Hex.encode 32 u.int) → l.filter (· != '-') = l := by
    intro l hl
    apply List.filter_eq_self.mpr
    intro c hc
    obtain ⟨d, hd, rfl⟩ := Hex.mem_encode (hl.subset hc)
    simpa using Hex.digit_ne_hyphen d hd
  have htake : ∀ m k, (((Hex.encode 32 u.int).drop m).take k).Sublist (Hex.encode 32 u.int) := fun m k =>
    (List.take_sublist _ _).trans (List.drop_sublist _ _)
  simp only [str, String.toList_ofList, List.filter_append, List.filter_cons,
    hall _ (List.take_sublist _ _), hall _ (htake _ _), hall _ (List.drop_sublist _ _)]
  have hsplit : ∀ (l : List Char) (m k : Nat),
      (l.drop m).take k ++ l.drop (m + k) = l.drop m := by
    intro l m k
    rw [← List.drop_drop, List.take_append_drop]
  simp [hsplit _ 16 4, hsplit _ 12 4, hsplit _ 8 4]

/-- Printing and parsing a UUID gives it back. -/
@[simp] theorem parse_str (u : UUID) : parse u.str = .ok u := by
  have hlt : u.int % 16 ^ 32 = u.int := Nat.mod_eq_of_lt (by simpa using u.bound)
  simp only [parse, filter_hyphen_str, Hex.decode_encode, Hex.length_encode, hlt]
  rw [dif_pos ⟨trivial, u.bound⟩]

/-- The text of a UUID is never empty. -/
theorem str_ne_empty (u : UUID) : u.str ≠ "" := by
  intro h
  have hf := filter_hyphen_str u
  rw [h] at hf
  have := congrArg List.length hf
  simp at this

end UUID

/-! ## Timestamps -/

/-- A UTC date and time with microseconds. -/
structure DateTime where
  year : Nat
  month : Nat
  day : Nat
  hour : Nat
  minute : Nat
  second : Nat
  microsecond : Nat
  deriving DecidableEq

namespace DateTime

/-- Decimal text padded with zeros to at least `width` digits. -/
def pad (width n : Nat) : String :=
  let digits := Nat.repr n
  String.ofList (List.replicate (width - digits.length) '0') ++ digits

/-- `dt.isoformat()` for a UTC time: microseconds are written only when nonzero. -/
def isoformat (t : DateTime) : String :=
  pad 4 t.year ++ "-" ++ pad 2 t.month ++ "-" ++ pad 2 t.day ++ "T" ++
    pad 2 t.hour ++ ":" ++ pad 2 t.minute ++ ":" ++ pad 2 t.second ++
    (if t.microsecond = 0 then "" else "." ++ pad 6 t.microsecond) ++ "+00:00"

end DateTime

end RationaleVault
