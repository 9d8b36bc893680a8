import Mathlib.Data.Rat.Defs
import RationaleVault.Library.OrdDict

/-!
# JSON values

Scalars are kept apart from containers because only scalars can be dictionary
keys. A fractional number is represented by its literal, which is how a
double is written and read back without loss; its numerical value is used
only to compare it with other numbers.
-/

namespace Json

/-- Decimal value of a run of digits. -/
def digitsValue (cs : List Char) : Nat :=
  cs.foldl (fun n c => 10 * n + (c.toNat - '0'.toNat)) 0

/-- A nonempty run of decimal digits. -/
def isDigits (cs : List Char) : Bool := !cs.isEmpty && cs.all Char.isDigit

/-- Sign, integer part, fractional part and exponent part of a number literal. -/
def splitLiteral (cs : List Char) : Bool × List Char × List Char × List Char :=
  let negative := cs.head? == some '-'
  let body := if negative then cs.tail else cs
  let mantissa := body.takeWhile fun c => c != 'e' && c != 'E'
  let exponent := (body.dropWhile fun c => c != 'e' && c != 'E').tail
  let whole := mantissa.takeWhile (· != '.')
  let fraction := (mantissa.dropWhile (· != '.')).tail
  (negative, whole, fraction, exponent)

/-- Characters that can occur in a number literal. -/
def isNumberChar (c : Char) : Bool :=
  c.isDigit || c == '-' || c == '+' || c == '.' || c == 'e' || c == 'E'

/-- A literal with a fraction or an exponent, so that it is not an integer literal. -/
def isFloatLiteral (cs : List Char) : Bool :=
  let (_, whole, fraction, exponent) := splitLiteral cs
  let unsigned := if exponent.head? == some '-' || exponent.head? == some '+'
    then exponent.tail else exponent
  cs.all isNumberChar && isDigits whole &&
    (fraction.isEmpty || isDigits fraction) && (exponent.isEmpty || isDigits unsigned) &&
    (cs.any fun c => c == '.' || c == 'e' || c == 'E')

end Json

/-- A floating-point number, identified by the literal it is printed as. -/
structure FloatLit where
  text : List Char
  valid : Json.isFloatLiteral text = true
  deriving DecidableEq

namespace FloatLit

/-- Numerical value of the literal. -/
def value (x : FloatLit) : ℚ :=
  let (negative, whole, fraction, exponent) := Json.splitLiteral x.text
  let magnitude : ℚ := Json.digitsValue (whole ++ fraction) / 10 ^ fraction.length
  let scaled :=
    match exponent with
    | '-' :: ds => magnitude / 10 ^ Json.digitsValue ds
    | '+' :: ds => magnitude * 10 ^ Json.digitsValue ds
    | ds => magnitude * 10 ^ Json.digitsValue ds
  if negative then -scaled else scaled

end FloatLit

/-- JSON scalars. -/
inductive Atom
  | null
  | bool (b : Bool)
  | int (n : Int)
  | float (x : FloatLit)
  | str (s : String)
  deriving DecidableEq

/-- Normal form of a scalar key: numerically equal scalars are one key. -/
inductive AtomNorm
  | null
  | num (q : ℚ)
  | str (s : String)
  deriving DecidableEq

namespace Atom

def norm : Atom → AtomNorm
  | null => .null
  | bool b => .num (if b then 1 else 0)
  | int n => .num n
  | float x => .num x.value
  | str s => .str s

instance : DictKey Atom AtomNorm := ⟨norm⟩

/-- Whether the scalar is a string. -/
def isStr : Atom → Bool
  | str _ => true
  | _ => false

@[simp] theorem norm_str (s : String) : DictKey.norm (Atom.str s) = AtomNorm.str s := rfl

theorem eq_of_norm_eq_str {a : Atom} {s : String} (h : DictKey.norm a = AtomNorm.str s) :
    a = .str s := by
  cases a <;> simp_all [DictKey.norm, norm]

theorem isStr_iff_norm (a : Atom) : a.isStr = true ↔ ∃ s, DictKey.norm a = AtomNorm.str s := by
  cases a <;> simp [isStr, DictKey.norm, norm]

/-- Whether two scalars with one normal form are strings is decided by that form. -/
theorem isStr_congr {a b : Atom} (h : DictKey.norm a = DictKey.norm b) : a.isStr = b.isStr := by
  rw [Bool.eq_iff_iff, isStr_iff_norm, isStr_iff_norm, h]

end Atom

/-- JSON values. Objects keep the order of their members. -/
inductive Json
  | atom (a : Atom)
  | arr (items : List Json)
  | obj (members : List (String × Json))

/-- The members of a JSON object. -/
abbrev JsonObj := List (String × Json)

namespace Json

instance : Inhabited Json := ⟨.atom .null⟩

@[match_pattern] abbrev null : Json := .atom .null
@[match_pattern] abbrev bool (b : Bool) : Json := .atom (.bool b)
@[match_pattern] abbrev int (n : Int) : Json := .atom (.int n)
@[match_pattern] abbrev str (s : String) : Json := .atom (.str s)

mutual

def decEq : (a b : Json) → Decidable (a = b)
  | .atom a, .atom b =>
      if h : a = b then isTrue (h ▸ rfl) else isFalse (fun e => h (Json.atom.inj e))
  | .arr xs, .arr ys =>
      match decEqItems xs ys with
      | isTrue h => isTrue (h ▸ rfl)
      | isFalse h => isFalse (fun e => h (Json.arr.inj e))
  | .obj xs, .obj ys =>
      match decEqMembers xs ys with
      | isTrue h => isTrue (h ▸ rfl)
      | isFalse h => isFalse (fun e => h (Json.obj.inj e))
  | .atom _, .arr _ => isFalse nofun
  | .atom _, .obj _ => isFalse nofun
  | .arr _, .atom _ => isFalse nofun
  | .arr _, .obj _ => isFalse nofun
  | .obj _, .atom _ => isFalse nofun
  | .obj _, .arr _ => isFalse nofun

def decEqItems : (xs ys : List Json) → Decidable (xs = ys)
  | [], [] => isTrue rfl
  | [], _ :: _ => isFalse nofun
  | _ :: _, [] => isFalse nofun
  | x :: xs, y :: ys =>
      match decEq x y, decEqItems xs ys with
      | isTrue h, isTrue h' => isTrue (h ▸ h' ▸ rfl)
      | isFalse h, _ => isFalse (fun e => h (List.cons.inj e).1)
      | _, isFalse h => isFalse (fun e => h (List.cons.inj e).2)

def decEqMembers : (xs ys : List (String × Json)) → Decidable (xs = ys)
  | [], [] => isTrue rfl
  | [], _ :: _ => isFalse nofun
  | _ :: _, [] => isFalse nofun
  | (k, x) :: xs, (k', y) :: ys =>
      match decEq x y, decEqMembers xs ys with
      | isTrue h, isTrue h' =>
          if hk : k = k' then isTrue (h ▸ h' ▸ hk ▸ rfl)
          else isFalse (fun e => hk (Prod.mk.inj (List.cons.inj e).1).1)
      | isFalse h, _ => isFalse (fun e => h (Prod.mk.inj (List.cons.inj e).1).2)
      | _, isFalse h => isFalse (fun e => h (List.cons.inj e).2)

end

instance : DecidableEq Json := decEq

end Json
