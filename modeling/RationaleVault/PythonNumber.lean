import Mathlib.Algebra.Order.Field.Rat
import RationaleVault.Library.Json
import RationaleVault.Python

/-!
# Numbers of the program and of JSON values

A float is kept by its literal; arithmetic on floats is arithmetic on the values of their literals.

`int(v)`: a text may have blanks around it, one sign and single underscores between its digits, and
every Unicode decimal digit counts. A number with a fraction is cut off towards zero; from 2^53 on
the double nearest to the literal is an integer and not every integer is a double.
-/

namespace FloatLit

/-- `0.0`. -/
def zero : FloatLit := ⟨['0', '.', '0'], by decide⟩

/-- `1.0`. -/
def one : FloatLit := ⟨['1', '.', '0'], by decide⟩

/-- `2.0`. -/
def two : FloatLit := ⟨['2', '.', '0'], by decide⟩

/-- `3.0`. -/
def three : FloatLit := ⟨['3', '.', '0'], by decide⟩

/-- `5.0`. -/
def five : FloatLit := ⟨['5', '.', '0'], by decide⟩

end FloatLit

/-! ## Integers from JSON values -/

namespace RationaleVault

namespace PythonInt

/-- The zeros of the blocks of ten decimal digits (Unicode 15.0). -/
def digitZeros : List Nat :=
  [0x30, 0x660, 0x6f0, 0x7c0, 0x966, 0x9e6, 0xa66, 0xae6, 0xb66, 0xbe6, 0xc66, 0xce6, 0xd66,
    0xde6, 0xe50, 0xed0, 0xf20, 0x1040, 0x1090, 0x17e0, 0x1810, 0x1946, 0x19d0, 0x1a80, 0x1a90,
    0x1b50, 0x1bb0, 0x1c40, 0x1c50, 0xa620, 0xa8d0, 0xa900, 0xa9d0, 0xa9f0, 0xaa50, 0xabf0,
    0xff10, 0x104a0, 0x10d30, 0x11066, 0x110f0, 0x11136, 0x111d0, 0x112f0, 0x11450, 0x114d0,
    0x11650, 0x116c0, 0x11730, 0x118e0, 0x11950, 0x11c50, 0x11d50, 0x11da0, 0x11f50, 0x16a60,
    0x16ac0, 0x16b50, 0x1d7ce, 0x1d7d8, 0x1d7e2, 0x1d7ec, 0x1d7f6, 0x1e140, 0x1e2f0, 0x1e4f0,
    0x1e950, 0x1fbf0]

/-- Value of a decimal digit. -/
def digit (c : Char) : Option Nat :=
  (digitZeros.find? fun z => z ≤ c.toNat && c.toNat < z + 10).map (c.toNat - ·)

/-- The blanks that may stand around a number. The separators 0x1c to 0x1f are not among them. -/
def isBlank (c : Char) : Bool :=
  (9 ≤ c.toNat && c.toNat ≤ 13) || (0x2000 ≤ c.toNat && c.toNat ≤ 0x200a) ||
    [0x20, 0x85, 0xa0, 0x1680, 0x2028, 0x2029, 0x202f, 0x205f, 0x3000].contains c.toNat

/-- The text without the blanks around it. -/
def strip (cs : List Char) : List Char :=
  ((cs.dropWhile isBlank).reverse.dropWhile isBlank).reverse

/-- The digits of a number; an underscore stands between two of them. -/
def digits : List Char → Option (List Nat)
  | [] => none
  | [c] => (digit c).map fun d => [d]
  | c :: '_' :: rest => do return (← digit c) :: (← digits rest)
  | c :: rest => do return (← digit c) :: (← digits rest)

/-- More digits than this are refused. -/
def maxStrDigits : Nat := 4300

def invalidLiteral : Exc := .valueError "invalid literal for int() with base 10"

/-- The value of an unsigned number. -/
def ofDigits (cs : List Char) : Except Exc Int :=
  match digits cs with
  | none => .error invalidLiteral
  | some ds =>
      if maxStrDigits < ds.length then
        .error (.valueError "Exceeds the limit (4300 digits) for integer string conversion")
      else .ok (ds.foldl (fun n d => 10 * n + d) 0 : Nat)

/-- `int(s)` for a text. -/
def ofText (s : String) : Except Exc Int :=
  match strip s.toList with
  | '-' :: rest => (ofDigits rest).map fun n => -n
  | '+' :: rest => ofDigits rest
  | cs => ofDigits cs

/-- The integer part of a double; ties between two doubles go to the even one. -/
def ofFloat (x : FloatLit) : Except Exc Int :=
  let whole := x.value.num.natAbs / x.value.den
  let unit := 2 ^ (Nat.log2 whole - 52)
  let roundUp := unit < 2 * (whole % unit) ∨ unit = 2 * (whole % unit) ∧ whole / unit % 2 = 1
  let magnitude :=
    if whole < 2 ^ 53 then whole
    else (whole / unit + if roundUp then 1 else 0) * unit
  if 2 ^ 1024 ≤ magnitude then .error .overflowError
  else .ok (if x.value < 0 then -magnitude else magnitude)

end PythonInt

end RationaleVault

/-- `int(v)`. -/
def Json.toInt : Json → Except RationaleVault.Exc Int
  | .atom (.bool b) => .ok (if b then 1 else 0)
  | .atom (.int n) => .ok n
  | .atom (.float x) => RationaleVault.PythonInt.ofFloat x
  | .atom (.str s) => RationaleVault.PythonInt.ofText s
  | .atom .null => .error .typeError
  | .arr _ => .error .typeError
  | .obj _ => .error .typeError
