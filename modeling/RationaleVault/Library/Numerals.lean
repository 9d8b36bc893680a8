import Mathlib.Algebra.Group.Nat.Defs
import Mathlib.Data.List.Basic
import Mathlib.Data.Nat.Basic
import Mathlib.Tactic.Ring

/-!
# Numerals of a fixed width

Hexadecimal digits are lower-case; all digits are written most significant first. Reading the last
`width` digits of a number gives it back when it has no more digits.
-/

namespace Hex

def digit (d : Nat) : Char := "0123456789abcdef".toList.getD d '0'

/-- Value of a lower-case hexadecimal digit. -/
def value? (c : Char) : Option Nat := "0123456789abcdef".toList.idxOf? c

/-- The last `len` hexadecimal digits of `n`. -/
def encode : (len n : Nat) → List Char
  | 0, _ => []
  | len + 1, n => encode len (n / 16) ++ [digit (n % 16)]

/-- Read hexadecimal digits. -/
def decode (cs : List Char) : Option Nat :=
  cs.foldlM (fun acc c => (value? c).map fun d => 16 * acc + d) 0

theorem value?_digit : ∀ d, d < 16 → value? (digit d) = some d := by decide

theorem digit_ne_hyphen : ∀ d, d < 16 → digit d ≠ '-' := by decide

theorem mem_encode {len n : Nat} {c : Char} (h : c ∈ encode len n) : ∃ d < 16, c = digit d := by
  induction len generalizing n with
  | zero => simp [encode] at h
  | succ len ih =>
      simp only [encode, List.mem_append, List.mem_singleton] at h
      rcases h with h | h
      · exact ih h
      · exact ⟨n % 16, Nat.mod_lt _ (by decide), h⟩

@[simp] theorem length_encode (len n : Nat) : (encode len n).length = len := by
  induction len generalizing n with
  | zero => rfl
  | succ len ih => simp [encode, ih]

theorem decode_encode (len n : Nat) : decode (encode len n) = some (n % 16 ^ len) := by
  induction len generalizing n with
  | zero => simp [encode, decode, Nat.mod_one]
  | succ len ih =>
      have hd := value?_digit (n % 16) (Nat.mod_lt _ (by decide))
      have hih := ih (n / 16)
      simp only [decode] at hih
      simp only [encode, decode, List.foldlM_append, hih, List.foldlM_cons, List.foldlM_nil,
        Option.bind_eq_bind, Option.bind_some, hd, Option.map_some, Option.pure_def,
        Option.some.injEq]
      rw [Nat.pow_succ, Nat.mul_comm (16 ^ len) 16, Nat.mod_mul]
      omega

end Hex

/-! ## Decimal digits of a fixed width -/

namespace Decimal

/-- The last `width` digits of `n`. -/
def fixed : (width n : Nat) → List Char
  | 0, _ => []
  | width + 1, n => fixed width (n / 10) ++ [Nat.digitChar (n % 10)]

/-- Number written by digits with the given values. -/
def value (digit : Char → Nat) (cs : List Char) : Nat := cs.foldl (fun n c => 10 * n + digit c) 0

@[simp] theorem length_fixed (width n : Nat) : (fixed width n).length = width := by
  induction width generalizing n with
  | zero => rfl
  | succ width ih => rw [fixed, List.length_append, ih, List.length_singleton]

theorem mem_fixed {width n : Nat} {c : Char} (h : c ∈ fixed width n) :
    ∃ d < 10, c = Nat.digitChar d := by
  induction width generalizing n with
  | zero => cases h
  | succ width ih =>
      rw [fixed, List.mem_append, List.mem_singleton] at h
      rcases h with h | h
      · exact ih h
      · exact ⟨n % 10, Nat.mod_lt n (by decide), h⟩

theorem fixed_zero (width : Nat) : fixed width 0 = List.replicate width '0' := by
  induction width with
  | zero => rfl
  | succ width ih => rw [fixed, Nat.zero_div, ih, List.replicate_succ', Nat.zero_mod]; rfl

/-- The digits of a number, filled up with zeros. -/
theorem fixed_eq (width n : Nat) (h : n < 10 ^ (width + 1)) :
    fixed (width + 1) n =
      List.replicate (width + 1 - (Nat.toDigits 10 n).length) '0' ++ Nat.toDigits 10 n := by
  induction width generalizing n with
  | zero =>
      rw [Nat.toDigits_of_lt_base (by omega), fixed, fixed, Nat.mod_eq_of_lt (by omega)]
      rfl
  | succ width ih =>
      by_cases hn : n < 10
      · rw [Nat.toDigits_of_lt_base hn, fixed, Nat.div_eq_of_lt hn, Nat.mod_eq_of_lt hn, fixed_zero]
        rfl
      · have hdiv : n / 10 < 10 ^ (width + 1) := by
          apply Nat.div_lt_of_lt_mul
          calc
            n < 10 ^ (width + 1 + 1) := h
            _ = 10 * 10 ^ (width + 1) := by ring
        have hlength : width + 1 + 1 - ((Nat.toDigits 10 (n / 10)).length + 1) =
            width + 1 - (Nat.toDigits 10 (n / 10)).length := by omega
        have hdigits : Nat.toDigits 10 n = Nat.toDigits 10 (n / 10) ++ [Nat.digitChar (n % 10)] :=
          Nat.toDigits_of_base_le (by decide) (Nat.le_of_not_lt hn)
        rw [fixed, ih _ hdiv, hdigits, List.length_append, List.length_singleton, hlength,
          List.append_assoc]

/-- Reading the digits of a number that fits gives it back. -/
theorem value_fixed {digit : Char → Nat} (hdigit : ∀ d < 10, digit (Nat.digitChar d) = d)
    (width n : Nat) (h : n < 10 ^ width) : value digit (fixed width n) = n := by
  induction width generalizing n with
  | zero =>
      rw [pow_zero, Nat.lt_one_iff] at h
      rw [h]
      rfl
  | succ width ih =>
      have hdiv : n / 10 < 10 ^ width := by
        apply Nat.div_lt_of_lt_mul
        calc
          n < 10 ^ (width + 1) := h
          _ = 10 * 10 ^ width := by ring
      have hprefix := ih _ hdiv
      rw [value] at hprefix ⊢
      rw [fixed, List.foldl_append, hprefix, List.foldl_cons, List.foldl_nil,
        hdigit _ (Nat.mod_lt n (by decide))]
      omega

end Decimal
