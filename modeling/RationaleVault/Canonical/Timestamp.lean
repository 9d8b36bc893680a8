import RationaleVault.Canonical.Envelope
import RationaleVault.Library.Numerals
import RationaleVault.PythonNumber

/-!
# Reading a canonical timestamp

`from_iso8601` takes the final `Z` off and reads the rest with `strptime`.
Every part of the format ends at a character that is no digit, so the parts
are cut there and each is checked for the values its directive accepts. What
is read must be a date of the calendar.
-/

namespace RationaleVault

namespace DateTime

/-- The days of a month of the Gregorian calendar. -/
def daysInMonth (year month : Nat) : Nat :=
  if month = 2 then
    if year % 4 = 0 ∧ (year % 100 ≠ 0 ∨ year % 400 = 0) then 29 else 28
  else if month ∈ [4, 6, 9, 11] then 30
  else 31

/-- What `datetime(...)` accepts. -/
structure Valid (t : DateTime) : Prop where
  year : 1 ≤ t.year ∧ t.year ≤ 9999
  month : 1 ≤ t.month ∧ t.month ≤ 12
  day : 1 ≤ t.day ∧ t.day ≤ daysInMonth t.year t.month
  hour : t.hour < 24
  minute : t.minute < 60
  second : t.second < 60
  microsecond : t.microsecond < 1000000

instance (t : DateTime) : Decidable t.Valid :=
  decidable_of_iff
    ((1 ≤ t.year ∧ t.year ≤ 9999) ∧ (1 ≤ t.month ∧ t.month ≤ 12) ∧
      (1 ≤ t.day ∧ t.day ≤ daysInMonth t.year t.month) ∧ t.hour < 24 ∧ t.minute < 60 ∧
      t.second < 60 ∧ t.microsecond < 1000000)
    ⟨fun ⟨h₁, h₂, h₃, h₄, h₅, h₆, h₇⟩ => ⟨h₁, h₂, h₃, h₄, h₅, h₆, h₇⟩,
      fun h => ⟨h.year, h.month, h.day, h.hour, h.minute, h.second, h.microsecond⟩⟩

theorem daysInMonth_le (year month : Nat) : daysInMonth year month ≤ 31 := by
  unfold daysInMonth
  split_ifs <;> decide

end DateTime

namespace Canonical

namespace Strptime

/-- `\d`: a decimal digit of any script. -/
def isDecimal (c : Char) : Bool := (PythonInt.digit c).isSome

/-- `int(...)` of a part whose characters have been checked. -/
def number (cs : List Char) : Nat := Decimal.value (fun c => (PythonInt.digit c).getD 0) cs

/-- A digit from `first` to `last`. -/
def between (first last c : Char) : Bool := first ≤ c && c ≤ last

/-- `%Y`. -/
def isYear (cs : List Char) : Bool := cs.length = 4 && cs.all isDecimal

/-- `%m`. -/
def isMonth : List Char → Bool
  | [a, b] => a = '1' && between '0' '2' b || a = '0' && between '1' '9' b
  | [b] => between '1' '9' b
  | _ => false

/-- `%d`. -/
def isDay : List Char → Bool
  | [a, b] => a = '3' && between '0' '1' b || between '1' '2' a && isDecimal b ||
      (a = '0' || a = ' ') && between '1' '9' b
  | [b] => between '1' '9' b
  | _ => false

/-- `%H`. -/
def isHour : List Char → Bool
  | [a, b] => a = '2' && between '0' '3' b || between '0' '1' a && isDecimal b
  | [b] => isDecimal b
  | _ => false

/-- `%M`. -/
def isMinute : List Char → Bool
  | [a, b] => between '0' '5' a && isDecimal b
  | [b] => isDecimal b
  | _ => false

/-- `%S`, leap seconds included. -/
def isSecond : List Char → Bool
  | [a, b] => a = '6' && between '0' '1' b || between '0' '5' a && isDecimal b
  | [b] => isDecimal b
  | _ => false

/-- `%f`. -/
def isFraction (cs : List Char) : Bool :=
  1 ≤ cs.length && cs.length ≤ 6 && cs.all (between '0' '9')

/-- The part before the first separator, if `check` accepts it, and the text after it. -/
def part (check : List Char → Bool) (separator : Char → Bool) (cs : List Char) :
    Option (Nat × List Char) :=
  match cs.dropWhile fun c => !separator c with
  | [] => none
  | _ :: rest =>
      let token := cs.takeWhile fun c => !separator c
      if check token then some (number token, rest) else none

/-- The time of the parts, if there is such a time. -/
def parts (cs : List Char) : Option DateTime := do
  let (year, cs) ← part isYear (· == '-') cs
  let (month, cs) ← part isMonth (· == '-') cs
  let (day, cs) ← part isDay (fun c => c == 'T' || c == 't') cs
  let (hour, cs) ← part isHour (· == ':') cs
  let (minute, cs) ← part isMinute (· == ':') cs
  let (second, fraction) ← part isSecond (· == '.') cs
  if isFraction fraction then
    some ⟨year, month, day, hour, minute, second, number fraction * 10 ^ (6 - fraction.length)⟩
  else none

end Strptime

/-- `datetime.strptime(s, "%Y-%m-%dT%H:%M:%S.%f")`; the messages leave the text out. -/
def strptime (cs : List Char) : Except Exc DateTime :=
  match Strptime.parts cs with
  | none => .error (.valueError "time data does not match format '%Y-%m-%dT%H:%M:%S.%f'")
  | some t => if t.Valid then .ok t else .error (.valueError "day is out of range for month")

/-- `CanonicalTimestamp.from_iso8601(s)`. -/
def fromIso8601 (s : String) : Except Exc DateTime :=
  if s.toList.getLast? = some 'Z' then strptime s.toList.dropLast
  else .error (.valueError ("Timestamp must end with Z: " ++ s))

/-! ## Reading what is written -/

theorem toList_pad (width n : Nat) (h : n < 10 ^ (width + 1)) :
    (DateTime.pad (width + 1) n).toList = Decimal.fixed (width + 1) n := by
  have hlength : (Nat.repr n).length = (Nat.toDigits 10 n).length := by
    rw [← String.length_toList, Nat.toList_repr]
  rw [DateTime.pad, String.toList_append, String.toList_ofList, Nat.toList_repr, hlength,
    Decimal.fixed_eq width n h]

namespace Strptime

theorem digit_digitChar : ∀ d < 10, PythonInt.digit (Nat.digitChar d) = some d := by decide +kernel

theorem number_fixed {width n : Nat} (h : n < 10 ^ width) : number (Decimal.fixed width n) = n := by
  apply Decimal.value_fixed _ width n h
  intro d hd
  rw [digit_digitChar d hd, Option.getD_some]

/-- A padded number in front of a separator is read as a part. -/
theorem part_fixed {check : List Char → Bool} {separator : Char → Bool} {width n : Nat}
    (hcheck : check (Decimal.fixed width n) = true) (hn : n < 10 ^ width)
    (hdigits : ∀ d < 10, separator (Nat.digitChar d) = false) {c : Char}
    (hc : separator c = true) (rest : List Char) :
    part check separator (Decimal.fixed width n ++ c :: rest) = some (n, rest) := by
  have htoken : ∀ a ∈ Decimal.fixed width n, (!separator a) = true := by
    intro a ha
    obtain ⟨d, hd, rfl⟩ := Decimal.mem_fixed ha
    rw [hdigits d hd, Bool.not_false]
  have htake : (Decimal.fixed width n ++ c :: rest).takeWhile (fun c => !separator c) =
      Decimal.fixed width n := by
    rw [List.takeWhile_append_of_pos htoken, List.takeWhile_cons_of_neg (by simp [hc]),
      List.append_nil]
  have hdrop : (Decimal.fixed width n ++ c :: rest).dropWhile (fun c => !separator c) =
      c :: rest := by
    rw [List.dropWhile_append_of_pos htoken, List.dropWhile_cons_of_neg (by simp [hc])]
  rw [part, hdrop, htake]
  simp only [hcheck, if_true, number_fixed hn]

/-- A padded number is read up to the one character that ends it. -/
theorem part_beq {check : List Char → Bool} {width n : Nat}
    (hcheck : check (Decimal.fixed width n) = true) (hn : n < 10 ^ width) {c : Char}
    (hdigits : ∀ d < 10, (Nat.digitChar d == c) = false) (rest : List Char) :
    part check (· == c) (Decimal.fixed width n ++ c :: rest) = some (n, rest) := by
  apply part_fixed hcheck hn hdigits
  exact beq_self_eq_true c

theorem isYear_fixed (n : Nat) : isYear (Decimal.fixed 4 n) = true := by
  rw [isYear, Decimal.length_fixed, Bool.and_eq_true, List.all_eq_true]
  refine ⟨rfl, fun c hc => ?_⟩
  obtain ⟨d, hd, rfl⟩ := Decimal.mem_fixed hc
  rw [isDecimal, digit_digitChar d hd, Option.isSome_some]

theorem isFraction_fixed (n : Nat) : isFraction (Decimal.fixed 6 n) = true := by
  rw [isFraction, Decimal.length_fixed, Bool.and_eq_true, List.all_eq_true]
  refine ⟨rfl, fun c hc => ?_⟩
  obtain ⟨d, hd, rfl⟩ := Decimal.mem_fixed hc
  exact (by decide : ∀ d < 10, between '0' '9' (Nat.digitChar d) = true) d hd

theorem isMonth_fixed : ∀ n < 13, 1 ≤ n → isMonth (Decimal.fixed 2 n) = true := by decide +kernel

theorem isDay_fixed : ∀ n < 32, 1 ≤ n → isDay (Decimal.fixed 2 n) = true := by decide +kernel

theorem isHour_fixed : ∀ n < 24, isHour (Decimal.fixed 2 n) = true := by decide +kernel

theorem isMinute_fixed : ∀ n < 60, isMinute (Decimal.fixed 2 n) = true := by decide +kernel

theorem isSecond_fixed : ∀ n < 60, isSecond (Decimal.fixed 2 n) = true := by decide +kernel

end Strptime

/-- The text of a time without the final `Z`. -/
theorem toList_toIso8601 {t : DateTime} (h : t.Valid) :
    (toIso8601 t).toList =
      (Decimal.fixed 4 t.year ++ '-' :: (Decimal.fixed 2 t.month ++ '-' ::
        (Decimal.fixed 2 t.day ++ 'T' :: (Decimal.fixed 2 t.hour ++ ':' ::
          (Decimal.fixed 2 t.minute ++ ':' :: (Decimal.fixed 2 t.second ++ '.' ::
            Decimal.fixed 6 t.microsecond)))))) ++ ['Z'] := by
  have hday := h.day.2.trans (DateTime.daysInMonth_le _ _)
  have hyear := h.year
  have hmonth := h.month
  have hhour := h.hour
  have hminute := h.minute
  have hsecond := h.second
  simp only [toIso8601, String.toList_append, toList_pad 3 t.year (by omega),
    toList_pad 5 t.microsecond h.microsecond,
    toList_pad 1 t.month (by omega),
    toList_pad 1 t.day (by omega),
    toList_pad 1 t.hour (by omega),
    toList_pad 1 t.minute (by omega),
    toList_pad 1 t.second (by omega)]
  simp

/-- Reading inverts writing for every time there is. -/
theorem fromIso8601_toIso8601 {t : DateTime} (h : t.Valid) : fromIso8601 (toIso8601 t) = .ok t := by
  have hday := h.day.2.trans (DateTime.daysInMonth_le _ _)
  have hdash : ∀ d < 10, (Nat.digitChar d == '-') = false := by decide
  have hcolon : ∀ d < 10, (Nat.digitChar d == ':') = false := by decide
  have hdot : ∀ d < 10, (Nat.digitChar d == '.') = false := by decide
  have hsep : ∀ d < 10, (Nat.digitChar d == 'T' || Nat.digitChar d == 't') = false := by decide
  have hyear : t.year < 10 ^ 4 := by have := h.year; omega
  have hmonth : t.month < 13 := by have := h.month; omega
  have hminute : t.minute < 10 ^ 2 := by have := h.minute; omega
  have hsecond : t.second < 10 ^ 2 := by have := h.second; omega
  have hhour : t.hour < 10 ^ 2 := by have := h.hour; omega
  have hmicrosecond : t.microsecond < 10 ^ 6 := h.microsecond
  have hparts : Strptime.parts (toIso8601 t).toList.dropLast = some t := by
    rw [toList_toIso8601 h, List.dropLast_concat, Strptime.parts,
      Strptime.part_beq (Strptime.isYear_fixed _) hyear hdash]
    simp only [Option.bind_eq_bind, Option.bind_some]
    rw [Strptime.part_beq (Strptime.isMonth_fixed _ hmonth h.month.1) (by omega) hdash]
    simp only [Option.bind_some]
    rw [Strptime.part_fixed (Strptime.isDay_fixed _ (by omega) h.day.1) (by omega) hsep (by decide)]
    simp only [Option.bind_some]
    rw [Strptime.part_beq (Strptime.isHour_fixed _ h.hour) hhour hcolon]
    simp only [Option.bind_some]
    rw [Strptime.part_beq (Strptime.isMinute_fixed _ h.minute) hminute hcolon]
    simp only [Option.bind_some]
    rw [Strptime.part_beq (Strptime.isSecond_fixed _ h.second) hsecond hdot]
    simp only [Option.bind_some, Strptime.isFraction_fixed, if_true,
      Strptime.number_fixed hmicrosecond, Decimal.length_fixed, Nat.sub_self, pow_zero, mul_one]
  have hlast : (toIso8601 t).toList.getLast? = some 'Z' := by
    rw [toList_toIso8601 h, List.getLast?_concat]
  rw [fromIso8601, if_pos hlast, strptime, hparts]
  exact if_pos h

end Canonical

end RationaleVault
