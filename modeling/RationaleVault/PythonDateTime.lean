import RationaleVault.Canonical.Timestamp

/-!
# Reading what `isoformat` writes

A UTC time is written with its offset, and with microseconds only when there are
any. The parts end at the same characters as those of a canonical timestamp.
-/

namespace RationaleVault

namespace DateTime

open Canonical.Strptime

/-- Exactly `width` digits. -/
def isDigits (width : Nat) (cs : List Char) : Bool :=
  cs.length = width && cs.all (between '0' '9')

/-- The seconds and the microseconds of a clock. -/
def secondParts (cs : List Char) : Option (Nat × Nat) :=
  if isDigits 2 cs then some (number cs, 0)
  else do
    let (second, fraction) ← part (isDigits 2) (· == '.') cs
    if isDigits 6 fraction then some (second, number fraction) else none

/-- The time of the parts, if there is such a time. -/
def isoParts (cs : List Char) : Option DateTime := do
  let (year, cs) ← part (isDigits 4) (· == '-') cs
  let (month, cs) ← part (isDigits 2) (· == '-') cs
  let (day, cs) ← part (isDigits 2) (· == 'T') cs
  let (hour, cs) ← part (isDigits 2) (· == ':') cs
  let (minute, cs) ← part (isDigits 2) (· == ':') cs
  let (second, microsecond) ← secondParts (cs.takeWhile (· ≠ '+'))
  if cs.dropWhile (· ≠ '+') = ['+', '0', '0', ':', '0', '0'] then
    some ⟨year, month, day, hour, minute, second, microsecond⟩
  else none

/-- `datetime.fromisoformat(s)` for the texts of UTC times; the messages leave the text out. -/
def fromisoformat (s : String) : Except Exc DateTime :=
  match isoParts s.toList with
  | none => .error (.valueError "Invalid isoformat string")
  | some t => if t.Valid then .ok t else .error (.valueError "day is out of range for month")

/-! ## The round trip -/

theorem isDigits_fixed (width n : Nat) : isDigits width (Decimal.fixed width n) = true := by
  rw [isDigits, Decimal.length_fixed, Bool.and_eq_true, List.all_eq_true]
  refine ⟨decide_eq_true rfl, fun c hc => ?_⟩
  obtain ⟨d, hd, rfl⟩ := Decimal.mem_fixed hc
  exact (by decide : ∀ d < 10, between '0' '9' (Nat.digitChar d) = true) d hd

/-- A padded number in front of a separator is read as a part. -/
theorem part_digits (width n : Nat) (hn : n < 10 ^ width) {c : Char}
    (hdigits : ∀ d < 10, (Nat.digitChar d == c) = false) (rest : List Char) :
    part (isDigits width) (· == c) (Decimal.fixed width n ++ c :: rest) = some (n, rest) :=
  part_beq (isDigits_fixed width n) hn hdigits rest

/-- What follows the minutes in the text of a time, up to the offset. -/
def secondText (second microsecond : Nat) : List Char :=
  Decimal.fixed 2 second ++
    if microsecond = 0 then [] else '.' :: Decimal.fixed 6 microsecond

theorem secondParts_secondText {second microsecond : Nat} (hsecond : second < 60)
    (hmicrosecond : microsecond < 1000000) :
    secondParts (secondText second microsecond) = some (second, microsecond) := by
  rw [secondText]
  split
  next hzero =>
    rw [List.append_nil, secondParts, if_pos (isDigits_fixed 2 second),
      number_fixed (by omega), hzero]
  next hzero =>
    have hlong : isDigits 2 (Decimal.fixed 2 second ++ '.' :: Decimal.fixed 6 microsecond) =
        false := by
      simp [isDigits]
    have hpart : part (isDigits 2) (· == '.')
        (Decimal.fixed 2 second ++ '.' :: Decimal.fixed 6 microsecond) =
          some (second, Decimal.fixed 6 microsecond) :=
      part_digits 2 second (by omega) (by decide) _
    have hfraction : microsecond < 10 ^ 6 := hmicrosecond
    rw [secondParts, hlong, hpart]
    simp only [Bool.false_eq_true, if_false, Option.bind_eq_bind, Option.bind_some,
      isDigits_fixed, if_true, number_fixed hfraction]

theorem ne_plus_of_mem_secondText {second microsecond : Nat} :
    ∀ c ∈ secondText second microsecond, c ≠ '+' := by
  have hfixed : ∀ width n, ∀ c ∈ Decimal.fixed width n, c ≠ '+' := by
    intro width n c hc
    obtain ⟨d, hd, rfl⟩ := Decimal.mem_fixed hc
    exact (by decide : ∀ d < 10, Nat.digitChar d ≠ '+') d hd
  intro c hc
  rw [secondText, List.mem_append] at hc
  rcases hc with hc | hc
  · exact hfixed _ _ c hc
  · split at hc
    · cases hc
    · rcases List.mem_cons.mp hc with rfl | hc
      · decide
      · exact hfixed _ _ c hc

/-- The text of a time. -/
theorem toList_isoformat {t : DateTime} (h : t.Valid) :
    t.isoformat.toList =
      Decimal.fixed 4 t.year ++ '-' :: (Decimal.fixed 2 t.month ++ '-' ::
        (Decimal.fixed 2 t.day ++ 'T' :: (Decimal.fixed 2 t.hour ++ ':' ::
          (Decimal.fixed 2 t.minute ++ ':' :: (secondText t.second t.microsecond ++
            ['+', '0', '0', ':', '0', '0']))))) := by
  have hday := h.day.2.trans (daysInMonth_le _ _)
  have hyear := h.year
  have hmonth := h.month
  have hhour := h.hour
  have hminute := h.minute
  have hsecond := h.second
  have hmicrosecond : (if t.microsecond = 0 then "" else "." ++ pad 6 t.microsecond).toList =
      if t.microsecond = 0 then [] else '.' :: Decimal.fixed 6 t.microsecond := by
    split
    · rfl
    · rw [String.toList_append, Canonical.toList_pad 5 t.microsecond h.microsecond]
      rfl
  simp only [isoformat, String.toList_append, hmicrosecond, secondText,
    Canonical.toList_pad 3 t.year (by omega),
    Canonical.toList_pad 1 t.month (by omega),
    Canonical.toList_pad 1 t.day (by omega),
    Canonical.toList_pad 1 t.hour (by omega),
    Canonical.toList_pad 1 t.minute (by omega),
    Canonical.toList_pad 1 t.second (by omega)]
  simp

/-- The offset is found behind the seconds. -/
theorem takeWhile_secondText (second microsecond : Nat) (zone : List Char) :
    (secondText second microsecond ++ '+' :: zone).takeWhile (· ≠ '+') =
        secondText second microsecond ∧
      (secondText second microsecond ++ '+' :: zone).dropWhile (· ≠ '+') = '+' :: zone := by
  have hclock : ∀ c ∈ secondText second microsecond, decide (c ≠ '+') = true :=
    fun c hc => decide_eq_true (ne_plus_of_mem_secondText c hc)
  constructor
  · rw [List.takeWhile_append_of_pos hclock, List.takeWhile_cons_of_neg (by decide),
      List.append_nil]
  · rw [List.dropWhile_append_of_pos hclock, List.dropWhile_cons_of_neg (by decide)]

/-- Reading inverts writing for every time there is. -/
theorem fromisoformat_isoformat {t : DateTime} (h : t.Valid) :
    fromisoformat t.isoformat = .ok t := by
  have hday := h.day.2.trans (daysInMonth_le _ _)
  have hyear := h.year
  have hmonth := h.month
  have hhour := h.hour
  have hminute := h.minute
  obtain ⟨htake, hdrop⟩ :=
    takeWhile_secondText t.second t.microsecond ['0', '0', ':', '0', '0']
  have hparts : isoParts t.isoformat.toList = some t := by
    rw [toList_isoformat h, isoParts, part_digits 4 t.year (by omega) (by decide)]
    simp only [Option.bind_eq_bind, Option.bind_some]
    rw [part_digits 2 t.month (by omega) (by decide)]
    simp only [Option.bind_some]
    rw [part_digits 2 t.day (by omega) (by decide)]
    simp only [Option.bind_some]
    rw [part_digits 2 t.hour (by omega) (by decide)]
    simp only [Option.bind_some]
    rw [part_digits 2 t.minute (by omega) (by decide)]
    simp only [Option.bind_some]
    rw [htake, hdrop, secondParts_secondText h.second h.microsecond]
    rfl
  rw [fromisoformat, hparts]
  exact if_pos h

end DateTime

end RationaleVault
