import Mathlib.Data.List.Sort
import RationaleVault.Library.Json
import RationaleVault.Library.Numerals

/-!
# JSON text

`dumps` writes a JSON value as `json.dumps` does, with either pair of
separators and with or without the escaping of non-ASCII characters; `loads`
reads such text back. Reading inverts writing for every style, so the text
determines the value.
-/

namespace Json

/-- Layout of the written text. -/
structure Style where
  /-- `", "` and `": "` instead of `","` and `":"`. -/
  spaced : Bool
  /-- Escape every character outside the printable ASCII range. -/
  ensureAscii : Bool

/-- `json.dumps(v)`. -/
def Style.default : Style := ⟨true, true⟩

/-- `json.dumps(v, separators=(",", ":"))`. -/
def Style.compact : Style := ⟨false, true⟩

/-- `json.dumps(v, separators=(",", ":"), ensure_ascii=False)`. -/
def Style.canonical : Style := ⟨false, false⟩

/-! ## Writing -/

/-- `\uXXXX`. -/
def escapeUnit (n : Nat) : List Char := '\\' :: 'u' :: Hex.encode 4 n

/-- A code point beyond the basic plane is written as a surrogate pair. -/
def escapeCode (n : Nat) : List Char :=
  if n < 0x10000 then escapeUnit n
  else escapeUnit (0xD800 + (n - 0x10000) / 0x400) ++ escapeUnit (0xDC00 + (n - 0x10000) % 0x400)

def escapeChar (ensureAscii : Bool) (c : Char) : List Char :=
  if c = '"' then ['\\', '"']
  else if c = '\\' then ['\\', '\\']
  else if c = '\n' then ['\\', 'n']
  else if c = '\r' then ['\\', 'r']
  else if c = '\t' then ['\\', 't']
  else if c = '\x08' then ['\\', 'b']
  else if c = '\x0c' then ['\\', 'f']
  else if c.toNat < 0x20 then escapeCode c.toNat
  else if ensureAscii && 0x7e < c.toNat then escapeCode c.toNat
  else [c]

/-- A string literal after its opening quote. -/
def encodeChars (st : Style) : List Char → List Char
  | [] => ['"']
  | c :: cs => escapeChar st.ensureAscii c ++ encodeChars st cs

def encodeStr (st : Style) (s : String) : List Char := '"' :: encodeChars st s.toList

def encodeInt (n : Int) : List Char :=
  if n < 0 then '-' :: Nat.toDigits 10 n.natAbs else Nat.toDigits 10 n.natAbs

def encodeAtom (st : Style) : Atom → List Char
  | .null => ['n', 'u', 'l', 'l']
  | .bool true => ['t', 'r', 'u', 'e']
  | .bool false => ['f', 'a', 'l', 's', 'e']
  | .int n => encodeInt n
  | .float x => x.text
  | .str s => encodeStr st s

def itemSeparator (st : Style) : List Char := if st.spaced then [',', ' '] else [',']

def keySeparator (st : Style) : List Char := if st.spaced then [':', ' '] else [':']

mutual

def encode (st : Style) : Json → List Char
  | .atom a => encodeAtom st a
  | .arr [] => ['[', ']']
  | .arr (x :: xs) => '[' :: (encode st x ++ encodeItems st xs)
  | .obj [] => ['{', '}']
  | .obj ((k, x) :: ms) =>
      '{' :: (encodeStr st k ++ (keySeparator st ++ (encode st x ++ encodeMembers st ms)))

/-- The items after the first one, and the closing bracket. -/
def encodeItems (st : Style) : List Json → List Char
  | [] => [']']
  | x :: xs => itemSeparator st ++ (encode st x ++ encodeItems st xs)

/-- The members after the first one, and the closing brace. -/
def encodeMembers (st : Style) : List (String × Json) → List Char
  | [] => ['}']
  | (k, x) :: ms =>
      itemSeparator st ++
        (encodeStr st k ++ (keySeparator st ++ (encode st x ++ encodeMembers st ms)))

end

/-- `json.dumps` in the given style. -/
def dumps (st : Style) (v : Json) : String := String.ofList (encode st v)

mutual

/-- Order the members of every object by key, as `sort_keys=True` does. -/
def sortKeys : Json → Json
  | .atom a => .atom a
  | .arr xs => .arr (sortKeysItems xs)
  | .obj ms => .obj ((sortKeysMembers ms).insertionSort fun m m' => m.1 ≤ m'.1)

def sortKeysItems : List Json → List Json
  | [] => []
  | x :: xs => sortKeys x :: sortKeysItems xs

def sortKeysMembers : List (String × Json) → List (String × Json)
  | [] => []
  | (k, x) :: ms => (k, sortKeys x) :: sortKeysMembers ms

end

/-! ## Reading -/

def isSpace (c : Char) : Bool := c == ' ' || c == '\n' || c == '\t' || c == '\r'

def skipSpace (cs : List Char) : List Char := cs.dropWhile isSpace

/-- The code unit of a `\uXXXX` escape whose `\u` has been read. -/
def readUnit : List Char → Option (Nat × List Char)
  | a :: b :: c :: d :: rest => (Hex.decode [a, b, c, d]).map fun n => (n, rest)
  | _ => none

/-- The second half of a surrogate pair. -/
def readLowSurrogate : List Char → Option (Nat × List Char)
  | '\\' :: 'u' :: cs =>
      match readUnit cs with
      | some (n, rest) => if 0xDC00 ≤ n ∧ n < 0xE000 then some (n, rest) else none
      | none => none
  | _ => none

/-- The character behind a backslash. -/
def readEscape : List Char → Option (Char × List Char)
  | '"' :: cs => some ('"', cs)
  | '\\' :: cs => some ('\\', cs)
  | '/' :: cs => some ('/', cs)
  | 'n' :: cs => some ('\n', cs)
  | 'r' :: cs => some ('\r', cs)
  | 't' :: cs => some ('\t', cs)
  | 'b' :: cs => some ('\x08', cs)
  | 'f' :: cs => some ('\x0c', cs)
  | 'u' :: cs =>
      match readUnit cs with
      | none => none
      | some (n, rest) =>
          if 0xD800 ≤ n ∧ n < 0xDC00 then
            (readLowSurrogate rest).map fun p =>
              (Char.ofNat (0x10000 + (n - 0xD800) * 0x400 + (p.1 - 0xDC00)), p.2)
          else some (Char.ofNat n, rest)
  | _ => none

/-- One character of a string literal. -/
def readChar : List Char → Option (Char × List Char)
  | [] => none
  | c :: cs =>
      if c = '\\' then readEscape cs
      else if c.toNat < 0x20 then none
      else some (c, cs)

/-- A string literal after its opening quote. -/
def readChars : (fuel : Nat) → List Char → Option (List Char × List Char)
  | 0, _ => none
  | _ + 1, [] => none
  | fuel + 1, c :: cs =>
      if c = '"' then some ([], cs)
      else (readChar (c :: cs)).bind fun p =>
        (readChars fuel p.2).map fun q => (p.1 :: q.1, q.2)

def readInt (cs : List Char) : Option Int :=
  match cs with
  | '-' :: ds => if isDigits ds then some (-(Nat.ofDigitChars 10 ds 0 : Int)) else none
  | ds => if isDigits ds then some (Nat.ofDigitChars 10 ds 0) else none

def readNumber (cs : List Char) : Option (Json × List Char) :=
  let token := cs.takeWhile isNumberChar
  let rest := cs.dropWhile isNumberChar
  if h : isFloatLiteral token then some (.atom (.float ⟨token, h⟩), rest)
  else (readInt token).map fun n => (.int n, rest)

mutual

def read : (fuel : Nat) → List Char → Option (Json × List Char)
  | 0, _ => none
  | fuel + 1, cs =>
      match skipSpace cs with
      | 'n' :: 'u' :: 'l' :: 'l' :: rest => some (.null, rest)
      | 't' :: 'r' :: 'u' :: 'e' :: rest => some (.bool true, rest)
      | 'f' :: 'a' :: 'l' :: 's' :: 'e' :: rest => some (.bool false, rest)
      | '"' :: rest =>
          (readChars (fuel + 1) rest).map fun p => (.str (String.ofList p.1), p.2)
      | '[' :: rest =>
          match skipSpace rest with
          | ']' :: rest' => some (.arr [], rest')
          | rest' =>
              (read fuel rest').bind fun p =>
                (readItems fuel p.2).map fun q => (.arr (p.1 :: q.1), q.2)
      | '{' :: rest =>
          match skipSpace rest with
          | '}' :: rest' => some (.obj [], rest')
          | rest' =>
              (readMember fuel rest').bind fun p =>
                (readMembers fuel p.2).map fun q => (.obj (p.1 :: q.1), q.2)
      | rest => readNumber rest

/-- The items after the first one, and the closing bracket. -/
def readItems : (fuel : Nat) → List Char → Option (List Json × List Char)
  | 0, _ => none
  | fuel + 1, cs =>
      match skipSpace cs with
      | ']' :: rest => some ([], rest)
      | ',' :: rest =>
          (read fuel rest).bind fun p =>
            (readItems fuel p.2).map fun q => (p.1 :: q.1, q.2)
      | _ => none

/-- A member: a string literal, a colon and a value. -/
def readMember : (fuel : Nat) → List Char → Option ((String × Json) × List Char)
  | 0, _ => none
  | fuel + 1, cs =>
      match skipSpace cs with
      | '"' :: rest =>
          (readChars fuel rest).bind fun p =>
            match skipSpace p.2 with
            | ':' :: rest' => (read fuel rest').map fun q => ((String.ofList p.1, q.1), q.2)
            | _ => none
      | _ => none

/-- The members after the first one, and the closing brace. -/
def readMembers : (fuel : Nat) → List Char → Option (List (String × Json) × List Char)
  | 0, _ => none
  | fuel + 1, cs =>
      match skipSpace cs with
      | '}' :: rest => some ([], rest)
      | ',' :: rest =>
          (readMember fuel rest).bind fun p =>
            (readMembers fuel p.2).map fun q => (p.1 :: q.1, q.2)
      | _ => none

end

/-- `json.loads`: one value, surrounded by nothing but white space. -/
def loads (s : String) : Option Json :=
  match read (s.toList.length + 1) s.toList with
  | some (v, rest) => if skipSpace rest = [] then some v else none
  | none => none

/-! ## Characters and string literals -/

theorem skipSpace_cons {c : Char} (h : isSpace c = false) (cs : List Char) :
    skipSpace (c :: cs) = c :: cs := by
  simp [skipSpace, h]

theorem readUnit_encode (n : Nat) (rest : List Char) :
    readUnit (Hex.encode 4 n ++ rest) = some (n % 0x10000, rest) := by
  have hd : Hex.decode (Hex.encode 4 n) = some (n % 0x10000) := Hex.decode_encode 4 n
  simp only [Hex.encode, List.nil_append, List.cons_append] at hd ⊢
  simp only [readUnit, hd, Option.map_some]

theorem readLowSurrogate_escapeUnit {n : Nat} (h : 0xDC00 ≤ n ∧ n < 0xE000) (rest : List Char) :
    readLowSurrogate (escapeUnit n ++ rest) = some (n, rest) := by
  have hn : n % 0x10000 = n := Nat.mod_eq_of_lt (by omega)
  simp [escapeUnit, readLowSurrogate, readUnit_encode, hn, h]

/-- A character is never a surrogate. -/
theorem toNat_scalar (c : Char) : c.toNat < 0xD800 ∨ (0xE000 ≤ c.toNat ∧ c.toNat < 0x110000) := by
  rcases c.valid with h | h
  · exact Or.inl h
  · exact Or.inr ⟨by have := h.1; change 0xE000 ≤ c.val.toNat; omega, h.2⟩

theorem readChar_escapeCode (c : Char) (rest : List Char) :
    readChar (escapeCode c.toNat ++ rest) = some (c, rest) := by
  have hc := toNat_scalar c
  by_cases hb : c.toNat < 0x10000
  · have hn : c.toNat % 0x10000 = c.toNat := Nat.mod_eq_of_lt hb
    have hs : ¬(0xD800 ≤ c.toNat ∧ c.toNat < 0xDC00) := by omega
    simp [escapeCode, hb, escapeUnit, readChar, readEscape, readUnit_encode, hn, hs]
  · have hhi : (0xD800 + (c.toNat - 0x10000) / 0x400) % 0x10000 =
        0xD800 + (c.toNat - 0x10000) / 0x400 := Nat.mod_eq_of_lt (by omega)
    have hlo := @readLowSurrogate_escapeUnit
      (0xDC00 + (c.toNat - 0x10000) % 0x400) (by omega) rest
    have hrange : 0xD800 ≤ 0xD800 + (c.toNat - 0x10000) / 0x400 ∧
        0xD800 + (c.toNat - 0x10000) / 0x400 < 0xDC00 := by omega
    have hval : 0x10000 + (0xD800 + (c.toNat - 0x10000) / 0x400 - 0xD800) * 0x400 +
        (0xDC00 + (c.toNat - 0x10000) % 0x400 - 0xDC00) = c.toNat := by omega
    rw [escapeCode, if_neg hb, List.append_assoc, escapeUnit]
    simp only [List.cons_append, readChar, if_true, readEscape, readUnit_encode, hhi, if_pos hrange,
      hlo, Option.map_some, hval, Char.ofNat_toNat]

theorem readChar_escapeChar (ascii : Bool) (c : Char) (rest : List Char) :
    readChar (escapeChar ascii c ++ rest) = some (c, rest) := by
  unfold escapeChar
  split
  · subst_vars; rfl
  split
  · subst_vars; rfl
  split
  · subst_vars; rfl
  split
  · subst_vars; rfl
  split
  · subst_vars; rfl
  split
  · subst_vars; rfl
  split
  · subst_vars; rfl
  split
  · exact readChar_escapeCode c rest
  split
  · exact readChar_escapeCode c rest
  · rename_i hslash _ _ _ _ _ hlow _
    simp [readChar, hslash, hlow]

/-- An escaped character never starts with the closing quote. -/
theorem escapeChar_head (ascii : Bool) (c : Char) :
    ∃ d ds, escapeChar ascii c = d :: ds ∧ d ≠ '"' := by
  have hcode : ∃ d ds, escapeCode c.toNat = d :: ds ∧ d ≠ '"' := by
    unfold escapeCode escapeUnit
    split <;> exact ⟨'\\', _, rfl, by decide⟩
  unfold escapeChar
  repeat' split
  any_goals exact ⟨'\\', _, rfl, by decide⟩
  · exact hcode
  · exact hcode
  · rename_i hq _ _ _ _ _ _ _ _
    exact ⟨c, [], rfl, hq⟩

theorem readChars_encodeChars (st : Style) (cs rest : List Char) {fuel : Nat}
    (h : (encodeChars st cs).length ≤ fuel) :
    readChars fuel (encodeChars st cs ++ rest) = some (cs, rest) := by
  induction cs generalizing fuel with
  | nil =>
      cases fuel with
      | zero => simp [encodeChars] at h
      | succ fuel => simp [encodeChars, readChars]
  | cons c cs ih =>
      obtain ⟨d, ds, hd, hq⟩ := escapeChar_head st.ensureAscii c
      have hread := readChar_escapeChar st.ensureAscii c (encodeChars st cs ++ rest)
      cases fuel with
      | zero => simp [encodeChars, hd] at h
      | succ fuel =>
          have hlen : (encodeChars st cs).length ≤ fuel := by
            simp only [encodeChars, hd, List.cons_append, List.length_cons,
              List.length_append] at h
            omega
          rw [hd, List.cons_append] at hread
          simp only [encodeChars, hd, List.cons_append, List.append_assoc, readChars, hq,
            if_false, hread, Option.bind_some, ih hlen, Option.map_some]

/-! ## Numbers -/

/-- The text after a value does not continue a number. -/
def NumberEnds (rest : List Char) : Prop := ∀ c ∈ rest.head?, isNumberChar c = false

theorem numberEnds_cons {c : Char} (h : isNumberChar c = false) (cs : List Char) :
    NumberEnds (c :: cs) := by
  intro d hd
  simp only [List.head?_cons, Option.mem_def, Option.some.injEq] at hd
  exact hd ▸ h

theorem takeWhile_token {token rest : List Char} (ht : ∀ c ∈ token, isNumberChar c = true)
    (hr : NumberEnds rest) :
    (token ++ rest).takeWhile isNumberChar = token ∧
      (token ++ rest).dropWhile isNumberChar = rest := by
  rw [List.takeWhile_append_of_pos ht, List.dropWhile_append_of_pos ht]
  cases rest with
  | nil => simp
  | cons c cs => simp [hr c (by simp)]

theorem isFloatLiteral_chars {cs : List Char} (h : isFloatLiteral cs = true) :
    ∀ c ∈ cs, isNumberChar c = true := by
  simp only [isFloatLiteral, Bool.and_eq_true, List.all_eq_true] at h
  exact h.1.1.1.1

theorem isFloatLiteral_ne_nil {cs : List Char} (h : isFloatLiteral cs = true) : cs ≠ [] := by
  rintro rfl
  exact absurd h (by decide)

theorem isNumberChar_of_isDigit {c : Char} (h : c.isDigit = true) : isNumberChar c = true := by
  simp [isNumberChar, h]

/-- A digit or a sign has neither a point nor an exponent mark. -/
theorem not_isFloatLiteral {cs : List Char} (h : ∀ c ∈ cs, c.isDigit = true ∨ c = '-') :
    isFloatLiteral cs = false := by
  have hany : (cs.any fun c => c == '.' || c == 'e' || c == 'E') = false := by
    simp only [List.any_eq_false, Bool.not_eq_true, Bool.or_eq_false_iff, beq_eq_false_iff_ne]
    intro c hc
    rcases h c hc with hd | rfl
    · refine ⟨⟨?_, ?_⟩, ?_⟩ <;> (rintro rfl; exact absurd hd (by decide))
    · decide
  simp [isFloatLiteral, hany]

theorem isDigits_toDigits (n : Nat) : isDigits (Nat.toDigits 10 n) = true := by
  simp only [isDigits, Bool.and_eq_true, Bool.not_eq_true', List.isEmpty_eq_false_iff,
    List.all_eq_true]
  exact ⟨Nat.toDigits_ne_nil, fun c hc => Nat.isDigit_of_mem_toDigits (by decide) (by decide) hc⟩

theorem mem_encodeInt {n : Int} {c : Char} (h : c ∈ encodeInt n) : c.isDigit = true ∨ c = '-' := by
  have hd : c ∈ Nat.toDigits 10 n.natAbs → c.isDigit = true :=
    fun hc => Nat.isDigit_of_mem_toDigits (by decide) (by decide) hc
  unfold encodeInt at h
  split at h
  · rcases List.mem_cons.mp h with h | h
    · exact Or.inr h
    · exact Or.inl (hd h)
  · exact Or.inl (hd h)

theorem not_mem_encodeInt {c : Char} (hdigit : c.isDigit = false) (hminus : c ≠ '-') (n : Int) :
    c ∉ encodeInt n := by
  intro hc
  rcases mem_encodeInt hc with h | h
  · rw [h] at hdigit
    cases hdigit
  · exact hminus h

theorem readInt_encodeInt (n : Int) : readInt (encodeInt n) = some n := by
  have hdig := isDigits_toDigits n.natAbs
  unfold encodeInt
  split
  · simp only [readInt, hdig, if_true, Nat.ofDigitChars_ten_toDigits, Option.some.injEq]
    omega
  · cases hds : Nat.toDigits 10 n.natAbs with
    | nil => exact absurd hds Nat.toDigits_ne_nil
    | cons d ds =>
        have hd : d ≠ '-' := by
          rintro rfl
          have := Nat.isDigit_of_mem_toDigits (n := n.natAbs) (b := 10) (by decide) (by decide)
            (hds ▸ List.mem_cons_self ..)
          exact absurd this (by decide)
        have hval := Nat.ofDigitChars_ten_toDigits (n := n.natAbs)
        rw [hds] at hdig hval
        unfold readInt
        split
        · rename_i heq
          exact absurd (List.cons.inj heq).1 hd
        · rw [if_pos hdig, hval, Option.some.injEq]
          omega

theorem encodeInt_ne_nil (n : Int) : encodeInt n ≠ [] := by
  unfold encodeInt
  split
  · simp
  · exact Nat.toDigits_ne_nil

/-- Reading falls through to the number case on a number character. -/
theorem read_number {c : Char} (hc : isNumberChar c = true) (cs : List Char) (fuel : Nat) :
    read (fuel + 1) (c :: cs) = readNumber (c :: cs) := by
  have hspace : isSpace c = false := by
    simp only [isSpace, Bool.or_eq_false_iff, beq_eq_false_iff_ne]
    refine ⟨⟨⟨?_, ?_⟩, ?_⟩, ?_⟩ <;> (rintro rfl; exact absurd hc (by decide))
  simp only [read, skipSpace_cons hspace]
  split <;> first
    | rfl
    | (rename_i heq
       rw [(List.cons.inj heq).1] at hc
       exact absurd hc (by decide))

theorem read_float (x : FloatLit) {rest : List Char} (hr : NumberEnds rest) (fuel : Nat) :
    read (fuel + 1) (x.text ++ rest) = some (.atom (.float x), rest) := by
  have hchars := isFloatLiteral_chars x.valid
  obtain ⟨htake, hdrop⟩ := takeWhile_token hchars hr
  have hread : readNumber (x.text ++ rest) = some (.atom (.float x), rest) := by
    simp only [readNumber, htake, hdrop, x.valid, dif_pos]
  cases ht : x.text with
  | nil => exact absurd ht (isFloatLiteral_ne_nil x.valid)
  | cons c cs =>
      rw [ht] at hread
      rw [List.cons_append, read_number (hchars c (ht ▸ List.mem_cons_self ..))]
      exact hread

theorem read_int (n : Int) {rest : List Char} (hr : NumberEnds rest) (fuel : Nat) :
    read (fuel + 1) (encodeInt n ++ rest) = some (.int n, rest) := by
  have hchars : ∀ c ∈ encodeInt n, isNumberChar c = true := by
    intro c hc
    rcases mem_encodeInt hc with h | rfl
    · exact isNumberChar_of_isDigit h
    · decide
  obtain ⟨htake, hdrop⟩ := takeWhile_token hchars hr
  have hfloat := not_isFloatLiteral fun c hc => mem_encodeInt (n := n) (c := c) hc
  have hread : readNumber (encodeInt n ++ rest) = some (.int n, rest) := by
    simp [readNumber, htake, hdrop, hfloat, readInt_encodeInt]
  cases ht : encodeInt n with
  | nil => exact absurd ht (encodeInt_ne_nil n)
  | cons c cs =>
      rw [ht] at hread
      rw [List.cons_append, read_number (hchars c (ht ▸ List.mem_cons_self ..))]
      exact hread

/-! ## Values -/

/-- A written value starts with a character that is neither white space nor a closing bracket. -/
def ValueHead (c : Char) : Prop := isSpace c = false ∧ c ≠ ']'

instance (c : Char) : Decidable (ValueHead c) :=
  inferInstanceAs (Decidable (isSpace c = false ∧ c ≠ ']'))

theorem valueHead_of_number {c : Char} (hc : isNumberChar c = true) : ValueHead c := by
  constructor
  · simp only [isSpace, Bool.or_eq_false_iff, beq_eq_false_iff_ne]
    refine ⟨⟨⟨?_, ?_⟩, ?_⟩, ?_⟩ <;> (rintro rfl; exact absurd hc (by decide))
  · rintro rfl
    exact absurd hc (by decide)

theorem encodeAtom_head (st : Style) (a : Atom) :
    ∃ c cs, encodeAtom st a = c :: cs ∧ ValueHead c := by
  cases a with
  | null => exact ⟨'n', _, rfl, by decide⟩
  | bool b => cases b <;> exact ⟨_, _, rfl, by decide⟩
  | int n =>
      cases h : encodeInt n with
      | nil => exact absurd h (encodeInt_ne_nil n)
      | cons c cs =>
          refine ⟨c, cs, h, valueHead_of_number ?_⟩
          rcases mem_encodeInt (n := n) (c := c) (h ▸ List.mem_cons_self ..) with hd | rfl
          · exact isNumberChar_of_isDigit hd
          · decide
  | float x =>
      cases h : x.text with
      | nil => exact absurd h (isFloatLiteral_ne_nil x.valid)
      | cons c cs =>
          exact ⟨c, cs, h, valueHead_of_number
            (isFloatLiteral_chars x.valid c (h ▸ List.mem_cons_self ..))⟩
  | str s => exact ⟨'"', _, rfl, by decide⟩

theorem encode_head (st : Style) (v : Json) : ∃ c cs, encode st v = c :: cs ∧ ValueHead c := by
  match v with
  | .atom a => simpa only [encode] using encodeAtom_head st a
  | .arr [] => exact ⟨'[', [']'], by simp [encode], by decide⟩
  | .arr (x :: xs) => exact ⟨'[', _, by rw [encode], by decide⟩
  | .obj [] => exact ⟨'{', ['}'], by simp [encode], by decide⟩
  | .obj ((k, x) :: ms) => exact ⟨'{', _, by rw [encode], by decide⟩

theorem read_skip_space (fuel : Nat) (cs : List Char) : read fuel (' ' :: cs) = read fuel cs := by
  cases fuel with
  | zero => simp [read]
  | succ fuel => simp [read, skipSpace, isSpace]

theorem readMember_skip_space (fuel : Nat) (cs : List Char) :
    readMember fuel (' ' :: cs) = readMember fuel cs := by
  cases fuel with
  | zero => simp [readMember]
  | succ fuel => simp [readMember, skipSpace, isSpace]

theorem encodeItems_head (st : Style) (xs : List Json) (rest : List Char) :
    NumberEnds (encodeItems st xs ++ rest) := by
  cases xs with
  | nil => exact numberEnds_cons (by decide) _
  | cons x xs =>
      simp only [encodeItems, itemSeparator]
      split <;> exact numberEnds_cons (by decide) _

theorem encodeMembers_head (st : Style) (ms : List (String × Json)) (rest : List Char) :
    NumberEnds (encodeMembers st ms ++ rest) := by
  cases ms with
  | nil => exact numberEnds_cons (by decide) _
  | cons m ms =>
      simp only [encodeMembers, itemSeparator]
      split <;> exact numberEnds_cons (by decide) _

theorem read_atom (st : Style) (a : Atom) {rest : List Char} (hr : NumberEnds rest)
    {fuel : Nat} (h : (encodeAtom st a).length ≤ fuel + 1) :
    read (fuel + 1) (encodeAtom st a ++ rest) = some (.atom a, rest) := by
  cases a with
  | null => simp [encodeAtom, read, skipSpace, isSpace]
  | bool b => cases b <;> simp [encodeAtom, read, skipSpace, isSpace]
  | int n => exact read_int n hr fuel
  | float x => exact read_float x hr fuel
  | str s =>
      have hlen : (encodeChars st s.toList).length ≤ fuel + 1 := by
        simp only [encodeAtom, encodeStr, List.length_cons] at h
        omega
      have hread := readChars_encodeChars st s.toList rest hlen
      simp only [encodeAtom, encodeStr, List.cons_append, read]
      rw [skipSpace_cons (by decide)]
      simp [hread]

/-- The member reader accepts a written member whose value is read back. -/
theorem readMember_encode (st : Style) (k : String) (x : Json) {rest : List Char} {fuel : Nat}
    (h : (encodeStr st k).length ≤ fuel)
    (hx : read fuel (encode st x ++ rest) = some (x, rest)) :
    readMember (fuel + 1) (encodeStr st k ++ (keySeparator st ++ (encode st x ++ rest))) =
      some ((k, x), rest) := by
  have hlen : (encodeChars st k.toList).length ≤ fuel := by
    simp only [encodeStr, List.length_cons] at h
    omega
  simp only [encodeStr, List.cons_append, readMember]
  rw [skipSpace_cons (by decide)]
  simp only [readChars_encodeChars st k.toList _ hlen, Option.bind_some, keySeparator]
  by_cases hs : st.spaced = true
  · simp only [hs, if_true, List.cons_append, List.nil_append]
    rw [skipSpace_cons (by decide)]
    simp [read_skip_space, hx]
  · simp only [hs, Bool.false_eq_true, if_false, List.cons_append, List.nil_append]
    rw [skipSpace_cons (by decide)]
    simp [hx]

mutual

theorem read_encode (st : Style) : ∀ (v : Json) (rest : List Char) (fuel : Nat),
    NumberEnds rest → (encode st v).length ≤ fuel →
      read fuel (encode st v ++ rest) = some (v, rest)
  | v, rest, 0, _, h => by
      obtain ⟨c, cs, hc, _⟩ := encode_head st v
      simp [hc] at h
  | .atom a, rest, fuel + 1, hr, h => by
      simp only [encode] at h ⊢
      exact read_atom st a hr h
  | .arr [], rest, fuel + 1, _, _ => by
      simp [encode, read, skipSpace, isSpace]
  | .arr (x :: xs), rest, fuel + 1, _, h => by
      simp only [encode, List.length_cons, List.length_append] at h
      have hx := read_encode st x (encodeItems st xs ++ rest) fuel
        (encodeItems_head st xs rest) (by omega)
      have hxs := readItems_encode st xs rest fuel (by omega)
      obtain ⟨c, cs, hc, hspace, hclose⟩ := encode_head st x
      simp only [encode, List.cons_append, List.append_assoc, read]
      rw [skipSpace_cons (by decide)]
      rw [hc, List.cons_append] at hx ⊢
      simp only [skipSpace_cons hspace]
      split
      · rename_i heq
        exact absurd (List.cons.inj heq).1 hclose
      · rw [hx]
        simp [hxs]
  | .obj [], rest, fuel + 1, _, _ => by
      simp [encode, read, skipSpace, isSpace]
  | .obj ((k, x) :: ms), rest, fuel + 1, _, h => by
      simp only [encode, List.length_cons, List.length_append] at h
      have hk : 1 ≤ (encodeStr st k).length := by simp [encodeStr]
      obtain ⟨c, cs, hc, _⟩ := encode_head st x
      have hx1 : 1 ≤ (encode st x).length := by simp [hc]
      obtain ⟨fuel', rfl⟩ : ∃ fuel', fuel = fuel' + 1 := ⟨fuel - 1, by omega⟩
      have hx := read_encode st x (encodeMembers st ms ++ rest) fuel'
        (encodeMembers_head st ms rest) (by omega)
      have hm := readMember_encode st k x (by omega) hx
      have hms := readMembers_encode st ms rest (fuel' + 1) (by omega)
      simp only [encode, List.cons_append, List.append_assoc, read]
      rw [skipSpace_cons (by decide)]
      simp only [encodeStr, List.cons_append] at hm ⊢
      rw [skipSpace_cons (by decide)]
      simp [hm, hms]

theorem readItems_encode (st : Style) : ∀ (xs : List Json) (rest : List Char) (fuel : Nat),
    (encodeItems st xs).length ≤ fuel →
      readItems fuel (encodeItems st xs ++ rest) = some (xs, rest)
  | [], rest, 0, h => by simp [encodeItems] at h
  | [], rest, fuel + 1, _ => by simp [encodeItems, readItems, skipSpace, isSpace]
  | x :: xs, rest, 0, h => by
      obtain ⟨c, cs, hc, _⟩ := encode_head st x
      simp [encodeItems, hc] at h
  | x :: xs, rest, fuel + 1, h => by
      have hsep : 1 ≤ (itemSeparator st).length := by unfold itemSeparator; split <;> simp
      simp only [encodeItems, List.length_append] at h
      have hx := read_encode st x (encodeItems st xs ++ rest) fuel
        (encodeItems_head st xs rest) (by omega)
      have hxs := readItems_encode st xs rest fuel (by omega)
      simp only [encodeItems, itemSeparator]
      split
      · simp only [List.cons_append, List.nil_append, List.append_assoc, readItems]
        rw [skipSpace_cons (by decide)]
        simp [read_skip_space, hx, hxs]
      · simp only [List.cons_append, List.nil_append, List.append_assoc, readItems]
        rw [skipSpace_cons (by decide)]
        simp [hx, hxs]

theorem readMembers_encode (st : Style) : ∀ (ms : List (String × Json)) (rest : List Char)
    (fuel : Nat), (encodeMembers st ms).length ≤ fuel →
      readMembers fuel (encodeMembers st ms ++ rest) = some (ms, rest)
  | [], rest, 0, h => by simp [encodeMembers] at h
  | [], rest, fuel + 1, _ => by simp [encodeMembers, readMembers, skipSpace, isSpace]
  | (k, x) :: ms, rest, 0, h => by
      simp [encodeMembers, encodeStr] at h
  | (k, x) :: ms, rest, fuel + 1, h => by
      have hsep : 1 ≤ (itemSeparator st).length := by unfold itemSeparator; split <;> simp
      have hk : 1 ≤ (encodeStr st k).length := by simp [encodeStr]
      obtain ⟨c, cs, hc, _⟩ := encode_head st x
      have hx1 : 1 ≤ (encode st x).length := by simp [hc]
      simp only [encodeMembers, List.length_append] at h
      obtain ⟨fuel', hf⟩ : ∃ fuel', fuel = fuel' + 1 := ⟨fuel - 1, by omega⟩
      have hx := read_encode st x (encodeMembers st ms ++ rest) fuel'
        (encodeMembers_head st ms rest) (by omega)
      have hm := readMember_encode st k x (by omega) hx
      have hms := readMembers_encode st ms rest fuel (by omega)
      rw [← hf] at hm
      simp only [encodeMembers, itemSeparator]
      split
      · simp only [List.cons_append, List.nil_append, List.append_assoc, readMembers]
        rw [skipSpace_cons (by decide)]
        simp [readMember_skip_space, hm, hms]
      · simp only [List.cons_append, List.nil_append, List.append_assoc, readMembers]
        rw [skipSpace_cons (by decide)]
        simp [hm, hms]

end

/-- Reading inverts writing, in every style. -/
@[simp] theorem loads_dumps (st : Style) (v : Json) : loads (dumps st v) = some v := by
  have h := read_encode st v [] ((encode st v).length + 1) (by simp [NumberEnds]) (by omega)
  simp only [List.append_nil] at h
  simp [loads, dumps, h, skipSpace]

/-- The written text determines the value. -/
theorem dumps_injective (st : Style) : Function.Injective (dumps st) := by
  intro v w h
  have hv := loads_dumps st v
  rw [h, loads_dumps] at hv
  exact (Option.some.inj hv).symm

end Json
