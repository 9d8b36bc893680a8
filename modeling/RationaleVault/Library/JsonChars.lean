import RationaleVault.Library.JsonText

/-!
# Characters of JSON text

A character of the written text belongs to the syntax, to a number, to an
escape sequence or to one of the strings of the value.
-/

namespace Json

mutual

/-- The strings of a value and the keys of its objects. -/
def texts : Json → List String
  | .atom (.str s) => [s]
  | .atom _ => []
  | .arr xs => textsItems xs
  | .obj ms => textsMembers ms

def textsItems : List Json → List String
  | [] => []
  | x :: xs => texts x ++ textsItems xs

def textsMembers : List (String × Json) → List String
  | [] => []
  | (k, x) :: ms => k :: (texts x ++ textsMembers ms)

end

/-- The characters of brackets, separators, quotes and constants. -/
def wordChars : List Char :=
  ['{', '}', '[', ']', ',', ':', ' ', '"', 'n', 'u', 'l', 't', 'r', 'e', 'f', 'a', 's']

/-- The characters outside the strings of a value. -/
def isPlainChar (c : Char) : Bool := isNumberChar c || wordChars.contains c

section Chars

variable {st : Style} {P : Char → Prop} (hplain : ∀ c, isPlainChar c = true → P c)

include hplain

theorem forall_mem_word {word : List Char} (h : word.all isPlainChar = true) : ∀ x ∈ word, P x :=
  fun x hx => hplain x (List.all_eq_true.mp h x hx)

theorem forall_mem_number {cs : List Char} (h : ∀ c ∈ cs, isNumberChar c = true) :
    ∀ x ∈ cs, P x := fun x hx => hplain x (by rw [isPlainChar, h x hx, Bool.true_or])

theorem forall_mem_encodeInt (n : Int) : ∀ x ∈ encodeInt n, P x := by
  apply forall_mem_number hplain
  intro c hc
  rcases mem_encodeInt hc with hdigit | rfl
  · exact isNumberChar_of_isDigit hdigit
  · decide

theorem forall_mem_encodeStr {s : String}
    (h : ∀ c ∈ s.toList, ∀ x ∈ escapeChar st.ensureAscii c, P x) : ∀ x ∈ encodeStr st s, P x := by
  have hchars : ∀ cs : List Char, (∀ c ∈ cs, ∀ x ∈ escapeChar st.ensureAscii c, P x) →
      ∀ x ∈ encodeChars st cs, P x := by
    intro cs hcs
    induction cs with
    | nil =>
        intro x hx
        exact hplain x (by rw [List.mem_singleton.mp hx]; decide)
    | cons c cs ih =>
        intro x hx
        rcases List.mem_append.mp hx with hx | hx
        · exact hcs c List.mem_cons_self x hx
        · exact ih (fun d hd => hcs d (List.mem_cons_of_mem c hd)) x hx
  intro x hx
  rcases List.mem_cons.mp hx with rfl | hx
  · exact hplain _ (by decide)
  · exact hchars s.toList h x hx

theorem forall_mem_encodeAtom {a : Atom}
    (h : ∀ s ∈ texts (.atom a), ∀ c ∈ s.toList, ∀ x ∈ escapeChar st.ensureAscii c, P x) :
    ∀ x ∈ encodeAtom st a, P x := by
  cases a with
  | null => exact forall_mem_word hplain (by rw [encodeAtom]; decide)
  | bool b => cases b <;> exact forall_mem_word hplain (by rw [encodeAtom]; decide)
  | int n => exact forall_mem_encodeInt hplain n
  | float q => exact forall_mem_number hplain (isFloatLiteral_chars q.valid)
  | str s => exact forall_mem_encodeStr hplain (h s (by simp [texts]))

theorem forall_mem_separators (st : Style) :
    (∀ x ∈ itemSeparator st, P x) ∧ ∀ x ∈ keySeparator st, P x := by
  rw [itemSeparator, keySeparator]
  constructor <;> split <;> exact forall_mem_word hplain (by decide)

mutual

/-- What holds of the syntax, of numbers and of the escaped strings holds of the whole text. -/
theorem forall_mem_encode : ∀ v : Json,
    (∀ s ∈ v.texts, ∀ c ∈ s.toList, ∀ x ∈ escapeChar st.ensureAscii c, P x) →
      ∀ x ∈ encode st v, P x
  | .atom a, h => by
      rw [encode]
      exact forall_mem_encodeAtom hplain h
  | .arr [], _ => by
      rw [encode]
      exact forall_mem_word hplain (by decide)
  | .arr (y :: ys), h => by
      rw [encode]
      rw [texts, textsItems] at h
      have hy := forall_mem_encode y fun s hs => h s (List.mem_append_left _ hs)
      have hys := forall_mem_encodeItems ys fun s hs => h s (List.mem_append_right _ hs)
      grind [isPlainChar, wordChars]
  | .obj [], _ => by
      rw [encode]
      exact forall_mem_word hplain (by decide)
  | .obj ((k, y) :: ms), h => by
      rw [encode]
      rw [texts, textsMembers] at h
      have hk := forall_mem_encodeStr hplain (h k List.mem_cons_self)
      have hy := forall_mem_encode y fun s hs => h s (by simp [hs])
      have hms := forall_mem_encodeMembers ms fun s hs => h s (by simp [hs])
      have hsep := (forall_mem_separators hplain st).2
      grind [isPlainChar, wordChars]

theorem forall_mem_encodeItems : ∀ xs : List Json,
    (∀ s ∈ textsItems xs, ∀ c ∈ s.toList, ∀ x ∈ escapeChar st.ensureAscii c, P x) →
      ∀ x ∈ encodeItems st xs, P x
  | [], _ => by
      rw [encodeItems]
      exact forall_mem_word hplain (by decide)
  | y :: ys, h => by
      rw [encodeItems]
      rw [textsItems] at h
      have hy := forall_mem_encode y fun s hs => h s (List.mem_append_left _ hs)
      have hys := forall_mem_encodeItems ys fun s hs => h s (List.mem_append_right _ hs)
      have hsep := (forall_mem_separators hplain st).1
      grind

theorem forall_mem_encodeMembers : ∀ ms : List (String × Json),
    (∀ s ∈ textsMembers ms, ∀ c ∈ s.toList, ∀ x ∈ escapeChar st.ensureAscii c, P x) →
      ∀ x ∈ encodeMembers st ms, P x
  | [], _ => by
      rw [encodeMembers]
      exact forall_mem_word hplain (by decide)
  | (k, y) :: ms, h => by
      rw [encodeMembers]
      rw [textsMembers] at h
      have hk := forall_mem_encodeStr hplain (h k List.mem_cons_self)
      have hy := forall_mem_encode y fun s hs => h s (by simp [hs])
      have hms := forall_mem_encodeMembers ms fun s hs => h s (by simp [hs])
      have hsep := forall_mem_separators hplain st
      grind

end

end Chars

/-! ## Escape sequences -/

/-- The characters of escape sequences. -/
def isEscapeChar (c : Char) : Bool := c == '"' || c == '\\' || c.isAlphanum

theorem isEscapeChar_digit : ∀ d, d < 16 → isEscapeChar (Hex.digit d) = true := by decide

theorem isEscapeChar_of_mem {word : List Char} (h : word.all isEscapeChar = true) {x : Char}
    (hx : x ∈ word) : isEscapeChar x = true := List.all_eq_true.mp h x hx

theorem mem_escapeCode {n : Nat} {x : Char} (h : x ∈ escapeCode n) : isEscapeChar x = true := by
  have hunit : ∀ m, x ∈ escapeUnit m → isEscapeChar x = true := by
    intro m hx
    rcases List.mem_cons.mp hx with rfl | hx
    · decide
    · rcases List.mem_cons.mp hx with rfl | hx
      · decide
      · obtain ⟨d, hd, rfl⟩ := Hex.mem_encode hx
        exact isEscapeChar_digit d hd
  rw [escapeCode] at h
  split at h
  · exact hunit _ h
  · rcases List.mem_append.mp h with h | h <;> exact hunit _ h

/-- A character is written as itself or as an escape sequence. -/
theorem mem_escapeChar {ascii : Bool} {c x : Char} (h : x ∈ escapeChar ascii c) :
    x = c ∧ 0x20 ≤ c.toNat ∨ isEscapeChar x = true := by
  rw [escapeChar] at h
  split_ifs at h with _ _ _ _ _ _ _ hcontrol
  · exact Or.inr (isEscapeChar_of_mem (by decide) h)
  · exact Or.inr (isEscapeChar_of_mem (by decide) h)
  · exact Or.inr (isEscapeChar_of_mem (by decide) h)
  · exact Or.inr (isEscapeChar_of_mem (by decide) h)
  · exact Or.inr (isEscapeChar_of_mem (by decide) h)
  · exact Or.inr (isEscapeChar_of_mem (by decide) h)
  · exact Or.inr (isEscapeChar_of_mem (by decide) h)
  · exact Or.inr (mem_escapeCode h)
  · exact Or.inr (mem_escapeCode h)
  · exact Or.inl ⟨List.mem_singleton.mp h, by omega⟩

/-- A character outside syntax, numbers and escapes stands in the text only if it stands in one
of the strings. -/
theorem not_mem_encode {st : Style} {c : Char} (hplain : isPlainChar c = false)
    (hescape : isEscapeChar c = false) {v : Json} (h : ∀ s ∈ v.texts, c ∉ s.toList) :
    c ∉ encode st v := by
  have hall : ∀ x ∈ encode st v, x ≠ c := by
    apply forall_mem_encode
    · intro x hx heq
      rw [heq, hplain] at hx
      cases hx
    · intro s hs d hd x hx heq
      rcases mem_escapeChar hx with ⟨rfl, -⟩ | hx
      · exact h s hs (heq ▸ hd)
      · rw [heq, hescape] at hx
        cases hx
  exact fun hmem => hall c hmem rfl

/-- Control characters never stand in the written text. -/
theorem le_toNat_of_mem_encode {st : Style} {v : Json} {c : Char} (h : c ∈ encode st v) :
    0x20 ≤ c.toNat := by
  have halnum : ∀ x : Char, x.isAlphanum = true → 0x20 ≤ x.toNat := by
    intro x hx
    by_contra hlt
    have hcontrol : ∀ n, n < 0x20 → (Char.ofNat n).isAlphanum = false := by decide
    have hfalse := hcontrol x.toNat (by omega)
    rw [Char.ofNat_toNat, hx] at hfalse
    cases hfalse
  revert c
  apply forall_mem_encode
  · intro x hx
    rcases Bool.or_eq_true_iff.mp hx with hnumber | hword
    · simp only [isNumberChar, Bool.or_eq_true, beq_iff_eq] at hnumber
      rcases hnumber with ((((hdigit | rfl) | rfl) | rfl) | rfl) | rfl
      · exact halnum x (by simp [Char.isAlphanum, hdigit])
      all_goals decide
    · have hall : wordChars.all (fun y => decide (0x20 ≤ y.toNat)) = true := by decide
      exact of_decide_eq_true (List.all_eq_true.mp hall x (List.contains_iff_mem.mp hword))
  · intro s _ d _ x hx
    rcases mem_escapeChar hx with ⟨rfl, hle⟩ | hx
    · exact hle
    · simp only [isEscapeChar, Bool.or_eq_true, beq_iff_eq] at hx
      rcases hx with (rfl | rfl) | hx
      · decide
      · decide
      · exact halnum x hx

/-! ## Objects -/

/-- The text of an object without its braces. -/
def inner (st : Style) (ms : JsonObj) : List Char := (encode st (.obj ms)).tail.dropLast

theorem encode_obj (st : Style) (ms : JsonObj) :
    encode st (.obj ms) = '{' :: (inner st ms ++ ['}']) := by
  have hmembers : ∀ l, ∃ front, encodeMembers st l = front ++ ['}'] := by
    intro l
    induction l with
    | nil => exact ⟨[], by simp [encodeMembers]⟩
    | cons m rest ih =>
        obtain ⟨k, x⟩ := m
        obtain ⟨front, hfront⟩ := ih
        exact ⟨itemSeparator st ++ (encodeStr st k ++ (keySeparator st ++ (encode st x ++ front))),
          by rw [encodeMembers, hfront]; simp⟩
  have hbraces : ∃ front, encode st (.obj ms) = '{' :: (front ++ ['}']) := by
    cases ms with
    | nil => exact ⟨[], by simp [encode]⟩
    | cons m rest =>
        obtain ⟨k, x⟩ := m
        obtain ⟨front, hfront⟩ := hmembers rest
        exact ⟨encodeStr st k ++ (keySeparator st ++ (encode st x ++ front)),
          by rw [encode, hfront]; simp⟩
  obtain ⟨front, hfront⟩ := hbraces
  rw [inner, hfront, List.tail_cons, List.dropLast_concat]

end Json
