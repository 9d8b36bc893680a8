import Mathlib.Algebra.Order.Field.Rat
import Mathlib.Data.Finset.Card
import RationaleVault.Library.Json

/-!
# Text operations of the standard library

Lower case and word characters are looked up in the Unicode tables, which are
a parameter with their values on ASCII fixed. Blanks are the characters that
`str.strip` and `str.split` treat as white space.
-/

namespace RationaleVault

/-- What a value looks like in an f-string. -/
structure FormatText where
  format : Json → String
  format_str : ∀ s, format (.str s) = s

/-- Values that are texts are written as they are. -/
def FormatText.textsOnly : FormatText where
  format
    | .str s => s
    | _ => ""
  format_str _ := rfl

/-- The order in which a set is visited depends on the hash seed of the interpreter. -/
structure SetOrder (α : Type) [DecidableEq α] where
  listed : Finset α → List α
  toFinset_listed : ∀ s, (listed s).toFinset = s

/-- The tables behind `str.lower` and `\w`. -/
structure UnicodeTables where
  lower : String → String
  isWord : Char → Bool
  lower_ascii : ∀ s, (∀ c ∈ s.toList, c.toNat < 128) →
    lower s = String.ofList (s.toList.map Char.toLower)
  isWord_ascii : ∀ c, c.toNat < 128 → isWord c = (c.isAlphanum || c == '_')

/-- Tables that leave everything outside ASCII alone. -/
def UnicodeTables.asciiOnly : UnicodeTables where
  lower s := String.ofList (s.toList.map Char.toLower)
  isWord c := c.isAlphanum || c == '_'
  lower_ascii _ _ := rfl
  isWord_ascii _ _ := rfl

namespace PythonText

/-- White space of a `str`. -/
def isSpace (c : Char) : Bool :=
  (9 ≤ c.toNat && c.toNat ≤ 13) || (0x1c ≤ c.toNat && c.toNat ≤ 0x20) ||
    (0x2000 ≤ c.toNat && c.toNat ≤ 0x200a) ||
    [0x85, 0xa0, 0x1680, 0x2028, 0x2029, 0x202f, 0x205f, 0x3000].contains c.toNat

/-- `s.strip()`. -/
def strip (cs : List Char) : List Char :=
  ((cs.dropWhile isSpace).reverse.dropWhile isSpace).reverse

/-- The nonempty runs of characters between separators. -/
def fields (separator : Char → Bool) (cs : List Char) : List (List Char) :=
  (cs.splitOnP separator).filter (· ≠ [])

/-- `s.split()`. -/
def split (cs : List Char) : List (List Char) := fields isSpace cs

/-- The characters at which `s.splitlines()` breaks a line. -/
def isLineBreak (c : Char) : Bool :=
  (10 ≤ c.toNat && c.toNat ≤ 13) || (0x1c ≤ c.toNat && c.toNat ≤ 0x1e) ||
    [0x85, 0x2028, 0x2029].contains c.toNat

/-- The lines of a text whose current line has started with `line`. -/
def splitlinesFrom (line : List Char) : List Char → List (List Char)
  | [] => if line = [] then [] else [line]
  | '\r' :: '\n' :: rest => line :: splitlinesFrom [] rest
  | c :: rest =>
      if isLineBreak c then line :: splitlinesFrom [] rest else splitlinesFrom (line ++ [c]) rest

/-- `s.splitlines()`. -/
def splitlines (cs : List Char) : List (List Char) := splitlinesFrom [] cs

/-- A text as it is read from a file opened in text mode: every line ending is a line feed. -/
def universalNewlines : List Char → List Char
  | [] => []
  | '\r' :: '\n' :: rest => '\n' :: universalNewlines rest
  | '\r' :: rest => '\n' :: universalNewlines rest
  | c :: rest => c :: universalNewlines rest

/-- `needle in s`. -/
def contains (needle cs : List Char) : Bool := decide (needle <:+: cs)

theorem mem_of_mem_strip {cs : List Char} {c : Char} (h : c ∈ strip cs) : c ∈ cs := by
  have htail : c ∈ (cs.dropWhile isSpace).reverse :=
    (List.dropWhile_suffix _).subset (List.mem_reverse.mp h)
  exact (List.dropWhile_suffix _).subset (List.mem_reverse.mp htail)

/-! ## Reading text files -/

theorem universalNewlines_cons {c : Char} (hc : c ≠ '\r') (cs : List Char) :
    universalNewlines (c :: cs) = c :: universalNewlines cs := by
  cases cs <;> simp [universalNewlines, hc]

/-- A text without carriage returns is read as it was written. -/
theorem universalNewlines_append_left {cs : List Char} (h : '\r' ∉ cs) (rest : List Char) :
    universalNewlines (cs ++ rest) = cs ++ universalNewlines rest := by
  induction cs with
  | nil => rfl
  | cons c cs ih =>
      have hc : c ≠ '\r' := fun heq => h (heq ▸ List.mem_cons_self)
      rw [List.cons_append, universalNewlines_cons hc, List.cons_append,
        ih fun hmem => h (List.mem_cons_of_mem c hmem)]

/-- A piece of text is read by itself when the next piece does not begin with a line feed. -/
theorem universalNewlines_append {next : List Char} (h : '\n' ∉ next.head?) (cs : List Char) :
    universalNewlines (cs ++ next) = universalNewlines cs ++ universalNewlines next := by
  fun_induction universalNewlines cs with
  | case1 => rfl
  | case2 rest ih => simp [universalNewlines, ih]
  | case3 rest hrest ih =>
      cases rest with
      | nil =>
          cases next with
          | nil => rfl
          | cons d next =>
              have hd : d ≠ '\n' := fun heq => h (heq ▸ rfl)
              simp [universalNewlines, hd]
      | cons d rest =>
          have hd : d ≠ '\n' := fun heq => hrest rest (by rw [heq])
          calc
            universalNewlines ('\r' :: d :: (rest ++ next)) =
                '\n' :: universalNewlines (d :: rest ++ next) := by simp [universalNewlines, hd]
            _ = '\n' :: (universalNewlines (d :: rest) ++ universalNewlines next) := by rw [ih]
  | case4 c rest hcr hc ih =>
      rw [List.cons_append, universalNewlines_cons (by simpa using hc), ih, List.cons_append]

theorem mem_universalNewlines {cs : List Char} {c : Char} (h : c ∈ universalNewlines cs) :
    c ∈ cs ∨ c = '\n' := by
  fun_induction universalNewlines cs with
  | case1 => exact Or.inl h
  | case2 rest ih => grind
  | case3 rest hrest ih => grind
  | case4 d rest hcr hd ih => grind

variable (u : UnicodeTables)

/-- `" ".join(s.lower().strip().split())`. -/
def normalized (s : String) : String :=
  String.ofList ([' '].intercalate (split (strip (u.lower s).toList)))

/-- `jaccard_similarity(text1, text2)`. -/
def jaccardSimilarity (text1 text2 : String) : ℚ :=
  let words1 := (split (strip (u.lower text1).toList)).toFinset
  let words2 := (split (strip (u.lower text2).toList)).toFinset
  if words1 = ∅ ∨ words2 = ∅ then 0
  else ((words1 ∩ words2).card : ℚ) / (words1 ∪ words2).card

/-- `re_words(text)`: the maximal runs of word characters. -/
def reWords (text : String) : List (List Char) := fields (fun c => !u.isWord c) text.toList

/-- `get_jaccard_similarity(s1, s2)`. -/
def getJaccardSimilarity (s1 s2 : String) : ℚ :=
  let w1 := (reWords u (u.lower s1)).toFinset
  let w2 := (reWords u (u.lower s2)).toFinset
  if w1 = ∅ ∨ w2 = ∅ then 0
  else ((w1 ∩ w2).card : ℚ) / (w1 ∪ w2).card

end PythonText

end RationaleVault
