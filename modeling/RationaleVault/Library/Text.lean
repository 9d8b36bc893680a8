import Mathlib.Data.List.Basic
import Mathlib.Data.String.Basic

/-!
# Matching and replacing in a text

In a pattern of SQL a per cent sign stands for any text and an underscore for one character. Other
characters match up to ASCII case. Pattern and text end at their first NUL.

A search for a plain pattern takes the first match, then the first match in what follows it. Where a
character of the pattern does not occur there is no match, and the text stays as it is.
-/

namespace SqlLike

/-- Whether a text matches a pattern. -/
def like : List Char → List Char → Bool
  | [], s => s.isEmpty
  | p :: ps, s =>
      if p = '%' then s.tails.any (like ps)
      else
        match s with
        | [] => false
        | c :: cs => (decide (p = '_') || decide (p.toLower = c.toLower)) && like ps cs

/-- The characters before the first NUL. -/
def cString (s : String) : List Char := s.toList.takeWhile fun c => c ≠ '\x00'

/-- `text LIKE pattern`. -/
def textLike (pattern text : String) : Bool := like (cString pattern) (cString text)

example : textLike "%pos_gres%" "Use Postgres" = true := by decide

example : textLike "%100%" "10%" = false := by decide

end SqlLike

/-! ## Replacing in a text -/

open String.Slice String.Slice.Pattern String.Slice.Pattern.Model

namespace Text

/-- What a step of a search adds to the text in which the matches are replaced. -/
def replaceStep (s : String.Slice) (new sofar : String) : SearchStep s → String
  | .matched _ _ => sofar ++ new
  | .rejected start stop => sofar ++ (s.slice! start stop).copy

theorem replace_eq_foldl (s old new : String) : s.replace old new =
    (ToForwardSearcher.toSearcher old s.toSlice).toList.foldl (replaceStep s.toSlice new) "" := by
  rw [Std.Iter.foldl_toList, String.replace, String.Slice.replace]
  congr 1
  funext sofar step
  cases step with
  | matched start stop =>
      change sofar ++ new.toSlice = sofar ++ new
      simp
  | rejected start stop => rfl

variable {s : String.Slice} {old new : String} {c : Char} {pos : s.Pos}
  {steps : List (SearchStep s)}

/-- Nothing is replaced where a character of the pattern does not occur. -/
theorem foldl_replaceStep_of_not_mem (hc : c ∈ old.toList) (h : IsValidSearchFrom old pos steps)
    {before after sofar : String} (hsplits : pos.Splits before after) (hafter : c ∉ after.toList) :
    steps.foldl (replaceStep s new) sofar = sofar ++ after := by
  induction h generalizing before after sofar with
  | endPos =>
      obtain ⟨-, rfl⟩ := hsplits.eq (splits_endPos s)
      rw [List.foldl_nil, String.append_empty]
  | matched hmatch _ _ =>
      obtain ⟨start, rest, hstart, -⟩ :=
        ForwardStringSearcher.isLongestMatchAt_iff_splits.mp hmatch
      obtain ⟨-, rfl⟩ := hsplits.eq hstart
      rw [String.toList_append, List.mem_append] at hafter
      exact absurd (Or.inl hc) hafter
  | mismatched hlt _ _ ih =>
      obtain ⟨start, rest, hstart, hstop⟩ :=
        copy_slice_eq_iff_splits.mp ⟨Std.le_of_lt hlt, rfl⟩
      obtain ⟨-, rfl⟩ := hsplits.eq hstart
      rw [String.toList_append, List.mem_append] at hafter
      rw [List.foldl_cons, ih hstop fun hrest => hafter (Or.inr hrest), replaceStep,
        ← slice_eq_slice!, String.append_assoc]

/-- A pattern that a text begins with is replaced there, and nowhere else if the rest lacks one of
its characters. -/
theorem replace_append {old rest : String} (new : String) (hc : c ∈ old.toList)
    (hrest : c ∉ rest.toList) : (old ++ rest).replace old new = new ++ rest := by
  have hold : old ≠ "" := by
    rintro rfl
    cases hc
  have hsearch := (ForwardStringSearcher.lawfulToForwardSearcherModel hold).isValidSearchFrom_toList
    (old ++ rest).toSlice
  have hstart := splits_startPos (old ++ rest).toSlice
  rw [String.copy_toSlice] at hstart
  rw [replace_eq_foldl]
  generalize (ToForwardSearcher.toSearcher old (old ++ rest).toSlice).toList = steps at hsearch
  generalize (old ++ rest).toSlice.startPos = pos at hsearch hstart
  cases hsearch with
  | endPos =>
      obtain ⟨-, hempty⟩ := hstart.eq (splits_endPos _)
      exact absurd (String.append_eq_empty_iff.mp hempty).1 hold
  | matched hmatch hfrom =>
      obtain ⟨before, after, hsplits, hstop⟩ :=
        ForwardStringSearcher.isLongestMatchAt_iff_splits.mp hmatch
      obtain ⟨rfl, happend⟩ := hstart.eq hsplits
      rw [← (String.append_right_inj _).mp happend] at hstop
      rw [List.foldl_cons, foldl_replaceStep_of_not_mem hc hfrom hstop hrest, replaceStep,
        String.empty_append]
  | mismatched hlt hnone _ =>
      exact absurd (ForwardStringSearcher.matchesAt_iff_splits.mpr ⟨_, _, hstart⟩)
        (hnone _ (Std.le_refl _) hlt)

end Text
