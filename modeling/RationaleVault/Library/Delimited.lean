import Mathlib.Data.List.TakeWhile

/-!
# Texts taken apart at a separator

Nonempty pieces without the separator can be read off the joined text, and so
can what stands on the two sides of the last separator. A separator that is a
text of its own is found by its last letter.
-/

namespace Delimited

variable {α : Type*} {sep : α}

/-- Joining nonempty pieces without the separator is injective. -/
theorem eq_of_intercalate_eq [DecidableEq α] {l l' : List (List α)}
    (hl : ∀ p ∈ l, p ≠ [] ∧ sep ∉ p) (hl' : ∀ p ∈ l', p ≠ [] ∧ sep ∉ p)
    (h : [sep].intercalate l = [sep].intercalate l') : l = l' := by
  have hnil : ∀ k : List (List α), (∀ p ∈ k, p ≠ [] ∧ sep ∉ p) → [sep].intercalate k = [] →
      k = [] := by
    intro k hk hempty
    cases k with
    | nil => rfl
    | cons p rest =>
        have hp := (hk p (by simp)).1
        cases rest with
        | nil => simp [List.intercalate] at hempty; exact absurd hempty hp
        | cons q rest => simp [List.intercalate] at hempty
  by_cases hne : l = []
  · subst hne
    exact (hnil l' hl' h.symm).symm
  · have hne' : l' ≠ [] := fun hnil' => hne (hnil l hl (by rw [h, hnil']; rfl))
    calc
      l = ([sep].intercalate l).splitOn sep :=
        (List.splitOn_intercalate sep (fun p hp => (hl p hp).2) hne).symm
      _ = ([sep].intercalate l').splitOn sep := by rw [h]
      _ = l' := List.splitOn_intercalate sep (fun p hp => (hl' p hp).2) hne'

/-- The last separator splits a text in one way. -/
theorem append_cons_inj {a a' b b' : List α} (hb : sep ∉ b) (hb' : sep ∉ b')
    (h : a ++ sep :: b = a' ++ sep :: b') : a = a' ∧ b = b' := by
  induction a generalizing a' with
  | nil =>
      cases a' with
      | nil => exact ⟨rfl, (List.cons.inj h).2⟩
      | cons x rest =>
          have htail : b = rest ++ sep :: b' := (List.cons.inj h).2
          exact absurd (htail ▸ by simp) hb
  | cons x rest ih =>
      cases a' with
      | nil =>
          have htail : rest ++ sep :: b = b' := (List.cons.inj h).2
          exact absurd (htail ▸ by simp) hb'
      | cons y rest' =>
          obtain ⟨hhead, htail⟩ := List.cons.inj h
          obtain ⟨hrest, hb⟩ := ih htail
          exact ⟨by rw [hhead, hrest], hb⟩

/-- Two joined texts can be told apart from all others exactly when neither has the separator. -/
theorem append_cons_unique_iff {a b : List α} :
    (∀ a' b', a' ++ sep :: b' = a ++ sep :: b → a' = a ∧ b' = b) ↔ sep ∉ a ∧ sep ∉ b := by
  constructor
  · intro h
    constructor
    · intro hmem
      obtain ⟨x, y, rfl⟩ := List.append_of_mem hmem
      have hsplit := (h x (y ++ sep :: b) (by simp)).1
      simp at hsplit
    · intro hmem
      obtain ⟨x, y, rfl⟩ := List.append_of_mem hmem
      have hsplit := (h (a ++ sep :: x) y (by simp)).1
      simp at hsplit
  · rintro ⟨ha, hb⟩ a' b' h
    classical
    have hcount : a'.count sep + (b'.count sep + 1) = a.count sep + (b.count sep + 1) := by
      have hsame := congrArg (List.count sep) h
      simpa only [List.count_append, List.count_cons_self] using hsame
    rw [List.count_eq_zero.mpr ha, List.count_eq_zero.mpr hb] at hcount
    exact append_cons_inj (List.count_eq_zero.mp (by omega)) hb h

/-! ## Separators of several letters -/

variable {stem : List α}

/-- A separator that begins in a text reaches to the first occurrence of its last letter. -/
theorem eq_of_prefix {w rest : List α} (hstem : sep ∉ stem) (hw : sep ∉ w)
    (h : stem ++ [sep] <+: w ++ sep :: rest) : w = stem := by
  obtain ⟨more, hmore⟩ := h
  rw [List.append_assoc, List.singleton_append] at hmore
  induction stem generalizing w with
  | nil =>
      cases w with
      | nil => rfl
      | cons a w =>
          obtain ⟨rfl, -⟩ := List.cons.inj hmore
          exact absurd List.mem_cons_self hw
  | cons b stem ih =>
      cases w with
      | nil =>
          obtain ⟨rfl, -⟩ := List.cons.inj hmore
          exact absurd List.mem_cons_self hstem
      | cons a w =>
          obtain ⟨rfl, hrest⟩ := List.cons.inj hmore
          rw [ih (fun hmem => hstem (List.mem_cons_of_mem _ hmem))
            (fun hmem => hw (List.mem_cons_of_mem _ hmem)) hrest]

section Splitting

variable [DecidableEq α]

/-- The pieces of a text whose current piece has started with `piece`; the first letters that are
skipped belong to a separator. -/
def splitFrom (separator piece : List α) : Nat → List α → List (List α)
  | _, [] => [piece]
  | skip + 1, _ :: rest => splitFrom separator piece skip rest
  | 0, a :: rest =>
      if separator <+: a :: rest then
        piece :: splitFrom separator [] (separator.length - 1) rest
      else splitFrom separator (piece ++ [a]) 0 rest

/-- The pieces between the occurrences of a nonempty separator. -/
def split (separator text : List α) : List (List α) := splitFrom separator [] 0 text

variable {separator piece : List α}

theorem splitFrom_skip (skipped rest : List α) :
    splitFrom separator piece skipped.length (skipped ++ rest) =
      splitFrom separator piece 0 rest := by
  induction skipped with
  | nil => rfl
  | cons a skipped ih => exact ih

/-- Text in which no separator begins belongs to the current piece. -/
theorem splitFrom_append {w rest : List α}
    (h : ∀ v, v ≠ [] → v <:+ w → ¬ separator <+: v ++ rest) :
    splitFrom separator piece 0 (w ++ rest) = splitFrom separator (piece ++ w) 0 rest := by
  induction w generalizing piece with
  | nil => rw [List.nil_append, List.append_nil]
  | cons a w ih =>
      have hhead := h (a :: w) (List.cons_ne_nil a w) List.suffix_rfl
      rw [List.cons_append] at hhead
      rw [List.cons_append, splitFrom, if_neg hhead,
        ih fun v hne hv => h v hne (hv.trans (List.suffix_cons a w)), List.append_assoc,
        List.singleton_append]

/-- A separator ends the current piece. -/
theorem splitFrom_separator (h : separator ≠ []) (rest : List α) :
    splitFrom separator piece 0 (separator ++ rest) = piece :: splitFrom separator [] 0 rest := by
  obtain ⟨a, tail, rfl⟩ := List.exists_cons_of_ne_nil h
  rw [List.cons_append, splitFrom, if_pos ⟨rest, List.cons_append⟩]
  exact congrArg (List.cons piece) (splitFrom_skip tail rest)

/-- The first piece extends the current one. -/
theorem exists_head?_splitFrom (separator piece : List α) (skip : Nat) (text : List α) :
    ∃ more, (splitFrom separator piece skip text).head? = some (piece ++ more) := by
  fun_induction splitFrom separator piece skip text with
  | case1 => exact ⟨[], by simp⟩
  | case2 _ _ _ _ ih => exact ih
  | case3 => exact ⟨[], by simp⟩
  | case4 piece a rest _ ih =>
      obtain ⟨more, hmore⟩ := ih
      exact ⟨a :: more, by simpa using hmore⟩

/-- The first occurrence of the last letter of the separator ends the first piece. -/
theorem split_append (hstem : sep ∉ stem) {w : List α} (hw : sep ∉ w) (rest : List α) :
    split (stem ++ [sep]) (w ++ (stem ++ [sep]) ++ rest) = w :: split (stem ++ [sep]) rest := by
  have hshort : ∀ v, v ≠ [] → v <:+ w →
      ¬ stem ++ [sep] <+: v ++ ((stem ++ [sep]) ++ rest) := by
    intro v hne hv hprefix
    have hv' : sep ∉ v ++ stem := by
      rw [List.mem_append, not_or]
      exact ⟨fun hmem => hw (hv.subset hmem), hstem⟩
    have hprefix' : stem ++ [sep] <+: (v ++ stem) ++ sep :: rest := by simpa using hprefix
    have heq := eq_of_prefix hstem hv' hprefix'
    exact hne (by simpa using congrArg List.length heq)
  rw [split, List.append_assoc, splitFrom_append hshort, splitFrom_separator (by simp)]
  rfl

/-- A text in front of a letter, read up to the first such letter. -/
theorem exists_takeWhile_append (text rest : List α) :
    ∃ more, text ++ sep :: rest = text.takeWhile (· ≠ sep) ++ sep :: more := by
  induction text with
  | nil => exact ⟨rest, rfl⟩
  | cons a text ih =>
      by_cases ha : a = sep
      · exact ⟨text ++ sep :: rest, by simp [ha]⟩
      · obtain ⟨more, hmore⟩ := ih
        exact ⟨more, by simp [ha, hmore]⟩

/-- What is read up to the last letter of the separator: if the stem of the separator stands in
front of that letter, it is cut off. -/
theorem takeWhile_head?_split (hstem : sep ∉ stem) {w : List α} (hw : sep ∉ w) (rest : List α) :
    ((split (stem ++ [sep]) (w ++ sep :: rest)).head?.getD []).takeWhile (· ≠ sep) =
      if stem <:+ w then w.take (w.length - stem.length) else w := by
  have hread : ∀ v : List α, sep ∉ v → ∀ more, (v ++ sep :: more).takeWhile (· ≠ sep) = v := by
    intro v hv more
    rw [List.takeWhile_append_of_pos fun a ha => by
      simpa using fun heq : a = sep => hv (heq ▸ ha)]
    simp
  split_ifs with hsuffix
  · obtain ⟨v, rfl⟩ := hsuffix
    have hv : sep ∉ v := fun hmem => hw (List.mem_append_left stem hmem)
    have hsplit : split (stem ++ [sep]) (v ++ stem ++ sep :: rest) =
        v :: split (stem ++ [sep]) rest := by
      simpa using split_append hstem hv rest
    have hself : v.takeWhile (· ≠ sep) = v := by
      rw [List.takeWhile_eq_self_iff]
      simpa using fun a ha (heq : a = sep) => hv (heq ▸ ha)
    rw [hsplit, List.head?_cons, Option.getD_some, hself]
    simp
  · -- no separator begins before the letter, so the letter is in the first piece
    have hnone : ∀ v, v <:+ w → ¬ stem ++ [sep] <+: v ++ sep :: rest := by
      intro v hv hprefix
      have heq := eq_of_prefix hstem (fun hmem => hw (hv.subset hmem)) hprefix
      exact hsuffix (heq ▸ hv)
    have hhere : ¬ stem ++ [sep] <+: sep :: rest := hnone [] List.nil_suffix
    have hsplit : split (stem ++ [sep]) (w ++ sep :: rest) =
        splitFrom (stem ++ [sep]) (w ++ [sep]) 0 rest := by
      rw [split, splitFrom_append fun v _ hv => hnone v hv, List.nil_append, splitFrom,
        if_neg hhere]
    obtain ⟨more, hmore⟩ := exists_head?_splitFrom (stem ++ [sep]) (w ++ [sep]) 0 rest
    rw [hsplit, hmore, Option.getD_some, List.append_assoc, List.singleton_append]
    exact hread w hw more

end Splitting

end Delimited
