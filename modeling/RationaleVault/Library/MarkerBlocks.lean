import Mathlib.Data.List.Infix

/-!
# Blocks between markers

A scan of a text for blocks that a marker opens and a closing literal ends, as
the pattern `start opening \s* name \s* left (.*?) right \s* closing` finds
them from left to right. A piece of text whose blocks are all closed in it can
be scanned by itself when the next piece begins a new marker.
-/

namespace MarkerBlocks

variable {α : Type*} [DecidableEq α]

/-- The markers of a block. White space may stand around the name and before the closing. -/
structure Format (α : Type*) where
  space : α → Bool
  start : α
  opening : List α
  name : List α
  left : α
  right : α
  closing : List α
  solid : ∀ c ∈ start :: left :: right :: (name ++ closing), space c = false
  start_apart : start ∉ left :: (opening ++ name ++ closing)
  right_apart : right ∉ closing
  closing_ne_nil : closing ≠ []
  name_ne_nil : name ≠ []

namespace Format

variable (f : Format α)

/-- What stands behind white space and a literal. -/
def token (literal cs : List α) : Option (List α) := (cs.dropWhile f.space).dropPrefix? literal

/-- What stands behind the opening of a block at the start of a text. -/
def opener (cs : List α) : Option (List α) :=
  ((cs.dropPrefix? (f.start :: f.opening)).bind (f.token f.name)).bind (f.token [f.left])

/-- The text before the first end of a block, and what stands behind that end. -/
def closer : List α → Option (List α × List α)
  | [] => none
  | c :: cs =>
      match if c = f.right then f.token f.closing cs else none with
      | some rest => some ([], rest)
      | none => (closer cs).map fun p => (c :: p.1, p.2)

/-- The block at the start of a text, and what stands behind it. -/
def block (cs : List α) : Option (List α × List α) := (f.opener cs).bind f.closer

/-- The blocks that start behind the next `skip` characters. -/
def scan : (skip : Nat) → List α → List (List α)
  | _, [] => []
  | skip + 1, _ :: cs => scan skip cs
  | 0, c :: cs =>
      match f.block (c :: cs) with
      | some (inner, rest) => inner :: scan (cs.length - rest.length) cs
      | none => scan 0 cs

/-- The blocks of a text, from left to right and without overlap. -/
def blocks (cs : List α) : List (List α) := f.scan 0 cs

/-- Every opening is followed by an end. -/
def Closed (cs : List α) : Prop :=
  ∀ s, s <:+ cs → ∀ body, f.opener s = some body → f.closer body ≠ none

/-! ## The next block -/

theorem suffix_of_dropPrefix? {literal cs rest : List α}
    (h : cs.dropPrefix? literal = some rest) : rest <:+ cs := by
  obtain ⟨front, hcs, -⟩ := List.dropPrefix?_eq_some_iff.mp h
  exact ⟨front, hcs.symm⟩

variable {f} {literal cs rest inner body : List α}

theorem suffix_of_token (h : f.token literal cs = some rest) : rest <:+ cs :=
  (suffix_of_dropPrefix? h).trans (List.dropWhile_suffix _)

theorem suffix_of_opener {c : α} (h : f.opener (c :: cs) = some body) : body <:+ cs := by
  obtain ⟨named, hnamed, hleft⟩ := Option.bind_eq_some_iff.mp h
  obtain ⟨opened, hopened, hname⟩ := Option.bind_eq_some_iff.mp hnamed
  rw [List.dropPrefix?] at hopened
  split at hopened
  · exact (suffix_of_token hleft).trans
      ((suffix_of_token hname).trans (suffix_of_dropPrefix? hopened))
  · cases hopened

theorem suffix_of_closer (h : f.closer cs = some (inner, rest)) : rest <:+ cs := by
  induction cs generalizing inner with
  | nil => cases h
  | cons c cs ih =>
      rw [closer] at h
      split at h
      next rest' hclose =>
        obtain ⟨-, rfl⟩ := Prod.mk.inj (Option.some.inj h)
        by_cases hc : c = f.right
        · rw [if_pos hc] at hclose
          exact (suffix_of_token hclose).trans (List.suffix_cons c cs)
        · rw [if_neg hc] at hclose
          cases hclose
      next =>
        obtain ⟨p, hp, heq⟩ := Option.map_eq_some_iff.mp h
        obtain ⟨-, rfl⟩ := Prod.mk.inj heq
        exact (ih hp).trans (List.suffix_cons c cs)

theorem scan_eq_drop (skip : Nat) (cs : List α) : f.scan skip cs = f.blocks (cs.drop skip) := by
  induction cs generalizing skip with
  | nil => simp [scan, blocks]
  | cons c cs ih =>
      cases skip with
      | zero => rfl
      | succ skip => rw [scan, List.drop_succ_cons, ih]

@[simp] theorem blocks_nil : f.blocks [] = [] := rfl

/-- The scan goes on behind a block, or one character further. -/
theorem blocks_cons (c : α) (cs : List α) :
    f.blocks (c :: cs) =
      match f.block (c :: cs) with
      | some (inner, rest) => inner :: f.blocks rest
      | none => f.blocks cs := by
  rw [blocks, scan]
  split
  next inner rest hblock =>
    obtain ⟨body, hopen, hclose⟩ := Option.bind_eq_some_iff.mp hblock
    have hsuffix : rest <:+ cs := (suffix_of_closer hclose).trans (suffix_of_opener hopen)
    rw [scan_eq_drop, ← List.suffix_iff_eq_drop.mp hsuffix]
  next => rfl

/-! ## Pieces of text -/

theorem dropPrefix?_append {next : List α} (h : ∀ c ∈ next.head?, c ∉ literal) (cs : List α) :
    (cs ++ next).dropPrefix? literal = (cs.dropPrefix? literal).map (· ++ next) := by
  induction literal generalizing cs with
  | nil => simp
  | cons a literal ih =>
      have htail : ∀ c ∈ next.head?, c ∉ literal := fun c hc hmem =>
        h c hc (List.mem_cons_of_mem a hmem)
      cases cs with
      | nil =>
          cases next with
          | nil => rfl
          | cons b next =>
              have hne : (b == a) = false :=
                beq_eq_false_iff_ne.mpr fun hba => h b rfl (hba ▸ List.mem_cons_self)
              simp [List.dropPrefix?, hne]
      | cons c cs =>
          rw [List.cons_append, List.dropPrefix?, List.dropPrefix?]
          split
          · exact ih htail cs
          · rfl

theorem token_append {next : List α} (h : ∀ c ∈ next.head?, f.space c = false ∧ c ∉ literal)
    (cs : List α) : f.token literal (cs ++ next) = (f.token literal cs).map (· ++ next) := by
  have hnext : next.dropWhile f.space = next := by
    cases next with
    | nil => rfl
    | cons c next => exact List.dropWhile_cons_of_neg (by simp [(h c rfl).1])
  have hskip : (cs ++ next).dropWhile f.space = cs.dropWhile f.space ++ next := by
    rw [List.dropWhile_append, hnext]
    split
    next hempty => rw [List.isEmpty_iff.mp hempty, List.nil_append]
    next => rfl
  rw [token, hskip, dropPrefix?_append fun c hc => (h c hc).2]
  rfl

/-- Whether a block opens is decided before the next marker. -/
theorem opener_append {c : α} {next : List α} (h : ∀ d ∈ next.head?, d = f.start) (cs : List α) :
    f.opener (c :: cs ++ next) = (f.opener (c :: cs)).map (· ++ next) := by
  have hspace : ∀ d ∈ next.head?, f.space d = false := fun d hd =>
    h d hd ▸ f.solid _ (by simp)
  have hapart : ∀ d ∈ next.head?, d ∉ f.left :: (f.opening ++ f.name ++ f.closing) := fun d hd =>
    h d hd ▸ f.start_apart
  have hopening : (c :: cs ++ next).dropPrefix? (f.start :: f.opening) =
      ((c :: cs).dropPrefix? (f.start :: f.opening)).map (· ++ next) := by
    rw [List.cons_append, List.dropPrefix?, List.dropPrefix?]
    split
    · exact dropPrefix?_append (fun d hd hmem => hapart d hd (by simp [hmem])) cs
    · rfl
  have hname : ∀ cs, f.token f.name (cs ++ next) = (f.token f.name cs).map (· ++ next) :=
    token_append fun d hd => ⟨hspace d hd, fun hmem => hapart d hd (by simp [hmem])⟩
  have hleft : ∀ cs, f.token [f.left] (cs ++ next) = (f.token [f.left] cs).map (· ++ next) :=
    token_append fun d hd => ⟨hspace d hd, fun hmem => hapart d hd (by simp_all)⟩
  rw [opener, opener, hopening]
  cases (c :: cs).dropPrefix? (f.start :: f.opening) with
  | none => rfl
  | some opened =>
      simp only [Option.map_some, Option.bind_some, hname]
      cases f.token f.name opened with
      | none => rfl
      | some named => simp only [Option.map_some, Option.bind_some, hleft]

theorem closing_append {next : List α} (h : ∀ d ∈ next.head?, d = f.start ∨ d = f.right)
    (cs : List α) : f.token f.closing (cs ++ next) = (f.token f.closing cs).map (· ++ next) := by
  apply token_append
  intro d hd
  rcases h d hd with rfl | rfl
  · exact ⟨f.solid _ (by simp), fun hmem => f.start_apart (by simp [hmem])⟩
  · exact ⟨f.solid _ (by simp), f.right_apart⟩

/-- An end that is found before the next marker is found with it as well. -/
theorem closer_append {next : List α} (hnext : ∀ d ∈ next.head?, d = f.start)
    (h : f.closer cs = some (inner, rest)) :
    f.closer (cs ++ next) = some (inner, rest ++ next) := by
  induction cs generalizing inner with
  | nil => cases h
  | cons c cs ih =>
      have hclosing := closing_append (fun d hd => Or.inl (hnext d hd)) cs
      rw [closer] at h
      rw [List.cons_append, closer]
      by_cases hc : c = f.right
      · rw [if_pos hc] at h ⊢
        rw [hclosing]
        cases hclose : f.token f.closing cs with
        | some rest' =>
            rw [hclose] at h
            cases h
            rfl
        | none =>
            rw [hclose] at h
            obtain ⟨p, hp, heq⟩ := Option.map_eq_some_iff.mp h
            cases heq
            rw [Option.map_none, ih hp]
            rfl
      · rw [if_neg hc] at h ⊢
        obtain ⟨p, hp, heq⟩ := Option.map_eq_some_iff.mp h
        cases heq
        rw [ih hp]
        rfl

/-- A text without an end is closed by the first end behind it. -/
theorem closer_append_right {next : List α} (h : f.closer inner = none)
    (hnext : f.token f.closing next = some rest) :
    f.closer (inner ++ f.right :: next) = some (inner, rest) := by
  induction inner with
  | nil => rw [List.nil_append, closer, if_pos rfl, hnext]
  | cons c inner ih =>
      have hclosing : f.token f.closing (inner ++ f.right :: next) =
          (f.token f.closing inner).map (· ++ f.right :: next) :=
        closing_append (fun d hd => Or.inr (Option.mem_some_iff.mp hd).symm) inner
      rw [closer] at h
      rw [List.cons_append, closer]
      by_cases hc : c = f.right
      · rw [if_pos hc] at h ⊢
        rw [hclosing]
        cases hclose : f.token f.closing inner with
        | some rest' =>
            rw [hclose] at h
            cases h
        | none =>
            rw [hclose] at h
            rw [Option.map_none, ih (Option.map_eq_none_iff.mp h)]
            rfl
      · rw [if_neg hc] at h ⊢
        rw [ih (Option.map_eq_none_iff.mp h)]
        rfl

theorem Closed.suffix (h : f.Closed cs) (hrest : rest <:+ cs) : f.Closed rest :=
  fun s hs => h s (hs.trans hrest)

/-- A closed piece is scanned by itself when the next piece begins a new marker. -/
theorem blocks_append {next : List α} (hcs : f.Closed cs)
    (hnext : ∀ d ∈ next.head?, d = f.start) :
    f.blocks (cs ++ next) = f.blocks cs ++ f.blocks next := by
  induction hlen : cs.length using Nat.strong_induction_on generalizing cs with
  | _ n ih =>
    cases cs with
    | nil => simp
    | cons c cs =>
        -- `rest` is shorter than the piece and closed as well
        have hrec : ∀ rest, rest <:+ cs →
            f.blocks (rest ++ next) = f.blocks rest ++ f.blocks next := by
          intro rest hrest
          apply ih rest.length
          · rw [← hlen, List.length_cons]
            exact Nat.lt_succ_of_le hrest.length_le
          · exact hcs.suffix (hrest.trans (List.suffix_cons c cs))
          · rfl
        have hopen := opener_append (c := c) hnext cs
        rw [blocks_cons]
        rw [List.cons_append] at hopen ⊢
        rw [blocks_cons, block, block, hopen]
        cases hbody : f.opener (c :: cs) with
        | none => exact hrec cs List.suffix_rfl
        | some body =>
            obtain ⟨⟨inner, rest⟩, hclose⟩ :=
              Option.ne_none_iff_exists'.mp (hcs (c :: cs) List.suffix_rfl body hbody)
            simp only [Option.map_some, Option.bind_some, closer_append hnext hclose, hclose]
            rw [hrec rest ((suffix_of_closer hclose).trans (suffix_of_opener hbody)),
              List.cons_append]

/-! ## Texts without a marker -/

theorem opener_eq_none (h : f.start ∉ cs) : f.opener cs = none := by
  rw [opener]
  cases cs with
  | nil => rfl
  | cons c cs =>
      have hne : (c == f.start) = false :=
        beq_eq_false_iff_ne.mpr fun hc => h (hc ▸ List.mem_cons_self)
      simp [List.dropPrefix?, hne]

theorem closed_of_not_mem (h : f.start ∉ cs) : f.Closed cs := by
  intro s hs body hbody
  rw [opener_eq_none fun hmem => h (hs.subset hmem)] at hbody
  cases hbody

theorem blocks_of_not_mem (h : f.start ∉ cs) : f.blocks cs = [] := by
  induction cs with
  | nil => rfl
  | cons c cs ih =>
      rw [blocks_cons, block, opener_eq_none h]
      exact ih fun hmem => h (List.mem_cons_of_mem c hmem)

/-- A text that lacks a character of the closing literal has no end of a block. -/
theorem closer_eq_none {c : α} (hc : c ∈ f.closing) (h : c ∉ cs) : f.closer cs = none := by
  induction cs with
  | nil => rfl
  | cons d cs ih =>
      have hcs : c ∉ cs := fun hmem => h (List.mem_cons_of_mem d hmem)
      have hclose : f.token f.closing cs = none := by
        by_contra hsome
        obtain ⟨rest, hrest⟩ := Option.ne_none_iff_exists'.mp hsome
        obtain ⟨front, heq, hfront⟩ := List.dropPrefix?_eq_some_iff.mp hrest
        rw [beq_iff_eq] at hfront
        subst hfront
        have hmem : c ∈ cs.dropWhile f.space := heq ▸ List.mem_append_left rest hc
        exact hcs ((List.dropWhile_suffix _).subset hmem)
      rw [closer, hclose, ite_self, ih hcs]
      rfl

/-! ## Written blocks -/

variable (f) in
/-- A block as it is written with one blank around the name and before the closing. -/
def write (blank : α) (inner : List α) : List α :=
  f.start :: (f.opening ++ blank :: (f.name ++ blank :: f.left ::
    (inner ++ f.right :: blank :: f.closing)))

theorem token_blank {blank : α} (hblank : f.space blank = true) {c : α} (hc : f.space c = false)
    (literal rest : List α) :
    f.token (c :: literal) (blank :: (c :: literal ++ rest)) = some rest := by
  rw [token, List.dropWhile_cons_of_pos hblank, List.cons_append,
    List.dropWhile_cons_of_neg (by simp [hc])]
  exact List.dropPrefix?_eq_some_iff.mpr ⟨c :: literal, rfl, by simp⟩

/-- The scan of a written block finds what was written and goes on behind it. -/
theorem blocks_write {blank : α} (hblank : f.space blank = true) (h : f.closer inner = none)
    (rest : List α) : f.blocks (f.write blank inner ++ rest) = inner :: f.blocks rest := by
  obtain ⟨n, name, hname⟩ := List.exists_cons_of_ne_nil f.name_ne_nil
  obtain ⟨e, ending, hclosing⟩ := List.exists_cons_of_ne_nil f.closing_ne_nil
  have hn : f.space n = false := f.solid _ (by simp [hname])
  have he : f.space e = false := f.solid _ (by simp [hclosing])
  have hleft : f.space f.left = false := f.solid _ (by simp)
  have hend : f.token f.closing (blank :: (f.closing ++ rest)) = some rest := by
    rw [hclosing]
    exact token_blank hblank he ending rest
  have hopen : f.opener (f.write blank inner ++ rest) =
      some (inner ++ f.right :: blank :: (f.closing ++ rest)) := by
    have hopening : (f.write blank inner ++ rest).dropPrefix? (f.start :: f.opening) =
        some (blank :: (f.name ++ blank :: (f.left ::
          (inner ++ f.right :: blank :: (f.closing ++ rest))))) :=
      List.dropPrefix?_eq_some_iff.mpr ⟨f.start :: f.opening, by simp [write], by simp⟩
    rw [opener, hopening, Option.bind_some, hname, token_blank hblank hn, Option.bind_some]
    exact token_blank hblank hleft [] _
  have hcons : f.write blank inner ++ rest = f.start :: (f.write blank inner ++ rest).tail := rfl
  rw [hcons, blocks_cons, ← hcons, block, hopen, Option.bind_some, closer_append_right h hend]

/-- The blocks of a text in which every written block is followed by a closed piece. -/
theorem blocks_flatMap {β : Type*} {blank : α} (hblank : f.space blank = true)
    {inner after : β → List α} {xs : List β}
    (h : ∀ x ∈ xs, f.closer (inner x) = none ∧ f.Closed (after x)) :
    f.blocks (xs.flatMap fun x => f.write blank (inner x) ++ after x) =
      xs.flatMap fun x => inner x :: f.blocks (after x) := by
  induction xs with
  | nil => rfl
  | cons x rest ih =>
      have hhead : ∀ d ∈ (rest.flatMap fun x => f.write blank (inner x) ++ after x).head?,
          d = f.start := by
        cases rest with
        | nil => simp
        | cons y rest => simp [write]
      obtain ⟨hinner, hafter⟩ := h x List.mem_cons_self
      rw [List.flatMap_cons, List.flatMap_cons, List.append_assoc, blocks_write hblank hinner,
        blocks_append hafter hhead, ih fun y hy => h y (List.mem_cons_of_mem x hy),
        List.cons_append]

end Format

end MarkerBlocks
