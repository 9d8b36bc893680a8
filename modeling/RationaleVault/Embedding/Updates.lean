import RationaleVault.Embedding.Projection
import RationaleVault.Library.Fold
import RationaleVault.Library.Noninterference

/-!
# Partial updates of a node

The full payload of a node is its last creation overridden by the updates after
it. An update does to the entry what a creation with the overridden payload
would do as long as it carries what the entry has lost: the content and the
domain if there are any, and the title unless it can be read off the first line
of the text.
-/

/-- A present key keeps its spelling. -/
theorem OrdDict.set_congr_of_contains {κ ι ν : Type*} [DictKey κ ι] [DecidableEq ι]
    {d : OrdDict κ ν} {k k' : κ} (hk : DictKey.norm k = DictKey.norm k')
    (h : d.contains k = true) (x : ν) : d.set k x = d.set k' x := by
  apply OrdDict.ext
  rw [OrdDict.contains, OrdDict.get?] at h
  rw [OrdDict.entries_set, OrdDict.entries_set]
  generalize d.entries = l at h
  induction l with
  | nil => cases h
  | cons e rest ih =>
      rw [OrdDict.lookupIn] at h
      rw [OrdDict.setIn, OrdDict.setIn, ← hk]
      split
      · rfl
      next hne =>
        rw [if_neg hne] at h
        rw [ih h]

namespace RationaleVault

/-! ## The title in the first line -/

namespace PythonText

theorem isSpace_of_isLineBreak {c : Char} (h : isLineBreak c = true) : isSpace c = true := by
  simp only [isLineBreak, isSpace, Bool.or_eq_true, Bool.and_eq_true, decide_eq_true_eq,
    List.contains_eq_mem, List.mem_cons, List.not_mem_nil, or_false] at h ⊢
  omega

/-- The pieces between separators hold no separator. -/
theorem eq_false_of_mem_splitOnP {α : Type} {p : α → Bool} (cs : List α) :
    ∀ piece ∈ cs.splitOnP p, ∀ c ∈ piece, p c = false := by
  induction hlength : cs.length using Nat.strong_induction_on generalizing cs with
  | _ n ih =>
      cases hfind : cs.find? p with
      | none =>
          have hnone : ∀ c ∈ cs, p c = false := by simpa using List.find?_eq_none.mp hfind
          rw [List.splitOnP_eq_singleton hnone]
          simpa using hnone
      | some sep =>
          obtain ⟨hsep, before, after, rfl, hbefore⟩ := List.find?_eq_some_iff_append.mp hfind
          have hbefore : ∀ c ∈ before, p c = false := by simpa using hbefore
          rw [List.splitOnP_append_cons_of_forall_mem hbefore sep hsep, List.forall_mem_cons]
          refine ⟨hbefore, ih after.length ?_ after rfl⟩
          rw [← hlength, List.length_append, List.length_cons]
          omega

/-- Nonempty words without white space. -/
def AreWords (ws : List (List Char)) : Prop := ∀ w ∈ ws, w ≠ [] ∧ ∀ c ∈ w, isSpace c = false

theorem areWords_split (cs : List Char) : AreWords (split cs) := by
  intro w hw
  obtain ⟨hw, hne⟩ := List.mem_filter.mp hw
  exact ⟨by simpa using hne, eq_false_of_mem_splitOnP cs w hw⟩

/-- Words are read back from their line. -/
theorem split_intercalate {ws : List (List Char)} (h : AreWords ws) :
    split ([' '].intercalate ws) = ws := by
  induction ws with
  | nil => rfl
  | cons w rest ih =>
      obtain ⟨⟨hne, hw⟩, hrest⟩ := List.forall_mem_cons.mp h
      cases rest with
      | nil =>
          rw [List.intercalate_singleton, split, fields, List.splitOnP_eq_singleton hw]
          simp [hne]
      | cons v rest =>
          rw [List.intercalate_cons_cons, split, fields, List.append_assoc, List.singleton_append,
            List.splitOnP_append_cons_of_forall_mem hw ' ' (by decide),
            List.filter_cons_of_pos (by simpa using hne)]
          exact congrArg (w :: ·) (ih hrest)

theorem head?_intercalate {ws : List (List Char)} (h : AreWords ws) {c : Char}
    (hc : ([' '].intercalate ws).head? = some c) : isSpace c = false := by
  cases ws with
  | nil => cases hc
  | cons w rest =>
      obtain ⟨⟨hne, hw⟩, -⟩ := List.forall_mem_cons.mp h
      obtain ⟨d, ds, rfl⟩ := List.exists_cons_of_ne_nil hne
      have hd : d = c := by
        cases rest with
        | nil => simpa using hc
        | cons v rest => simpa [List.intercalate_cons_cons] using hc
      exact hd ▸ hw d List.mem_cons_self

theorem getLast?_intercalate {ws : List (List Char)} (h : AreWords ws) {c : Char}
    (hc : ([' '].intercalate ws).getLast? = some c) : isSpace c = false := by
  induction ws with
  | nil => cases hc
  | cons w rest ih =>
      obtain ⟨⟨hne, hw⟩, hrest⟩ := List.forall_mem_cons.mp h
      cases rest with
      | nil =>
          rw [List.intercalate_singleton] at hc
          exact hw c (List.mem_of_getLast? hc)
      | cons v rest =>
          have htail : [' '].intercalate (v :: rest) ≠ [] := by
            intro hempty
            have hv := (hrest v List.mem_cons_self).1
            have hsplit := split_intercalate hrest
            rw [hempty] at hsplit
            exact absurd hsplit.symm (by simp [split, fields])
          rw [List.intercalate_cons_cons, List.getLast?_append_of_ne_nil _ htail] at hc
          exact ih hrest hc

theorem dropWhile_isSpace {cs : List Char} (h : ∀ c, cs.head? = some c → isSpace c = false) :
    cs.dropWhile isSpace = cs := by
  cases cs with
  | nil => rfl
  | cons c rest => rw [List.dropWhile_cons_of_neg (by simp [h c rfl])]

/-- A text that neither begins nor ends with white space is its own `strip`. -/
theorem strip_eq_self {cs : List Char} (hhead : ∀ c, cs.head? = some c → isSpace c = false)
    (hlast : ∀ c, cs.getLast? = some c → isSpace c = false) : strip cs = cs := by
  rw [strip, dropWhile_isSpace hhead, dropWhile_isSpace, List.reverse_reverse]
  rwa [List.head?_reverse]

theorem splitlinesFrom_eq {cs : List Char} (h : ∀ c ∈ cs, isLineBreak c = false)
    (line : List Char) :
    splitlinesFrom line cs = if line ++ cs = [] then [] else [line ++ cs] := by
  induction cs generalizing line with
  | nil => rw [splitlinesFrom, List.append_nil]
  | cons c rest ih =>
      obtain ⟨hc, hrest⟩ := List.forall_mem_cons.mp h
      have hcr : c ≠ '\r' := by
        rintro rfl
        exact absurd hc (by decide)
      rw [splitlinesFrom, if_neg (by simp [hc]), ih hrest, List.append_assoc, List.singleton_append]
      · exact fun rest' heq _ => hcr heq

end PythonText

namespace CanonicalKnowledgeRenderer

open PythonText

theorem mem_collapsed {line : List Char} {c : Char} (h : c ∈ collapsed line) :
    c = ' ' ∨ isSpace c = false := by
  have hwords := areWords_split line
  rw [collapsed] at h
  generalize split line = ws at h hwords
  induction ws with
  | nil => cases h
  | cons w rest ih =>
      obtain ⟨⟨-, hw⟩, hrest⟩ := List.forall_mem_cons.mp hwords
      cases rest with
      | nil =>
          rw [List.intercalate_singleton] at h
          exact Or.inr (hw c h)
      | cons v rest =>
          rw [List.intercalate_cons_cons, List.append_assoc, List.mem_append, List.mem_append,
            List.mem_singleton] at h
          rcases h with h | h | h
          · exact Or.inr (hw c h)
          · exact Or.inl h
          · exact ih h hrest

/-- A line of words is its own normal form. -/
theorem normalizeWhitespace_collapsed (line : List Char) :
    normalizeWhitespace (collapsed line) = collapsed line := by
  have hwords := areWords_split line
  have hstrip : strip (collapsed line) = collapsed line :=
    strip_eq_self (fun c hc => head?_intercalate hwords hc)
      fun c hc => getLast?_intercalate hwords hc
  have hline : ∀ c ∈ collapsed line, isLineBreak c = false := by
    intro c hc
    rcases mem_collapsed hc with rfl | hspace
    · decide
    · exact Bool.eq_false_iff.mpr fun hbreak =>
        absurd (isSpace_of_isLineBreak hbreak) (by simp [hspace])
  rw [normalizeWhitespace, hstrip, splitlines, splitlinesFrom_eq hline, List.nil_append]
  split
  next hempty => rw [hempty]; rfl
  next =>
    rw [List.map_singleton, List.intercalate_singleton, collapsed, collapsed,
      split_intercalate hwords]

/-- A normal form without line breaks is a line of words. -/
theorem exists_collapsed {text : List Char} (h : '\n' ∉ normalizeWhitespace text) :
    ∃ line, normalizeWhitespace text = collapsed line := by
  rw [normalizeWhitespace] at h ⊢
  generalize splitlines (strip text) = lines at h ⊢
  rcases lines with _ | ⟨line, _ | ⟨line', rest⟩⟩
  · exact ⟨[], rfl⟩
  · exact ⟨line, by rw [List.map_singleton, List.intercalate_singleton]⟩
  · rw [List.map_cons, List.map_cons, List.intercalate_cons_cons] at h
    exact absurd (by simp) h

end CanonicalKnowledgeRenderer

open CanonicalKnowledgeRenderer

namespace EmbeddingProjection

/-- The title is the first line behind the number sign. -/
theorem toList_joinParts (title : List Char) (knowledgeType importance domain tags nodeId : String)
    (content : List Char) : ∃ rest,
      (joinParts title knowledgeType importance domain tags nodeId content).toList =
        ('#' :: ' ' :: title) ++ '\n' :: rest := by
  have hnumber : "# ".toList = ['#', ' '] := by decide
  have htype : "\ntype: ".toList = '\n' :: "type: ".toList := by decide
  delta joinParts
  simp only [String.toList_append, String.toList_ofList, List.append_assoc, hnumber, htype]
  simp only [List.cons_append, List.nil_append]
  exact ⟨_, rfl⟩

/-- A title of one line that does not begin with a number sign is read off the first line. -/
theorem defaultTitle_joinParts {text : List Char} (hline : '\n' ∉ normalizeWhitespace text)
    (hhead : (normalizeWhitespace text).head? ≠ some '#')
    (knowledgeType importance domain tags nodeId : String) (content : List Char) :
    defaultTitle (joinParts (normalizeWhitespace text) knowledgeType importance domain tags nodeId
      content) = String.ofList (normalizeWhitespace text) := by
  obtain ⟨line, hcollapsed⟩ := exists_collapsed hline
  have hwords := PythonText.areWords_split line
  rw [hcollapsed] at hline hhead ⊢
  have hfirst : (joinParts (collapsed line) knowledgeType importance domain tags nodeId
      content).toList.takeWhile (· ≠ '\n') = '#' :: ' ' :: collapsed line := by
    have hplain : ∀ c ∈ '#' :: ' ' :: collapsed line, decide (c ≠ '\n') = true := by
      intro c hc
      rw [decide_eq_true_eq]
      rintro rfl
      simp only [List.mem_cons, Char.reduceEq, false_or] at hc
      exact hline hc
    obtain ⟨rest, hrest⟩ := toList_joinParts (collapsed line) knowledgeType importance domain tags
      nodeId content
    rw [hrest, List.takeWhile_append_of_pos hplain, List.takeWhile_cons_of_neg (by decide),
      List.append_nil]
  have hdrop : ('#' :: ' ' :: collapsed line).dropWhile (fun c => c = '#' || c = ' ') =
      collapsed line := by
    rw [List.dropWhile_cons_of_pos (by decide), List.dropWhile_cons_of_pos (by decide)]
    cases hcs : collapsed line with
    | nil => rfl
    | cons c rest =>
        have hc : c ≠ '#' := fun heq => hhead (by rw [hcs, heq]; rfl)
        have hspace : c ≠ ' ' := by
          rintro rfl
          exact absurd (PythonText.head?_intercalate hwords (c := ' ') (by
            rw [← collapsed, hcs]; rfl)) (by decide)
        rw [List.dropWhile_cons_of_neg (by simp [hc, hspace])]
  have hstrip : PythonText.strip (collapsed line) = collapsed line :=
    PythonText.strip_eq_self (fun c hc => PythonText.head?_intercalate hwords hc)
      fun c hc => PythonText.getLast?_intercalate hwords hc
  rw [defaultTitle, hfirst, hdrop, hstrip]

/-! ## The full payload -/

/-- The payload `full` with the members of `payload` in the place of its own. -/
def overridden (full payload : JsonObj) : JsonObj :=
  payload ++ full.filter fun m => (payload.lookup m.1).isNone

theorem lookup_overridden (full payload : JsonObj) (key : String) :
    (overridden full payload).lookup key = (payload.lookup key).or (full.lookup key) := by
  rw [overridden, List.lookup_append]
  cases hkey : payload.lookup key with
  | some v => rfl
  | none =>
      rw [Option.none_or, Option.none_or]
      induction full with
      | nil => rfl
      | cons m rest ih =>
          by_cases hm : key = m.1
          · rw [List.filter_cons_of_pos (by rw [← hm, hkey]; rfl), List.lookup_cons,
              List.lookup_cons, hm, beq_self_eq_true]
          · rw [List.lookup_cons, beq_eq_false_iff_ne.mpr hm, List.filter_cons, ← ih]
            split
            · rw [List.lookup_cons, beq_eq_false_iff_ne.mpr hm]
            · rfl

theorem getD_overridden (full payload : JsonObj) (key : String) (default : Json) :
    (overridden full payload).getD key default = payload.getD key (full.getD key default) := by
  rw [JsonObj.getD, JsonObj.getD, JsonObj.getD, lookup_overridden]
  cases payload.lookup key with
  | none => rfl
  | some v => rfl

/-- The overridden payload has the node id of one of the two. -/
theorem nodeId_overridden (full payload : JsonObj) :
    nodeId (overridden full payload) = nodeId payload ∨
      nodeId (overridden full payload) = nodeId full := by
  simp only [nodeId, JsonObj.getD, lookup_overridden]
  cases payload.lookup "knowledge_id" with
  | some v => exact Or.inl rfl
  | none =>
      cases full.lookup "knowledge_id" with
      | some v => exact Or.inr rfl
      | none =>
          cases payload.lookup "id" with
          | some v => exact Or.inl rfl
          | none => exact Or.inr rfl

/-- The key of a payload's node, if it has one. -/
def nodeKey (payload : JsonObj) : Option Atom :=
  if (nodeId payload).truthy then
    match nodeId payload with
    | .atom a => some a
    | _ => none
  else none

/-- The full payloads of the nodes after an event. -/
def nextPayloads (full : OrdDict Atom JsonObj) (event : EventRecord) : OrdDict Atom JsonObj :=
  match nodeKey event.payload with
  | none => full
  | some key =>
      match event.eventType with
      | .knowledgeCreated => full.set key event.payload
      | .knowledgeSynthesized => full.set key event.payload
      | .knowledgeUpdated => full.modify key fun payload => overridden payload event.payload
      | .knowledgeDeleted => full.erase key
      | .knowledgeSuperseded => full.erase key
      | _ => full

/-- The full payloads of the nodes after the events. -/
def fullPayloads (events : List EventRecord) : OrdDict Atom JsonObj :=
  events.foldl nextPayloads .empty

/-! ## One update -/

variable {fmt : FormatText} {full payload : JsonObj}

/-- The update of a node with this full payload carries what the entry has lost, shows the domain
and the id of the overridden payload, and changes the text or nothing at all. -/
structure Carries (fmt : FormatText) (full payload : JsonObj) : Prop where
  title : (payload.lookup "title").isSome ∨ ∀ s, full.getD "title" (.str "") = .str s →
    '\n' ∉ normalizeWhitespace s.toList ∧ (normalizeWhitespace s.toList).head? ≠ some '#'
  content : (payload.lookup "content").isSome ∨ ∀ s, full.getD "content" (.str "") = .str s →
    normalizeWhitespace s.toList = []
  domain : fmt.format (domain payload) = fmt.format (domain (overridden full payload))
  nodeId : fmt.format (nodeId payload) = fmt.format (nodeId (overridden full payload))
  changed : ∀ existing text, createdInfo fmt full = .ok existing →
    renderPayload fmt (overridden full payload) = .ok text →
    contentHash text = existing.contentHash →
      createdInfo fmt (overridden full payload) = .ok existing

theorem normalizeValue_eq_ok {v : Json} {text : List Char} (h : normalizeValue v = .ok text) :
    ∃ s, v = .str s ∧ text = normalizeWhitespace s.toList := by
  cases v with
  | atom a =>
      cases a with
      | str s => exact ⟨s, rfl, (Except.ok.inj h).symm⟩
      | _ => cases h
  | arr items => cases h
  | obj members => cases h

/-- The parts of a created entry. -/
theorem createdInfo_eq_ok {existing : NodeInfo} (h : createdInfo fmt full = .ok existing) :
    ∃ title content line, normalizeValue (full.getD "title" (.str "")) = .ok title ∧
      normalizeValue (full.getD "content" (.str "")) = .ok content ∧
      tagsLine (full.getD "tags" (.arr [])) = .ok line ∧
      sortedTexts (full.getD "tags" (.arr [])) = .ok existing.tags ∧
      existing.canonicalText = joinParts title
        (fmt.format (full.getD "knowledge_type" (.str "")))
        (fmt.format (full.getD "importance" (.str ""))) (fmt.format (domain full)) line
        (fmt.format (EmbeddingProjection.nodeId full)) content ∧
      existing.contentHash = contentHash existing.canonicalText ∧
      existing.knowledgeType = full.getD "knowledge_type" (.str "") ∧
      existing.importance = full.getD "importance" (.str "") ∧ existing.lifecycle = "active" := by
  rw [createdInfo, renderPayload, render] at h
  simp only [Except.bind_eq_ok_iff, Except.pure_eq_ok_iff] at h
  obtain ⟨_, ⟨content, hcontent, title, htitle, line, hline, rfl⟩, tags, htags, rfl⟩ := h
  exact ⟨title, content, line, htitle, hcontent, hline, htags, rfl, rfl, rfl, rfl, rfl⟩

theorem insertionSort_insertionSort (tags : List String) :
    (tags.insertionSort (· ≤ ·)).insertionSort (· ≤ ·) = tags.insertionSort (· ≤ ·) :=
  (List.pairwise_insertionSort (· ≤ ·) tags).insertionSort_eq

theorem sortedTexts_strs (tags : List String) :
    sortedTexts (.arr (tags.map .str)) = .ok (tags.insertionSort (· ≤ ·)) := by
  have htexts : (tags.map Json.str).mapM textOf = .ok tags :=
    Fold.mapM_map_of_inverse fun _ _ => rfl
  rw [sortedTexts, Json.toList_arr, Except.ok_bind_eq, htexts]
  rfl

theorem tagsLine_strs (tags : List String) :
    tagsLine (.arr (tags.map .str)) = .ok (",".intercalate (tags.insertionSort (· ≤ ·))) := by
  rw [tagsLine, sortedTexts_strs]
  cases tags with
  | nil => rfl
  | cons tag rest => rfl

/-- The line of tags that sort is the sorted tags with commas. -/
theorem tagsLine_eq {v : Json} {tags : List String} (htags : sortedTexts v = .ok tags) :
    tagsLine v = .ok (",".intercalate tags) := by
  rw [tagsLine, htags]
  split
  · rfl
  next hfalsy =>
    have hnil : tags = [] := by
      rw [sortedTexts] at htags
      cases v with
      | atom a =>
          cases a with
          | str s =>
              obtain rfl : s = "" := by simpa [Json.truthy] using hfalsy
              exact (Except.ok.inj htags).symm
          | _ => cases htags
      | arr items =>
          obtain rfl : items = [] := by simpa [Json.truthy] using hfalsy
          exact (Except.ok.inj htags).symm
      | obj members =>
          obtain rfl : members = [] := by simpa [Json.truthy] using hfalsy
          exact (Except.ok.inj htags).symm
    rw [hnil]
    rfl

/-- Sorted tags are sorted again to themselves. -/
theorem sortedTexts_sorted {v : Json} {tags : List String} (htags : sortedTexts v = .ok tags) :
    tags.insertionSort (· ≤ ·) = tags := by
  rw [sortedTexts] at htags
  simp only [Except.bind_eq_ok_iff, Except.pure_eq_ok_iff] at htags
  obtain ⟨_, -, texts, -, rfl⟩ := htags
  exact insertionSort_insertionSort texts

theorem getD_of_carried {key : String} (h : (payload.lookup key).isSome) (default : Json) :
    payload.getD key default = payload.get key := by
  obtain ⟨v, hv⟩ := Option.isSome_iff_exists.mp h
  rw [JsonObj.get, JsonObj.getD, JsonObj.getD, hv]
  rfl

/-- A text that is carried or left to a default. -/
theorem normalizeValue_getD (key : String) (default : Json) :
    normalizeValue (payload.getD key default) =
      (payload.lookup key).elim (normalizeValue default) normalizeValue := by
  rw [JsonObj.getD]
  cases payload.lookup key with
  | none => rfl
  | some v => rfl

/-- An update that carries what the entry has lost makes the entry of the overridden payload. -/
theorem Carries.updatedInfo_eq {existing : NodeInfo} (h : Carries fmt full payload)
    (hexisting : createdInfo fmt full = .ok existing) :
    updatedInfo fmt existing payload = createdInfo fmt (overridden full payload) := by
  obtain ⟨title, content, line, htitle, hcontent, hline, htags, htext, hhash, htype, himportance,
    hlifecycle⟩ := createdInfo_eq_ok hexisting
  have htitles : normalizeValue (payload.getD "title"
      (.str (defaultTitle existing.canonicalText))) =
      normalizeValue ((overridden full payload).getD "title" (.str "")) := by
    rw [getD_overridden]
    rcases h.title with hcarried | hline
    · rw [getD_of_carried hcarried, getD_of_carried hcarried]
    · obtain ⟨s, hs, rfl⟩ := normalizeValue_eq_ok htitle
      obtain ⟨hline, hhead⟩ := hline s hs
      obtain ⟨words, hwords⟩ := exists_collapsed hline
      have hdefault : normalizeValue (.str (defaultTitle existing.canonicalText)) =
          .ok (normalizeWhitespace s.toList) := by
        rw [htext, defaultTitle_joinParts hline hhead, normalizeValue, String.toList_ofList, hwords,
          normalizeWhitespace_collapsed]
      rw [normalizeValue_getD, hdefault, normalizeValue_getD, htitle]
  have hcontents : normalizeValue (payload.getD "content" (.str "")) =
      normalizeValue ((overridden full payload).getD "content" (.str "")) := by
    rw [getD_overridden]
    rcases h.content with hcarried | hblank
    · rw [getD_of_carried hcarried, getD_of_carried hcarried]
    · obtain ⟨s, hs, rfl⟩ := normalizeValue_eq_ok hcontent
      rw [normalizeValue_getD, normalizeValue_getD, hcontent, hblank s hs]
      rfl
  have hlines : tagsLine (payload.getD "tags" (.arr (existing.tags.map .str))) =
      tagsLine ((overridden full payload).getD "tags" (.arr [])) := by
    rw [getD_overridden, JsonObj.getD, JsonObj.getD]
    cases payload.lookup "tags" with
    | some v => rfl
    | none =>
        rw [Option.getD_none, Option.getD_none, tagsLine_strs, sortedTexts_sorted htags,
          tagsLine_eq htags]
  have hsorted : sortedTexts (payload.getD "tags" (.arr (existing.tags.map .str))) =
      sortedTexts ((overridden full payload).getD "tags" (.arr [])) := by
    rw [getD_overridden, JsonObj.getD, JsonObj.getD]
    cases payload.lookup "tags" with
    | some v => rfl
    | none =>
        rw [Option.getD_none, Option.getD_none, sortedTexts_strs, sortedTexts_sorted htags, htags]
  have hrender : render fmt (EmbeddingProjection.nodeId payload)
      (payload.getD "title" (.str (defaultTitle existing.canonicalText)))
      (payload.getD "content" (.str ""))
      (payload.getD "knowledge_type" (full.getD "knowledge_type" (.str "")))
      (payload.getD "tags" (.arr (existing.tags.map .str)))
      (payload.getD "importance" (full.getD "importance" (.str "")))
      (EmbeddingProjection.domain payload) = renderPayload fmt (overridden full payload) := by
    rw [renderPayload, render, render, htitles, hcontents, hlines, h.domain, h.nodeId,
      getD_overridden full payload "knowledge_type", getD_overridden full payload "importance"]
  rw [updatedInfo]
  simp only [htype, himportance, hrender, hsorted]
  cases hrendered : renderPayload fmt (overridden full payload) with
  | error e =>
      rw [createdInfo, hrendered]
      rfl
  | ok text =>
      rw [Except.ok_bind_eq]
      split
      next =>
        rw [createdInfo, hrendered, getD_overridden full payload "knowledge_type",
          getD_overridden full payload "importance"]
        rfl
      next hsame =>
        rw [h.changed existing text hexisting hrendered (not_not.mp hsame)]
        rfl

/-! ## Runs -/

theorem nodeKey_eq_some {key : Atom} :
    nodeKey payload = some key ↔ nodeId payload = .atom key ∧ (nodeId payload).truthy = true := by
  rw [nodeKey]
  cases hid : nodeId payload with
  | atom a =>
      split
      next htruthy => simp [htruthy]
      next hfalsy => simp [hfalsy]
  | arr items => split <;> simp
  | obj members => split <;> simp

/-- A node id that is not empty and can be a key. -/
theorem nodeKey_of_hash {key : Atom} (htruthy : (nodeId payload).truthy = true)
    (hkey : (nodeId payload).hash = .ok key) : nodeKey payload = some key := by
  rw [nodeKey_eq_some]
  cases hid : nodeId payload with
  | atom a =>
      rw [hid] at hkey htruthy
      exact ⟨congrArg Json.atom (Except.ok.inj hkey), htruthy⟩
  | arr items => rw [hid] at hkey; cases hkey
  | obj members => rw [hid] at hkey; cases hkey

theorem nodeKey_of_falsy (hfalsy : (nodeId payload).truthy = false) : nodeKey payload = none := by
  rw [nodeKey, hfalsy]
  rfl

/-- Overriding keeps the node. -/
theorem norm_nodeKey_overridden {key : Atom} {n : AtomNorm}
    (hfull : (nodeKey full).map DictKey.norm = some n) (hkey : nodeKey payload = some key)
    (hn : DictKey.norm key = n) : (nodeKey (overridden full payload)).map DictKey.norm = some n := by
  rcases nodeId_overridden full payload with h | h
  · rw [nodeKey, h, ← nodeKey, hkey, ← hn]
    rfl
  · rw [nodeKey, h, ← nodeKey, hfull]

variable (fmt) in
/-- The entries of the state are those that the full payloads make. -/
structure Tracks (state : EmbeddingState) (full : OrdDict Atom JsonObj) : Prop where
  absent : ∀ k, full.get? k = none → state.nodes.get? k = none
  present : ∀ k payload, full.get? k = some payload →
    (nodeKey payload).map DictKey.norm = some (DictKey.norm k) ∧
      ∃ info, createdInfo fmt payload = .ok info ∧ state.nodes.get? k = some info

theorem Tracks.set {state : EmbeddingState} {fulls : OrdDict Atom JsonObj} {key : Atom}
    {info : NodeInfo} (h : Tracks fmt state fulls)
    (hkey : (nodeKey payload).map DictKey.norm = some (DictKey.norm key))
    (hinfo : createdInfo fmt payload = .ok info) :
    Tracks fmt { state with nodes := state.nodes.set key info } (fulls.set key payload) := by
  constructor
  · intro k hk
    rw [OrdDict.get?_set] at hk ⊢
    split at hk
    · cases hk
    next hne =>
      rw [if_neg hne]
      exact h.absent k hk
  · intro k payload' hk
    rw [OrdDict.get?_set] at hk ⊢
    split at hk
    next heq =>
      obtain rfl := Option.some.inj hk
      rw [if_pos heq, ← heq]
      exact ⟨hkey, info, hinfo, rfl⟩
    next hne =>
      rw [if_neg hne]
      exact h.present k payload' hk

theorem Tracks.erase {state : EmbeddingState} {fulls : OrdDict Atom JsonObj} {key : Atom}
    (h : Tracks fmt state fulls) :
    Tracks fmt { state with nodes := state.nodes.erase key } (fulls.erase key) := by
  constructor
  · intro k hk
    rw [OrdDict.get?_erase] at hk ⊢
    split at hk
    next heq => rw [if_pos heq]
    next hne =>
      rw [if_neg hne]
      exact h.absent k hk
  · intro k payload' hk
    rw [OrdDict.get?_erase] at hk ⊢
    split at hk
    · cases hk
    next hne =>
      rw [if_neg hne]
      exact h.present k payload' hk

/-- The update of a tracked node is the creation with its overridden payload. -/
theorem Tracks.updateNode_eq {state : EmbeddingState} {fulls : OrdDict Atom JsonObj} {key : Atom}
    (h : Tracks fmt state fulls) (hkey : nodeKey payload = some key)
    (hfull : fulls.get? key = some full) (hcarries : Carries fmt full payload) :
    updateNode fmt state payload = addNode fmt state (overridden full payload) := by
  obtain ⟨hnorm, info, hinfo, hget⟩ := h.present key full hfull
  obtain ⟨hid, htruthy⟩ := nodeKey_eq_some.mp hkey
  have hover := norm_nodeKey_overridden hnorm hkey rfl
  obtain ⟨key', hkey', hsame⟩ := Option.map_eq_some_iff.mp hover
  obtain ⟨hid', htruthy'⟩ := nodeKey_eq_some.mp hkey'
  rw [updateNode, addNode, htruthy, htruthy', hid, hid', Json.hash_atom, Json.hash_atom]
  simp only [Except.ok_bind_eq, hget, hcarries.updatedInfo_eq hinfo]
  cases createdInfo fmt (overridden full payload) with
  | error e => rfl
  | ok info' =>
      have hpresent : state.nodes.contains key = true := by rw [OrdDict.contains, hget]; rfl
      have hset : state.nodes.set key info' = state.nodes.set key' info' :=
        OrdDict.set_congr_of_contains hsame.symm hpresent info'
      exact congrArg (fun nodes => Except.ok { state with nodes := nodes }) hset

theorem addNode_eq_ok {state state' : EmbeddingState} (h : addNode fmt state payload = .ok state') :
    (nodeKey payload = none ∧ state' = state) ∨ ∃ key info, nodeKey payload = some key ∧
      createdInfo fmt payload = .ok info ∧
      state' = { state with nodes := state.nodes.set key info } := by
  rw [addNode] at h
  cases htruthy : (nodeId payload).truthy with
  | false =>
      rw [htruthy] at h
      exact Or.inl ⟨nodeKey_of_falsy htruthy, (Except.ok.inj h).symm⟩
  | true =>
      rw [htruthy] at h
      simp only [Bool.not_true, Bool.false_eq_true, if_false, Except.bind_eq_ok_iff,
        Except.pure_eq_ok_iff] at h
      obtain ⟨info, hinfo, key, hkey, rfl⟩ := h
      exact Or.inr ⟨key, info, nodeKey_of_hash htruthy hkey, hinfo, rfl⟩

theorem removeNode_eq_ok {state state' : EmbeddingState} (h : removeNode state payload = .ok state') :
    (nodeKey payload = none ∧ state' = state) ∨ ∃ key, nodeKey payload = some key ∧
      state' = { state with nodes := state.nodes.erase key } := by
  rw [removeNode] at h
  cases htruthy : (nodeId payload).truthy with
  | false =>
      rw [htruthy] at h
      exact Or.inl ⟨nodeKey_of_falsy htruthy, (Except.ok.inj h).symm⟩
  | true =>
      rw [htruthy] at h
      simp only [Bool.not_true, Bool.false_eq_true, if_false, Except.bind_eq_ok_iff,
        Except.pure_eq_ok_iff] at h
      obtain ⟨key, hkey, rfl⟩ := h
      exact Or.inr ⟨key, nodeKey_of_hash htruthy hkey, rfl⟩

/-- An update of an absent node changes nothing. -/
theorem updateNode_of_absent {state state' : EmbeddingState}
    (h : updateNode fmt state payload = .ok state')
    (habsent : ∀ key, nodeKey payload = some key → state.nodes.get? key = none) :
    state' = state := by
  rw [updateNode] at h
  cases htruthy : (nodeId payload).truthy with
  | false =>
      rw [htruthy] at h
      exact (Except.ok.inj h).symm
  | true =>
      rw [htruthy] at h
      simp only [Bool.not_true, Bool.false_eq_true, if_false, Except.bind_eq_ok_iff] at h
      obtain ⟨key, hkey, h⟩ := h
      rw [habsent key (nodeKey_of_hash htruthy hkey)] at h
      exact (Except.ok.inj h).symm

/-- What an event does to the entries it does to the full payloads. -/
theorem Tracks.applyEvent {state state' : EmbeddingState} {fulls : OrdDict Atom JsonObj}
    {event : EventRecord} (h : Tracks fmt state fulls)
    (hevent : event.eventType = .knowledgeUpdated → ∀ key full, nodeKey event.payload = some key →
      fulls.get? key = some full → Carries fmt full event.payload)
    (happly : applyEvent fmt state event = .ok state') :
    Tracks fmt state' (nextPayloads fulls event) := by
  have hadd : addNode fmt state event.payload = .ok state' →
      Tracks fmt state' (match nodeKey event.payload with
        | none => fulls
        | some key => fulls.set key event.payload) := by
    intro hadd
    rcases addNode_eq_ok hadd with ⟨hnone, rfl⟩ | ⟨key, info, hkey, hinfo, rfl⟩
    · rw [hnone]
      exact h
    · rw [hkey]
      exact h.set (by rw [hkey]; rfl) hinfo
  have hremove : removeNode state event.payload = .ok state' →
      Tracks fmt state' (match nodeKey event.payload with
        | none => fulls
        | some key => fulls.erase key) := by
    intro hremove
    rcases removeNode_eq_ok hremove with ⟨hnone, rfl⟩ | ⟨key, hkey, rfl⟩
    · rw [hnone]
      exact h
    · rw [hkey]
      exact h.erase
  have hupdate : event.eventType = .knowledgeUpdated → updateNode fmt state event.payload = .ok state' →
      Tracks fmt state' (match nodeKey event.payload with
        | none => fulls
        | some key => fulls.modify key fun payload => overridden payload event.payload) := by
    intro htype hupdate
    cases hkey : nodeKey event.payload with
    | none => exact updateNode_of_absent hupdate (fun key hsome => by simp [hkey] at hsome) ▸ h
    | some key =>
        change Tracks fmt state' (fulls.modify key fun payload => overridden payload event.payload)
        rw [OrdDict.modify]
        cases hfull : fulls.get? key with
        | none =>
            have hsame := updateNode_of_absent hupdate fun key' hkey' => by
              rw [← Option.some.inj (hkey.symm.trans hkey')]
              exact h.absent key hfull
            exact hsame ▸ h
        | some full =>
            rw [h.updateNode_eq hkey hfull (hevent htype key full hkey hfull)] at hupdate
            have hnorm := norm_nodeKey_overridden (h.present key full hfull).1 hkey rfl
            rcases addNode_eq_ok hupdate with ⟨hnone, -⟩ | ⟨key', info, hkey', hinfo, rfl⟩
            · rw [hnone] at hnorm
              cases hnorm
            · rw [hkey', Option.map_some, Option.some.injEq] at hnorm
              have hpresent : fulls.contains key = true := by rw [OrdDict.contains, hfull]; rfl
              change Tracks fmt _ (fulls.set key (overridden full event.payload))
              rw [OrdDict.set_congr_of_contains hnorm.symm hpresent]
              exact h.set (by rw [hkey']; rfl) hinfo
  rw [EmbeddingProjection.applyEvent] at happly
  rw [nextPayloads]
  split at happly
  next htype => exact htype ▸ hadd happly
  next htype => exact htype ▸ hupdate htype happly
  next htype => exact htype ▸ hremove happly
  next htype => exact htype ▸ hadd happly
  next htype => exact htype ▸ hremove happly
  next hcreated hupdated hdeleted hsynthesized hsuperseded =>
    obtain rfl := Except.ok.inj happly
    cases nodeKey event.payload with
    | none => exact h
    | some key =>
        dsimp only
        split
        next htype => exact absurd htype hcreated
        next htype => exact absurd htype hsynthesized
        next htype => exact absurd htype hupdated
        next htype => exact absurd htype hdeleted
        next htype => exact absurd htype hsuperseded
        next => exact h

/-- The condition on an event: the update of a node carries what its entry has lost. -/
def CarriesAll (fmt : FormatText) (fulls : OrdDict Atom JsonObj) (event : EventRecord) : Prop :=
  event.eventType = .knowledgeUpdated → ∀ key full, nodeKey event.payload = some key →
    fulls.get? key = some full → Carries fmt full event.payload

theorem tracks_run {events : List EventRecord} {state state' : EmbeddingState}
    {fulls : OrdDict Atom JsonObj} (h : Tracks fmt state fulls)
    (hevents : Noninterference.Along (CarriesAll fmt) nextPayloads fulls events)
    (hrun : events.foldlM (applyEvent fmt) state = .ok state') :
    Tracks fmt state' (events.foldl nextPayloads fulls) := by
  induction events generalizing state fulls with
  | nil =>
      obtain rfl := Except.ok.inj hrun
      exact h
  | cons event rest ih =>
      rw [List.foldlM_cons, Except.bind_eq_ok_iff] at hrun
      obtain ⟨next, hnext, hrest⟩ := hrun
      exact ih (h.applyEvent hevents.head hnext) hevents.tail hrest

end EmbeddingProjection

open EmbeddingProjection

/-- In a run in which every update of a node carries what its entry has lost, each update does to
the state what the creation with the node's full payload overridden by the update does. -/
theorem embeddingProjection_update (fmt : FormatText) (events : List EventRecord)
    (hevents : Noninterference.Along (CarriesAll fmt) nextPayloads .empty events) :
    ∀ pre event post state key existing, events = pre ++ event :: post →
      event.eventType = .knowledgeUpdated → pre.foldlM (applyEvent fmt) {} = .ok state →
      nodeKey event.payload = some key → state.nodes.get? key = some existing →
      ∃ full, (fullPayloads pre).get? key = some full ∧
        applyEvent fmt state event = applyEvent fmt state
          { event with eventType := .knowledgeCreated, payload := overridden full event.payload } := by
  rintro pre event post state key existing rfl htype hrun hkey hget
  have hpre : Noninterference.Along (CarriesAll fmt) nextPayloads .empty pre :=
    fun front a back heq => hevents front a (back ++ event :: post) (by rw [heq]; simp)
  have hinit : Tracks fmt {} .empty := ⟨fun _ _ => rfl, fun _ _ h => by cases h⟩
  have htracks : Tracks fmt state (fullPayloads pre) := tracks_run hinit hpre hrun
  cases hfull : (fullPayloads pre).get? key with
  | none =>
      rw [htracks.absent key hfull] at hget
      cases hget
  | some full =>
      refine ⟨full, rfl, ?_⟩
      have hcarries := hevents pre event post rfl htype key full hkey hfull
      have hupdate := htracks.updateNode_eq hkey hfull hcarries
      rw [applyEvent, htype]
      exact hupdate

/-! ## Two updates -/

/-- An event on a node. -/
def nodeEvent (sequence : Nat) (eventType : EventType) (payload : JsonObj) : EventRecord where
  eventSequence := sequence
  id := .zero
  projectId := .zero
  streamId := "knowledge"
  version := 1
  eventType := eventType
  metadata := { actor := "human", source := "cli", correlationId := "", sessionId := "" }
  payload := payload
  parentId := none
  recordedAt := none
  schemaVersion := .int 1

/-- A node with title and content. -/
def createdNode : EventRecord :=
  nodeEvent 1 .knowledgeCreated
    [("knowledge_id", .str "k1"), ("title", .str "Storage"), ("content", .str "Use Postgres")]

/-- An update of the content. -/
def contentUpdate : EventRecord :=
  nodeEvent 2 .knowledgeUpdated [("knowledge_id", .str "k1"), ("content", .str "Use SQLite")]

/-- An update of the title. -/
def titleUpdate : EventRecord :=
  nodeEvent 2 .knowledgeUpdated [("knowledge_id", .str "k1"), ("title", .str "Database")]

/-- The entry of the node keeps its title. -/
theorem embeddingProjection_update_content :
    ∃ state full, [createdNode].foldlM (applyEvent .textsOnly) {} = .ok state ∧
      (fullPayloads [createdNode]).get? (.str "k1") = some full ∧
      applyEvent .textsOnly state contentUpdate = applyEvent .textsOnly state
        { contentUpdate with
          eventType := .knowledgeCreated, payload := overridden full contentUpdate.payload } := by
  have hcarries : Carries .textsOnly createdNode.payload contentUpdate.payload := by
    refine ⟨Or.inr fun s hs => ?_, Or.inl rfl, rfl, rfl, fun existing text hexisting hrender hhash => ?_⟩
    · obtain rfl : "Storage" = s := Atom.str.inj (Json.atom.inj hs)
      decide
    · have hcreated : (createdInfo .textsOnly createdNode.payload).map NodeInfo.contentHash ≠
          (renderPayload .textsOnly
            (overridden createdNode.payload contentUpdate.payload)).map contentHash := by
        decide +kernel
      refine absurd ?_ hcreated
      calc
        _ = .ok existing.contentHash := congrArg (Except.map NodeInfo.contentHash) hexisting
        _ = .ok (contentHash text) := congrArg Except.ok hhash.symm
        _ = _ := (congrArg (Except.map contentHash) hrender).symm
  have hevents : Noninterference.Along (CarriesAll .textsOnly) nextPayloads .empty
      [createdNode, contentUpdate] := by
    refine .cons (fun htype => by cases htype) (.cons ?_ (Noninterference.along_nil _ _ _))
    intro _ key full hkey hfull
    obtain rfl : Atom.str "k1" = key := Option.some.inj hkey
    obtain rfl : createdNode.payload = full := Option.some.inj hfull
    exact hcarries
  obtain ⟨state, hstate⟩ : ∃ state, [createdNode].foldlM (applyEvent .textsOnly) {} = .ok state :=
    ⟨_, rfl⟩
  obtain ⟨existing, hexisting⟩ : ∃ existing, state.nodes.get? (.str "k1") = some existing := by
    obtain rfl := Except.ok.inj hstate
    exact ⟨_, rfl⟩
  obtain ⟨full, hfull, happly⟩ := embeddingProjection_update .textsOnly [createdNode, contentUpdate]
    hevents [createdNode] contentUpdate [] state (.str "k1") existing rfl rfl hstate rfl hexisting
  exact ⟨state, full, hstate, hfull, happly⟩

/-- The new title is there, and the content is gone. -/
theorem embeddingProjection_update_title :
    (([createdNode, titleUpdate].foldlM (applyEvent .textsOnly) {}).map fun state =>
        (state.nodes.get? (.str "k1")).map NodeInfo.canonicalText) =
      .ok (some "# Database\ntype: \nimportance: \ndomain: \ntags: \nnode_id: k1\n\n") ∧
    (([createdNode, { titleUpdate with
        eventType := .knowledgeCreated
        payload := overridden createdNode.payload titleUpdate.payload }].foldlM
          (applyEvent .textsOnly) {}).map fun state =>
        (state.nodes.get? (.str "k1")).map NodeInfo.canonicalText) =
      .ok (some
        "# Database\ntype: \nimportance: \ndomain: \ntags: \nnode_id: k1\n\nUse Postgres") := by
  decide +kernel

end RationaleVault
