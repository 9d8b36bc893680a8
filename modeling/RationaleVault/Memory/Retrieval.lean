import RationaleVault.Memory.Store

/-!
# Ranked retrieval

A search of the provider for the whole query gives the candidates, capped at a
limit; only when there are fewer than asked for, all records are candidates. The
candidates that match a keyword are ranked. Candidates can hide better matches:
the result is the best of all stored matches exactly if the candidates alone
outrank every other one.
-/

namespace RationaleVault

inductive RetrievalProfile
  | decisionLookup
  | failureAnalysis
  | architectureReview
  | lessonDiscovery
  | workflowRetrieval
  | generalSearch
  | knowledgeReview
  | projectOverview
  | contextConstruction
  deriving DecidableEq

/-! ## Keywords -/

def retrievalStopwords : List String :=
  ["what", "is", "a", "the", "of", "and", "in", "to", "exist", "are", "about", "for", "with", "on",
    "exists", "did", "occur", "why"]

variable (u : UnicodeTables)

/-- The words of the query that are no stopwords, or the whole query. -/
def queryKeywords (query : String) : List (List Char) :=
  let qClean := PythonText.strip (u.lower query).toList
  let words := PythonText.reWords u (String.ofList qClean)
  let keywords := words.filter fun w => !(retrievalStopwords.map String.toList).contains w
  if keywords = [] then [qClean] else keywords

/-- Whether a keyword is in a text of the record, or it and the type hold one another. -/
def keywordIn (r : MemoryRecord) (kw : List Char) : Bool :=
  let typeLower := (u.lower r.memoryType.value).toList
  PythonText.contains kw (u.lower r.title).toList ||
    PythonText.contains kw (u.lower r.content).toList ||
    (r.tags.any fun tag => PythonText.contains kw (u.lower tag).toList) ||
    PythonText.contains typeLower kw || PythonText.contains kw typeLower

def matchCount (query : String) (r : MemoryRecord) : Nat :=
  (queryKeywords u query).countP (keywordIn u r)

/-- Whether a record matches at least one keyword; every record matches the empty query. -/
def keywordMatched (query : String) (r : MemoryRecord) : Bool :=
  decide (query = "") || decide (0 < matchCount u query r)

/-- `search_memories_rrf(query, all_records)` without a semantic provider. -/
def searchMemoriesRrf (query : String) (allRecords : List MemoryRecord) : List MemoryRecord :=
  if query = "" then allRecords
  else Table.orderByDesc (matchCount u query) (allRecords.filter (keywordMatched u query))

/-! ## Ranking -/

/-- `get_profile_weights(profile)`. -/
def getProfileWeights (profile : RetrievalProfile) (t : MemoryType) : ℚ :=
  match profile, t with
  | .decisionLookup, .decision => 5
  | .decisionLookup, .decisionRationale => 4
  | .failureAnalysis, .failure => 5
  | .failureAnalysis, .lessonLearned => 4
  | .architectureReview, .architecture => 5
  | .architectureReview, .decision => 4
  | .lessonDiscovery, .lessonLearned => 5
  | .workflowRetrieval, .workflow => 5
  | _, _ => 1

variable (total : MemoryRecord → ℚ) (profile : RetrievalProfile)

/-- The total of `compute_retrieval_score`, which depends on the time, with the weight of the
type. -/
def finalScore (r : MemoryRecord) : ℚ := total r * getProfileWeights profile r.memoryType

/-- The scored candidates of `execute_retrieval_plan`. -/
def executeRetrievalPlan (candidates : List MemoryRecord) : List (MemoryRecord × ℚ) :=
  Table.orderByDesc Prod.snd (candidates.map fun c => (c, finalScore total profile c))

structure MemoryCitation where
  memoryId : String
  score : ℚ
  sourceEventIds : List String
  reasons : List String
  retrievalPath : List String
  deriving DecidableEq

/-- `build_citation(record, query, retrieval_path)`. -/
def buildCitation (query : String) (retrievalPath : List String) (r : MemoryRecord) :
    MemoryCitation :=
  let queryClean := PythonText.strip (u.lower query).toList
  let reasons :=
    (if queryClean ≠ [] ∧ PythonText.contains queryClean (u.lower r.title).toList then
      ["keyword_match_title"] else []) ++
    (if queryClean ≠ [] ∧ PythonText.contains queryClean (u.lower r.content).toList then
      ["keyword_match_content"] else []) ++
    (if 5 < r.referenceCount then ["high_reference_count"]
      else if 0 < r.referenceCount then ["referenced_active_knowledge"] else []) ++
    (if 5 ≤ r.priority u then ["critical_priority"]
      else if 3 ≤ r.priority u then ["high_priority"] else []) ++
    (if 9 / 10 ≤ r.confidence.value then ["high_confidence"] else [])
  { memoryId := r.id
    score := total r
    sourceEventIds := r.sourceEventIds
    reasons := if reasons = [] then ["general_relevance"] else reasons
    retrievalPath := retrievalPath }

/-- The steps that a citation names. -/
def retrievalPath : List String :=
  ["orchestrator", "retrieval_planner", "search_memories_rrf", "execute_retrieval_plan",
    "citation_builder"]

/-- How many records are pulled from the provider. -/
def candidateLimit : Int := 200

/-- The candidates for the result of the provider's search. -/
def candidatesFor (rows found : List MemoryRecord) (limit : Nat) : List MemoryRecord :=
  if found.length < limit then rows else found

/-- `retrieve_ranked_citations(query, limit)`, where `search` is what the provider returns for the
query and the profile is the one of the plan for the query. -/
def retrieveRankedCitations (rows : List MemoryRecord) (query : String) (limit : Nat)
    (search : Except Exc (List MemoryRecord)) : Except Exc (List MemoryCitation) := do
  let found ← search
  let candidates := searchMemoriesRrf u query (candidatesFor rows found limit)
  let scored := executeRetrievalPlan total profile candidates
  return (scored.take limit).map fun x => buildCitation u total query retrievalPath x.1

/-! ## What is returned -/

variable {u total profile} {query : String}

theorem searchMemoriesRrf_perm (candidates : List MemoryRecord) :
    (searchMemoriesRrf u query candidates).Perm (candidates.filter (keywordMatched u query)) := by
  rw [searchMemoriesRrf]
  split
  · next h =>
      have hall : candidates.filter (keywordMatched u query) = candidates :=
        List.filter_eq_self.mpr fun r _ => by simp [keywordMatched, h]
      rw [hall]
  · exact (Ranking.ranked_orderByDesc _ _).perm

/-- The scored candidates are the candidates in the order of their scores. -/
theorem map_fst_executeRetrievalPlan (candidates : List MemoryRecord) :
    (executeRetrievalPlan total profile candidates).map Prod.fst =
      Table.orderByDesc (finalScore total profile) candidates := by
  have hsort : (Table.orderByDesc (finalScore total profile) candidates).map
      (fun c => (c, finalScore total profile c)) = executeRetrievalPlan total profile candidates := by
    apply List.map_insertionSort
    exact fun _ _ _ _ => Iff.rfl
  rw [← hsort, List.map_map]
  exact List.map_id _

/-- The records that are cited for what the provider found. -/
def citedRecords (u : UnicodeTables) (total : MemoryRecord → ℚ) (profile : RetrievalProfile)
    (rows : List MemoryRecord) (query : String) (limit : Nat) (found : List MemoryRecord) :
    List MemoryRecord :=
  (Table.orderByDesc (finalScore total profile)
    (searchMemoriesRrf u query (candidatesFor rows found limit))).take limit

theorem retrieveRankedCitations_ok (rows : List MemoryRecord) (limit : Nat)
    (found : List MemoryRecord) :
    retrieveRankedCitations u total profile rows query limit (.ok found) =
      .ok ((citedRecords u total profile rows query limit found).map
        (buildCitation u total query retrievalPath)) := by
  rw [citedRecords, ← map_fst_executeRetrievalPlan, ← List.map_take, List.map_map]
  rfl

/-- The stored records that match are the matching candidates and the matching others. -/
theorem filter_perm_candidates {rows found : List MemoryRecord} (hrows : rows.Nodup)
    (hfound : found.Nodup) (hsub : ∀ r ∈ found, r ∈ rows) (p : MemoryRecord → Bool) :
    (found.filter p ++ rows.filter fun r => decide (r ∉ found) && p r).Perm (rows.filter p) := by
  have hdisjoint : (found.filter p).Disjoint (rows.filter fun r => decide (r ∉ found) && p r) := by
    intro r hr hr'
    have hout := (List.mem_filter.mp hr').2
    rw [Bool.and_eq_true, decide_eq_true_eq] at hout
    exact hout.1 (List.mem_of_mem_filter hr)
  rw [List.perm_ext_iff_of_nodup ((hfound.filter p).append (hrows.filter _) hdisjoint)
    (hrows.filter p)]
  intro r
  simp only [List.mem_append, List.mem_filter, Bool.and_eq_true, decide_eq_true_eq]
  constructor
  · rintro (⟨hr, hp⟩ | ⟨hr, -, hp⟩)
    · exact ⟨hsub r hr, hp⟩
    · exact ⟨hr, hp⟩
  · rintro ⟨hr, hp⟩
    by_cases hmem : r ∈ found
    · exact Or.inl ⟨hmem, hp⟩
    · exact Or.inr ⟨hr, hmem, hp⟩

/-- The cited records are the best of all stored matches exactly if the provider found too few
records, or its matching records outrank the matches that it did not return. -/
theorem isTop_citedRecords_iff {rows found : List MemoryRecord} {limit : Nat} (hrows : rows.Nodup)
    (hfound : found.Nodup) (hsub : ∀ r ∈ found, r ∈ rows) :
    Ranking.IsTop (finalScore total profile) limit (rows.filter (keywordMatched u query))
        (citedRecords u total profile rows query limit found) ↔
      found.length < limit ∨ ∀ x ∈ rows, x ∉ found → keywordMatched u query x = true →
        limit ≤ (found.filter (keywordMatched u query)).countP
          fun y => finalScore total profile x ≤ finalScore total profile y := by
  have hranked : ∀ candidates, Ranking.Ranked (finalScore total profile)
      (candidates.filter (keywordMatched u query))
      (Table.orderByDesc (finalScore total profile) (searchMemoriesRrf u query candidates)) :=
    fun candidates => (Ranking.ranked_orderByDesc _ _).of_perm (searchMemoriesRrf_perm candidates)
  rw [citedRecords, candidatesFor]
  by_cases hfew : found.length < limit
  · rw [if_pos hfew]
    exact ⟨fun _ => Or.inl hfew, fun _ => ⟨_, hranked rows, rfl⟩⟩
  · have hperm := filter_perm_candidates hrows hfound hsub (keywordMatched u query)
    have hiff : Ranking.IsTop (finalScore total profile) limit
          (found.filter (keywordMatched u query) ++
            rows.filter fun r => decide (r ∉ found) && keywordMatched u query r) _ ↔ _ :=
      (hranked found).isTop_append_iff
    rw [if_neg hfew, or_iff_right hfew]
    constructor
    · intro h x hx hout hmatched
      exact hiff.mp (h.of_perm hperm.symm) x (by simp [hx, hout, hmatched])
    · intro h
      refine (hiff.mpr fun x hx => ?_).of_perm hperm
      simp only [List.mem_filter, Bool.and_eq_true, decide_eq_true_eq] at hx
      exact h x hx.1 hx.2.1 hx.2.2

/-- What the search returns are stored records, each once. -/
theorem SQLiteMemoryProvider.SearchRecords.found {rows found : List MemoryRecord} {limit : Int}
    (h : SearchRecords u rows query limit (.ok found)) (hrows : rows.Nodup) :
    found.Nodup ∧ ∀ r ∈ found, r ∈ rows := by
  rw [SearchRecords] at h
  split at h
  · cases h
  · split at h
    · cases h
    · obtain ⟨ranked, hranked, hfound⟩ := h
      have hsub : found.Sublist ranked := by
        rw [Except.ok.inj hfound]
        split
        · exact List.Sublist.refl _
        · exact List.take_sublist _ _
      refine ⟨((hranked.perm.nodup_iff).mpr (hrows.filter _)).sublist hsub, fun r hr => ?_⟩
      exact List.mem_of_mem_filter (hranked.perm.mem_iff.mp (hsub.subset hr))

theorem eq_of_map_id_eq {rows l l' : List MemoryRecord} (hids : (rows.map MemoryRecord.id).Nodup)
    (hl : ∀ r ∈ l, r ∈ rows) (hl' : ∀ r ∈ l', r ∈ rows)
    (h : l.map MemoryRecord.id = l'.map MemoryRecord.id) : l = l' := by
  induction l generalizing l' with
  | nil => exact (List.map_eq_nil_iff.mp h.symm).symm
  | cons r rest ih =>
      cases l' with
      | nil => cases h
      | cons r' rest' =>
          rw [List.forall_mem_cons] at hl hl'
          obtain ⟨hid, hrest⟩ := List.cons.inj h
          rw [List.inj_on_of_nodup_map hids hl.1 hl'.1 hid, ih hl.2 hl'.2 hrest]

theorem isTop_candidates (rows found : List MemoryRecord) (limit : Nat) :
    Ranking.IsTop (finalScore total profile) limit
      ((candidatesFor rows found limit).filter (keywordMatched u query))
      (citedRecords u total profile rows query limit found) :=
  ⟨_, (Ranking.ranked_orderByDesc _ _).of_perm (searchMemoriesRrf_perm _), rfl⟩

theorem mem_of_mem_citedRecords {rows found : List MemoryRecord} {limit : Nat}
    (hsub : ∀ r ∈ found, r ∈ rows) {r : MemoryRecord}
    (hr : r ∈ citedRecords u total profile rows query limit found) : r ∈ rows := by
  have hr := Table.mem_orderByDesc.mp (List.mem_of_mem_take hr)
  have hr := List.mem_of_mem_filter ((searchMemoriesRrf_perm _).mem_iff.mp hr)
  rw [candidatesFor] at hr
  split at hr
  · exact hr
  · exact hsub r hr

/-- Over a database, retrieval cites the best `limit` records among the candidates that match a
keyword: the records that the search finds, or all when it finds fewer than `limit`. These are the
best of all stored matches exactly if the search does not raise, and finds fewer than `limit`
records or records among which `limit` matches reach the score of every match that it leaves
out. -/
theorem retrieveRankedCitations_top_iff (u : UnicodeTables) (total : MemoryRecord → ℚ)
    (profile : RetrievalProfile) (rows : List MemoryRecord)
    (hids : (rows.map MemoryRecord.id).Nodup) (query : String) (limit : Nat)
    (search : Except Exc (List MemoryRecord))
    (hsearch : SQLiteMemoryProvider.SearchRecords u rows query candidateLimit search) :
    (∀ found, search = .ok found → ∃ top,
      Ranking.IsTop (finalScore total profile) limit
        ((candidatesFor rows found limit).filter (keywordMatched u query)) top ∧
      retrieveRankedCitations u total profile rows query limit search =
        .ok (top.map (buildCitation u total query retrievalPath))) ∧
    ((∃ top, Ranking.IsTop (finalScore total profile) limit
        (rows.filter (keywordMatched u query)) top ∧
      retrieveRankedCitations u total profile rows query limit search =
        .ok (top.map (buildCitation u total query retrievalPath))) ↔
      ∃ found, search = .ok found ∧ (found.length < limit ∨
        ∀ x ∈ rows, x ∉ found → keywordMatched u query x = true →
          limit ≤ (found.filter (keywordMatched u query)).countP
            fun y => finalScore total profile x ≤ finalScore total profile y)) := by
  have hrows : rows.Nodup := hids.of_map _
  cases search with
  | error e => simp [retrieveRankedCitations, bind, Except.bind]
  | ok found =>
      obtain ⟨hfound, hsub⟩ := hsearch.found hrows
      rw [retrieveRankedCitations_ok]
      refine ⟨fun found' heq => ?_, ?_, ?_⟩
      · obtain rfl := Except.ok.inj heq
        exact ⟨_, isTop_candidates rows found limit, rfl⟩
      · rintro ⟨top, htop, heq⟩
        have hmem : ∀ r ∈ top, r ∈ rows := by
          obtain ⟨ranked, hranked, rfl⟩ := htop
          exact fun r hr =>
            List.mem_of_mem_filter (hranked.perm.mem_iff.mp (List.mem_of_mem_take hr))
        have hsame : citedRecords u total profile rows query limit found = top := by
          apply eq_of_map_id_eq hids (fun r hr => mem_of_mem_citedRecords hsub hr) hmem
          have hcited := congrArg (List.map MemoryCitation.memoryId) (Except.ok.inj heq)
          rwa [List.map_map, List.map_map] at hcited
        exact ⟨found, rfl, (isTop_citedRecords_iff hrows hfound hsub).mp (hsame ▸ htop)⟩
      · rintro ⟨found', heq, hcondition⟩
        obtain rfl := Except.ok.inj heq
        exact ⟨_, (isTop_citedRecords_iff hrows hfound hsub).mpr hcondition, rfl⟩

/-! ## Two notes -/

/-- A note with an id, a title and an importance. -/
def rankedNote (id title importance : String) : MemoryRecord where
  id := id
  version := 1
  title := title
  content := ""
  memoryType := .implementationNote
  importance := importance
  lifecycleStatus := "active"
  sourceEventIds := []
  sourceType := "note"
  createdAt := "2026-01-01"

def engineNotes : List MemoryRecord :=
  [rankedNote "a" "Storage engine" "low", rankedNote "b" "Engine for storage" "critical"]

/-- A query that both titles hold cites the more important note. -/
theorem retrieveRankedCitations_top_engine :
    ∃ top, Ranking.IsTop (finalScore (MemoryRecord.priority .asciiOnly) .generalSearch) 1
        (engineNotes.filter (keywordMatched .asciiOnly "engine")) top ∧
      retrieveRankedCitations .asciiOnly (MemoryRecord.priority .asciiOnly) .generalSearch
          engineNotes "engine" 1 (.ok engineNotes.reverse) =
        .ok (top.map (buildCitation .asciiOnly (MemoryRecord.priority .asciiOnly) "engine"
          retrievalPath)) := by
  refine (retrieveRankedCitations_top_iff .asciiOnly (MemoryRecord.priority .asciiOnly)
    .generalSearch engineNotes (by decide) "engine" 1 (.ok engineNotes.reverse) ?_).2.mpr
    ⟨engineNotes.reverse, rfl, Or.inr fun x hx hout => absurd (List.mem_reverse.mpr hx) hout⟩
  have hall : engineNotes.filter (SQLiteMemoryProvider.matched "engine") = engineNotes := by
    decide +kernel
  rw [SQLiteMemoryProvider.SearchRecords, if_neg (by decide), if_neg (by decide), hall]
  exact ⟨engineNotes.reverse, ⟨engineNotes.reverse_perm, by decide +kernel⟩, rfl⟩

/-- A note that holds the query as a phrase hides the more important note. -/
theorem retrieveRankedCitations_hidden :
    SQLiteMemoryProvider.SearchRecords .asciiOnly engineNotes "storage engine" candidateLimit
        (.ok (engineNotes.take 1)) ∧
      ¬ ∃ top, Ranking.IsTop (finalScore (MemoryRecord.priority .asciiOnly) .generalSearch) 1
          (engineNotes.filter (keywordMatched .asciiOnly "storage engine")) top ∧
        retrieveRankedCitations .asciiOnly (MemoryRecord.priority .asciiOnly) .generalSearch
            engineNotes "storage engine" 1 (.ok (engineNotes.take 1)) =
          .ok (top.map (buildCitation .asciiOnly (MemoryRecord.priority .asciiOnly)
            "storage engine" retrievalPath)) := by
  have hfirst : engineNotes.filter (SQLiteMemoryProvider.matched "storage engine") =
      engineNotes.take 1 := by decide +kernel
  have hboth : engineNotes.filter (keywordMatched .asciiOnly "storage engine") = engineNotes := by
    decide +kernel
  constructor
  · rw [SQLiteMemoryProvider.SearchRecords, if_neg (by decide), if_neg (by decide), hfirst]
    exact ⟨engineNotes.take 1, ⟨List.Perm.refl _, by simp [engineNotes]⟩, rfl⟩
  · rintro ⟨top, ⟨ranked, hranked, rfl⟩, heq⟩
    rw [hboth] at hranked
    have hcited : citedRecords .asciiOnly (MemoryRecord.priority .asciiOnly) .generalSearch
        engineNotes "storage engine" 1 (engineNotes.take 1) = engineNotes.take 1 := by
      decide +kernel
    rw [retrieveRankedCitations_ok, hcited] at heq
    obtain ⟨x, y, rfl⟩ := List.length_eq_two.mp hranked.perm.length_eq
    have hid : "a" = x.id := by
      have hids := congrArg (List.map MemoryCitation.memoryId) (Except.ok.inj heq)
      exact (List.cons.inj hids).1
    have hx : x ∈ engineNotes := hranked.perm.mem_iff.mp List.mem_cons_self
    have hsecond : rankedNote "b" "Engine for storage" "critical" ∈ [x, y] :=
      hranked.perm.mem_iff.mpr (by decide)
    have hsorted := (List.pairwise_cons.mp hranked.sorted).1 y (List.mem_singleton_self y)
    simp only [engineNotes, List.mem_cons, List.not_mem_nil, or_false] at hx hsecond
    rcases hx with rfl | rfl
    · rcases hsecond with h | rfl
      · exact absurd h (by decide)
      · exact absurd hsorted (by decide +kernel)
    · exact absurd hid (by decide)

end RationaleVault
