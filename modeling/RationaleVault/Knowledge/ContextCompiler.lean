import Mathlib.Data.Rat.Floor
import Mathlib.Tactic.NormNum
import Mathlib.Tactic.Ring
import RationaleVault.Memory.Isolation
import RationaleVault.Memory.Retrieval

/-!
# Compiling a context

A context package cites memories, knowledge and events, each up to the slots
that the profile gives it. Memories are retrieved without regard to the project,
so the memories of other projects compete for the slots. Shares are rounded to the
nearest slot: what is too much is taken back, what is too little stays unused.
-/

namespace RationaleVault

/-! ## Slots -/

/-- `round(x)`: to the nearest integer, halves to the even one. -/
def roundHalfEven (x : ℚ) : Int :=
  let below := x.floor
  let rest := x - below
  if rest < 1 / 2 then below
  else if 1 / 2 < rest then below + 1
  else if below % 2 = 0 then below else below + 1

inductive ContextMode
  | standard
  | continuation
  deriving DecidableEq

/-- The values for events, memories and knowledge. -/
structure BySource (α : Type) where
  event : α
  memory : α
  knowledge : α

/-- `PROFILE_SOURCE_WEIGHTS`. -/
def profileSourceWeights : RetrievalProfile → BySource ℚ
  | .knowledgeReview => ⟨10 / 100, 20 / 100, 70 / 100⟩
  | .projectOverview => ⟨30 / 100, 30 / 100, 40 / 100⟩
  | .contextConstruction => ⟨25 / 100, 40 / 100, 35 / 100⟩
  | .failureAnalysis => ⟨30 / 100, 50 / 100, 20 / 100⟩
  | .architectureReview => ⟨20 / 100, 35 / 100, 45 / 100⟩
  | .decisionLookup => ⟨25 / 100, 50 / 100, 25 / 100⟩
  | .lessonDiscovery => ⟨15 / 100, 45 / 100, 40 / 100⟩
  | .workflowRetrieval => ⟨20 / 100, 50 / 100, 30 / 100⟩
  | .generalSearch => ⟨20 / 100, 45 / 100, 35 / 100⟩

/-- `_CONTINUATION_SOURCE_WEIGHTS`. -/
def continuationSourceWeights : BySource ℚ := ⟨40 / 100, 35 / 100, 25 / 100⟩

/-- `_get_slot_allocation(profile, total_limit, mode)`. What is too much is taken from the first
source with the most slots. -/
def getSlotAllocation (profile : RetrievalProfile) (totalLimit : Int) (mode : ContextMode) :
    BySource Int :=
  let weights := if mode = .continuation then continuationSourceWeights
    else profileSourceWeights profile
  let slot (ratio : ℚ) : Int := max 0 (roundHalfEven (totalLimit * ratio))
  let slots : BySource Int := ⟨slot weights.event, slot weights.memory, slot weights.knowledge⟩
  let excess := slots.event + slots.memory + slots.knowledge - totalLimit
  if 0 < excess then
    if slots.memory ≤ slots.event ∧ slots.knowledge ≤ slots.event then
      { slots with event := slots.event - excess }
    else if slots.knowledge ≤ slots.memory then { slots with memory := slots.memory - excess }
    else { slots with knowledge := slots.knowledge - excess }
  else slots

/-! ## Citations -/

structure KnowledgeCitation where
  knowledgeId : String
  score : ℚ
  confidence : ℚ
  title : String
  content : String
  reasons : List String
  sourceEventIds : List String

structure EventContext where
  eventId : String
  eventType : String
  summary : String

structure ContextCitation where
  sourceType : String
  sourceId : String
  title : String
  content : String
  relevanceScore : ℚ
  confidence : ℚ
  reasons : List String
  sourceEventIds : List String

/-- `_memory_to_context_citation(mc, record_map)`, where the map has the records of the store. -/
def memoryToContextCitation (rows : List MemoryRecord) (mc : MemoryCitation) : ContextCitation :=
  let record := rows.find? fun r => r.id = mc.memoryId
  { sourceType := "memory"
    sourceId := mc.memoryId
    title := match record with
      | some r => r.title
      | none => String.ofList (mc.memoryId.toList.take 12)
    content := match record with
      | some r => r.content
      | none => ""
    relevanceScore := mc.score
    confidence := 1
    reasons := mc.reasons
    sourceEventIds := mc.sourceEventIds }

/-- `_knowledge_to_context_citation(kc, knowledge_map)`, with the title and content that the map
gives. -/
def knowledgeToContextCitation (kc : KnowledgeCitation) : ContextCitation where
  sourceType := "knowledge"
  sourceId := kc.knowledgeId
  title := kc.title
  content := kc.content
  relevanceScore := kc.score
  confidence := kc.confidence
  reasons := kc.reasons
  sourceEventIds := kc.sourceEventIds

/-- `_event_to_context_citation(ec)`. -/
def eventToContextCitation (ec : EventContext) : ContextCitation where
  sourceType := "event"
  sourceId := ec.eventId
  title := ec.eventType
  content := ec.summary
  relevanceScore := 1 / 2
  confidence := 1
  reasons := ["recent_event"]
  sourceEventIds := [ec.eventId]

/-- `_blend_citations(…)` over the records of the memory store. -/
def blendCitations (rows : List MemoryRecord) (memoryCitations : List MemoryCitation)
    (knowledgeCitations : List KnowledgeCitation) (eventContexts : List EventContext)
    (profile : RetrievalProfile) (totalLimit : Int) (mode : ContextMode) : List ContextCitation :=
  let slots := getSlotAllocation profile totalLimit mode
  let citations :=
    (PythonText.upTo memoryCitations slots.memory).map (memoryToContextCitation rows) ++
    (PythonText.upTo knowledgeCitations slots.knowledge).map knowledgeToContextCitation ++
    (PythonText.upTo eventContexts slots.event).map eventToContextCitation
  PythonText.upTo (Table.orderByDesc ContextCitation.relevanceScore citations) totalLimit

/-- The citations of `compile_context(query, project_id, profile)` with the default limits. The
profile of the plan for the query ranks the memories, a given profile only sets the slots. What
the other sources give is given. -/
def compileContext (u : UnicodeTables) (total : MemoryRecord → ℚ) (rows : List MemoryRecord)
    (query : String) (planProfile : RetrievalProfile) (profile : Option RetrievalProfile)
    (search : Except Exc (List MemoryRecord)) (knowledgeCitations : List KnowledgeCitation)
    (eventContexts : List EventContext) : List ContextCitation :=
  let memoryCitations :=
    match retrieveRankedCitations u total planProfile rows query 10 search with
    | .ok citations => citations
    | .error _ => []
  blendCitations rows memoryCitations knowledgeCitations eventContexts
    (profile.getD planProfile) 30 .standard

/-- The ids of the cited memories. -/
def citedMemories (citations : List ContextCitation) : List String :=
  (citations.filter fun c => c.sourceType = "memory").map ContextCitation.sourceId

/-! ## The memories of a package -/

/-- How many memories a package cites at most. -/
def memorySlots (profile : RetrievalProfile) : Nat :=
  min (getSlotAllocation profile 30 .standard).memory.toNat 10

theorem slots_le (profile : RetrievalProfile) :
    0 ≤ (getSlotAllocation profile 30 .standard).memory ∧
      (getSlotAllocation profile 30 .standard).memory.toNat +
        (getSlotAllocation profile 30 .standard).knowledge.toNat +
        (getSlotAllocation profile 30 .standard).event.toNat ≤ 30 ∧
      0 ≤ (getSlotAllocation profile 30 .standard).knowledge ∧
      0 ≤ (getSlotAllocation profile 30 .standard).event := by
  cases profile <;> decide +kernel

theorem upTo_of_nonneg {α : Type} (xs : List α) {limit : Int} (h : 0 ≤ limit) :
    PythonText.upTo xs limit = xs.take limit.toNat := if_pos h

theorem mem_citedMemories_blendCitations {rows : List MemoryRecord} {ms : List MemoryCitation}
    {ks : List KnowledgeCitation} {es : List EventContext} {profile : RetrievalProfile}
    {id : String} : id ∈ citedMemories (blendCitations rows ms ks es profile 30 .standard) ↔
      id ∈ (ms.take (getSlotAllocation profile 30 .standard).memory.toNat).map
        MemoryCitation.memoryId := by
  obtain ⟨hmemory, htotal, hknowledge, hevent⟩ := slots_le profile
  rw [blendCitations, upTo_of_nonneg ms hmemory, upTo_of_nonneg ks hknowledge,
    upTo_of_nonneg es hevent, upTo_of_nonneg _ (by decide)]
  set slots := getSlotAllocation profile 30 .standard
  set citations := (ms.take slots.memory.toNat).map (memoryToContextCitation rows) ++
    (ks.take slots.knowledge.toNat).map knowledgeToContextCitation ++
    (es.take slots.event.toNat).map eventToContextCitation with hcitations
  have hlength : (Table.orderByDesc ContextCitation.relevanceScore citations).length ≤ 30 := by
    rw [(Ranking.ranked_orderByDesc ContextCitation.relevanceScore citations).perm.length_eq]
    simp only [hcitations, List.length_append, List.length_map, List.length_take]
    omega
  rw [List.take_of_length_le (show _ ≤ Int.toNat 30 from hlength), citedMemories, List.mem_map]
  simp only [List.mem_filter, Table.mem_orderByDesc, decide_eq_true_eq, hcitations,
    List.mem_append, List.mem_map]
  constructor
  · rintro ⟨c, ⟨(⟨mc, hmc, rfl⟩ | ⟨kc, -, rfl⟩) | ⟨ec, -, rfl⟩, htype⟩, rfl⟩
    · exact ⟨mc, hmc, rfl⟩
    · exact absurd htype (by decide : "knowledge" ≠ "memory")
    · exact absurd htype (by decide : "event" ≠ "memory")
  · rintro ⟨mc, hmc, rfl⟩
    exact ⟨_, ⟨Or.inl (Or.inl ⟨mc, hmc, rfl⟩), rfl⟩, rfl⟩

variable {u : UnicodeTables} {total : MemoryRecord → ℚ} {rows : List MemoryRecord} {query : String}
  {planProfile : RetrievalProfile} {profile : Option RetrievalProfile}
  {ks : List KnowledgeCitation} {es : List EventContext}

/-- The candidates that match, in the order in which they are ranked. -/
def rankedMatches (u : UnicodeTables) (rows : List MemoryRecord) (query : String)
    (found : List MemoryRecord) : List MemoryRecord :=
  searchMemoriesRrf u query (candidatesFor rows found 10)

theorem mem_citedMemories_compileContext {found : List MemoryRecord} {id : String} :
    id ∈ citedMemories (compileContext u total rows query planProfile profile (.ok found) ks es) ↔
      ∃ r ∈ (Table.orderByDesc (finalScore total planProfile)
        (rankedMatches u rows query found)).take (memorySlots (profile.getD planProfile)),
        r.id = id := by
  rw [compileContext, retrieveRankedCitations_ok]
  dsimp only
  rw [mem_citedMemories_blendCitations, ← List.map_take, List.map_map, List.mem_map, citedRecords,
    List.take_take, memorySlots]
  rfl

theorem citedMemories_error {e : Exc} :
    citedMemories (compileContext u total rows query planProfile profile (.error e) ks es) = [] := by
  rw [List.eq_nil_iff_forall_not_mem]
  intro id hid
  have hnone : id ∈ (([] : List MemoryCitation).take _).map MemoryCitation.memoryId :=
    mem_citedMemories_blendCitations.mp hid
  simp at hnone

/-! ## Projects -/

open SQLiteMemoryProvider (ofProject SearchRecords)

/-- The two providers. -/
inductive MemoryBackend
  | sqlite
  | markdown

/-- Whether the provider's search finds the record. -/
def MemoryBackend.matched (u : UnicodeTables) (query : String) (r : MemoryRecord) :
    MemoryBackend → Bool
  | sqlite => SQLiteMemoryProvider.matched query r
  | markdown => decide (query = "") || MarkdownMemoryProvider.matched u query r

/-- What the provider can return for the candidates. -/
def MemoryBackend.Searched (u : UnicodeTables) (rows : List MemoryRecord) (query : String)
    (search : Except Exc (List MemoryRecord)) : MemoryBackend → Prop
  | sqlite => SQLiteMemoryProvider.SearchRecords u rows query candidateLimit search
  | markdown =>
      search = .ok (MarkdownMemoryProvider.searchRecords u rows query candidateLimit)

theorem MemoryBackend.Searched.found {backend : MemoryBackend} {found : List MemoryRecord}
    (h : backend.Searched u rows query (.ok found)) (hrows : rows.Nodup) :
    ∀ r ∈ found, r ∈ rows := by
  cases backend with
  | sqlite => exact (SQLiteMemoryProvider.SearchRecords.found h hrows).2
  | markdown =>
      rw [Except.ok.inj h, MarkdownMemoryProvider.searchRecords]
      intro r hr
      split at hr
      · exact List.mem_of_mem_take hr
      · exact List.mem_of_mem_filter (Table.mem_orderByDesc.mp (List.mem_of_mem_take hr))

variable {backend : MemoryBackend} {search : Except Exc (List MemoryRecord)} {p : String}

/-- What only the records of a project have is found among them. -/
theorem filter_ofProject {q : MemoryRecord → Bool}
    (hq : ∀ r ∈ rows, r.projectId ≠ p → q r = false) : (ofProject p rows).filter q = rows.filter q := by
  rw [ofProject, List.filter_filter]
  apply List.filter_congr
  intro r hr
  by_cases hp : r.projectId = p
  · simp [hp]
  · simp [hp, hq r hr hp]

/-- Without the records that it does not find a search returns the same, or where it has raised
before, nothing for want of records. -/
theorem MemoryBackend.Searched.ofProject (h : backend.Searched u rows query search)
    (hother : ∀ r ∈ rows, r.projectId ≠ p → backend.matched u query r = false) :
    backend.Searched u (ofProject p rows) query search ∨
      (∃ e, search = .error e) ∧ ofProject p rows = [] ∧
        backend.Searched u (ofProject p rows) query (.ok []) := by
  cases backend with
  | sqlite =>
      have hsame : (SQLiteMemoryProvider.ofProject p rows).filter
          (SQLiteMemoryProvider.matched query) = rows.filter (SQLiteMemoryProvider.matched query) :=
        filter_ofProject hother
      have hlimit : ¬ ¬ IsInt64 candidateLimit := by decide
      change SearchRecords _ _ _ _ _ at h
      change SearchRecords _ _ _ _ _ ∨ _ ∧ _ ∧ SearchRecords _ _ _ _ _
      rw [SearchRecords, if_neg hlimit] at h
      rw [SearchRecords, SearchRecords, if_neg hlimit, if_neg hlimit, hsame]
      by_cases hlong : 50000 < ("%" ++ query ++ "%").utf8ByteSize
      · by_cases hown : SQLiteMemoryProvider.ofProject p rows = []
        · rw [hown, List.filter_nil] at hsame
          by_cases hrows : rows = []
          · rw [if_neg (by simp [hrows])] at h
            left
            rwa [if_neg (by simp [hown])]
          · rw [if_pos ⟨hrows, hlong⟩] at h
            right
            rw [if_neg (by simp [hown]), ← hsame]
            exact ⟨⟨_, h⟩, hown, [], ⟨List.Perm.refl _, List.Pairwise.nil⟩, rfl⟩
        · have hrows : rows ≠ [] := fun hnil => hown (by rw [hnil]; rfl)
          rw [if_pos ⟨hrows, hlong⟩] at h
          left
          rwa [if_pos ⟨hown, hlong⟩]
      · rw [if_neg fun hboth => hlong hboth.2] at h
        left
        rwa [if_neg fun hboth => hlong hboth.2]
  | markdown =>
      left
      change search = .ok (MarkdownMemoryProvider.searchRecords u rows query candidateLimit) at h
      change search = .ok (MarkdownMemoryProvider.searchRecords u _ query candidateLimit)
      rw [h, MarkdownMemoryProvider.searchRecords, MarkdownMemoryProvider.searchRecords]
      by_cases hempty : query = ""
      · have hall : SQLiteMemoryProvider.ofProject p rows = rows := by
          apply List.filter_eq_self.mpr
          intro r hr
          by_contra hp
          have hmatched := hother r hr (by simpa using hp)
          simp [MemoryBackend.matched, hempty] at hmatched
        rw [hall]
      · have hsame : (SQLiteMemoryProvider.ofProject p rows).filter
            (MarkdownMemoryProvider.matched u query) =
            rows.filter (MarkdownMemoryProvider.matched u query) := by
          apply filter_ofProject
          intro r hr hp
          simpa [MemoryBackend.matched, hempty] using hother r hr hp
        rw [if_neg hempty, if_neg hempty, hsame]

/-- The matching candidates are the same without the records that do not match. -/
theorem rankedMatches_ofProject {found : List MemoryRecord}
    (hother : ∀ r ∈ rows, r.projectId ≠ p → keywordMatched u query r = false) :
    rankedMatches u (ofProject p rows) query found = rankedMatches u rows query found := by
  rw [rankedMatches, rankedMatches, candidatesFor, candidatesFor]
  split
  · by_cases hempty : query = ""
    · have hall : ofProject p rows = rows := by
        apply List.filter_eq_self.mpr
        intro r hr
        by_contra hp
        have hmatched := hother r hr (by simpa using hp)
        simp [keywordMatched, hempty] at hmatched
      rw [hall]
    · rw [searchMemoriesRrf, searchMemoriesRrf, if_neg hempty, if_neg hempty,
        filter_ofProject hother]
  · rfl

/-- A note of a project. -/
def projectNote (project : UUID) (id title : String) : MemoryRecord :=
  { rankedNote id title "low" with projectId := project.str }

section Budget

/-- The weights of a mode. -/
def sourceWeights (profile : RetrievalProfile) (mode : ContextMode) : BySource ℚ :=
  if mode = .continuation then continuationSourceWeights else profileSourceWeights profile

/-- The rounded share of a source. -/
def share (totalLimit : Int) (ratio : ℚ) : Int := max 0 (roundHalfEven (totalLimit * ratio))

/-- The shares before what is too much is taken back. -/
def shares (weights : BySource ℚ) (totalLimit : Int) : BySource Int :=
  ⟨share totalLimit weights.event, share totalLimit weights.memory,
    share totalLimit weights.knowledge⟩

def BySource.sum (slots : BySource Int) : Int := slots.event + slots.memory + slots.knowledge

/-- The budgets, modulo forty, of which the rounded shares leave one slot over. -/
def shortBudgets (profile : RetrievalProfile) (mode : ContextMode) : List Nat :=
  if mode = .continuation then [1, 18, 21, 26]
  else
    match profile with
    | .knowledgeReview => [2, 12, 22, 32]
    | .projectOverview => [1, 8, 11, 15, 18, 21, 28, 31, 35, 38]
    | .contextConstruction => [1, 18, 21, 26]
    | .failureAnalysis => [1, 17, 21, 37]
    | .architectureReview => [1, 7, 12, 21, 27, 32]
    | .decisionLookup => [1, 2, 5, 9, 10, 13, 17, 18, 21, 25, 26, 29, 33, 34, 37]
    | .lessonDiscovery => [1, 3, 16, 21, 23, 36]
    | .workflowRetrieval => [1, 17, 21, 37]
    | .generalSearch => [1, 7, 12, 21, 27, 32]

variable {profile : RetrievalProfile} {mode : ContextMode} {totalLimit : Int}

/-- What is too much is taken from a source with the most slots. -/
theorem getSlotAllocation_cases (profile : RetrievalProfile) (totalLimit : Int)
    (mode : ContextMode) : ∃ raw : BySource Int,
      raw = shares (sourceWeights profile mode) totalLimit ∧
      (raw.sum ≤ totalLimit ∧ getSlotAllocation profile totalLimit mode = raw ∨
        totalLimit < raw.sum ∧
          (raw.memory ≤ raw.event ∧ raw.knowledge ≤ raw.event ∧
              getSlotAllocation profile totalLimit mode =
                { raw with event := raw.event - (raw.sum - totalLimit) } ∨
            raw.event ≤ max raw.memory raw.knowledge ∧ raw.knowledge ≤ raw.memory ∧
              getSlotAllocation profile totalLimit mode =
                { raw with memory := raw.memory - (raw.sum - totalLimit) } ∨
            raw.event ≤ max raw.memory raw.knowledge ∧ raw.memory ≤ raw.knowledge ∧
              getSlotAllocation profile totalLimit mode =
                { raw with knowledge := raw.knowledge - (raw.sum - totalLimit) })) := by
  refine ⟨_, rfl, ?_⟩
  have hslots : getSlotAllocation profile totalLimit mode =
      let raw := shares (sourceWeights profile mode) totalLimit
      if 0 < raw.sum - totalLimit then
        if raw.memory ≤ raw.event ∧ raw.knowledge ≤ raw.event then
          { raw with event := raw.event - (raw.sum - totalLimit) }
        else if raw.knowledge ≤ raw.memory then
          { raw with memory := raw.memory - (raw.sum - totalLimit) }
        else { raw with knowledge := raw.knowledge - (raw.sum - totalLimit) }
      else raw := rfl
  generalize shares (sourceWeights profile mode) totalLimit = raw at hslots
  rw [hslots]
  dsimp only
  split_ifs with hexcess hevent hmemory
  · exact Or.inr ⟨by omega, Or.inl ⟨hevent.1, hevent.2, rfl⟩⟩
  · exact Or.inr ⟨by omega, Or.inr (Or.inl ⟨by omega, hmemory, rfl⟩)⟩
  · exact Or.inr ⟨by omega, Or.inr (Or.inr ⟨by omega, by omega, rfl⟩)⟩
  · exact Or.inl ⟨by omega, rfl⟩

theorem share_nonneg (totalLimit : Int) (ratio : ℚ) : 0 ≤ share totalLimit ratio :=
  le_max_left 0 _

/-- The slots are what was shared out, up to the limit. -/
theorem sum_getSlotAllocation (profile : RetrievalProfile) (totalLimit : Int)
    (mode : ContextMode) : (getSlotAllocation profile totalLimit mode).sum =
      min (shares (sourceWeights profile mode) totalLimit).sum totalLimit := by
  obtain ⟨raw, rfl, ⟨hle, hslots⟩ | ⟨hlt, ⟨-, -, hslots⟩ | ⟨-, -, hslots⟩ | ⟨-, -, hslots⟩⟩⟩ :=
    getSlotAllocation_cases profile totalLimit mode
  · rw [hslots, min_eq_left hle]
  all_goals
    rw [hslots, min_eq_right hlt.le]
    simp only [BySource.sum]
    omega

/-- One slot too many can be taken back. -/
theorem slots_nonneg (hlimit : 0 ≤ totalLimit)
    (hshares : (shares (sourceWeights profile mode) totalLimit).sum ≤ totalLimit + 1) :
    0 ≤ (getSlotAllocation profile totalLimit mode).event ∧
      0 ≤ (getSlotAllocation profile totalLimit mode).memory ∧
      0 ≤ (getSlotAllocation profile totalLimit mode).knowledge := by
  have hevent : 0 ≤ (shares (sourceWeights profile mode) totalLimit).event := share_nonneg _ _
  have hmemory : 0 ≤ (shares (sourceWeights profile mode) totalLimit).memory := share_nonneg _ _
  have hknowledge : 0 ≤ (shares (sourceWeights profile mode) totalLimit).knowledge :=
    share_nonneg _ _
  have htotal : (shares (sourceWeights profile mode) totalLimit).sum =
      (shares (sourceWeights profile mode) totalLimit).event +
        (shares (sourceWeights profile mode) totalLimit).memory +
        (shares (sourceWeights profile mode) totalLimit).knowledge := rfl
  obtain ⟨raw, hraw, ⟨-, hslots⟩ | ⟨hlt, ⟨hm, hk, hslots⟩ | ⟨he, hk, hslots⟩ | ⟨he, hm, hslots⟩⟩⟩ :=
    getSlotAllocation_cases profile totalLimit mode
  all_goals
    rw [← hraw] at hevent hmemory hknowledge htotal hshares
    rw [hslots]
  · exact ⟨hevent, hmemory, hknowledge⟩
  all_goals
    dsimp only
    omega

/-! ### Budgets that differ by forty -/

/-- Rounding does not see an even part. -/
theorem roundHalfEven_add_even (x : ℚ) (k : Int) :
    roundHalfEven (x + (2 * k : Int)) = roundHalfEven x + 2 * k := by
  have hfloor : (x + (2 * k : Int)).floor = x.floor + 2 * k := Int.floor_add_intCast x (2 * k)
  have hrest : x + (2 * k : Int) - ((x.floor + 2 * k : Int) : ℚ) = x - x.floor := by
    push_cast
    ring
  have heven : (x.floor + 2 * k) % 2 = x.floor % 2 := by omega
  simp only [roundHalfEven, hfloor, hrest, heven]
  split_ifs <;> omega

theorem roundHalfEven_nonneg {x : ℚ} (h : 0 ≤ x) : 0 ≤ roundHalfEven x := by
  have hfloor : 0 ≤ x.floor := Int.floor_nonneg.mpr h
  simp only [roundHalfEven]
  split_ifs <;> omega

/-- All weights are twentieths. -/
theorem sourceWeights_twentieths (profile : RetrievalProfile) (mode : ContextMode) :
    ((20 * (sourceWeights profile mode).event).den = 1 ∧
        (20 * (sourceWeights profile mode).memory).den = 1 ∧
        (20 * (sourceWeights profile mode).knowledge).den = 1) ∧
      (0 ≤ (sourceWeights profile mode).event ∧ 0 ≤ (sourceWeights profile mode).memory ∧
        0 ≤ (sourceWeights profile mode).knowledge) ∧
      (20 * (sourceWeights profile mode).event).num +
        (20 * (sourceWeights profile mode).memory).num +
        (20 * (sourceWeights profile mode).knowledge).num = 20 := by
  cases mode with
  | continuation => cases profile <;> decide +kernel
  | standard => cases profile <;> decide +kernel

/-- Of forty more a source gets the even number that its weight gives. -/
theorem share_add {ratio : ℚ} (hden : (20 * ratio).den = 1) (hratio : 0 ≤ ratio) {q r : Int}
    (hq : 0 ≤ q) (hr : 0 ≤ r) :
    share (40 * q + r) ratio = share r ratio + 2 * ((20 * ratio).num * q) := by
  have hnum : (((20 * ratio).num : Int) : ℚ) = 20 * ratio :=
    (Rat.den_eq_one_iff (20 * ratio)).mp hden
  have hsplit : ((40 * q + r : Int) : ℚ) * ratio =
      (r : ℚ) * ratio + ((2 * ((20 * ratio).num * q) : Int) : ℚ) := by
    push_cast
    rw [hnum]
    ring
  have hr' : (0 : ℚ) ≤ r := by exact_mod_cast hr
  have hshare : 0 ≤ roundHalfEven ((r : ℚ) * ratio) :=
    roundHalfEven_nonneg (mul_nonneg hr' hratio)
  have hmore : 0 ≤ (20 * ratio).num * q :=
    mul_nonneg (Rat.num_nonneg.mpr (mul_nonneg (by norm_num) hratio)) hq
  rw [share, share, hsplit, roundHalfEven_add_even, max_eq_right hshare, max_eq_right (by omega)]

theorem sum_shares_add (profile : RetrievalProfile) (mode : ContextMode) {q r : Int}
    (hq : 0 ≤ q) (hr : 0 ≤ r) : (shares (sourceWeights profile mode) (40 * q + r)).sum =
      (shares (sourceWeights profile mode) r).sum + 40 * q := by
  obtain ⟨⟨hevent, hmemory, hknowledge⟩, ⟨hevent', hmemory', hknowledge'⟩, hsum⟩ :=
    sourceWeights_twentieths profile mode
  have hmore := congrArg (fun k => k * q) hsum
  simp only [add_mul] at hmore
  simp only [shares, BySource.sum, share_add hevent hevent' hq hr,
    share_add hmemory hmemory' hq hr, share_add hknowledge hknowledge' hq hr]
  omega

theorem sum_shares_residue (profile : RetrievalProfile) (mode : ContextMode) :
    ∀ r < 40, (shares (sourceWeights profile mode) (r : Nat)).sum ≤ r + 1 ∧
      min (shares (sourceWeights profile mode) (r : Nat)).sum r =
        if r ∈ shortBudgets profile mode then (r : Int) - 1 else r := by
  cases mode with
  | continuation => cases profile <;> decide +kernel
  | standard => cases profile <;> decide +kernel

/-! ### What a package cites -/

/-- A budget is spent, up to one slot that rounding leaves over. -/
structure Spends (profile : RetrievalProfile) (mode : ContextMode) (totalLimit : Int) : Prop where
  nonneg : 0 ≤ (getSlotAllocation profile totalLimit mode).event ∧
    0 ≤ (getSlotAllocation profile totalLimit mode).memory ∧
    0 ≤ (getSlotAllocation profile totalLimit mode).knowledge
  sum_eq : (getSlotAllocation profile totalLimit mode).sum =
    if (totalLimit % 40).toNat ∈ shortBudgets profile mode then totalLimit - 1 else totalLimit
  cited : ∀ (rows : List MemoryRecord) (ms : List MemoryCitation) (ks : List KnowledgeCitation)
    (es : List EventContext), totalLimit ≤ ms.length → totalLimit ≤ ks.length →
      totalLimit ≤ es.length → ((blendCitations rows ms ks es profile totalLimit mode).length : Int) =
        (getSlotAllocation profile totalLimit mode).sum

theorem sum_shares (hlimit : 0 ≤ totalLimit) :
    (shares (sourceWeights profile mode) totalLimit).sum ≤ totalLimit + 1 ∧
      min (shares (sourceWeights profile mode) totalLimit).sum totalLimit =
        if (totalLimit % 40).toNat ∈ shortBudgets profile mode then totalLimit - 1
        else totalLimit := by
  have hresidue : 0 ≤ totalLimit % 40 := Int.emod_nonneg totalLimit (by decide)
  have hcast : (((totalLimit % 40).toNat : Nat) : Int) = totalLimit % 40 :=
    Int.toNat_of_nonneg hresidue
  have hlt : (totalLimit % 40).toNat < 40 := by omega
  obtain ⟨hle, hmin⟩ := sum_shares_residue profile mode (totalLimit % 40).toNat hlt
  have hadd := sum_shares_add profile mode (Int.ediv_nonneg hlimit (by decide : (0 : Int) ≤ 40))
    hresidue
  rw [Int.mul_ediv_add_emod] at hadd
  rw [hcast] at hle hmin
  rw [hadd]
  constructor
  · omega
  · split_ifs at hmin ⊢ with hshort <;> omega

/-- Sources that offer enough fill their slots. -/
theorem length_upTo {α : Type} (xs : List α) {slots : Int} (hslots : 0 ≤ slots)
    (hle : slots ≤ xs.length) : ((PythonText.upTo xs slots).length : Int) = slots := by
  rw [upTo_of_nonneg xs hslots, List.length_take]
  omega

theorem length_blendCitations (hlimit : 0 ≤ totalLimit) {rows : List MemoryRecord}
    {ms : List MemoryCitation} {ks : List KnowledgeCitation} {es : List EventContext}
    (hms : totalLimit ≤ ms.length) (hks : totalLimit ≤ ks.length) (hes : totalLimit ≤ es.length) :
    ((blendCitations rows ms ks es profile totalLimit mode).length : Int) =
      (getSlotAllocation profile totalLimit mode).sum := by
  have hshares : (shares (sourceWeights profile mode) totalLimit).sum ≤ totalLimit + 1 :=
    (sum_shares hlimit).1
  obtain ⟨hevent, hmemory, hknowledge⟩ := slots_nonneg hlimit hshares
  have hle : (getSlotAllocation profile totalLimit mode).sum ≤ totalLimit := by
    rw [sum_getSlotAllocation]
    exact min_le_right _ _
  have hsum : (getSlotAllocation profile totalLimit mode).sum =
      (getSlotAllocation profile totalLimit mode).event +
        (getSlotAllocation profile totalLimit mode).memory +
        (getSlotAllocation profile totalLimit mode).knowledge := rfl
  have hmemories := length_upTo ms hmemory (by omega)
  have hobjects := length_upTo ks hknowledge (by omega)
  have hevents := length_upTo es hevent (by omega)
  rw [blendCitations, upTo_of_nonneg _ hlimit, List.length_take, Table.orderByDesc,
    List.length_insertionSort, List.length_append, List.length_append, List.length_map,
    List.length_map, List.length_map]
  omega

/-- Every budget is spent but for one slot, and that slot is left over for the listed budgets
only. -/
theorem slots_spend (profile : RetrievalProfile) (mode : ContextMode) (totalLimit : Int)
    (hlimit : 0 ≤ totalLimit) : Spends profile mode totalLimit where
  nonneg := slots_nonneg hlimit (sum_shares hlimit).1
  sum_eq := by
    rw [sum_getSlotAllocation]
    exact (sum_shares hlimit).2
  cited _ _ _ _ := length_blendCitations hlimit

theorem slots_spend_thirty : Spends .generalSearch .standard 30 :=
  slots_spend .generalSearch .standard 30 (by decide)

/-- Of a budget of one slot nothing is spent. -/
theorem not_spent_one : ¬(getSlotAllocation .generalSearch 1 .standard).sum = 1 := by
  decide +kernel

end Budget

end RationaleVault
