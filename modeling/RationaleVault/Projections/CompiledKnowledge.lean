import RationaleVault.CognitiveHead.Evidence
import RationaleVault.Library.Grouping
import RationaleVault.Library.Pairs
import RationaleVault.Projections.Knowledge

/-!
# The compiled state of knowledge

Relations are detected among the active objects only. Contradictions become
conflict records, support becomes a graph from the earlier object of a list to
the later one, and objects with a supporting memory in common are each derived
from the other.
-/

namespace RationaleVault

/-- A compiled knowledge state with the chains that the graph reads. -/
structure CompiledKnowledge extends KnowledgeState where
  derivationChains : OrdDict String (List String) := .empty

namespace KnowledgeProjection

variable (u : UnicodeTables)

/-- `_make_conflict_id(a_id, b_id)`. -/
def makeConflictId (aId bId : String) : String :=
  let pair := String.ofList ([':'].intercalate ((Table.orderBy id [aId, bId]).map String.toList))
  String.ofList ((Sha256.hexdigest pair).toList.take 16)

/-- `active_by_id`. -/
def activeById (active : List KnowledgeObject) : OrdDict String KnowledgeObject :=
  .ofList (active.map fun k => (k.id, k))

/-- The record of a contradiction between two active objects. -/
def conflictOf (now : String) (activeById : OrdDict String KnowledgeObject)
    (rel : KnowledgeRelation) : Option ConflictRecord :=
  if rel.relationType = .contradicts then do
    let a ← activeById.get? rel.sourceId
    let b ← activeById.get? rel.targetId
    return {
      conflictId := makeConflictId rel.sourceId rel.targetId
      knowledgeAId := rel.sourceId
      knowledgeBId := rel.targetId
      knowledgeATitle := a.title
      knowledgeBTitle := b.title
      confidence := rel.confidence
      raisedAt := now }
  else none

/-- `conflict_queue`. -/
def conflictQueue (now : String) (active : List KnowledgeObject) : List ConflictRecord :=
  (detectRelations u active).filterMap (conflictOf now (activeById active))

/-- `support_graph`. -/
def supportGraph (active : List KnowledgeObject) : OrdDict String (List String) :=
  Grouping.lists KnowledgeRelation.sourceId KnowledgeRelation.targetId
    ((detectRelations u active).filter fun rel => rel.relationType = .supports)

/-- `KnowledgeProjection.project(project_id, knowledge, reference_time)`. -/
def project (now projectId : String) (knowledge : List KnowledgeObject) : CompiledKnowledge where
  projectId := projectId
  activeKnowledge := active knowledge
  conflictQueue := conflictQueue u now (active knowledge)
  supportGraph := supportGraph u (active knowledge)
  derivationChains := buildDerivationChain (active knowledge)

/-! ## What is detected -/

variable {u}

theorem detectRelations_eq_pairs (K : List KnowledgeObject) :
    detectRelations u K = Pairs.pairs (relation u) K := by
  induction K with
  | nil => rfl
  | cons k rest ih => rw [detectRelations, Pairs.pairs, ih]

theorem relation_ids {k k' : KnowledgeObject} {rel : KnowledgeRelation}
    (h : relation u k k' = some rel) : rel.sourceId = k.id ∧ rel.targetId = k'.id := by
  simp only [relation] at h
  split_ifs at h <;> cases h <;> exact ⟨rfl, rfl⟩

/-- Two objects of one type that are similar and do not contradict each other. -/
structure Similar (u : UnicodeTables) (k k' : KnowledgeObject) : Prop where
  consistent : detectContradiction u k.content k'.content = false
  knowledgeType : k.knowledgeType = k'.knowledgeType
  similarity : 1 / 2 ≤ PythonText.jaccardSimilarity u k.content k'.content

theorem relation_supports_iff {k k' : KnowledgeObject} :
    (∃ rel, relation u k k' = some rel ∧ rel.relationType = .supports) ↔ Similar u k k' := by
  simp only [relation]
  constructor
  · rintro ⟨rel, hrel, htype⟩
    split_ifs at hrel with hcontradiction hsame hsim htopic
    · cases hrel
      cases htype
    · exact ⟨by simpa using hcontradiction, hsame, hsim⟩
    · cases hrel
      cases htype
  · rintro ⟨hconsistent, hsame, hsim⟩
    rw [if_neg (by simp [hconsistent]), if_pos hsame, if_pos hsim]
    exact ⟨_, rfl, rfl⟩

theorem relation_contradicts_iff {k k' : KnowledgeObject} {rel : KnowledgeRelation} :
    relation u k k' = some rel ∧ rel.relationType = .contradicts ↔
      detectContradiction u k.content k'.content = true ∧
        rel = ⟨k.id, k'.id, .contradicts, 9 / 10⟩ := by
  simp only [relation]
  constructor
  · rintro ⟨hrel, htype⟩
    split_ifs at hrel with hcontradiction hsame hsim htopic
    · exact ⟨hcontradiction, (Option.some.inj hrel).symm⟩
    · cases hrel
      cases htype
    · cases hrel
      cases htype
  · rintro ⟨hcontradiction, rfl⟩
    rw [if_pos hcontradiction]
    exact ⟨rfl, rfl⟩

/-- An earlier object supports a similar later one. -/
theorem mem_supportGraph_iff {K : List KnowledgeObject} {src tgt : String} :
    tgt ∈ ((supportGraph u K).get? src).getD [] ↔
      ∃ k k', [k, k'].Sublist K ∧ k.id = src ∧ k'.id = tgt ∧ Similar u k k' := by
  rw [supportGraph, Grouping.getD_lists]
  simp only [List.mem_map, List.mem_filter, decide_eq_true_eq, detectRelations_eq_pairs,
    Pairs.mem_pairs]
  constructor
  · rintro ⟨rel, ⟨⟨⟨k, k', hsub, hrel⟩, htype⟩, rfl⟩, rfl⟩
    obtain ⟨hsrc, htgt⟩ := relation_ids hrel
    exact ⟨k, k', hsub, hsrc.symm, htgt.symm, relation_supports_iff.mp ⟨rel, hrel, htype⟩⟩
  · rintro ⟨k, k', hsub, rfl, rfl, hsimilar⟩
    obtain ⟨rel, hrel, htype⟩ := relation_supports_iff.mpr hsimilar
    obtain ⟨hsrc, htgt⟩ := relation_ids hrel
    exact ⟨rel, ⟨⟨⟨k, k', hsub, hrel⟩, htype⟩, hsrc⟩, htgt⟩

/-- The record of two contradicting objects. -/
def recordOf (now : String) (k k' : KnowledgeObject) : ConflictRecord where
  conflictId := makeConflictId k.id k'.id
  knowledgeAId := k.id
  knowledgeBId := k'.id
  knowledgeATitle := k.title
  knowledgeBTitle := k'.title
  confidence := 9 / 10
  raisedAt := now

theorem get?_activeById {K : List KnowledgeObject} (hids : (K.map KnowledgeObject.id).Nodup)
    {k : KnowledgeObject} (hk : k ∈ K) : (activeById K).get? k.id = some k := by
  have hentries : (activeById K).entries = K.map fun k => (k.id, k) :=
    OrdDict.entries_ofList (by simpa [Function.comp_def] using hids)
  have hmem : (k.id, k) ∈ (activeById K).entries := hentries ▸ List.mem_map_of_mem hk
  exact OrdDict.get?_of_mem hmem

/-- What a reader takes from the conflict of two objects. -/
def conflictWith {β : Type} (u : UnicodeTables) (now : String) (f : ConflictRecord → β)
    (k k' : KnowledgeObject) : Option β :=
  if detectContradiction u k.content k'.content = true then some (f (recordOf now k k'))
  else none

theorem map_conflictQueue {β : Type} {K : List KnowledgeObject}
    (hids : (K.map KnowledgeObject.id).Nodup) (now : String) (f : ConflictRecord → β) :
    (conflictQueue u now K).map f = Pairs.pairs (conflictWith u now f) K := by
  rw [conflictQueue, detectRelations_eq_pairs, List.map_filterMap, Pairs.filterMap_pairs]
  apply Pairs.pairs_congr
  intro k hk k' hk'
  by_cases hcontradiction : detectContradiction u k.content k'.content = true
  · have hrel := (relation_contradicts_iff (u := u)).mpr ⟨hcontradiction, rfl⟩
    rw [hrel.1, Option.bind_some, conflictWith, if_pos hcontradiction, conflictOf, if_pos rfl,
      get?_activeById hids hk, get?_activeById hids hk']
    rfl
  · rw [conflictWith, if_neg hcontradiction]
    cases hrel : relation u k k' with
    | none => rfl
    | some rel =>
        have htype : rel.relationType ≠ .contradicts := fun htype =>
          hcontradiction (relation_contradicts_iff.mp ⟨hrel, htype⟩).1
        rw [Option.bind_some, conflictOf, if_neg htype]
        rfl

/-! ## Both directions -/

theorem jaccardSimilarity_comm (s s' : String) :
    PythonText.jaccardSimilarity u s s' = PythonText.jaccardSimilarity u s' s := by
  simp only [PythonText.jaccardSimilarity, or_comm, Finset.inter_comm, Finset.union_comm]

theorem getJaccardSimilarity_comm (s s' : String) :
    PythonText.getJaccardSimilarity u s s' = PythonText.getJaccardSimilarity u s' s := by
  simp only [PythonText.getJaccardSimilarity, or_comm, Finset.inter_comm, Finset.union_comm]

theorem detectContradiction_comm (s s' : String) :
    detectContradiction u s s' = detectContradiction u s' s := by
  have hengines : ∀ a b c d a' b' c' d' : Bool,
      (a && b' || b && a' || c && d' || d && c') = (a' && b || b' && a || c' && d || d' && c) := by
    decide
  simp only [detectContradiction, hengines]
  rw [getJaccardSimilarity_comm s s']
  congr 2
  funext neg
  rw [Bool.or_comm]

theorem Similar.symm {k k' : KnowledgeObject} (h : Similar u k k') : Similar u k' k where
  consistent := (detectContradiction_comm _ _).trans h.consistent
  knowledgeType := h.knowledgeType.symm
  similarity := h.similarity.trans_eq (jaccardSimilarity_comm _ _)

/-- A reader that does not look at the direction of the conflicts reads the same in every order of
the objects. -/
theorem conflictQueue_perm {β : Type} {K K' : List KnowledgeObject} (hperm : K'.Perm K)
    (hids : (K.map KnowledgeObject.id).Nodup) (now : String) {f : ConflictRecord → β}
    (hf : ∀ k k', f (recordOf now k k') = f (recordOf now k' k)) :
    ((conflictQueue u now K').map f).Perm ((conflictQueue u now K).map f) := by
  have hids' : (K'.map KnowledgeObject.id).Nodup := (hperm.map _).nodup_iff.mpr hids
  rw [map_conflictQueue hids, map_conflictQueue hids']
  apply Pairs.pairs_perm _ hperm
  intro k k'
  rw [conflictWith, conflictWith, detectContradiction_comm, hf]

end KnowledgeProjection

end RationaleVault
