import Mathlib.Data.List.Dedup
import Mathlib.Data.String.Basic
import RationaleVault.Knowledge.Models
import RationaleVault.Library.Grouping
import RationaleVault.Library.Table

/-!
# Evidence bundles

Active knowledge objects of all projects are grouped by their normalized
title. A bundle takes its concept, title and content from the first object of
its group and gathers the memories of all of them.
-/

namespace RationaleVault

/-- A contradiction that a project's knowledge state queues for resolution. -/
structure ConflictRecord where
  conflictId : String
  knowledgeAId : String
  knowledgeBId : String
  knowledgeATitle : String
  knowledgeBTitle : String
  confidence : ℚ
  raisedAt : String
  resolutionStatus : String := "unresolved"
  deriving DecidableEq

/-- What reasoning reads of a compiled knowledge state. -/
structure KnowledgeState where
  projectId : String
  activeKnowledge : List KnowledgeObject := []
  conflictQueue : List ConflictRecord := []
  supportGraph : OrdDict String (List String) := .empty

/-- `sorted(list(s))` for the set of the listed strings. -/
def sortedSet (l : List String) : List String := Table.orderBy id l.dedup

@[simp] theorem mem_sortedSet {l : List String} {x : String} : x ∈ sortedSet l ↔ x ∈ l := by
  simp [sortedSet]

/-- The date and time operations of the pipeline: texts that do not parse and instants that
cannot be compared raise. -/
structure Clock where
  Instant : Type
  createdAt : KnowledgeObject → String
  fromisoformat : String → Option Instant
  gt : Instant → Instant → Option Bool
  ageDays : Instant → ℚ

/-- What `aggregate` collects under one normalized title. Sets are kept as lists. -/
structure ConceptData where
  conceptId : String
  title : String
  content : String
  supportingEvidence : List String := []
  contradictingEvidence : List String := []
  provenance : List String := []
  projectIds : List String := []
  confidences : List ℚ := []
  updatedAts : List String := []
  contradictionFindings : List ConflictRecord := []

/-- The entry opened for the first object with a title. -/
def ConceptData.first (k : KnowledgeObject) : ConceptData :=
  { conceptId := k.id, title := k.title, content := k.content }

/-- Gather one more object. -/
def ConceptData.put (data : ConceptData) (k : KnowledgeObject) : ConceptData :=
  { data with
    supportingEvidence := data.supportingEvidence ++ k.supportingMemoryIds
    contradictingEvidence := data.contradictingEvidence ++ k.contradictingMemoryIds
    provenance := data.provenance ++ k.provenance.sourceEventIds
    projectIds := data.projectIds ++ [k.projectId]
    confidences := data.confidences ++ [k.confidence.score]
    updatedAts := data.updatedAts ++ [k.updatedAt] }

theorem ConceptData.title_foldl (ks : List KnowledgeObject) (data : ConceptData) :
    (ks.foldl ConceptData.put data).title = data.title := by
  induction ks generalizing data with
  | nil => rfl
  | cons k rest ih => exact ih (data.put k)

theorem ConceptData.conceptId_foldl (ks : List KnowledgeObject) (data : ConceptData) :
    (ks.foldl ConceptData.put data).conceptId = data.conceptId := by
  induction ks generalizing data with
  | nil => rfl
  | cons k rest ih => exact ih (data.put k)

theorem ConceptData.supportingEvidence_foldl (ks : List KnowledgeObject) (data : ConceptData) :
    (ks.foldl ConceptData.put data).supportingEvidence =
      data.supportingEvidence ++ ks.flatMap KnowledgeObject.supportingMemoryIds := by
  induction ks generalizing data with
  | nil => simp
  | cons k rest ih =>
      rw [List.foldl_cons, ih, List.flatMap_cons, ← List.append_assoc]
      rfl

structure EvidenceBundle where
  conceptId : String
  title : String
  content : String
  supportingEvidence : List String
  contradictingEvidence : List String
  provenance : List String
  freshness : ℚ
  sourceDiversity : Nat
  baseConfidence : ℚ
  contradictionFindings : List ConflictRecord

namespace EvidenceAggregator

variable (u : UnicodeTables) (clock : Clock)

/-- The states in the order of their project ids. -/
def sortedStates (states : List KnowledgeState) : List KnowledgeState :=
  Table.orderBy KnowledgeState.projectId states

/-- The active objects in the order the states are read. -/
def activeObjects (states : List KnowledgeState) : List KnowledgeObject :=
  (sortedStates states).flatMap KnowledgeState.activeKnowledge

theorem mem_activeObjects {states : List KnowledgeState} {k : KnowledgeObject} :
    k ∈ activeObjects states ↔ ∃ state ∈ states, k ∈ state.activeKnowledge := by
  simp [activeObjects, sortedStates]

def normTitle (k : KnowledgeObject) : String := PythonText.normalized u k.title

/-- Note a queued conflict with the concept of a title, when there is one. -/
def note (title : String) (conflict : ConflictRecord) (bundles : OrdDict String ConceptData) :
    OrdDict String ConceptData :=
  bundles.modify (PythonText.normalized u title) fun data =>
    { data with contradictionFindings := data.contradictionFindings ++ [conflict] }

/-- The concepts with the queued conflicts about them. -/
def concepts (states : List KnowledgeState) : OrdDict String ConceptData :=
  ((sortedStates states).flatMap KnowledgeState.conflictQueue).foldl
    (fun bundles conflict =>
      note u conflict.knowledgeBTitle conflict (note u conflict.knowledgeATitle conflict bundles))
    (Grouping.group (normTitle u) ConceptData.first ConceptData.put (activeObjects states))

/-- The newest of the texts that parse. -/
def newestUpdate (updatedAts : List String) : Option clock.Instant :=
  updatedAts.foldl (fun newest text =>
    match clock.fromisoformat text, newest with
    | none, _ => newest
    | some t, none => some t
    | some t, some t' => if clock.gt t t' = some true then some t else newest) none

def bundleOf (data : ConceptData) : EvidenceBundle :=
  let ageDays := ((newestUpdate clock data.updatedAts).map clock.ageDays).getD 0
  { conceptId := data.conceptId
    title := data.title
    content := data.content
    supportingEvidence := sortedSet data.supportingEvidence
    contradictingEvidence := sortedSet data.contradictingEvidence
    provenance := sortedSet data.provenance
    freshness := max 0 ageDays
    sourceDiversity := data.projectIds.dedup.length
    baseConfidence := if data.confidences = [] then 0
      else data.confidences.sum / data.confidences.length
    contradictionFindings := data.contradictionFindings }

/-- `EvidenceAggregator.aggregate(knowledge_states)`. -/
def aggregate (states : List KnowledgeState) : List EvidenceBundle :=
  (Table.orderBy Prod.fst (concepts u states).entries).map fun e => bundleOf clock e.2

/-! ## What a bundle is about -/

/-- A concept agrees with the objects of a title: it is named after one of them and holds
the memories of all. -/
structure About (objects : List KnowledgeObject) (title : String) (data : ConceptData) :
    Prop where
  title_eq : PythonText.normalized u data.title = title
  mem_supporting : ∀ m, m ∈ data.supportingEvidence ↔
    ∃ k ∈ objects, normTitle u k = title ∧ m ∈ k.supportingMemoryIds

variable {u clock}

theorem about_group {objects : List KnowledgeObject} {e : String × ConceptData}
    (he : e ∈ (Grouping.group (normTitle u) ConceptData.first ConceptData.put objects).entries) :
    About u objects e.1 e.2 := by
  obtain ⟨k, rest, hfilter, hdata⟩ := Grouping.entries_group he
  have hmem : ∀ k', k' ∈ k :: rest ↔ k' ∈ objects ∧ normTitle u k' = e.1 := fun k' => by
    rw [← hfilter, List.mem_filter, decide_eq_true_iff]
    rfl
  constructor
  · rw [hdata, ConceptData.title_foldl]
    exact ((hmem k).mp List.mem_cons_self).2
  · intro m
    rw [hdata, ConceptData.supportingEvidence_foldl]
    change m ∈ [] ++ _ ↔ _
    rw [List.nil_append, List.mem_flatMap]
    constructor
    · rintro ⟨k', hk', hm⟩
      exact ⟨k', ((hmem k').mp hk').1, ((hmem k').mp hk').2, hm⟩
    · rintro ⟨k', hk', htitle, hm⟩
      exact ⟨k', (hmem k').mpr ⟨hk', htitle⟩, hm⟩

/-- Noting a conflict changes the findings of a concept only, and opens no concept. -/
theorem forall_note {p : String → ConceptData → Prop}
    (hp : ∀ title data findings, p title data →
      p title { data with contradictionFindings := findings })
    {bundles : OrdDict String ConceptData} (h : ∀ e ∈ bundles.entries, p e.1 e.2)
    (title : String) (conflict : ConflictRecord) :
    ∀ e ∈ (note u title conflict bundles).entries, p e.1 e.2 := by
  unfold EvidenceAggregator.note OrdDict.modify
  cases hget : bundles.get? (PythonText.normalized u title) with
  | none => exact h
  | some data =>
      obtain ⟨e, he, hkey, hdata⟩ := OrdDict.lookupIn_mem hget
      have hold := h e he
      rw [show e.1 = PythonText.normalized u title from hkey, hdata] at hold
      exact OrdDict.forall_entries_set (p := p) h (hp _ _ _ hold)

/-- What holds of every group, whatever its findings, holds of every concept. -/
theorem forall_concepts {p : String → ConceptData → Prop}
    (hp : ∀ title data findings, p title data →
      p title { data with contradictionFindings := findings })
    {states : List KnowledgeState}
    (h : ∀ e ∈ (Grouping.group (normTitle u) ConceptData.first ConceptData.put
      (activeObjects states)).entries, p e.1 e.2) :
    ∀ e ∈ (concepts u states).entries, p e.1 e.2 := by
  unfold concepts
  apply List.foldlRecOn (motive := fun bundles : OrdDict String ConceptData =>
    ∀ e ∈ bundles.entries, p e.1 e.2)
  · exact h
  · intro bundles h conflict _
    exact forall_note hp (forall_note hp h _ conflict) _ conflict

theorem normKeys_note (title : String) (conflict : ConflictRecord)
    (bundles : OrdDict String ConceptData) :
    (note u title conflict bundles).normKeys = bundles.normKeys :=
  OrdDict.normKeys_modify bundles _ _

theorem about_concepts {states : List KnowledgeState} {e : String × ConceptData}
    (he : e ∈ (concepts u states).entries) : About u (activeObjects states) e.1 e.2 := by
  apply forall_concepts (p := fun title data => About u (activeObjects states) title data) _ _ e he
  · exact fun title data findings h => ⟨h.title_eq, h.mem_supporting⟩
  · exact fun e he => about_group he

theorem normKeys_concepts (states : List KnowledgeState) :
    (concepts u states).normKeys = (Grouping.group (normTitle u) ConceptData.first
      ConceptData.put (activeObjects states)).normKeys := by
  unfold concepts
  apply List.foldlRecOn (motive := fun bundles : OrdDict String ConceptData =>
    bundles.normKeys = (Grouping.group (normTitle u) ConceptData.first ConceptData.put
      (activeObjects states)).normKeys)
  · rfl
  · intro bundles h conflict _
    rw [normKeys_note, normKeys_note, h]

/-- A bundle is named after its objects and holds exactly their memories. -/
theorem mem_aggregate {states : List KnowledgeState} {b : EvidenceBundle}
    (hb : b ∈ aggregate u clock states) (m : String) :
    m ∈ b.supportingEvidence ↔ ∃ k ∈ activeObjects states,
      normTitle u k = PythonText.normalized u b.title ∧ m ∈ k.supportingMemoryIds := by
  obtain ⟨e, he, rfl⟩ := List.mem_map.mp hb
  have habout := about_concepts (Table.mem_orderBy.mp he)
  change m ∈ sortedSet e.2.supportingEvidence ↔ ∃ k ∈ activeObjects states,
    normTitle u k = PythonText.normalized u e.2.title ∧ m ∈ k.supportingMemoryIds
  rw [mem_sortedSet, habout.mem_supporting, habout.title_eq]

/-- No two bundles have one normalized title. -/
theorem nodup_titles (states : List KnowledgeState) :
    ((aggregate u clock states).map fun b => PythonText.normalized u b.title).Nodup := by
  have hkeys : (aggregate u clock states).map (fun b => PythonText.normalized u b.title) =
      (Table.orderBy Prod.fst (concepts u states).entries).map Prod.fst := by
    rw [aggregate, List.map_map]
    apply List.map_congr_left
    intro e he
    exact (about_concepts (Table.mem_orderBy.mp he)).title_eq
  rw [hkeys]
  exact ((Table.orderBy_perm Prod.fst _).map Prod.fst).nodup_iff.mpr (concepts u states).nodup

/-- Every active object is in the bundle of its title. -/
theorem exists_bundle {states : List KnowledgeState} {k : KnowledgeObject}
    (hk : k ∈ activeObjects states) :
    ∃ b ∈ aggregate u clock states, PythonText.normalized u b.title = normTitle u k := by
  have hcontains : (Grouping.group (normTitle u) ConceptData.first ConceptData.put
      (activeObjects states)).contains (normTitle u k) = true := Grouping.contains_group hk
  rw [OrdDict.contains_iff, ← normKeys_concepts] at hcontains
  obtain ⟨e, he, hkey⟩ := List.mem_map.mp hcontains
  refine ⟨bundleOf clock e.2, List.mem_map.mpr ⟨e, Table.mem_orderBy.mpr he, rfl⟩, ?_⟩
  exact (about_concepts he).title_eq.trans hkey

end EvidenceAggregator

end RationaleVault
