import Mathlib.Data.Sym.Sym2
import RationaleVault.CognitiveHead.MergedSupport
import RationaleVault.Projections.CompiledKnowledge

/-!
# The order of the objects of one project

Objects with titles of their own are assessed one by one, and a conflict counts for
both of its sides, so beliefs start alike in every order of the objects. Support is
recorded from the earlier object to the later one: the order decides which of two
similar objects is doubted because of the other.
-/

namespace RationaleVault

namespace EvidenceAggregator

variable {u : UnicodeTables} {clock : Clock}

/-! ## Concepts of one object -/

/-- The queued conflicts that are noted with a title. -/
def noted (u : UnicodeTables) (title : String) (queue : List ConflictRecord) :
    List ConflictRecord :=
  queue.flatMap fun c =>
    (if PythonText.normalized u c.knowledgeATitle = title then [c] else []) ++
      if PythonText.normalized u c.knowledgeBTitle = title then [c] else []

/-- How often a conflict is noted with a title. -/
def mentions (u : UnicodeTables) (title : String) (c : ConflictRecord) : Nat :=
  (if PythonText.normalized u c.knowledgeATitle = title then 1 else 0) +
    if PythonText.normalized u c.knowledgeBTitle = title then 1 else 0

theorem length_noted (title : String) (queue : List ConflictRecord) :
    (noted u title queue).length = (queue.map (mentions u title)).sum := by
  induction queue with
  | nil => rfl
  | cons c rest ih =>
      have hfirst : ((if PythonText.normalized u c.knowledgeATitle = title then [c] else []) ++
          if PythonText.normalized u c.knowledgeBTitle = title then [c] else []).length =
          mentions u title c := by
        rw [mentions, List.length_append]
        split_ifs <;> simp
      rw [List.map_cons, List.sum_cons, ← ih, ← hfirst, ← List.length_append]
      rfl

/-- Add conflicts to the findings. -/
def addFindings (findings : List ConflictRecord) (data : ConceptData) : ConceptData :=
  { data with contradictionFindings := data.contradictionFindings ++ findings }

theorem get?_note (title text : String) (c : ConflictRecord)
    (bundles : OrdDict String ConceptData) :
    (note u text c bundles).get? title = (bundles.get? title).map
      (addFindings (if PythonText.normalized u text = title then [c] else [])) := by
  rw [note, OrdDict.get?_modify]
  simp only [DictKey.norm_string]
  split
  · rfl
  · cases bundles.get? title with
    | none => rfl
    | some data => simp [addFindings]

theorem get?_foldl_note (title : String) (queue : List ConflictRecord)
    (bundles : OrdDict String ConceptData) :
    (queue.foldl (fun bundles conflict =>
      note u conflict.knowledgeBTitle conflict (note u conflict.knowledgeATitle conflict bundles))
      bundles).get? title = (bundles.get? title).map (addFindings (noted u title queue)) := by
  induction queue generalizing bundles with
  | nil =>
      rw [List.foldl_nil]
      cases bundles.get? title with
      | none => rfl
      | some data => simp [addFindings, noted]
  | cons c rest ih =>
      rw [List.foldl_cons, ih, get?_note, get?_note, Option.map_map, Option.map_map]
      congr 1
      funext data
      simp [addFindings, noted]

/-- The concept of an object whose title no other object has. -/
def conceptOf (k : KnowledgeObject) (findings : List ConflictRecord) : ConceptData :=
  { (ConceptData.first k).put k with contradictionFindings := findings }

theorem filter_normTitle {objects : List KnowledgeObject}
    (htitles : (objects.map (normTitle u)).Nodup) {k : KnowledgeObject} (hk : k ∈ objects) :
    (objects.filter fun k' => normTitle u k' = normTitle u k) = [k] := by
  obtain ⟨before, after, rfl⟩ := List.append_of_mem hk
  rw [List.map_append, List.map_cons, List.nodup_middle, List.nodup_cons, ← List.map_append,
    List.mem_map] at htitles
  have hother : ∀ k' ∈ before ++ after, normTitle u k' ≠ normTitle u k := fun k' hk' heq =>
    htitles.1 ⟨k', hk', heq⟩
  have hbefore : (before.filter fun k' => normTitle u k' = normTitle u k) = [] := by
    rw [List.filter_eq_nil_iff]
    intro k' hk'
    simpa using hother k' (List.mem_append_left _ hk')
  have hafter : (after.filter fun k' => normTitle u k' = normTitle u k) = [] := by
    rw [List.filter_eq_nil_iff]
    intro k' hk'
    simpa using hother k' (List.mem_append_right _ hk')
  rw [List.filter_append, List.filter_cons_of_pos (by simp), hbefore, hafter, List.nil_append]

variable {states states' : List KnowledgeState}

theorem mem_entries_concepts (htitles : ((activeObjects states).map (normTitle u)).Nodup)
    {e : String × ConceptData} : e ∈ (concepts u states).entries ↔
      ∃ k ∈ activeObjects states, e = (normTitle u k, conceptOf k (noted u (normTitle u k)
        ((sortedStates states).flatMap KnowledgeState.conflictQueue))) := by
  have hget : ∀ k ∈ activeObjects states, (concepts u states).get? (normTitle u k) =
      some (conceptOf k (noted u (normTitle u k)
        ((sortedStates states).flatMap KnowledgeState.conflictQueue))) := by
    intro k hk
    rw [concepts, get?_foldl_note, Grouping.get?_group]
    simp only [DictKey.norm_string, filter_normTitle htitles hk]
    rfl
  constructor
  · intro he
    have hcontains : e.1 ∈ (concepts u states).normKeys := List.mem_map_of_mem he
    rw [normKeys_concepts] at hcontains
    obtain ⟨e', he', hkey⟩ := List.mem_map.mp hcontains
    obtain ⟨k, rest, hfilter, _⟩ := Grouping.entries_group he'
    have hk : k ∈ (activeObjects states).filter fun a =>
        DictKey.norm (normTitle u a) = DictKey.norm e'.1 := hfilter ▸ List.mem_cons_self
    obtain ⟨hmem, htitle⟩ := List.mem_filter.mp hk
    have hkeyed : normTitle u k = e.1 := (by simpa using htitle : normTitle u k = e'.1).trans hkey
    have hvalue := hget k hmem
    rw [hkeyed, OrdDict.get?_of_mem he, Option.some.injEq] at hvalue
    exact ⟨k, hmem, Prod.ext hkeyed.symm (by rw [hkeyed, hvalue])⟩
  · rintro ⟨k, hk, rfl⟩
    obtain ⟨e, he, hkey, hval⟩ := OrdDict.lookupIn_mem (hget k hk)
    have heq : e = (normTitle u k, conceptOf k (noted u (normTitle u k)
        ((sortedStates states).flatMap KnowledgeState.conflictQueue))) := Prod.ext hkey hval
    exact heq ▸ he

end EvidenceAggregator

namespace ReasoningEngine

open PropagationEngine

variable {u : UnicodeTables} {clock : Clock} {config : ReasoningConfig}
  {states states' : List KnowledgeState}

/-! ## Beliefs of the same objects -/

/-- What propagation reads of a concept: its key, its id and the belief it starts with. -/
def start (u : UnicodeTables) (clock : Clock) (config : ReasoningConfig)
    (e : String × ConceptData) : String × String × Belief :=
  let bundle := EvidenceAggregator.bundleOf clock e.2
  (e.1, bundle.conceptId, initialBelief u config bundle)

/-- Only the number of the findings matters. -/
theorem start_conceptOf (title : String) (k : KnowledgeObject)
    {findings findings' : List ConflictRecord} (hlength : findings.length = findings'.length) :
    start u clock config (title, EvidenceAggregator.conceptOf k findings) =
      start u clock config (title, EvidenceAggregator.conceptOf k findings') := by
  have hassess : AssessmentEngine.assess (EvidenceAggregator.bundleOf clock
      (EvidenceAggregator.conceptOf k findings)) config =
      AssessmentEngine.assess (EvidenceAggregator.bundleOf clock
        (EvidenceAggregator.conceptOf k findings')) config := by
    simp only [AssessmentEngine.assess, EvidenceAggregator.bundleOf, EvidenceAggregator.conceptOf,
      hlength]
    rfl
  simp only [start, initialBelief, hassess]
  rfl

/-- The beliefs are computed from the starts in the order of the titles. -/
theorem beliefs_eq_starts (states : List KnowledgeState) :
    beliefs u clock states config =
      let starts := Table.orderBy Prod.fst
        ((EvidenceAggregator.concepts u states).entries.map (start u clock config))
      propagateBeliefs (starts.map fun s => s.2.2)
        (OrdDict.ofList (starts.map fun s => (s.2.1, s.2.2.beliefId))) (supportGraph states)
        config := by
  have hstarts : Table.orderBy Prod.fst
      ((EvidenceAggregator.concepts u states).entries.map (start u clock config)) =
      (Table.orderBy Prod.fst (EvidenceAggregator.concepts u states).entries).map
        (start u clock config) :=
    (Table.map_orderBy Prod.fst Prod.fst (start u clock config) (fun e => rfl) _).symm
  simp only [hstarts, List.map_map]
  rw [beliefs, EvidenceAggregator.aggregate]
  simp only [List.map_map]
  rfl

section Reordered

-- the same active objects, one for each title, with as many findings about each
variable (hobjects : (EvidenceAggregator.activeObjects states').Perm
    (EvidenceAggregator.activeObjects states))
  (htitles : ((EvidenceAggregator.activeObjects states).map (EvidenceAggregator.normTitle u)).Nodup)
  (hnoted : ∀ title, (EvidenceAggregator.noted u title
      ((EvidenceAggregator.sortedStates states').flatMap KnowledgeState.conflictQueue)).length =
    (EvidenceAggregator.noted u title
      ((EvidenceAggregator.sortedStates states).flatMap KnowledgeState.conflictQueue)).length)
include hobjects htitles hnoted

theorem starts_perm :
    ((EvidenceAggregator.concepts u states').entries.map (start u clock config)).Perm
      ((EvidenceAggregator.concepts u states).entries.map (start u clock config)) := by
  have htitles' : ((EvidenceAggregator.activeObjects states').map
      (EvidenceAggregator.normTitle u)).Nodup := (hobjects.map _).nodup_iff.mpr htitles
  have hnodup : ∀ d : OrdDict String ConceptData,
      (d.entries.map (start u clock config)).Nodup := by
    intro d
    apply List.Nodup.of_map Prod.fst
    rw [List.map_map]
    exact d.nodup
  rw [List.perm_ext_iff_of_nodup (hnodup _) (hnodup _)]
  intro x
  simp only [List.mem_map, EvidenceAggregator.mem_entries_concepts htitles,
    EvidenceAggregator.mem_entries_concepts htitles']
  constructor
  · rintro ⟨_, ⟨k, hk, rfl⟩, rfl⟩
    exact ⟨_, ⟨k, hobjects.mem_iff.mp hk, rfl⟩, start_conceptOf _ k (hnoted _).symm⟩
  · rintro ⟨_, ⟨k, hk, rfl⟩, rfl⟩
    exact ⟨_, ⟨k, hobjects.mem_iff.mpr hk, rfl⟩, start_conceptOf _ k (hnoted _)⟩

theorem beliefs_eq_of_perm
    (hrecorded : ∀ src tgt, Recorded states' src tgt ↔ Recorded states src tgt) :
    beliefs u clock states' config = beliefs u clock states config := by
  have hperm : ((EvidenceAggregator.concepts u states').entries.map
      (start u clock config)).Perm ((EvidenceAggregator.concepts u states).entries.map
        (start u clock config)) := starts_perm hobjects htitles hnoted
  have hkeys : (((EvidenceAggregator.concepts u states').entries.map
      (start u clock config)).map Prod.fst).Nodup := by
    rw [List.map_map]
    exact (EvidenceAggregator.concepts u states').nodup
  rw [beliefs_eq_starts, beliefs_eq_starts, Table.orderBy_eq_of_perm hperm hkeys]
  apply propagateBeliefs_congr
  · exact fun c => rfl
  · intro src tgt
    rw [supports_iff, supports_iff, mem_supportGraph, mem_supportGraph, hrecorded]

end Reordered

/-! ## One project in two orders -/

/-- Two compiled states give the same support, the same conflicts and, from reasoning, the same
confidences. -/
structure SameBeliefs (u : UnicodeTables) (clock : Clock) (config : ReasoningConfig)
    (state state' : CompiledKnowledge) : Prop where
  supports : ∀ src tgt, tgt ∈ (state'.supportGraph.get? src).getD [] ↔
    tgt ∈ (state.supportGraph.get? src).getD []
  conflicts : (state'.conflictQueue.map fun c => s(c.knowledgeAId, c.knowledgeBId)).Perm
    (state.conflictQueue.map fun c => s(c.knowledgeAId, c.knowledgeBId))
  confidences : ∀ suppressedIds report report',
    reason u clock [state.toKnowledgeState] suppressedIds config = .ok report →
    reason u clock [state'.toKnowledgeState] suppressedIds config = .ok report' →
    report'.beliefs.map (fun b => (b.beliefId, b.finalConfidence)) =
      report.beliefs.map fun b => (b.beliefId, b.finalConfidence)

/-- The sides of the conflicts are the same, too. -/
def SameSides (state state' : CompiledKnowledge) : Prop :=
  (state'.conflictQueue.map fun c => (c.knowledgeAId, c.knowledgeBId)).Perm
    (state.conflictQueue.map fun c => (c.knowledgeAId, c.knowledgeBId))

/-- Nothing of a kind is found between two of the objects. -/
def NonePair (found : KnowledgeObject → KnowledgeObject → Prop) (K : List KnowledgeObject) :
    Prop := ∀ k ∈ K, ∀ k' ∈ K, k.id ≠ k'.id → ¬found k k'

variable {K K' : List KnowledgeObject} {now projectId : String}

theorem ids_ne_of_pair {k k' : KnowledgeObject} (hids : (K.map KnowledgeObject.id).Nodup)
    (hsub : [k, k'].Sublist K) : k.id ≠ k'.id := by
  have hpair : ([k, k'].map KnowledgeObject.id).Nodup := hids.sublist (hsub.map _)
  simpa using hpair

theorem activeObjects_project : EvidenceAggregator.activeObjects
    [(KnowledgeProjection.project u now projectId K).toKnowledgeState] =
      KnowledgeProjection.active K := by
  rw [EvidenceAggregator.activeObjects, EvidenceAggregator.sortedStates,
    Table.orderBy_eq_self (List.pairwise_singleton _ _), List.flatMap_singleton]
  rfl

theorem length_noted_project (hids : (K.map KnowledgeObject.id).Nodup) (hperm : K'.Perm K)
    (title : String) :
    (EvidenceAggregator.noted u title ((EvidenceAggregator.sortedStates
      [(KnowledgeProjection.project u now projectId K').toKnowledgeState]).flatMap
        KnowledgeState.conflictQueue)).length =
    (EvidenceAggregator.noted u title ((EvidenceAggregator.sortedStates
      [(KnowledgeProjection.project u now projectId K).toKnowledgeState]).flatMap
        KnowledgeState.conflictQueue)).length := by
  rw [EvidenceAggregator.sortedStates, EvidenceAggregator.sortedStates,
    Table.orderBy_eq_self (List.pairwise_singleton _ _),
    Table.orderBy_eq_self (List.pairwise_singleton _ _), List.flatMap_singleton,
    List.flatMap_singleton, EvidenceAggregator.length_noted, EvidenceAggregator.length_noted]
  apply List.Perm.sum_eq
  apply KnowledgeProjection.conflictQueue_perm (hperm.filter _)
    (KnowledgeProjection.nodup_active hids)
  intro k k'
  exact Nat.add_comm _ _

theorem not_supports_of_none (hids : (K.map KnowledgeObject.id).Nodup)
    (hnone : NonePair (KnowledgeProjection.Similar u) (KnowledgeProjection.active K))
    (src tgt : String) :
    tgt ∉ ((KnowledgeProjection.project u now projectId K).supportGraph.get? src).getD [] := by
  intro hsupports
  obtain ⟨k, k', hsub, _, _, hsimilar⟩ := KnowledgeProjection.mem_supportGraph_iff.mp hsupports
  have hne : k.id ≠ k'.id := ids_ne_of_pair (KnowledgeProjection.nodup_active hids) hsub
  exact hnone k (hsub.subset List.mem_cons_self) k' (hsub.subset (by simp)) hne hsimilar

theorem NonePair.perm {found : KnowledgeObject → KnowledgeObject → Prop}
    (h : NonePair found K) (hperm : K'.Perm K) : NonePair found K' :=
  fun k hk k' hk' => h k (hperm.mem_iff.mp hk) k' (hperm.mem_iff.mp hk')

/-- Without similar objects the order does not matter. -/
theorem sameBeliefs_of_none (hids : (K.map KnowledgeObject.id).Nodup)
    (htitles : (K.map (EvidenceAggregator.normTitle u)).Nodup) (hperm : K'.Perm K)
    (hnone : NonePair (KnowledgeProjection.Similar u) (KnowledgeProjection.active K)) :
    SameBeliefs u clock config (KnowledgeProjection.project u now projectId K)
      (KnowledgeProjection.project u now projectId K') := by
  have hids' : (K'.map KnowledgeObject.id).Nodup := (hperm.map _).nodup_iff.mpr hids
  have hactive : (KnowledgeProjection.active K').Perm (KnowledgeProjection.active K) :=
    hperm.filter _
  have hsupports : ∀ src tgt,
      tgt ∈ ((KnowledgeProjection.project u now projectId K').supportGraph.get? src).getD [] ↔
        tgt ∈ ((KnowledgeProjection.project u now projectId K).supportGraph.get? src).getD [] :=
    fun src tgt => iff_of_false (not_supports_of_none hids' (hnone.perm hactive) src tgt)
      (not_supports_of_none hids hnone src tgt)
  have hbeliefs : beliefs u clock
      [(KnowledgeProjection.project u now projectId K').toKnowledgeState] config =
      beliefs u clock [(KnowledgeProjection.project u now projectId K).toKnowledgeState]
        config := by
    apply beliefs_eq_of_perm
    · rw [activeObjects_project, activeObjects_project]
      exact hactive
    · rw [activeObjects_project]
      exact htitles.sublist (List.filter_sublist.map _)
    · exact length_noted_project hids hperm
    · intro src tgt
      simp only [Recorded, List.mem_singleton, exists_eq_left]
      exact hsupports src tgt
  refine ⟨hsupports, ?_, ?_⟩
  · apply KnowledgeProjection.conflictQueue_perm hactive (KnowledgeProjection.nodup_active hids)
    intro k k'
    exact Sym2.eq_swap
  · intro suppressedIds report report' hreport hreport'
    rw [(reason_eq_ok hreport).1, (reason_eq_ok hreport').1, hbeliefs]

/-- Two objects do not stand in the same order in a list and in its reverse. -/
theorem not_pair_reverse (hids : (K.map KnowledgeObject.id).Nodup) {k k' a a' : KnowledgeObject}
    (hsub : [k, k'].Sublist (KnowledgeProjection.active K))
    (hreverse : [a, a'].Sublist (KnowledgeProjection.active K.reverse)) (ha : a.id = k.id)
    (ha' : a'.id = k'.id) : False := by
  have hids := KnowledgeProjection.nodup_active hids
  have hflip : KnowledgeProjection.active K.reverse = (KnowledgeProjection.active K).reverse :=
    List.filter_reverse
  rw [hflip] at hreverse
  have hback : [a', a].Sublist (KnowledgeProjection.active K) := by
    simpa using hreverse.reverse
  obtain rfl : a = k := List.inj_on_of_nodup_map hids (hback.subset (by simp))
    (hsub.subset List.mem_cons_self) ha
  obtain rfl : a' = k' := List.inj_on_of_nodup_map hids (hback.subset List.mem_cons_self)
    (hsub.subset (by simp)) ha'
  exact Table.not_pair_sublist_swap hids.of_map hsub hback

/-- Two objects stand in one of the two orders. -/
theorem exists_pair {found : KnowledgeObject → KnowledgeObject → Prop}
    (hsymm : ∀ k k', found k k' → found k' k) {k k' : KnowledgeObject} (hk : k ∈ K) (hk' : k' ∈ K)
    (hne : k.id ≠ k'.id) (hfound : found k k') :
    ∃ a a', [a, a'].Sublist K ∧ found a a' := by
  have hkk' : k ≠ k' := fun heq => hne (congrArg KnowledgeObject.id heq)
  rcases Table.pair_sublist_or hk hk' hkk' with hsub | hsub
  · exact ⟨k, k', hsub, hfound⟩
  · exact ⟨k', k, hsub, hsymm k k' hfound⟩

theorem none_of_sameBeliefs (hids : (K.map KnowledgeObject.id).Nodup)
    (h : SameBeliefs u clock config (KnowledgeProjection.project u now projectId K)
      (KnowledgeProjection.project u now projectId K.reverse)) :
    NonePair (KnowledgeProjection.Similar u) (KnowledgeProjection.active K) := by
  intro k hk k' hk' hne hsimilar
  obtain ⟨a, a', hsub, hfound⟩ := exists_pair (fun _ _ h => h.symm) hk hk' hne hsimilar
  have hsupports := (h.supports a.id a'.id).mpr
    (KnowledgeProjection.mem_supportGraph_iff.mpr ⟨a, a', hsub, rfl, rfl, hfound⟩)
  obtain ⟨b, b', hreverse, hb, hb', _⟩ := KnowledgeProjection.mem_supportGraph_iff.mp hsupports
  exact not_pair_reverse hids hsub hreverse hb hb'

/-- The sides that are recorded of a contradiction. -/
theorem mem_sides_iff (hids : (K.map KnowledgeObject.id).Nodup) {x : String × String} :
    x ∈ (KnowledgeProjection.project u now projectId K).conflictQueue.map
        (fun c => (c.knowledgeAId, c.knowledgeBId)) ↔
      ∃ k k', [k, k'].Sublist (KnowledgeProjection.active K) ∧
        detectContradiction u k.content k'.content = true ∧ (k.id, k'.id) = x := by
  have hmap := KnowledgeProjection.map_conflictQueue (u := u)
    (KnowledgeProjection.nodup_active hids) now fun c => (c.knowledgeAId, c.knowledgeBId)
  have hqueue : (KnowledgeProjection.project u now projectId K).conflictQueue =
      KnowledgeProjection.conflictQueue u now (KnowledgeProjection.active K) := rfl
  rw [hqueue, hmap, Pairs.mem_pairs]
  simp only [KnowledgeProjection.conflictWith, Option.ite_none_right_eq_some, Option.some.injEq]
  rfl

theorem sameSides_of_none (hids : (K.map KnowledgeObject.id).Nodup) (hperm : K'.Perm K)
    (hnone : NonePair (fun k k' => detectContradiction u k.content k'.content = true)
      (KnowledgeProjection.active K)) :
    SameSides (KnowledgeProjection.project u now projectId K)
      (KnowledgeProjection.project u now projectId K') := by
  have hempty : ∀ L : List KnowledgeObject, L.Perm K →
      (KnowledgeProjection.project u now projectId L).conflictQueue.map
        (fun c => (c.knowledgeAId, c.knowledgeBId)) = [] := by
    intro L hL
    rw [List.eq_nil_iff_forall_not_mem]
    intro x hx
    have hidsL : (L.map KnowledgeObject.id).Nodup := (hL.map _).nodup_iff.mpr hids
    obtain ⟨k, k', hsub, hcontradiction, _⟩ := (mem_sides_iff hidsL).mp hx
    have hne : k.id ≠ k'.id := ids_ne_of_pair (KnowledgeProjection.nodup_active hidsL) hsub
    exact (hnone.perm (hL.filter _)) k (hsub.subset List.mem_cons_self) k' (hsub.subset (by simp))
      hne hcontradiction
  rw [SameSides, hempty K (.refl K), hempty K' hperm]

theorem none_of_sameSides (hids : (K.map KnowledgeObject.id).Nodup)
    (h : SameSides (KnowledgeProjection.project u now projectId K)
      (KnowledgeProjection.project u now projectId K.reverse)) :
    NonePair (fun k k' => detectContradiction u k.content k'.content = true)
      (KnowledgeProjection.active K) := by
  intro k hk k' hk' hne hcontradiction
  have hids' : (K.reverse.map KnowledgeObject.id).Nodup :=
    (K.reverse_perm.map _).nodup_iff.mpr hids
  obtain ⟨a, a', hsub, hfound⟩ : ∃ a a', [a, a'].Sublist (KnowledgeProjection.active K) ∧
      detectContradiction u a.content a'.content = true :=
    exists_pair (fun _ _ h => (KnowledgeProjection.detectContradiction_comm _ _).trans h) hk hk'
      hne hcontradiction
  have hmem := h.mem_iff.mpr ((mem_sides_iff hids).mpr ⟨a, a', hsub, hfound, rfl⟩)
  obtain ⟨b, b', hreverse, _, hids⟩ := (mem_sides_iff hids').mp hmem
  obtain ⟨hb, hb'⟩ := Prod.mk.inj hids
  exact not_pair_reverse ‹_› hsub hreverse hb hb'

/-- Support and confidences are the same in every order of the objects exactly when no two active
objects are similar, and the sides of the conflicts are, too, when none contradict each other. -/
theorem sameBeliefs_iff (u : UnicodeTables) (clock : Clock) (config : ReasoningConfig)
    (now projectId : String) {K : List KnowledgeObject}
    (hids : (K.map KnowledgeObject.id).Nodup)
    (htitles : (K.map (EvidenceAggregator.normTitle u)).Nodup) :
    ((∀ K', K'.Perm K → SameBeliefs u clock config (KnowledgeProjection.project u now projectId K)
        (KnowledgeProjection.project u now projectId K')) ↔
      NonePair (KnowledgeProjection.Similar u) (KnowledgeProjection.active K)) ∧
    ((∀ K', K'.Perm K → SameBeliefs u clock config (KnowledgeProjection.project u now projectId K)
        (KnowledgeProjection.project u now projectId K') ∧
        SameSides (KnowledgeProjection.project u now projectId K)
          (KnowledgeProjection.project u now projectId K')) ↔
      NonePair (KnowledgeProjection.Similar u) (KnowledgeProjection.active K) ∧
        NonePair (fun k k' => detectContradiction u k.content k'.content = true)
          (KnowledgeProjection.active K)) := by
  constructor
  · constructor
    · intro h
      exact none_of_sameBeliefs hids (h K.reverse K.reverse_perm)
    · intro hnone K' hperm
      exact sameBeliefs_of_none hids htitles hperm hnone
  · constructor
    · intro h
      obtain ⟨hbeliefs, hsides⟩ := h K.reverse K.reverse_perm
      exact ⟨none_of_sameBeliefs hids hbeliefs, none_of_sameSides hids hsides⟩
    · rintro ⟨hsimilar, hcontradiction⟩ K' hperm
      exact ⟨sameBeliefs_of_none hids htitles hperm hsimilar,
        sameSides_of_none hids hperm hcontradiction⟩

/-- An object drawn from one memory that is hardly trusted. -/
def guess (id title content memory : String) : KnowledgeObject :=
  { rule id title content memory with confidence := ⟨1, 1, 0, .zero⟩ }

theorem sameBeliefs_iff_apart :
    NonePair (KnowledgeProjection.Similar .asciiOnly) (KnowledgeProjection.active
      [guess "k1" "Storage" "use sqlite" "m1", guess "k2" "Tests" "run daily" "m2"]) ∧
    ∀ K', K'.Perm [guess "k1" "Storage" "use sqlite" "m1", guess "k2" "Tests" "run daily" "m2"] →
      SameBeliefs .asciiOnly undated {} (KnowledgeProjection.project .asciiOnly "" "p1"
        [guess "k1" "Storage" "use sqlite" "m1", guess "k2" "Tests" "run daily" "m2"])
        (KnowledgeProjection.project .asciiOnly "" "p1" K') := by
  have hpair : ∀ k ∈ KnowledgeProjection.active
      [guess "k1" "Storage" "use sqlite" "m1", guess "k2" "Tests" "run daily" "m2"],
      ∀ k' ∈ KnowledgeProjection.active
        [guess "k1" "Storage" "use sqlite" "m1", guess "k2" "Tests" "run daily" "m2"],
      k.id ≠ k'.id →
        ¬1 / 2 ≤ PythonText.jaccardSimilarity .asciiOnly k.content k'.content := by
    decide +kernel
  have hnone : NonePair (KnowledgeProjection.Similar .asciiOnly) (KnowledgeProjection.active
      [guess "k1" "Storage" "use sqlite" "m1", guess "k2" "Tests" "run daily" "m2"]) :=
    fun k hk k' hk' hne hsimilar => hpair k hk k' hk' hne hsimilar.similarity
  refine ⟨hnone, ?_⟩
  exact (sameBeliefs_iff .asciiOnly undated {} "" "p1" (by decide) (by decide +kernel)).1.mpr hnone

/-- The later one of two similar objects is doubted because of the earlier one. -/
theorem not_sameBeliefs_swapped :
    ¬SameBeliefs .asciiOnly undated {}
        (KnowledgeProjection.project .asciiOnly "" "p1"
          [guess "k1" "Storage" "run daily" "m1", guess "k2" "Tests" "run daily" "m2"])
        (KnowledgeProjection.project .asciiOnly "" "p1"
          [guess "k2" "Tests" "run daily" "m2", guess "k1" "Storage" "run daily" "m1"]) ∧
      (beliefs .asciiOnly undated [(KnowledgeProjection.project .asciiOnly "" "p1"
          [guess "k1" "Storage" "run daily" "m1",
            guess "k2" "Tests" "run daily" "m2"]).toKnowledgeState] {}).map
        (fun b => (b.title, b.finalConfidence)) = [("Storage", 1 / 10), ("Tests", 0)] ∧
      (beliefs .asciiOnly undated [(KnowledgeProjection.project .asciiOnly "" "p1"
          [guess "k2" "Tests" "run daily" "m2",
            guess "k1" "Storage" "run daily" "m1"]).toKnowledgeState] {}).map
        (fun b => (b.title, b.finalConfidence)) = [("Storage", 0), ("Tests", 1 / 10)] := by
  refine ⟨fun h => ?_, by decide +kernel, by decide +kernel⟩
  have hsupports := (h.supports "k1" "k2").mpr (by decide +kernel)
  have hnot : "k2" ∉ ((KnowledgeProjection.project .asciiOnly "" "p1"
      [guess "k2" "Tests" "run daily" "m2",
        guess "k1" "Storage" "run daily" "m1"]).supportGraph.get? "k1").getD [] := by
    decide +kernel
  exact hnot hsupports

end ReasoningEngine

end RationaleVault
