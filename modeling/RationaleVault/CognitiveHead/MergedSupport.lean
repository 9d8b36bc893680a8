import RationaleVault.CognitiveHead.Propagation
import RationaleVault.CognitiveHead.Reasoning

/-!
# Support between the objects of several states

The support graphs of all states are merged, while the objects of all states are
merged by title. The order of the states shows in the merged edge lists and
nowhere in the report. An edge counts when both of its ids are the ids of the first
objects of their titles.
-/

namespace RationaleVault

namespace ReasoningEngine

open PropagationEngine

variable {u : UnicodeTables} {clock : Clock}

/-! ## The merged graph -/

/-- A state records that an id supports another one. -/
def Recorded (states : List KnowledgeState) (src tgt : String) : Prop :=
  ∃ state ∈ states, tgt ∈ (state.supportGraph.get? src).getD []

theorem mem_getD_foldl (entries : List (String × List String))
    (graph : OrdDict String (List String)) (src tgt : String) :
    tgt ∈ ((entries.foldl (fun graph e =>
        graph.set e.1 ((graph.get? e.1).getD [] ++ e.2)) graph).get? src).getD [] ↔
      tgt ∈ (graph.get? src).getD [] ∨ ∃ e ∈ entries, e.1 = src ∧ tgt ∈ e.2 := by
  induction entries generalizing graph with
  | nil => simp
  | cons e rest ih =>
      rw [List.foldl_cons, ih, OrdDict.get?_set]
      by_cases he : e.1 = src
      · subst he
        simp [or_assoc]
      · simp [he]

/-- The merged graph has the recorded edges. -/
theorem mem_supportGraph {states : List KnowledgeState} {src tgt : String} :
    tgt ∈ ((supportGraph states).get? src).getD [] ↔ Recorded states src tgt := by
  have hmerged : tgt ∈ ((supportGraph states).get? src).getD [] ↔
      tgt ∈ ((OrdDict.empty (ν := List String)).get? src).getD [] ∨
        ∃ e ∈ states.flatMap fun state => state.supportGraph.entries, e.1 = src ∧ tgt ∈ e.2 :=
    mem_getD_foldl _ .empty src tgt
  rw [hmerged, Recorded]
  simp only [OrdDict.get?_empty, Option.getD_none, List.not_mem_nil, false_or, List.mem_flatMap]
  constructor
  · rintro ⟨e, ⟨state, hstate, he⟩, rfl, htgt⟩
    exact ⟨state, hstate, by rw [OrdDict.get?_of_mem he]; exact htgt⟩
  · rintro ⟨state, hstate, htgt⟩
    cases hget : state.supportGraph.get? src with
    | none =>
        rw [hget] at htgt
        cases htgt
    | some targets =>
        obtain ⟨e, he, hkey, hval⟩ := OrdDict.lookupIn_mem hget
        rw [hget] at htgt
        exact ⟨e, ⟨state, hstate, he⟩, hkey, hval ▸ htgt⟩

theorem recorded_perm {states states' : List KnowledgeState} (h : states.Perm states')
    {src tgt : String} : Recorded states src tgt ↔ Recorded states' src tgt := by
  simp only [Recorded, h.mem_iff]

/-! ## The order of the states -/

/-- States of distinct projects are read in one order. -/
theorem sortedStates_perm {states states' : List KnowledgeState} (h : states.Perm states')
    (hids : (states.map KnowledgeState.projectId).Nodup) :
    EvidenceAggregator.sortedStates states = EvidenceAggregator.sortedStates states' :=
  Table.orderBy_eq_of_perm h hids

theorem aggregate_congr {states states' : List KnowledgeState}
    (h : EvidenceAggregator.sortedStates states = EvidenceAggregator.sortedStates states') :
    EvidenceAggregator.aggregate u clock states = EvidenceAggregator.aggregate u clock states' := by
  unfold EvidenceAggregator.aggregate EvidenceAggregator.concepts EvidenceAggregator.activeObjects
  rw [h]

/-- Reasoning over states of distinct projects does not see their order. -/
theorem reason_perm (u : UnicodeTables) (clock : Clock) {states states' : List KnowledgeState}
    (hperm : states.Perm states') (hids : (states.map KnowledgeState.projectId).Nodup)
    (suppressedIds : List String) (config : ReasoningConfig) :
    reason u clock states suppressedIds config = reason u clock states' suppressedIds config := by
  have hsorted := sortedStates_perm hperm hids
  have hbeliefs : beliefs u clock states config = beliefs u clock states' config := by
    simp only [beliefs]
    rw [aggregate_congr hsorted]
    apply propagateBeliefs_congr
    · exact fun c => rfl
    · intro src tgt
      rw [supports_iff, supports_iff, mem_supportGraph, mem_supportGraph, recorded_perm hperm]
  have hfindings : findings u clock states suppressedIds =
      findings u clock states' suppressedIds := by
    unfold findings tempRecords EvidenceAggregator.activeObjects
    rw [hsorted]
  rw [reason, reason, hbeliefs, hfindings]

/-- Two states that support each other's objects in opposite order. -/
def crossed : List KnowledgeState :=
  [{ projectId := "p1", activeKnowledge := [rule "k1" "Storage" "use sqlite" "m1"]
     supportGraph := .ofList [("k1", ["k2", "k3"])] },
   { projectId := "p2", activeKnowledge := [rule "k2" "Tests" "run tests" "m2"]
     supportGraph := .ofList [("k1", ["k2"])] }]

theorem reason_perm_crossed :
    reason .asciiOnly undated crossed [] {} = reason .asciiOnly undated crossed.reverse [] {} :=
  reason_perm .asciiOnly undated crossed.reverse_perm.symm (by decide) [] {}

/-! ## Bundles and their first objects -/

/-- The first active object with a title. Its id stands for the title in the support graph. -/
def representative (u : UnicodeTables) (states : List KnowledgeState) (title : String) :
    Option KnowledgeObject :=
  (EvidenceAggregator.activeObjects states).find? fun k =>
    EvidenceAggregator.normTitle u k = title

/-- The concept of an entry is named after the first object with its title. -/
theorem conceptId_concepts {states : List KnowledgeState} {e : String × ConceptData}
    (he : e ∈ (EvidenceAggregator.concepts u states).entries) :
    ∃ k, representative u states e.1 = some k ∧ e.2.conceptId = k.id := by
  apply EvidenceAggregator.forall_concepts (p := fun title data =>
    ∃ k, representative u states title = some k ∧ data.conceptId = k.id) _ _ e he
  · exact fun title data findings h => h
  · intro e he
    obtain ⟨k, rest, hfilter, hdata⟩ := Grouping.entries_group he
    refine ⟨k, ?_, ?_⟩
    · rw [representative, ← List.head?_filter]
      exact congrArg List.head? hfilter
    · rw [hdata, ConceptData.conceptId_foldl]
      rfl

/-- A bundle with its normalized title. -/
def titleOf (u : UnicodeTables) (b : EvidenceBundle) : String := PythonText.normalized u b.title

theorem conceptId_aggregate {states : List KnowledgeState} {b : EvidenceBundle}
    (hb : b ∈ EvidenceAggregator.aggregate u clock states) :
    ∃ k, representative u states (titleOf u b) = some k ∧ b.conceptId = k.id := by
  obtain ⟨e, he, rfl⟩ := List.mem_map.mp hb
  have hentry := Table.mem_orderBy.mp he
  obtain ⟨k, hk, hid⟩ := conceptId_concepts hentry
  refine ⟨k, ?_, hid⟩
  rw [← hk]
  exact congrArg (representative u states) (EvidenceAggregator.about_concepts hentry).title_eq

/-- Bundles come in the order of their titles. -/
theorem pairwise_aggregate (states : List KnowledgeState) :
    (EvidenceAggregator.aggregate u clock states).Pairwise fun b b' =>
      titleOf u b < titleOf u b' := by
  have htitles : ∀ e ∈ (EvidenceAggregator.concepts u states).entries,
      titleOf u (EvidenceAggregator.bundleOf clock e.2) = e.1 := fun e he =>
    (EvidenceAggregator.about_concepts he).title_eq
  have hle : (EvidenceAggregator.aggregate u clock states).Pairwise fun b b' =>
      titleOf u b ≤ titleOf u b' := by
    apply List.pairwise_map.mpr
    apply (Table.ordered_orderBy Prod.fst _).sorted.imp_of_mem
    intro e e' he he' hle
    rw [htitles e (Table.mem_orderBy.mp he), htitles e' (Table.mem_orderBy.mp he')]
    exact hle
  have hne : (EvidenceAggregator.aggregate u clock states).Pairwise fun b b' =>
      titleOf u b ≠ titleOf u b' :=
    List.pairwise_map.mp (EvidenceAggregator.nodup_titles states)
  exact (hle.and hne).imp fun h => lt_of_le_of_ne h.1 h.2

theorem exists_bundle_of_representative {states : List KnowledgeState} {title : String}
    {k : KnowledgeObject} (hk : representative u states title = some k) :
    ∃ b ∈ EvidenceAggregator.aggregate u clock states, titleOf u b = title ∧
      b.conceptId = k.id := by
  have htitle : EvidenceAggregator.normTitle u k = title := by simpa using List.find?_some hk
  obtain ⟨b, hb, hbtitle⟩ : ∃ b ∈ EvidenceAggregator.aggregate u clock states,
      PythonText.normalized u b.title = EvidenceAggregator.normTitle u k :=
    EvidenceAggregator.exists_bundle (List.mem_of_find?_eq_some hk)
  have hname : titleOf u b = title := hbtitle.trans htitle
  obtain ⟨k', hk', hid⟩ := conceptId_aggregate hb
  rw [hname, hk, Option.some.injEq] at hk'
  exact ⟨b, hb, hname, hk' ▸ hid⟩

/-- The first object of a title, when the later titles start with other ids. -/
structure Speaks (u : UnicodeTables) (states : List KnowledgeState) (title : String)
    (k : KnowledgeObject) : Prop where
  first : representative u states title = some k
  last : ∀ title' k', representative u states title' = some k' → k'.id = k.id → title' ≤ title

/-- `concept_id_to_belief_id`. -/
def conceptBeliefs (u : UnicodeTables) (clock : Clock) (states : List KnowledgeState)
    (config : ReasoningConfig) : OrdDict String String :=
  OrdDict.ofList ((EvidenceAggregator.aggregate u clock states).map fun b =>
    (b.conceptId, (initialBelief u config b).beliefId))

/-- The beliefs of the bundles before propagation. -/
def initialBeliefs (u : UnicodeTables) (clock : Clock) (states : List KnowledgeState)
    (config : ReasoningConfig) : List Belief :=
  (EvidenceAggregator.aggregate u clock states).map (initialBelief u config)

theorem beliefs_eq (states : List KnowledgeState) (config : ReasoningConfig) :
    beliefs u clock states config = propagateBeliefs (initialBeliefs u clock states config)
      (conceptBeliefs u clock states config) (supportGraph states) config := rfl

/-- A concept is known by the last bundle that is named after it. -/
theorem get?_conceptBeliefs_iff {states : List KnowledgeState} {config : ReasoningConfig}
    {c i : String} : (conceptBeliefs u clock states config).get? c = some i ↔
      ∃ b ∈ EvidenceAggregator.aggregate u clock states,
        (initialBelief u config b).beliefId = i ∧
          ∃ k, Speaks u states (titleOf u b) k ∧ k.id = c := by
  have hsorted : (EvidenceAggregator.aggregate u clock states).Pairwise fun b b' =>
    titleOf u b < titleOf u b' := pairwise_aggregate states
  rw [conceptBeliefs, OrdDict.get?_ofList_eq_some_iff]
  constructor
  · rintro ⟨before, e, after, hsplit, hkey, hval, hafter⟩
    obtain ⟨before, rest, hbundles, rfl, hrest⟩ := List.map_eq_append_iff.mp hsplit
    obtain ⟨b, after, rfl, rfl, rfl⟩ := List.map_eq_cons_iff.mp hrest
    have hb : b ∈ EvidenceAggregator.aggregate u clock states := by simp [hbundles]
    obtain ⟨k, hk, hid⟩ := conceptId_aggregate hb
    refine ⟨b, hb, hval, k, ⟨hk, ?_⟩, hid.symm.trans hkey⟩
    intro title' k' hk' hsame
    obtain ⟨b', hb', rfl, hid'⟩ : ∃ b' ∈ EvidenceAggregator.aggregate u clock states,
      titleOf u b' = title' ∧ b'.conceptId = k'.id := exists_bundle_of_representative hk'
    rw [hbundles] at hb' hsorted
    rcases List.mem_append.mp hb' with hin | hin
    · exact ((List.pairwise_append.mp hsorted).2.2 b' hin b List.mem_cons_self).le
    · rcases List.mem_cons.mp hin with rfl | hin
      · exact le_rfl
      · have hother : b'.conceptId ≠ c := hafter _ (List.mem_map_of_mem hin)
        exact absurd (hid'.trans (hsame.trans (hid.symm.trans hkey))) hother
  · rintro ⟨b, hb, hval, k, hspeaks, rfl⟩
    obtain ⟨before, after, hbundles⟩ := List.append_of_mem hb
    obtain ⟨k₀, hk₀, hid⟩ := conceptId_aggregate hb
    rw [hspeaks.first, Option.some.injEq] at hk₀
    subst hk₀
    refine ⟨_, (b.conceptId, (initialBelief u config b).beliefId), _,
      by rw [hbundles, List.map_append, List.map_cons], hid, hval, ?_⟩
    intro e he hkey
    obtain ⟨b', hb', rfl⟩ := List.mem_map.mp he
    have hmem : b' ∈ EvidenceAggregator.aggregate u clock states := by simp [hbundles, hb']
    obtain ⟨k', hk', hid'⟩ := conceptId_aggregate hmem
    have hle := hspeaks.last _ k' hk' (hid'.symm.trans hkey)
    rw [hbundles] at hsorted
    have hlt := (List.pairwise_cons.mp (List.pairwise_append.mp hsorted).2.1).1 b' hb'
    exact absurd (hlt.trans_le hle) (lt_irrefl _)

/-! ## Support between bundles -/

/-- An object with the first title supports an object with the second one. -/
def BundleSupports (u : UnicodeTables) (states : List KnowledgeState) (A B : String) : Prop :=
  A ≠ B ∧ ∃ a ∈ EvidenceAggregator.activeObjects states,
    ∃ b ∈ EvidenceAggregator.activeObjects states, EvidenceAggregator.normTitle u a = A ∧
      EvidenceAggregator.normTitle u b = B ∧ Recorded states a.id b.id

/-- Unless bundles support each other in a cycle, support between objects of different bundles
lowers the supported belief and lists it as a dependent. -/
def SupportSurvives (u : UnicodeTables) (clock : Clock) (states : List KnowledgeState)
    (config : ReasoningConfig) : Prop :=
  Dag.Acyclic (BundleSupports u states) → ∀ A B, BundleSupports u states A B →
    ∀ p ∈ beliefs u clock states config, ∀ q ∈ beliefs u clock states config,
      PythonText.normalized u p.title = A → PythonText.normalized u q.title = B →
        q.finalConfidence ≤
            clamp01 (q.localConfidence + (p.finalConfidence - 1) * config.attenuation) ∧
          q.beliefId ∈ p.dependentBeliefIds

/-- No first object of a title supports itself, and related titles are related by the first
objects that speak for them. -/
def SpokenFor (u : UnicodeTables) (states : List KnowledgeState) (A B : String) : Prop :=
  (∀ title k, representative u states title = some k → ¬Recorded states k.id k.id) ∧
    ∃ a b, Speaks u states A a ∧ Speaks u states B b ∧ Recorded states a.id b.id

/-- No two bundles have one belief id. -/
def DistinctBeliefs (u : UnicodeTables) (clock : Clock) (states : List KnowledgeState)
    (config : ReasoningConfig) : Prop :=
  ((initialBeliefs u clock states config).map Belief.beliefId).Nodup

variable {states : List KnowledgeState} {config : ReasoningConfig}

theorem DistinctBeliefs.eq (h : DistinctBeliefs u clock states config) {b b' : EvidenceBundle}
    (hb : b ∈ EvidenceAggregator.aggregate u clock states)
    (hb' : b' ∈ EvidenceAggregator.aggregate u clock states)
    (hid : (initialBelief u config b).beliefId = (initialBelief u config b').beliefId) :
    b = b' := by
  rw [DistinctBeliefs, initialBeliefs, List.map_map] at h
  exact List.inj_on_of_nodup_map h hb hb' hid

theorem DistinctBeliefs.distinct (h : DistinctBeliefs u clock states config) :
    Distinct (initialBeliefs u clock states config) (conceptBeliefs u clock states config) := by
  refine ⟨h, ?_⟩
  apply List.Nodup.map_on _ (conceptBeliefs u clock states config).nodup.of_map
  intro e he e' he' hval
  have hget := OrdDict.get?_of_mem he
  have hget' := OrdDict.get?_of_mem he'
  obtain ⟨b, hb, hid, k, hk, hkey⟩ := get?_conceptBeliefs_iff.mp hget
  obtain ⟨b', hb', hid', k', hk', hkey'⟩ := get?_conceptBeliefs_iff.mp hget'
  obtain rfl := h.eq hb hb' (hid.trans (hval.trans hid'.symm))
  have hsame := hk.first.symm.trans hk'.first
  rw [Option.some.injEq] at hsame
  exact Prod.ext (hkey.symm.trans ((congrArg KnowledgeObject.id hsame).trans hkey')) hval

theorem fresh_initialBeliefs : ∀ b ∈ initialBeliefs u clock states config, Fresh b := by
  intro b hb
  obtain ⟨bundle, _, rfl⟩ := List.mem_map.mp hb
  refine ⟨rfl, rfl, le_max_left _ _, max_le zero_le_one (min_le_left _ _)⟩

theorem Speaks.title_eq {A B : String} {a b : KnowledgeObject} (ha : Speaks u states A a)
    (hb : Speaks u states B b) (hid : a.id = b.id) : A = B :=
  le_antisymm (hb.last A a ha.first hid) (ha.last B b hb.first hid.symm)

theorem exists_speaks {c : String} (hc : c ∈ (conceptBeliefs u clock states config).keys) :
    ∃ title k, Speaks u states title k ∧ k.id = c := by
  obtain ⟨e, he, rfl⟩ := List.mem_map.mp hc
  obtain ⟨b, _, _, k, hk, hid⟩ := get?_conceptBeliefs_iff.mp (OrdDict.get?_of_mem he)
  exact ⟨titleOf u b, k, hk, hid⟩

/-- A belief is the belief of the bundle of its title. -/
theorem exists_bundle_of_belief {p : Belief} (hp : p ∈ beliefs u clock states config) :
    ∃ b ∈ EvidenceAggregator.aggregate u clock states,
      (initialBelief u config b).beliefId = p.beliefId ∧
        titleOf u b = PythonText.normalized u p.title := by
  obtain ⟨b, hb, heq⟩ : ∃ b ∈ EvidenceAggregator.aggregate u clock states,
      (initialBelief u config b).identity = p.identity := by
    have hmem := List.mem_map_of_mem (f := Belief.identity) hp
    rw [identity_beliefs] at hmem
    exact List.mem_map.mp hmem
  simp only [Belief.identity, Prod.mk.injEq] at heq
  obtain ⟨hid, htitle, _⟩ := heq
  refine ⟨b, hb, hid, ?_⟩
  rw [← htitle]
  rfl

/-- The concept a title speaks for has the belief of its bundle. -/
theorem Speaks.get? {A : String} {a : KnowledgeObject} (ha : Speaks u states A a)
    {p : Belief} (hp : p ∈ beliefs u clock states config)
    (htitle : PythonText.normalized u p.title = A) :
    (conceptBeliefs u clock states config).get? a.id = some p.beliefId := by
  obtain ⟨b, hb, hid, hname⟩ := exists_bundle_of_belief hp
  apply get?_conceptBeliefs_iff.mpr
  exact ⟨b, hb, hid, a, (hname.trans htitle) ▸ ha, rfl⟩

/-- A concept with the belief of a title is the one the title speaks for. -/
theorem DistinctBeliefs.speaks (h : DistinctBeliefs u clock states config) {c : String}
    {p : Belief} (hp : p ∈ beliefs u clock states config)
    (hc : (conceptBeliefs u clock states config).get? c = some p.beliefId) :
    ∃ a, Speaks u states (PythonText.normalized u p.title) a ∧ a.id = c := by
  obtain ⟨b, hb, hid, hname⟩ := exists_bundle_of_belief hp
  obtain ⟨b', hb', hid', a, ha, hac⟩ := get?_conceptBeliefs_iff.mp hc
  obtain rfl := h.eq hb hb' (hid.trans hid'.symm)
  exact ⟨a, hname ▸ ha, hac⟩

/-- The id of the first object of a title is a known concept. -/
theorem mem_keys_conceptBeliefs {title : String} {k : KnowledgeObject}
    (hk : representative u states title = some k) :
    k.id ∈ (conceptBeliefs u clock states config).keys := by
  obtain ⟨b, hb, _, hid⟩ : ∃ b ∈ EvidenceAggregator.aggregate u clock states,
    titleOf u b = title ∧ b.conceptId = k.id := exists_bundle_of_representative hk
  rw [← hid]
  have hentry : (b.conceptId, (initialBelief u config b).beliefId) ∈
      (EvidenceAggregator.aggregate u clock states).map fun b =>
        (b.conceptId, (initialBelief u config b).beliefId) := List.mem_map_of_mem hb
  exact (OrdDict.contains_iff _ _).mp (OrdDict.contains_ofList hentry)

/-- Edges between concepts that do not support themselves are edges between bundles. -/
theorem bundleSupports_of_speaks {A B : String} {a b : KnowledgeObject}
    (hself : ∀ title k, representative u states title = some k → ¬Recorded states k.id k.id)
    (ha : Speaks u states A a) (hb : Speaks u states B b) (hrecorded : Recorded states a.id b.id) :
    BundleSupports u states A B := by
  constructor
  · rintro rfl
    have hsame := ha.first.symm.trans hb.first
    rw [Option.some.injEq] at hsame
    subst hsame
    exact hself A a ha.first hrecorded
  · refine ⟨a, List.mem_of_find?_eq_some ha.first, b, List.mem_of_find?_eq_some hb.first, ?_, ?_,
      hrecorded⟩
    · simpa using List.find?_some ha.first
    · simpa using List.find?_some hb.first

/-- A cycle of concepts is a cycle of bundles. -/
theorem acyclic_supports (h : Dag.Acyclic (BundleSupports u states))
    (hself : ∀ title k, representative u states title = some k → ¬Recorded states k.id k.id) :
    Dag.Acyclic (Supports (conceptBeliefs u clock states config).keys (supportGraph states)) := by
  have hedge : ∀ src tgt, Supports (conceptBeliefs u clock states config).keys
      (supportGraph states) src tgt → ∃ A a B b, Speaks u states A a ∧ a.id = src ∧
        Speaks u states B b ∧ b.id = tgt ∧ BundleSupports u states A B := by
    intro src tgt hsupports
    obtain ⟨hsrc, htgt, hlisted⟩ := supports_iff.mp hsupports
    obtain ⟨A, a, ha, rfl⟩ := exists_speaks hsrc
    obtain ⟨B, b, hb, rfl⟩ := exists_speaks htgt
    exact ⟨A, a, B, b, ha, rfl, hb, rfl,
      bundleSupports_of_speaks hself ha hb (mem_supportGraph.mp hlisted)⟩
  have hpath : ∀ src tgt, Relation.TransGen (Supports
      (conceptBeliefs u clock states config).keys (supportGraph states)) src tgt →
      ∃ A a B b, Speaks u states A a ∧ a.id = src ∧ Speaks u states B b ∧ b.id = tgt ∧
        Relation.TransGen (BundleSupports u states) A B := by
    intro src tgt hpath
    induction hpath with
    | single hsupports =>
        obtain ⟨A, a, B, b, ha, hsrc, hb, htgt, hbundle⟩ := hedge _ _ hsupports
        exact ⟨A, a, B, b, ha, hsrc, hb, htgt, .single hbundle⟩
    | tail _ hsupports ih =>
        obtain ⟨A, a, B, b, ha, hsrc, hb, hmid, hpath⟩ := ih
        obtain ⟨B', b', C, c, hb', hmid', hc, htgt, hbundle⟩ := hedge _ _ hsupports
        obtain rfl := hb.title_eq hb' (hmid.trans hmid'.symm)
        exact ⟨A, a, C, c, ha, hsrc, hc, htgt, hpath.tail hbundle⟩
  intro c hcycle
  obtain ⟨A, a, B, b, ha, hsrc, hb, htgt, hbundles⟩ := hpath c c hcycle
  obtain rfl := ha.title_eq hb (hsrc.trans htgt.symm)
  exact h A hbundles

theorem mem_keys_of_get? {d : OrdDict String String} {c i : String} (h : d.get? c = some i) :
    c ∈ d.keys := by
  by_contra hc
  rw [get?_eq_none_of_not_mem hc] at h
  cases h

/-- Titles that speak for themselves pass their support on. -/
theorem survives_of_spokenFor (hdistinct : DistinctBeliefs u clock states config)
    (h : Dag.Acyclic (BundleSupports u states)) {A B : String} (hspoken : SpokenFor u states A B)
    {p q : Belief} (hp : p ∈ beliefs u clock states config)
    (hq : q ∈ beliefs u clock states config) (hA : PythonText.normalized u p.title = A)
    (hB : PythonText.normalized u q.title = B) :
    q.finalConfidence ≤
        clamp01 (q.localConfidence + (p.finalConfidence - 1) * config.attenuation) ∧
      q.beliefId ∈ p.dependentBeliefIds := by
  obtain ⟨hself, a, b, ha, hb, hrecorded⟩ := hspoken
  have hacyclic : Dag.Acyclic (Supports (conceptBeliefs u clock states config).keys
      (supportGraph states)) := acyclic_supports h hself
  have hpropagated := propagated_propagateBeliefs hdistinct.distinct fresh_initialBeliefs config
    hacyclic
  have hp' : BeliefFor (propagateBeliefs (initialBeliefs u clock states config)
      (conceptBeliefs u clock states config) (supportGraph states) config)
      (conceptBeliefs u clock states config) a.id p := ⟨hp, ha.get? hp hA⟩
  have hq' : BeliefFor (propagateBeliefs (initialBeliefs u clock states config)
      (conceptBeliefs u clock states config) (supportGraph states) config)
      (conceptBeliefs u clock states config) b.id q := ⟨hq, hb.get? hq hB⟩
  have hsupports : Supports (conceptBeliefs u clock states config).keys (supportGraph states)
      a.id b.id := by
    apply supports_iff.mpr
    exact ⟨mem_keys_of_get? hp'.2, mem_keys_of_get? hq'.2, mem_supportGraph.mpr hrecorded⟩
  obtain ⟨p₀, hp₀, _⟩ := hp'.before hpropagated.identity
  obtain ⟨q₀, hq₀, hqid⟩ := hq'.before hpropagated.identity
  constructor
  · obtain ⟨m, hleast, hfinal⟩ := hpropagated.final hq₀ hq'
    have hle : m ≤ (p.finalConfidence - 1) * config.attenuation :=
      hleast.2 (Set.mem_insert_of_mem _ ⟨a.id, p, hsupports, hp', rfl⟩)
    rw [hfinal, hpropagated.localConfidence hq₀ hq']
    apply clamp01_mono
    exact add_le_add_right hle _
  · obtain ⟨added, _, hperm, hadded⟩ := hpropagated.dependents hp₀ hp'
    have hempty : p₀.dependentBeliefIds = [] := by
      obtain ⟨bundle, _, rfl⟩ := List.mem_map.mp hp₀.1
      rfl
    apply hperm.mem_iff.mpr
    rw [hempty, List.nil_append, hadded, hempty]
    exact ⟨List.not_mem_nil, b.id, q₀, hsupports, hq₀, hqid.symm⟩

/-- A belief that is listed as a dependent is spoken for, and so is the one that lists it. -/
theorem spokenFor_of_mem_dependents (hdistinct : DistinctBeliefs u clock states config)
    {A B : String} {p q : Belief} (hp : p ∈ beliefs u clock states config)
    (hq : q ∈ beliefs u clock states config) (hA : PythonText.normalized u p.title = A)
    (hB : PythonText.normalized u q.title = B) (hlisted : q.beliefId ∈ p.dependentBeliefIds) :
    SpokenFor u states A B := by
  have hempty : ∀ r ∈ initialBeliefs u clock states config, r.dependentBeliefIds = [] := by
    intro r hr
    obtain ⟨bundle, _, rfl⟩ := List.mem_map.mp hr
    rfl
  -- without propagation no belief has a dependent
  have hchanged : p ∉ initialBeliefs u clock states config := by
    intro hmem
    rw [hempty p hmem] at hlisted
    cases hlisted
  have hacyclic : Dag.Acyclic (Supports (conceptBeliefs u clock states config).keys
      (supportGraph states)) := by
    by_contra hcycle
    rw [beliefs_eq, propagateBeliefs_of_cycle _ _ _ _ hcycle] at hp
    exact hchanged hp
  have hpropagated := propagated_propagateBeliefs hdistinct.distinct fresh_initialBeliefs config
    hacyclic
  obtain ⟨c, hc⟩ : ∃ c, (conceptBeliefs u clock states config).get? c = some p.beliefId := by
    by_contra hnone
    exact hchanged (mem_of_no_concept _ _ hp (not_exists.mp hnone))
  obtain ⟨a, ha, rfl⟩ := hdistinct.speaks hp hc
  have hp' : BeliefFor (propagateBeliefs (initialBeliefs u clock states config)
      (conceptBeliefs u clock states config) (supportGraph states) config)
      (conceptBeliefs u clock states config) a.id p := ⟨hp, hc⟩
  obtain ⟨p₀, hp₀, _⟩ := hp'.before hpropagated.identity
  obtain ⟨added, _, hperm, hadded⟩ := hpropagated.dependents hp₀ hp'
  have hmem := hperm.mem_iff.mp hlisted
  rw [hempty p₀ hp₀.1, List.nil_append] at hmem
  obtain ⟨_, tgt, t, hsupports, ht, hid⟩ := (hadded q.beliefId).mp hmem
  obtain ⟨b, hb, rfl⟩ := hdistinct.speaks hq (ht.2.trans (congrArg some hid.symm))
  constructor
  · intro title k hk hself
    have hkey : k.id ∈ (conceptBeliefs u clock states config).keys := mem_keys_conceptBeliefs hk
    exact hacyclic k.id (.single (supports_iff.mpr ⟨hkey, hkey, mem_supportGraph.mpr hself⟩))
  · exact ⟨a, b, hA ▸ ha, hB ▸ hb, mem_supportGraph.mp (supports_iff.mp hsupports).2.2⟩

/-- Support between objects survives exactly when, unless bundles support each other in a cycle,
related titles are spoken for by the first objects that relate them. -/
theorem supportSurvives_iff (u : UnicodeTables) (clock : Clock) {states : List KnowledgeState}
    {config : ReasoningConfig} (hdistinct : DistinctBeliefs u clock states config) :
    SupportSurvives u clock states config ↔ (Dag.Acyclic (BundleSupports u states) →
      ∀ A B, BundleSupports u states A B → SpokenFor u states A B) := by
  constructor
  · intro h hacyclic A B hsupports
    have hrelated := hsupports
    obtain ⟨_, a, ha, b, hb, rfl, rfl, _⟩ := hrelated
    obtain ⟨p, hp, hpA⟩ : ∃ p ∈ beliefs u clock states config,
      PythonText.normalized u p.title = EvidenceAggregator.normTitle u a := exists_belief ha
    obtain ⟨q, hq, hqB⟩ : ∃ q ∈ beliefs u clock states config,
      PythonText.normalized u q.title = EvidenceAggregator.normTitle u b := exists_belief hb
    have hlisted := (h hacyclic _ _ hsupports p hp q hq hpA hqB).2
    exact spokenFor_of_mem_dependents hdistinct hp hq hpA hqB hlisted
  · intro h hacyclic A B hsupports p hp q hq hA hB
    exact survives_of_spokenFor hdistinct hacyclic (h hacyclic A B hsupports) hp hq hA hB

theorem supportSurvives_iff_crossed : SupportSurvives .asciiOnly undated crossed {} ↔
    (Dag.Acyclic (BundleSupports .asciiOnly crossed) →
      ∀ A B, BundleSupports .asciiOnly crossed A B → SpokenFor .asciiOnly crossed A B) := by
  have hdistinct : DistinctBeliefs .asciiOnly undated crossed {} := by
    unfold DistinctBeliefs
    decide +kernel
  exact supportSurvives_iff .asciiOnly undated hdistinct

/-- Two projects hold one title, and the object of the second one supports another title. -/
def shared : List KnowledgeState :=
  [{ projectId := "p1", activeKnowledge := [rule "k1" "Storage" "use sqlite" "m1"] },
   { projectId := "p2"
     activeKnowledge := [rule "k9" "Storage" "use sqlite" "m9", rule "k2" "Tests" "run" "m2"]
     supportGraph := .ofList [("k9", ["k2"])] }]

theorem recorded_shared {src tgt : String} (h : Recorded shared src tgt) :
    src = "k9" ∧ tgt = "k2" := by
  obtain ⟨state, hstate, htgt⟩ := h
  simp only [shared, List.mem_cons, List.not_mem_nil, or_false] at hstate
  rcases hstate with rfl | rfl
  · cases htgt
  · rw [OrdDict.ofList, List.foldl_cons, List.foldl_nil, OrdDict.get?_set] at htgt
    split at htgt
    · rename_i hsrc
      exact ⟨hsrc.symm, by simpa using htgt⟩
    · cases htgt

theorem acyclic_shared : Dag.Acyclic (BundleSupports .asciiOnly shared) := by
  apply Dag.acyclic_of_rank fun title => if title = "storage" then 0 else 1
  rintro A B ⟨_, a, ha, b, hb, rfl, rfl, hrecorded⟩
  obtain ⟨hsrc, htgt⟩ := recorded_shared hrecorded
  have hobjects : EvidenceAggregator.activeObjects shared =
      [rule "k1" "Storage" "use sqlite" "m1", rule "k9" "Storage" "use sqlite" "m9",
        rule "k2" "Tests" "run" "m2"] := rfl
  rw [hobjects] at ha hb
  simp only [List.mem_cons, List.not_mem_nil, or_false] at ha hb
  have hstorage : EvidenceAggregator.normTitle .asciiOnly
      (rule "k9" "Storage" "use sqlite" "m9") = "storage" := by decide +kernel
  have htests : EvidenceAggregator.normTitle .asciiOnly (rule "k2" "Tests" "run" "m2") =
      "tests" := by decide +kernel
  rcases ha with rfl | rfl | rfl
  · simp [rule] at hsrc
  · rcases hb with rfl | rfl | rfl
    · simp [rule] at htgt
    · simp [rule] at htgt
    · rw [hstorage, htests]
      decide
  · simp [rule] at hsrc

/-- The second object of the shared title supports in vain. -/
theorem not_supportSurvives_shared : ¬SupportSurvives .asciiOnly undated shared {} := by
  intro h
  have hsource : rule "k9" "Storage" "use sqlite" "m9" ∈
      EvidenceAggregator.activeObjects shared := by
    exact EvidenceAggregator.mem_activeObjects.mpr ⟨_, List.mem_cons_of_mem _
      List.mem_cons_self, List.mem_cons_self⟩
  have htarget : rule "k2" "Tests" "run" "m2" ∈ EvidenceAggregator.activeObjects shared := by
    exact EvidenceAggregator.mem_activeObjects.mpr ⟨_, List.mem_cons_of_mem _
      List.mem_cons_self, List.mem_cons_of_mem _ List.mem_cons_self⟩
  have hsupports : BundleSupports .asciiOnly shared
      (EvidenceAggregator.normTitle .asciiOnly (rule "k9" "Storage" "use sqlite" "m9"))
      (EvidenceAggregator.normTitle .asciiOnly (rule "k2" "Tests" "run" "m2")) := by
    refine ⟨by decide +kernel, _, hsource, _, htarget, rfl, rfl, ?_⟩
    exact ⟨_, List.mem_cons_of_mem _ List.mem_cons_self, List.mem_singleton_self _⟩
  obtain ⟨p, hp, hA⟩ := @exists_belief _ undated _ {} _ hsource
  obtain ⟨q, hq, hB⟩ := @exists_belief _ undated _ {} _ htarget
  have hlisted := (h acyclic_shared _ _ hsupports p hp q hq hA hB).2
  have hnone : (beliefs .asciiOnly undated shared {}).all
      (fun p => p.dependentBeliefIds.isEmpty) = true := by decide +kernel
  rw [List.isEmpty_iff.mp (List.all_eq_true.mp hnone p hp)] at hlisted
  cases hlisted

end ReasoningEngine

end RationaleVault
