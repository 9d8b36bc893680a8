import Mathlib.Algebra.BigOperators.Ring.List
import Mathlib.Algebra.Order.BigOperators.Group.List
import Mathlib.Algebra.Order.Field.Rat
import RationaleVault.Library.OrdDict
import RationaleVault.Memory.Retrieval

/-!
# The retrieval orchestrator

The words of a query choose intents, the intents ask for projections, and every
projection gets a weight. A projection that is asked for but not available stays in
the selection as `False`, and the weights are given to everything that stands there.
Weights are rational.
-/

namespace RationaleVault

inductive RetrievalIntent
  | continuation
  | knowledgeQuery
  | impactAnalysis
  | crossProject
  | organizational
  | general
  deriving DecidableEq

namespace RetrievalIntent

def value : RetrievalIntent → String
  | continuation => "continuation"
  | knowledgeQuery => "knowledge_query"
  | impactAnalysis => "impact_analysis"
  | crossProject => "cross_project"
  | organizational => "organizational"
  | general => "general"

/-- `INTENT_PROJECTION_MAP`. -/
def projections : RetrievalIntent → Finset String
  | continuation => {"continuation", "knowledge", "graph", "cross_project", "organization",
      "organization_graph"}
  | knowledgeQuery => {"knowledge", "graph"}
  | impactAnalysis => {"knowledge", "graph", "cross_project", "organization",
      "organization_graph"}
  | crossProject => {"cross_project", "organization"}
  | organizational => {"organization", "organization_graph"}
  | general => {"knowledge"}

/-- `INTENT_WEIGHT_MAP`. -/
def weights : RetrievalIntent → OrdDict String ℚ
  | continuation => .ofList [("continuation", 30 / 100), ("knowledge", 20 / 100),
      ("graph", 20 / 100), ("cross_project", 10 / 100), ("organization", 10 / 100),
      ("organization_graph", 10 / 100)]
  | knowledgeQuery => .ofList [("continuation", 10 / 100), ("knowledge", 50 / 100),
      ("graph", 30 / 100), ("cross_project", 5 / 100), ("organization", 5 / 100),
      ("organization_graph", 0)]
  | impactAnalysis => .ofList [("continuation", 0), ("knowledge", 25 / 100), ("graph", 30 / 100),
      ("cross_project", 10 / 100), ("organization", 10 / 100), ("organization_graph", 25 / 100)]
  | crossProject => .ofList [("continuation", 0), ("knowledge", 20 / 100), ("graph", 10 / 100),
      ("cross_project", 40 / 100), ("organization", 25 / 100), ("organization_graph", 5 / 100)]
  | organizational => .ofList [("continuation", 0), ("knowledge", 10 / 100), ("graph", 5 / 100),
      ("cross_project", 20 / 100), ("organization", 30 / 100), ("organization_graph", 35 / 100)]
  | general => .ofList [("continuation", 0), ("knowledge", 1), ("graph", 0), ("cross_project", 0),
      ("organization", 0), ("organization_graph", 0)]

/-- `INTENT_KEYWORDS`. -/
def keywords : RetrievalIntent → List String
  | continuation => ["continue", "resume", "where", "left", "off", "last", "session", "sprint",
      "working", "doing", "status", "progress", "active", "blocked", "stalled", "changed",
      "recent", "priority", "urgent", "attention", "next", "action", "inactive"]
  | impactAnalysis => ["impact", "break", "change", "affect", "depend", "cascade", "consequence",
      "ripple", "blast", "radius", "producer", "consumer", "downstream", "upstream"]
  | crossProject => ["transfer", "shared", "across", "other", "projects", "reusable", "mobile",
      "portable"]
  | organizational => ["org", "organization", "flow", "lineage", "adoption", "cluster",
      "enterprise", "company", "project", "producer", "consumer", "hotspot", "graph", "blast",
      "radius", "centrality"]
  | knowledgeQuery => ["knowledge", "principle", "invariant", "synthesized", "decision",
      "architecture", "lesson", "pattern"]
  | general => []

/-- The intents in the order of `INTENT_KEYWORDS`. -/
def listed : List RetrievalIntent :=
  [continuation, impactAnalysis, crossProject, organizational, knowledgeQuery, general]

/-- `_INTENT_PROFILE_MAP`. -/
def profile : RetrievalIntent → RetrievalProfile
  | continuation => .workflowRetrieval
  | knowledgeQuery => .knowledgeReview
  | impactAnalysis => .failureAnalysis
  | crossProject => .projectOverview
  | organizational => .architectureReview
  | general => .generalSearch

end RetrievalIntent

/-- `_PROFILE_REFINEMENT_KEYWORDS`. -/
def profileRefinementKeywords : List (RetrievalProfile × List String) :=
  [(.decisionLookup, ["decision", "decide", "accepted", "choose", "chose", "select"]),
    (.lessonDiscovery, ["lesson", "learned", "reflect", "reflection"]),
    (.architectureReview, ["architecture", "goal", "design", "principle", "principles"]),
    (.failureAnalysis, ["fail", "failure", "error", "lost", "loss", "drift"]),
    (.contextConstruction, ["context", "construct", "blend", "unified", "combined"])]

/-- The sum of the values of a dictionary. -/
def weightSum (weights : OrdDict String ℚ) : ℚ := weights.values.sum

structure RetrievalPlan where
  primaryIntent : RetrievalIntent
  matchedIntents : List RetrievalIntent
  profile : RetrievalProfile
  projections : OrdDict String Bool
  contextWeights : OrdDict String ℚ
  requestedProjections : OrdDict String Bool
  confidence : ℚ
  reasons : List String

/-- The weights that `RetrievalPlan.__post_init__` leaves. -/
def RetrievalPlan.postInit (contextWeights : OrdDict String ℚ) : OrdDict String ℚ :=
  let total := weightSum contextWeights
  if contextWeights.keys ≠ [] ∧ 2 / 100 < |total - 1| ∧ 0 < total then
    contextWeights.mapVals fun v => v / total
  else contextWeights

namespace RetrievalOrchestrator

variable (u : UnicodeTables) (order : SetOrder String)

/-- `set(query.lower().split())`. -/
def queryWords (query : String) : Finset String :=
  ((PythonText.split (u.lower query).toList).map String.ofList).toFinset

/-- A word of the query is a keyword. -/
def meets (query : String) (keywords : List String) : Bool :=
  decide (∃ word ∈ queryWords u query, word ∈ keywords)

/-- The intents that `_classify_intents(query)` matches. -/
def matchedIntents (query : String) : List RetrievalIntent :=
  let matched := RetrievalIntent.listed.filter fun intent => meets u query intent.keywords
  if matched = [] then [.general] else matched

/-- The primary one of `_classify_intents(query)`. -/
def primaryIntent (matched : List RetrievalIntent) : RetrievalIntent :=
  ([.continuation, .impactAnalysis, .crossProject, .organizational, .knowledgeQuery,
    .general].find? fun intent => intent ∈ matched).getD .general

/-- `_derive_profile(query, primary, matched)`. -/
def deriveProfile (query : String) (primary : RetrievalIntent) : RetrievalProfile :=
  ((profileRefinementKeywords.find? fun e => meets u query e.2 && e.1 ≠ .generalSearch).map
    Prod.fst).getD primary.profile

/-- What `_select_projections(matched_intents, available)` requests. -/
def requested (matched : List RetrievalIntent) : OrdDict String Bool :=
  .ofList ((matched.flatMap fun intent => order.listed intent.projections).map
    fun proj => (proj, true))

/-- What it selects: all that is requested, as `False` when it is not available. -/
def selected (requested available : OrdDict String Bool) : OrdDict String Bool :=
  .ofList (requested.entries.map fun e => (e.1, e.2 && (available.get? e.1).getD false))

/-- The part of the weights whose keys stand in the selection. -/
def filterSelected (selected : OrdDict String Bool) (weights : OrdDict String ℚ) :
    OrdDict String ℚ :=
  .ofList (weights.entries.filter fun e => selected.contains e.1)

/-- The mean of the weights of a projection. -/
def meanWeight (matched : List RetrievalIntent) (proj : String) : ℚ :=
  (matched.map fun intent => (intent.weights.get? proj).getD 0).sum / matched.length

/-- `summed`. -/
def summed (matched : List RetrievalIntent) : OrdDict String ℚ :=
  .ofList ((order.listed (matched.flatMap fun intent => intent.weights.keys).toFinset).map
    fun proj => (proj, meanWeight matched proj))

/-- `_compute_weights(matched_intents, selected)`. -/
def computeWeights (matched : List RetrievalIntent) (selected : OrdDict String Bool) :
    OrdDict String ℚ :=
  match matched with
  | [intent] => filterSelected selected intent.weights
  | _ =>
      let weights := filterSelected selected (summed order matched)
      let total := weightSum weights
      if 0 < total then weights.mapVals fun v => v / total else weights

/-- `_compute_confidence(matched_intents, query)`. -/
def computeConfidence (matched : List RetrievalIntent) (query : String) : ℚ :=
  if matched = [.general] then 1 / 2
  else
    let words := queryWords u query
    let matchedCount := (matched.map fun intent =>
      (words.filter fun word => word ∈ intent.keywords).card).sum
    let totalCount := (matched.map fun intent => intent.keywords.length).sum
    if totalCount = 0 then 1 / 2
    else
      let ratio : ℚ := (matchedCount : ℚ) / min words.card totalCount
      if 1 / 2 ≤ ratio then 9 / 10 else if 1 / 5 ≤ ratio then 7 / 10 else 1 / 2

/-- `_build_reasons(matched_intents, requested, selected, available)`. -/
def buildReasons (matched : List RetrievalIntent)
    (requested selected available : OrdDict String Bool) : List String :=
  let selectedCount := selected.values.count true
  let requestedCount := requested.values.count true
  (matched.map fun intent => intent.value ++ "_keywords_detected") ++
    ((requested.entries.filter fun e => e.2 && !(available.get? e.1).getD false).map
      fun e => e.1 ++ "_requested_but_unavailable") ++
    if selectedCount < requestedCount then
      ["availability_filtered_" ++ toString selectedCount ++ "_of_" ++ toString requestedCount]
    else []

/-- What is available unless the caller says otherwise. -/
def defaultAvailable : OrdDict String Bool :=
  .ofList (["continuation", "knowledge", "graph", "cross_project", "organization",
    "organization_graph"].map fun proj => (proj, true))

/-- `build_plan(query, project_id, available_projections)`. The project is not read. -/
def buildPlan (query : String) (availableProjections : Option (OrdDict String Bool)) :
    RetrievalPlan :=
  let available := availableProjections.getD defaultAvailable
  let matched := matchedIntents u query
  let primary := primaryIntent matched
  let requested := requested order matched
  let selected := selected requested available
  { primaryIntent := primary
    matchedIntents := matched
    profile := deriveProfile u query primary
    projections := selected
    contextWeights := RetrievalPlan.postInit (computeWeights order matched selected)
    requestedProjections := requested
    confidence := computeConfidence u matched query
    reasons := buildReasons matched requested selected available }

/-! ## The tables -/

/-- Everything that an intent asks for has a positive weight, and no weight is negative. -/
theorem weights_table (intent : RetrievalIntent) :
    (∀ proj ∈ intent.projections, ∃ v, intent.weights.get? proj = some v ∧ 0 < v) ∧
      (∀ v ∈ intent.weights.values, 0 ≤ v) ∧ intent.projections.Nonempty := by
  cases intent <;> decide +kernel

/-- What the projections of one intent weigh together is one or far from it. -/
theorem weights_sum_table (intent : RetrievalIntent) :
    ((intent.weights.entries.filter fun e => e.1 ∈ intent.projections).map Prod.snd).sum = 1 ∨
      2 / 100 < |((intent.weights.entries.filter fun e => e.1 ∈ intent.projections).map
        Prod.snd).sum - 1| := by
  cases intent <;> decide +kernel

/-! ## Selection -/

variable {u : UnicodeTables} {order : SetOrder String} {matched : List RetrievalIntent}

theorem matchedIntents_ne_nil (query : String) : matchedIntents u query ≠ [] := by
  simp only [matchedIntents]
  split_ifs with hnone
  · exact List.cons_ne_nil _ _
  · exact hnone

/-- A dictionary that is made of a list of keys. -/
theorem get?_ofList_map {ν : Type} (f : String → ν) (keys : List String) (k : String) :
    (OrdDict.ofList (keys.map fun key => (key, f key)) : OrdDict String ν).get? k =
      if k ∈ keys then some (f k) else none := by
  induction keys using List.reverseRecOn with
  | nil => rfl
  | append_singleton keys key ih =>
      rw [List.map_append, List.map_singleton, OrdDict.ofList_concat, OrdDict.get?_set, ih]
      simp only [DictKey.norm_string, List.mem_append, List.mem_singleton]
      by_cases hk : key = k
      · rw [if_pos hk, if_pos (Or.inr hk.symm), hk]
      · have hne : ¬k = key := fun h => hk h.symm
        simp only [if_neg hk, hne, or_false]

theorem mem_listed {s : Finset String} {k : String} : k ∈ order.listed s ↔ k ∈ s := by
  rw [← List.mem_toFinset, order.toFinset_listed]

/-- A projection that an intent asks for. -/
def Asked (matched : List RetrievalIntent) (proj : String) : Prop :=
  ∃ intent ∈ matched, proj ∈ intent.projections

instance (matched : List RetrievalIntent) (proj : String) : Decidable (Asked matched proj) :=
  inferInstanceAs (Decidable (∃ intent ∈ matched, proj ∈ intent.projections))

theorem get?_requested (k : String) : (requested order matched).get? k =
    if Asked matched k then some true else none := by
  have hmem : k ∈ (matched.flatMap fun intent => order.listed intent.projections) ↔
      Asked matched k := by
    simp only [List.mem_flatMap, mem_listed, Asked]
  rw [requested, get?_ofList_map fun _ => true]
  simp only [hmem]

theorem get?_selected (available : OrdDict String Bool) (k : String) :
    (selected (requested order matched) available).get? k =
      if Asked matched k then some ((available.get? k).getD false) else none := by
  have hkeys : selected (requested order matched) available =
      .ofList ((requested order matched).keys.map fun key =>
        (key, (available.get? key).getD false)) := by
    rw [selected, OrdDict.keys, List.map_map]
    congr 1
    apply List.map_congr_left
    intro e he
    have hget := OrdDict.get?_of_mem he
    rw [get?_requested] at hget
    split_ifs at hget with hasked
    rw [Function.comp_apply, ← Option.some.inj hget, Bool.true_and]
  have hmem : k ∈ (requested order matched).keys ↔ Asked matched k := by
    have hcontains := OrdDict.contains_iff (requested order matched) k
    rw [OrdDict.contains, get?_requested] at hcontains
    refine Iff.trans hcontains.symm ?_
    split_ifs with hasked <;> simp [hasked]
  rw [hkeys, get?_ofList_map fun key => (available.get? key).getD false]
  simp only [hmem]

theorem contains_selected (available : OrdDict String Bool) (k : String) :
    (selected (requested order matched) available).contains k = true ↔ Asked matched k := by
  rw [OrdDict.contains, get?_selected]
  split_ifs with hasked <;> simp [hasked]

/-! ## Weights -/

/-- Weights of some projections that can be normalised. -/
structure Weighs (keys : String → Prop) (weights : OrdDict String ℚ) : Prop where
  mem_keys : ∀ k, k ∈ weights.keys ↔ keys k
  nonneg : ∀ v ∈ weights.values, 0 ≤ v
  positive : 0 < weightSum weights

theorem weightSum_mapVals (weights : OrdDict String ℚ) (total : ℚ) :
    weightSum (weights.mapVals fun v => v / total) = weightSum weights / total := by
  have hsum := List.sum_map_mul_right weights.values id total⁻¹
  rw [List.map_id] at hsum
  rw [weightSum, weightSum, OrdDict.values_mapVals, div_eq_mul_inv, ← hsum]
  simp only [div_eq_mul_inv, id]

theorem Weighs.normalize {keys : String → Prop} {weights : OrdDict String ℚ}
    (h : Weighs keys weights) :
    Weighs keys (weights.mapVals fun v => v / weightSum weights) ∧
      weightSum (weights.mapVals fun v => v / weightSum weights) = 1 := by
  have hsum : weightSum (weights.mapVals fun v => v / weightSum weights) = 1 := by
    rw [weightSum_mapVals, div_self h.positive.ne']
  refine ⟨⟨fun k => ?_, fun v hv => ?_, ?_⟩, hsum⟩
  · rw [OrdDict.keys_mapVals]
    exact h.mem_keys k
  · rw [OrdDict.values_mapVals] at hv
    obtain ⟨v', hv', rfl⟩ := List.mem_map.mp hv
    exact div_nonneg (h.nonneg v' hv') h.positive.le
  · rw [hsum]
    exact zero_lt_one

/-- Weights that do not sum to one are normalised when the plan is made. -/
theorem Weighs.postInit {keys : String → Prop} {weights : OrdDict String ℚ}
    (h : Weighs keys weights)
    (hsum : weightSum weights = 1 ∨ 2 / 100 < |weightSum weights - 1|) :
    Weighs keys (RetrievalPlan.postInit weights) ∧
      weightSum (RetrievalPlan.postInit weights) = 1 := by
  have hkeys : weights.keys ≠ [] := by
    intro hnil
    have hpositive := h.positive
    rw [weightSum, OrdDict.values, List.map_eq_nil_iff.mp hnil] at hpositive
    exact lt_irrefl 0 hpositive
  simp only [RetrievalPlan.postInit]
  split_ifs with hfar
  · exact h.normalize
  · refine ⟨h, hsum.resolve_right fun hlt => hfar ⟨hkeys, hlt, h.positive⟩⟩

theorem entries_filterSelected (selected : OrdDict String Bool) (weights : OrdDict String ℚ) :
    (filterSelected selected weights).entries =
      weights.entries.filter fun e => selected.contains e.1 := by
  rw [filterSelected, OrdDict.entries_ofList]
  exact weights.nodup.sublist (List.filter_sublist.map _)

/-- Weights of all that was asked for, and perhaps of more, keep what was asked for. -/
theorem weighs_filterSelected (available : OrdDict String Bool) {weights : OrdDict String ℚ}
    (hmatched : matched ≠ [])
    (hasked : ∀ k, Asked matched k → ∃ v, weights.get? k = some v ∧ 0 < v)
    (hnonneg : ∀ v ∈ weights.values, 0 ≤ v) :
    Weighs (Asked matched)
      (filterSelected (selected (requested order matched) available) weights) := by
  have hentries := entries_filterSelected (selected (requested order matched) available) weights
  have hmem : ∀ e : String × ℚ, e ∈
      (filterSelected (selected (requested order matched) available) weights).entries ↔
        e ∈ weights.entries ∧ Asked matched e.1 := by
    intro e
    rw [hentries, List.mem_filter, contains_selected]
  have hvalues : ∀ v ∈
      (filterSelected (selected (requested order matched) available) weights).values, 0 ≤ v := by
    intro v hv
    obtain ⟨e, he, rfl⟩ := List.mem_map.mp hv
    exact hnonneg e.2 (List.mem_map_of_mem ((hmem e).mp he).1)
  refine ⟨fun k => ?_, hvalues, ?_⟩
  · constructor
    · intro hk
      obtain ⟨e, he, rfl⟩ := List.mem_map.mp hk
      exact ((hmem e).mp he).2
    · intro hk
      obtain ⟨v, hv, -⟩ := hasked k hk
      obtain ⟨e, he, rfl, rfl⟩ := (weights.get?_eq_some_iff k v).mp hv
      exact List.mem_map_of_mem ((hmem e).mpr ⟨he, hk⟩)
  · obtain ⟨intent, hintent⟩ := List.exists_mem_of_ne_nil matched hmatched
    obtain ⟨k, hk⟩ := (weights_table intent).2.2
    obtain ⟨v, hv, hpos⟩ := hasked k ⟨intent, hintent, hk⟩
    obtain ⟨e, he, rfl, rfl⟩ := (weights.get?_eq_some_iff k v).mp hv
    have hin := (hmem e).mpr ⟨he, intent, hintent, hk⟩
    exact hpos.trans_le (List.single_le_sum hvalues e.2 (List.mem_map_of_mem hin))

theorem get?_weights_of_nonneg (intent : RetrievalIntent) (k : String) :
    0 ≤ (intent.weights.get? k).getD 0 := by
  cases hget : intent.weights.get? k with
  | none => exact le_rfl
  | some v => exact (weights_table intent).2.1 v (OrdDict.mem_values_iff.mpr ⟨k, hget⟩)

/-- The means of the intents. -/
theorem summed_spec (k : String) : (∀ v ∈ (summed order matched).values, 0 ≤ v) ∧
    (Asked matched k → ∃ v, (summed order matched).get? k = some v ∧ 0 < v) := by
  have hmeans : ∀ proj, 0 ≤ meanWeight matched proj := by
    intro proj
    refine div_nonneg (List.sum_nonneg fun v hv => ?_) (Nat.cast_nonneg _)
    obtain ⟨intent, -, rfl⟩ := List.mem_map.mp hv
    exact get?_weights_of_nonneg intent proj
  constructor
  · intro v hv
    obtain ⟨proj, hproj⟩ := OrdDict.mem_values_iff.mp hv
    rw [summed, get?_ofList_map (meanWeight matched)] at hproj
    split_ifs at hproj
    exact Option.some.inj hproj ▸ hmeans proj
  · rintro ⟨intent, hintent, hk⟩
    obtain ⟨v, hv, hpos⟩ := (weights_table intent).1 k hk
    have hkey : k ∈ intent.weights.keys :=
      (OrdDict.contains_iff intent.weights k).mp (by rw [OrdDict.contains, hv]; rfl)
    refine ⟨meanWeight matched k, ?_, ?_⟩
    · rw [summed, get?_ofList_map (meanWeight matched), if_pos]
      rw [mem_listed, List.mem_toFinset, List.mem_flatMap]
      exact ⟨intent, hintent, hkey⟩
    · apply div_pos
      · have hle : v ≤ (matched.map fun intent => (intent.weights.get? k).getD 0).sum := by
          apply List.single_le_sum
          · intro w hw
            obtain ⟨intent', -, rfl⟩ := List.mem_map.mp hw
            exact get?_weights_of_nonneg intent' k
          · exact List.mem_map.mpr ⟨intent, hintent, by rw [hv, Option.getD_some]⟩
        exact hpos.trans_le hle
      · exact Nat.cast_pos.mpr (List.length_pos_of_mem hintent)

variable (order) in
/-- The weights of the intents before the plan is made. -/
theorem weighs_computeWeights (available : OrdDict String Bool) (hmatched : matched ≠ []) :
    Weighs (Asked matched)
        (computeWeights order matched (selected (requested order matched) available)) ∧
      (weightSum (computeWeights order matched (selected (requested order matched) available)) = 1 ∨
        2 / 100 < |weightSum (computeWeights order matched
          (selected (requested order matched) available)) - 1|) := by
  rcases matched with _ | ⟨intent, _ | ⟨intent', rest⟩⟩
  · exact absurd rfl hmatched
  · -- one intent: its own weights, of which the table says what they sum to
    have hasked : ∀ k, Asked [intent] k ↔ k ∈ intent.projections := by
      intro k
      simp [Asked]
    have hweighs : Weighs (Asked [intent])
        (filterSelected (selected (requested order [intent]) available) intent.weights) :=
      weighs_filterSelected available hmatched
        (fun k hk => (weights_table intent).1 k ((hasked k).mp hk)) (weights_table intent).2.1
    have hsum : weightSum (filterSelected (selected (requested order [intent]) available)
        intent.weights) =
          ((intent.weights.entries.filter fun e => e.1 ∈ intent.projections).map Prod.snd).sum := by
      rw [weightSum, OrdDict.values, entries_filterSelected]
      congr 2
      apply List.filter_congr
      intro e _
      rw [Bool.eq_iff_iff, contains_selected, hasked, decide_eq_true_iff]
    rw [computeWeights, hsum]
    exact ⟨hweighs, weights_sum_table intent⟩
  · -- several intents: their means, which are normalised here
    have hweighs : Weighs (Asked (intent :: intent' :: rest))
        (filterSelected (selected (requested order (intent :: intent' :: rest)) available)
          (summed order (intent :: intent' :: rest))) :=
      weighs_filterSelected available hmatched (fun k => (summed_spec k).2) (summed_spec "").1
    have hnormalize := hweighs.normalize
    simp only [computeWeights]
    rw [if_pos hweighs.positive]
    exact ⟨hnormalize.1, Or.inl hnormalize.2⟩

variable (u order) in
/-- The weights of a plan go to everything that was asked for and sum to one. -/
theorem weighs_buildPlan (query : String) (available : Option (OrdDict String Bool)) :
    Weighs (Asked (matchedIntents u query)) (buildPlan u order query available).contextWeights ∧
      weightSum (buildPlan u order query available).contextWeights = 1 := by
  obtain ⟨hweighs, hsum⟩ := weighs_computeWeights order (available.getD defaultAvailable)
    (matchedIntents_ne_nil query)
  simp only [buildPlan]
  exact hweighs.postInit hsum

/-! ## Usable weights -/

/-- The query asks for the projection. -/
def Wants (u : UnicodeTables) (query proj : String) : Prop :=
  ∃ intent : RetrievalIntent, proj ∈ intent.projections ∧
    (meets u query intent.keywords = true ∨
      intent = .general ∧ ∀ other : RetrievalIntent, meets u query other.keywords = false)

/-- Weights go to selected projections only, and where one of these has a base weight they are
normalised. -/
structure Usable (plan : RetrievalPlan) : Prop where
  assigned : ∀ k ∈ plan.contextWeights.keys, plan.projections.get? k = some true
  normalised : (∃ k, plan.projections.get? k = some true ∧
      ∃ intent ∈ plan.matchedIntents, ∃ v, intent.weights.get? k = some v ∧ 0 < v) →
    (∀ v ∈ plan.contextWeights.values, 0 ≤ v) ∧ weightSum plan.contextWeights = 1

theorem asked_iff_wants (query proj : String) :
    Asked (matchedIntents u query) proj ↔ Wants u query proj := by
  have hlisted : ∀ intent : RetrievalIntent, intent ∈ RetrievalIntent.listed := by
    intro intent
    cases intent <;> decide
  have hgeneral : meets u query RetrievalIntent.general.keywords = false := by
    simp [meets, RetrievalIntent.keywords]
  simp only [matchedIntents, Asked, Wants]
  split_ifs with hnone
  · have hmeets : ∀ intent : RetrievalIntent, meets u query intent.keywords = false := by
      intro intent
      simpa using List.filter_eq_nil_iff.mp hnone intent (hlisted intent)
    simp [hmeets, and_comm]
  · obtain ⟨found, hfound⟩ := List.exists_mem_of_ne_nil _ hnone
    have hmeets := (List.mem_filter.mp hfound).2
    constructor
    · rintro ⟨intent, hintent, hproj⟩
      exact ⟨intent, hproj, Or.inl (List.mem_filter.mp hintent).2⟩
    · rintro ⟨intent, hproj, hintent | ⟨-, hall⟩⟩
      · exact ⟨intent, List.mem_filter.mpr ⟨hlisted intent, hintent⟩, hproj⟩
      · rw [hall found] at hmeets
        cases hmeets

/-- What is asked for stands in the plan as it is available. -/
theorem get?_projections {query proj : String} {available : Option (OrdDict String Bool)}
    (hasked : Asked (matchedIntents u query) proj) :
    (buildPlan u order query available).projections.get? proj =
      some (((available.getD defaultAvailable).get? proj).getD false) := by
  simp only [buildPlan]
  rw [get?_selected, if_pos hasked]

/-- Every projection that is asked for gets a weight, so the weights are usable exactly when all
that the query asks for is available. -/
theorem weights_usable_iff (u : UnicodeTables) (order : SetOrder String) (query : String)
    (available : Option (OrdDict String Bool)) : Usable (buildPlan u order query available) ↔
      ∀ proj, Wants u query proj →
        (available.getD defaultAvailable).get? proj = some true := by
  obtain ⟨hweighs, hsum⟩ := weighs_buildPlan u order query available
  constructor
  · intro h proj hwants
    have hasked := (asked_iff_wants query proj).mpr hwants
    have htrue := h.assigned proj ((hweighs.mem_keys proj).mpr hasked)
    rw [get?_projections hasked, Option.some.injEq] at htrue
    cases hget : (available.getD defaultAvailable).get? proj with
    | none =>
        rw [hget] at htrue
        cases htrue
    | some v =>
        rw [hget] at htrue
        rw [← htrue]
        rfl
  · intro h
    refine ⟨fun k hk => ?_, fun _ => ⟨hweighs.nonneg, hsum⟩⟩
    have hasked := (hweighs.mem_keys k).mp hk
    rw [get?_projections hasked, h k ((asked_iff_wants query k).mp hasked)]
    rfl

/-- Sets in some order. -/
noncomputable def someOrder : SetOrder String := ⟨Finset.toList, Finset.toList_toFinset⟩

/-- The graph is not available and gets a weight. -/
theorem not_usable_graph : ¬Usable
    (buildPlan .asciiOnly someOrder "knowledge" (some (.ofList [("knowledge", true)]))) := by
  intro h
  have hasked : Asked (matchedIntents .asciiOnly "knowledge") "graph" := by
    decide +kernel
  have hweighs := (weighs_buildPlan .asciiOnly someOrder "knowledge"
    (some (.ofList [("knowledge", true)]))).1
  have htrue := h.assigned "graph" ((hweighs.mem_keys "graph").mpr hasked)
  rw [get?_projections hasked] at htrue
  revert htrue
  decide +kernel

end RetrievalOrchestrator

end RationaleVault
