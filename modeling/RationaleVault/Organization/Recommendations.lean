import RationaleVault.Organization.Activity

/-!
# Recommendations for the organization

The engine makes recommendations from the state of the organization, its graph and its activity,
keeps the first of each id and sorts by category. An id is a digest of category, projects and
evidence; how a list looks in a text is a parameter.

For a project that needs attention there is a recommendation, unless all that is wrong with it is a
balance of at least −3.
-/

namespace RationaleVault.Organization

inductive RecommendationCategory
  | conflictResolution
  | transferFollowup
  | inactivityReview
  | flowRebalancing
  | clusterHealth
  | invariantReview
  deriving DecidableEq

def RecommendationCategory.value : RecommendationCategory → String
  | conflictResolution => "CONFLICT_RESOLUTION"
  | transferFollowup => "TRANSFER_FOLLOWUP"
  | inactivityReview => "INACTIVITY_REVIEW"
  | flowRebalancing => "FLOW_REBALANCING"
  | clusterHealth => "CLUSTER_HEALTH"
  | invariantReview => "INVARIANT_REVIEW"

/-- `CATEGORY_PRIORITY`. -/
def RecommendationCategory.priority : RecommendationCategory → Nat
  | conflictResolution => 1
  | transferFollowup => 2
  | inactivityReview => 3
  | flowRebalancing => 4
  | clusterHealth => 5
  | invariantReview => 6

inductive EvidenceType
  | hotspot | inactive | transfer | flow | cluster | invariant
  deriving DecidableEq

def EvidenceType.value : EvidenceType → String
  | hotspot => "hotspot"
  | inactive => "inactive"
  | transfer => "transfer"
  | flow => "flow"
  | cluster => "cluster"
  | invariant => "invariant"

/-- The id of a piece of evidence. -/
def EvidenceType.of (t : EvidenceType) (id : String) : String := t.value ++ ":" ++ id

/-- A recommendation has evidence: without any, `__post_init__` raises. -/
structure Recommendation where
  recommendationId : String
  category : RecommendationCategory
  priority : Nat
  title : String
  rationale : List String
  affectedProjects : List String
  evidenceIds : List String
  confidence : ℚ := 1
  evidence_ne_nil : evidenceIds ≠ []

structure RecommendationSet where
  compiledAt : String
  recommendations : List Recommendation

/-- `hashlib.sha256(data.encode()).hexdigest()[:n]`. -/
def digestPrefix (n : Nat) (data : String) : String :=
  String.ofList ((Sha256.hexdigest data).toList.take n)

/-- A sorted list of texts in an f-string. -/
def listText (ft : FormatText) (texts : List String) : String :=
  ft.format (.arr ((Table.orderBy id texts).map .str))

/-- `_make_recommendation_id(category, affected_projects, evidence_ids)`. -/
def makeRecommendationId (ft : FormatText) (category : RecommendationCategory)
    (affectedProjects evidenceIds : List String) : String :=
  digestPrefix 16 (category.value ++ ":" ++ listText ft affectedProjects ++ ":" ++
    listText ft evidenceIds)

theorem orderBy_ne_nil {l : List String} (h : l ≠ []) : Table.orderBy id l ≠ [] := fun hnil =>
  h (List.nil_perm.mp (hnil ▸ Table.orderBy_perm id l))

/-- `make_recommendation(...)`. -/
def makeRecommendation (ft : FormatText) (category : RecommendationCategory) (title : String)
    (rationale affectedProjects evidenceIds : List String) (h : evidenceIds ≠ []) :
    Recommendation where
  recommendationId := makeRecommendationId ft category (Table.orderBy id affectedProjects)
    (Table.orderBy id evidenceIds)
  category := category
  priority := category.priority
  title := title
  rationale := rationale
  affectedProjects := Table.orderBy id affectedProjects
  evidenceIds := Table.orderBy id evidenceIds
  evidence_ne_nil := orderBy_ne_nil h

/-- `FLOW_IMBALANCE_THRESHOLD`. -/
def flowImbalanceThreshold : Int := -3

/-- `MIN_INVARIANT_COUNT_FOR_REVIEW`. -/
def minInvariantCountForReview : Nat := 3

/-- `MIN_CLUSTER_COHESION_FOR_REVIEW`. -/
def minClusterCohesionForReview : ℚ := 1 / 2

/-- `_cluster_id(project_ids)`. -/
def clusterId (projectIds : List String) : String :=
  digestPrefix 12 (",".intercalate (Table.orderBy id projectIds))

namespace RecommendationEngine

open OrganizationGraphProjection (truncate)

variable (ft : FormatText)

/-- `_resolve_conflicts(graph_state)`. -/
def resolveConflicts (graph : OrganizationGraphState) : List Recommendation :=
  graph.contradictionHotspots.map fun e =>
    makeRecommendation ft .conflictResolution
      ("Resolve " ++ toString (truncate e.2) ++ " contradiction(s) involving project '" ++ e.1 ++
        "'")
      ["Project '" ++ e.1 ++ "' has " ++ toString (truncate e.2) ++ " contradiction(s)",
        "Contradictions reduce knowledge reliability across the organization"]
      [e.1] [EvidenceType.hotspot.of e.1] (List.cons_ne_nil _ _)

/-- `_review_inactive(activity_state)`. -/
def reviewInactive (activity : OrganizationActivityState) : List Recommendation :=
  activity.inactiveProjects.map fun pid =>
    makeRecommendation ft .inactivityReview ("Review inactive project '" ++ pid ++ "'")
      ["Project '" ++ pid ++ "' had no activity in the last " ++
          toString activity.activityWindowHours ++ "h",
        "Inactive projects may indicate blockers, completion, or abandonment"]
      [pid] [EvidenceType.inactive.of pid] (List.cons_ne_nil _ _)

/-- `_followup_transfers(activity_state)`. -/
def followupTransfers (activity : OrganizationActivityState) : List Recommendation :=
  activity.recentTransfers.map fun t =>
    makeRecommendation ft .transferFollowup
      ("Follow up on knowledge transfer to '" ++ t.targetProject ++ "'")
      ["'" ++ t.knowledgeTitle ++ "' transferred from '" ++ t.sourceProject ++ "' to '" ++
          t.targetProject ++ "'",
        "New transfers may require validation, documentation, or integration"]
      [t.targetProject, t.sourceProject] [EvidenceType.transfer.of t.knowledgeId]
      (List.cons_ne_nil _ _)

/-- `_rebalance_flow(graph_state)`. -/
def rebalanceFlow (graph : OrganizationGraphState) : List Recommendation :=
  (Table.orderBy Prod.snd (graph.knowledgeFlowBalance.entries.filter fun e =>
    e.2 < flowImbalanceThreshold)).map fun e =>
      makeRecommendation ft .flowRebalancing
        ("Support knowledge consumer '" ++ e.1 ++ "' (flow balance: " ++ toString e.2 ++ ")")
        ["Project '" ++ e.1 ++ "' has a flow balance of " ++ toString e.2,
          "Extreme consumers may be bottlenecked by knowledge dependencies"]
        [e.1] [EvidenceType.flow.of e.1] (List.cons_ne_nil _ _)

/-- `_improve_clusters(graph_state)`, with `fixed2` for the format `.2f`. -/
def improveClusters (fixed2 : ℚ → String) (graph : OrganizationGraphState) :
    List Recommendation :=
  if h : graph.clusters = [] then []
  else if minClusterCohesionForReview ≤ graph.health.clusterCohesion then []
  else
    [makeRecommendation ft .clusterHealth "Improve organizational cluster cohesion"
      ["Cluster cohesion: " ++ fixed2 graph.health.clusterCohesion ++ " (target: >= 0.5)",
        "Low cohesion indicates weak relationships within project clusters"]
      (sortedSet graph.clusters.flatten)
      (graph.clusters.map fun cluster => EvidenceType.cluster.of (clusterId cluster))
      (mt List.map_eq_nil_iff.mp h)]

/-- `_review_invariants(org_state)`. -/
def reviewInvariants (state : OrganizationState) : List Recommendation :=
  if state.invariantsAcrossProjects.length < minInvariantCountForReview then []
  else
    state.invariantsAcrossProjects.map fun inv =>
      makeRecommendation ft .invariantReview
        ("Review organizational invariant: '" ++ inv.title ++ "'")
        ["Invariant '" ++ inv.title ++ "' spans " ++ toString inv.presentInProjects.length ++
            " project(s)",
          "Organizational invariants should be periodically validated"]
        inv.presentInProjects [EvidenceType.invariant.of inv.knowledgeId] (List.cons_ne_nil _ _)

/-- `_deduplicate(recommendations)`. -/
def deduplicate (recommendations : List Recommendation) : List Recommendation :=
  Distinct.firsts Recommendation.recommendationId recommendations

/-- What is recommended before duplicates are dropped; a state that is missing gives nothing. -/
def proposals (fixed2 : ℚ → String) (state : Option OrganizationState)
    (graph : Option OrganizationGraphState) (activity : Option OrganizationActivityState) :
    List Recommendation :=
  (graph.elim [] fun g => resolveConflicts ft g ++ rebalanceFlow ft g ++
    improveClusters ft fixed2 g) ++
  (activity.elim [] fun a => reviewInactive ft a ++ followupTransfers ft a) ++
  state.elim [] (reviewInvariants ft)

/-- `generate(org_state, graph_state, activity_state, reference_time)`. -/
def generate (fixed2 : ℚ → String) (state : Option OrganizationState)
    (graph : Option OrganizationGraphState) (activity : Option OrganizationActivityState)
    (now : String) : RecommendationSet where
  compiledAt := now
  recommendations := Table.orderBy Recommendation.priority
    (deduplicate (proposals ft fixed2 state graph activity))

/-! ## What is recommended -/

section Engine

variable {ft : FormatText} {fixed2 : ℚ → String} {state : Option OrganizationState}
  {graph : Option OrganizationGraphState} {activity : Option OrganizationActivityState}
  {now : String}

theorem mem_of_mem_generate {r : Recommendation}
    (h : r ∈ (generate ft fixed2 state graph activity now).recommendations) :
    r ∈ proposals ft fixed2 state graph activity :=
  Distinct.mem_of_mem_firsts (Table.mem_orderBy.mp h)

/-- Dropping duplicates loses no id. -/
theorem mem_ids_generate {id : String} :
    id ∈ (generate ft fixed2 state graph activity now).recommendations.map
        Recommendation.recommendationId ↔
      ∃ r ∈ proposals ft fixed2 state graph activity, r.recommendationId = id := by
  have hperm := (Table.orderBy_perm Recommendation.priority
    (deduplicate (proposals ft fixed2 state graph activity))).map Recommendation.recommendationId
  rw [generate, hperm.mem_iff, deduplicate, Distinct.mem_map_firsts, List.mem_map]

theorem nodup_ids_generate : ((generate ft fixed2 state graph activity now).recommendations.map
    Recommendation.recommendationId).Nodup := by
  have hperm := (Table.orderBy_perm Recommendation.priority
    (deduplicate (proposals ft fixed2 state graph activity))).map Recommendation.recommendationId
  exact hperm.nodup_iff.mpr (Distinct.nodup_map_firsts _)

theorem sorted_generate : (generate ft fixed2 state graph activity now).recommendations.Pairwise
    fun r r' => r.priority ≤ r'.priority :=
  (Table.ordered_orderBy Recommendation.priority _).sorted

end Engine

section Categories

variable {ft : FormatText} {fixed2 : ℚ → String} {s : OrganizationState}
  {g : OrganizationGraphState} {a : OrganizationActivityState} {r : Recommendation}

theorem mem_proposals : r ∈ proposals ft fixed2 (some s) (some g) (some a) ↔
    (r ∈ resolveConflicts ft g ∨ r ∈ rebalanceFlow ft g ∨ r ∈ improveClusters ft fixed2 g) ∨
      (r ∈ reviewInactive ft a ∨ r ∈ followupTransfers ft a) ∨ r ∈ reviewInvariants ft s := by
  simp only [proposals, Option.elim_some, List.mem_append, or_assoc]

theorem category_of_mem_resolveConflicts (h : r ∈ resolveConflicts ft g) :
    r.category = .conflictResolution := by
  obtain ⟨e, -, rfl⟩ := List.mem_map.mp h
  rfl

theorem category_of_mem_rebalanceFlow (h : r ∈ rebalanceFlow ft g) :
    r.category = .flowRebalancing := by
  obtain ⟨e, -, rfl⟩ := List.mem_map.mp h
  rfl

theorem category_of_mem_improveClusters (h : r ∈ improveClusters ft fixed2 g) :
    r.category = .clusterHealth := by
  rw [improveClusters] at h
  split_ifs at h with hnil hcohesion
  · cases h
  · cases h
  · rw [List.mem_singleton.mp h]
    rfl

theorem category_of_mem_reviewInactive (h : r ∈ reviewInactive ft a) :
    r.category = .inactivityReview := by
  obtain ⟨pid, -, rfl⟩ := List.mem_map.mp h
  rfl

theorem category_of_mem_followupTransfers (h : r ∈ followupTransfers ft a) :
    r.category = .transferFollowup := by
  obtain ⟨t, -, rfl⟩ := List.mem_map.mp h
  rfl

theorem category_of_mem_reviewInvariants (h : r ∈ reviewInvariants ft s) :
    r.category = .invariantReview := by
  rw [reviewInvariants] at h
  split_ifs at h with hfew
  · cases h
  · obtain ⟨inv, -, rfl⟩ := List.mem_map.mp h
    rfl

/-- The category of a proposal tells which part of the engine made it. -/
theorem maker_of_mem_proposals (h : r ∈ proposals ft fixed2 (some s) (some g) (some a)) :
    (r.category = .conflictResolution → r ∈ resolveConflicts ft g) ∧
      (r.category = .flowRebalancing → r ∈ rebalanceFlow ft g) ∧
      (r.category = .inactivityReview → r ∈ reviewInactive ft a) := by
  rcases mem_proposals.mp h with (h | h | h) | (h | h) | h
  · rw [category_of_mem_resolveConflicts h]
    exact ⟨fun _ => h, RecommendationCategory.noConfusion, RecommendationCategory.noConfusion⟩
  · rw [category_of_mem_rebalanceFlow h]
    exact ⟨RecommendationCategory.noConfusion, fun _ => h, RecommendationCategory.noConfusion⟩
  · rw [category_of_mem_improveClusters h]
    exact ⟨RecommendationCategory.noConfusion, RecommendationCategory.noConfusion,
      RecommendationCategory.noConfusion⟩
  · rw [category_of_mem_reviewInactive h]
    exact ⟨RecommendationCategory.noConfusion, RecommendationCategory.noConfusion, fun _ => h⟩
  · rw [category_of_mem_followupTransfers h]
    exact ⟨RecommendationCategory.noConfusion, RecommendationCategory.noConfusion,
      RecommendationCategory.noConfusion⟩
  · rw [category_of_mem_reviewInvariants h]
    exact ⟨RecommendationCategory.noConfusion, RecommendationCategory.noConfusion,
      RecommendationCategory.noConfusion⟩

theorem exists_resolveConflicts {pid : String} {score : ℚ}
    (h : (pid, score) ∈ g.contradictionHotspots) : ∃ r ∈ resolveConflicts ft g,
      r.recommendationId = makeRecommendationId ft .conflictResolution [pid]
        [EvidenceType.hotspot.of pid] := ⟨_, List.mem_map_of_mem h, rfl⟩

theorem exists_reviewInactive {pid : String} (h : pid ∈ a.inactiveProjects) :
    ∃ r ∈ reviewInactive ft a, r.recommendationId =
      makeRecommendationId ft .inactivityReview [pid] [EvidenceType.inactive.of pid] :=
  ⟨_, List.mem_map_of_mem h, rfl⟩

theorem exists_rebalanceFlow {pid : String} {balance : Int}
    (h : (pid, balance) ∈ g.knowledgeFlowBalance.entries) (hlow : balance < -3) :
    ∃ r ∈ rebalanceFlow ft g, r.recommendationId =
      makeRecommendationId ft .flowRebalancing [pid] [EvidenceType.flow.of pid] :=
  ⟨_, List.mem_map_of_mem (Table.mem_orderBy.mpr
    (List.mem_filter.mpr ⟨h, decide_eq_true hlow⟩)), rfl⟩

end Categories

/-! ## Recommendations and attention -/

/-- What the recommendations for an organization are to be. -/
structure Recommends (ft : FormatText) (state : OrganizationState) (recent : Recent)
    (attention : List String) (recs : List Recommendation) : Prop where
  sorted : recs.Pairwise fun r r' => r.priority ≤ r'.priority
  distinct : (recs.map Recommendation.recommendationId).Nodup
  conflict : ∀ r ∈ recs, r.category = .conflictResolution → ∃ pid ∈ attention,
    r.affectedProjects = [pid] ∧ 0 < conflictSides state pid ∧
      r.title = "Resolve " ++ toString (2 * (conflictSides state pid : Int)) ++
        " contradiction(s) involving project '" ++ pid ++ "'"
  inactive : ∀ r ∈ recs, r.category = .inactivityReview → ∃ pid ∈ attention,
    r.affectedProjects = [pid] ∧ pid ∈ state.projectIds ∧ Quiet recent pid
  flow : ∀ r ∈ recs, r.category = .flowRebalancing → ∃ pid ∈ attention,
    r.affectedProjects = [pid] ∧ pid ∈ state.projectIds ∧ flowOf state pid < -3
  attended : ∀ pid ∈ attention, (∃ category evidence,
      makeRecommendationId ft category [pid] [EvidenceType.of evidence pid] ∈
        recs.map Recommendation.recommendationId) ∨
    pid ∈ state.projectIds ∧ ¬Quiet recent pid ∧ conflictSides state pid = 0 ∧
      -3 ≤ flowOf state pid ∧ flowOf state pid < 0

/-- The text of a hotspot's score, which is twice a number of conflicts. -/
theorem truncate_two_mul (n : Nat) : truncate (2 * (n : ℚ)) = 2 * (n : Int) := by
  have hcast : 2 * (n : ℚ) = ((2 * n : Nat) : ℚ) := by rw [Nat.cast_mul, Nat.cast_ofNat]
  rw [hcast, truncate, Rat.num_natCast, Rat.den_natCast]
  simp

/-- A quiet project, one with conflicts and one with a large deficit have a recommendation of
their own. -/
theorem exists_recommendation (ft : FormatText) (fixed2 : ℚ → String)
    (timestampValue : String → Option ℚ) (cubeRoot : ℚ → ℚ) (state : OrganizationState)
    (recent : Recent) (window : Int) (now : String) {pid : String}
    (h : (pid ∈ state.projectIds ∧ Quiet recent pid) ∨ 0 < conflictSides state pid ∨
      pid ∈ state.projectIds ∧ flowOf state pid < -3) :
    ∃ category evidence, makeRecommendationId ft category [pid] [EvidenceType.of evidence pid] ∈
      (generate ft fixed2 (some state)
        (some (OrganizationGraphProjection.project cubeRoot now state))
        (some (OrganizationActivityProjection.project timestampValue state.projectIds recent state
          window now)) now).recommendations.map Recommendation.recommendationId := by
  rcases h with hquiet | hconflict | ⟨hlisted, hlow⟩
  · have hinactive : pid ∈ (OrganizationActivityProjection.project timestampValue
        state.projectIds recent state window now).inactiveProjects :=
      mem_inactiveProjects.mpr hquiet
    obtain ⟨r, hr, hid⟩ := @exists_reviewInactive ft _ _ hinactive
    exact ⟨.inactivityReview, .inactive,
      mem_ids_generate.mpr ⟨r, mem_proposals.mpr (Or.inr (Or.inl (Or.inl hr))), hid⟩⟩
  · have hhotspot := ((hotspots_spec state cubeRoot now).2.2 pid _).mpr ⟨hconflict, rfl⟩
    obtain ⟨r, hr, hid⟩ := @exists_resolveConflicts ft _ _ _ hhotspot
    exact ⟨.conflictResolution, .hotspot,
      mem_ids_generate.mpr ⟨r, mem_proposals.mpr (Or.inl (Or.inl hr)), hid⟩⟩
  · have hbalance := (@mem_flowBalance state cubeRoot now pid _).mpr ⟨hlisted, rfl⟩
    obtain ⟨r, hr, hid⟩ := @exists_rebalanceFlow ft _ _ _ hbalance hlow
    exact ⟨.flowRebalancing, .flow,
      mem_ids_generate.mpr ⟨r, mem_proposals.mpr (Or.inl (Or.inr (Or.inl hr))), hid⟩⟩

/-- The recommendations and the projects that need attention agree, but for projects that take up to
three items more than they give. -/
theorem generate_recommends (ft : FormatText) (fixed2 : ℚ → String)
    (timestampValue : String → Option ℚ) (cubeRoot : ℚ → ℚ) (state : OrganizationState)
    (recent : Recent) (window : Int) (now : String) :
    Recommends ft state recent
      (OrganizationContinuationProjection.computeProjectsNeedingAttention
        (OrganizationActivityProjection.project timestampValue state.projectIds recent state window
          now)
        (OrganizationGraphProjection.project cubeRoot now state))
      (generate ft fixed2 (some state)
        (some (OrganizationGraphProjection.project cubeRoot now state))
        (some (OrganizationActivityProjection.project timestampValue state.projectIds recent state
          window now)) now).recommendations := by
  have hattention := mem_attention_iff timestampValue cubeRoot state recent window now
  refine ⟨sorted_generate, nodup_ids_generate, ?_, ?_, ?_, ?_⟩
  · intro r hr hcategory
    have hr := (maker_of_mem_proposals (mem_of_mem_generate hr)).1 hcategory
    obtain ⟨⟨pid, score⟩, he, rfl⟩ := List.mem_map.mp hr
    obtain ⟨hpos, rfl⟩ := ((hotspots_spec state cubeRoot now).2.2 pid score).mp he
    refine ⟨pid, (hattention pid).mpr (Or.inr (Or.inl hpos)), rfl, hpos, ?_⟩
    rw [← truncate_two_mul]
    rfl
  · intro r hr hcategory
    have hr := (maker_of_mem_proposals (mem_of_mem_generate hr)).2.2 hcategory
    obtain ⟨pid, hpid, rfl⟩ := List.mem_map.mp hr
    have hinactive := mem_inactiveProjects.mp hpid
    exact ⟨pid, (hattention pid).mpr (Or.inl hinactive), rfl, hinactive⟩
  · intro r hr hcategory
    have hr := (maker_of_mem_proposals (mem_of_mem_generate hr)).2.1 hcategory
    obtain ⟨⟨pid, balance⟩, he, rfl⟩ := List.mem_map.mp hr
    obtain ⟨he, hlow⟩ := List.mem_filter.mp (Table.mem_orderBy.mp he)
    obtain ⟨hpid, rfl⟩ := (mem_flowBalance state cubeRoot now).mp he
    have hlow : flowOf state pid < -3 := of_decide_eq_true hlow
    exact ⟨pid, (hattention pid).mpr (Or.inr (Or.inr ⟨hpid, by omega⟩)), rfl, hpid, hlow⟩
  · intro pid hpid
    by_cases hown : (pid ∈ state.projectIds ∧ Quiet recent pid) ∨ 0 < conflictSides state pid ∨
        pid ∈ state.projectIds ∧ flowOf state pid < -3
    · exact Or.inl (exists_recommendation ft fixed2 timestampValue cubeRoot state recent window
        now hown)
    · obtain ⟨hquiet, hconflict, hlow⟩ := not_or.mp hown |>.imp_right not_or.mp
      obtain ⟨hlisted, hneg⟩ : pid ∈ state.projectIds ∧ flowOf state pid < 0 :=
        (((hattention pid).mp hpid).resolve_left hquiet).resolve_left hconflict
      exact Or.inr ⟨hlisted, fun h => hquiet ⟨hlisted, h⟩, Nat.eq_zero_of_not_pos hconflict,
        not_lt.mp fun h => hlow ⟨hlisted, h⟩, hneg⟩

end RecommendationEngine

end RationaleVault.Organization
