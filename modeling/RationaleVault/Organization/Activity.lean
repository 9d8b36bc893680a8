import Mathlib.Algebra.Order.BigOperators.Group.List
import RationaleVault.Library.Distinct
import RationaleVault.Memory.Models
import RationaleVault.Organization.Graph

/-!
# Activity in the organization

What happened lately in each project, and from that and the graph which projects need attention: the
inactive ones, those with contradictions, and those that consume more knowledge than they give.
A conflict between two listed projects is an edge in each direction, and each edge counts for both
of its ends, so the score of a hotspot is twice the number of its conflicts.

Scores are rational; the timestamp of a text and the root of the overall health are parameters.
-/

namespace RationaleVault.Organization

/-! ## Observation -/

/-- An event of the window: `recorded_at.isoformat()`, and `created_at` where that is missing. -/
structure RecentEvent where
  recordedAt : Option String := none
  createdAt : String := ""
  deriving DecidableEq

/-- What happened lately, by project. -/
structure Recent where
  events : OrdDict String (List RecentEvent) := .empty
  knowledge : OrdDict String (List KnowledgeObject) := .empty
  memories : OrdDict String (List MemoryRecord) := .empty

structure ProjectActivity where
  projectId : String
  recentEventCount : Nat
  lastEventAt : String
  recentKnowledgeCount : Nat
  recentMemoryCount : Nat
  deriving DecidableEq

structure OrgTransferEvent where
  knowledgeId : String
  knowledgeTitle : String
  sourceProject : String
  targetProject : String
  createdAt : String
  deriving DecidableEq

structure OrgConflictEvent where
  conflictId : String
  projectA : String
  projectB : String
  detectedAt : String
  deriving DecidableEq

structure KnowledgeSummary where
  knowledgeId : String
  title : String
  projectId : String
  knowledgeType : String
  createdAt : String
  deriving DecidableEq

structure OrganizationActivityState where
  compiledAt : String
  activityWindowHours : Int
  projectCount : Nat
  activeProjects : List ProjectActivity
  inactiveProjects : List String
  recentTransfers : List OrgTransferEvent
  recentConflicts : List OrgConflictEvent
  recentKnowledge : List KnowledgeSummary
  overallActivityLevel : ℚ

/-- `MAX_SUMMARY_ITEMS`. -/
def maxSummaryItems : Nat := 10

namespace OrganizationActivityProjection

/-- The timestamp by which an event is dated, if it has one. -/
def timestampOf (e : RecentEvent) : Option String :=
  e.recordedAt.or (if e.createdAt = "" then none else some e.createdAt)

/-- What is counted for a project. -/
def projectActivity (recent : Recent) (pid : String) : ProjectActivity :=
  let events := (recent.events.get? pid).getD []
  { projectId := pid
    recentEventCount := events.length
    lastEventAt := Table.maxD "" (events.filterMap timestampOf)
    recentKnowledgeCount := ((recent.knowledge.get? pid).getD []).length
    recentMemoryCount := ((recent.memories.get? pid).getD []).length }

def isInactive (p : ProjectActivity) : Bool :=
  p.recentEventCount = 0 && p.recentKnowledgeCount = 0 && p.recentMemoryCount = 0

/-- `_build_project_activity(...)`: the active and the inactive projects. -/
def buildProjectActivity (projectIds : List String) (recent : Recent) :
    List ProjectActivity × List String :=
  let all := projectIds.map (projectActivity recent)
  (Table.orderBy (fun p => toLex (-(p.recentEventCount : Int), p.projectId))
    (all.filter fun p => !isInactive p),
    Table.orderBy id ((all.filter isInactive).map ProjectActivity.projectId))

/-- `_parse_time(timestamp)`, with `timestampValue` for the timestamps of the texts that are
dates. -/
def parseTime (timestampValue : String → Option ℚ) (timestamp : String) : ℚ :=
  if timestamp = "" then 0 else (timestampValue timestamp).getD 0

/-- The newest first, those of one time by id. -/
def newestFirst {α : Type} (timestampValue : String → Option ℚ) (createdAt id : α → String)
    (items : List α) : List α :=
  Table.orderBy (fun x => toLex (-parseTime timestampValue (createdAt x), id x)) items

/-- `recent_knowledge_map`. -/
def recentKnowledgeMap (recent : Recent) : OrdDict (String × String) KnowledgeObject :=
  .ofList (recent.knowledge.entries.flatMap fun e => e.2.map fun k => ((e.1, k.id), k))

variable (timestampValue : String → Option ℚ)

/-- `_detect_recent_transfers(org_state, recent_knowledge_by_project)`. -/
def detectRecentTransfers (state : OrganizationState) (recent : Recent) :
    List OrgTransferEvent :=
  newestFirst timestampValue OrgTransferEvent.createdAt OrgTransferEvent.knowledgeId
    (state.activeLineages.entries.flatMap fun e =>
      let targets := e.2.currentProjects.filter fun pid => pid ≠ e.2.originProject
      targets.filterMap fun target =>
        ((recentKnowledgeMap recent).get? (target, e.1)).map fun k => {
          knowledgeId := e.1
          knowledgeTitle := k.title
          sourceProject := e.2.originProject
          targetProject := target
          createdAt := k.createdAt })

/-- Note when an object was last touched, unless a later time is known. -/
def noteTimestamp (known : OrdDict String String) (k : KnowledgeObject) : OrdDict String String :=
  let timestamp := if k.updatedAt = "" then k.createdAt else k.updatedAt
  if timestamp = "" then known
  else
    match known.get? k.id with
    | none => known.set k.id timestamp
    | some old => if old < timestamp then known.set k.id timestamp else known

/-- `_detect_recent_conflicts(org_state, recent_knowledge_by_project)`. -/
def detectRecentConflicts (state : OrganizationState) (recent : Recent) :
    List OrgConflictEvent :=
  let objects := recent.knowledge.values.flatMap id
  let ids := objects.map KnowledgeObject.id
  let timestamps := objects.foldl noteTimestamp .empty
  newestFirst timestampValue OrgConflictEvent.detectedAt OrgConflictEvent.conflictId
    ((state.crossProjectConflicts.filter fun c =>
      c.knowledgeAId ∈ ids || c.knowledgeBId ∈ ids).map fun c => {
        conflictId := c.conflictId
        projectA := c.projectA
        projectB := c.projectB
        detectedAt := ((timestamps.get? c.knowledgeAId).or
          (timestamps.get? c.knowledgeBId)).getD "" })

/-- `_build_recent_knowledge(recent_knowledge_by_project)`. -/
def buildRecentKnowledge (recent : Recent) : List KnowledgeSummary :=
  (newestFirst timestampValue KnowledgeSummary.createdAt KnowledgeSummary.knowledgeId
    (recent.knowledge.entries.flatMap fun e => e.2.map fun k => {
      knowledgeId := k.id
      title := k.title
      projectId := e.1
      -- the text of the enumeration member, not its value
      knowledgeType := "KnowledgeType." ++ k.knowledgeType.value
      createdAt := k.createdAt })).take maxSummaryItems

/-- `project(project_ids, ..., org_state, activity_window_hours, reference_time)`. -/
def project (projectIds : List String) (recent : Recent) (state : OrganizationState)
    (activityWindowHours : Int) (now : String) : OrganizationActivityState :=
  let activity := buildProjectActivity projectIds recent
  { compiledAt := now
    activityWindowHours := activityWindowHours
    projectCount := projectIds.length
    activeProjects := activity.1
    inactiveProjects := activity.2
    recentTransfers := detectRecentTransfers timestampValue state recent
    recentConflicts := detectRecentConflicts timestampValue state recent
    recentKnowledge := buildRecentKnowledge timestampValue recent
    overallActivityLevel :=
      if projectIds = [] then 0 else (activity.1.length : ℚ) / projectIds.length }

end OrganizationActivityProjection

/-! ## Interpretation -/

structure OrganizationContinuationHealth where
  activityCoverage : ℚ
  continuity : ℚ
  attentionAccuracy : ℚ
  overall : ℚ
  deriving DecidableEq

structure OrganizationContinuationState where
  compiledAt : String
  activityCompiledAt : String
  projectsNeedingAttention : List String
  organizationalNextActions : List String
  continuationSummary : List String
  health : OrganizationContinuationHealth
  deriving DecidableEq

namespace OrganizationContinuationProjection

open OrganizationGraphProjection (truncate)

variable (activity : OrganizationActivityState) (graph : OrganizationGraphState)

/-- The projects with a negative balance. -/
def extremeConsumers : List (String × Int) :=
  graph.knowledgeFlowBalance.entries.filter fun e => e.2 < 0

/-- `_compute_projects_needing_attention(activity_state, graph_state, org_state)`. -/
def computeProjectsNeedingAttention : List String :=
  sortedSet (activity.inactiveProjects ++ graph.contradictionHotspots.map Prod.fst ++
    (extremeConsumers graph).map Prod.fst)

/-- `_compute_organizational_next_actions(...)`, with `fixed2` for the format `.2f`. -/
def computeOrganizationalNextActions (fixed2 : ℚ → String) : List String :=
  let consumers := Table.orderBy (fun e : String × Int => -e.2)
    ((extremeConsumers graph).map fun e => (e.1, |e.2|))
  let actions :=
    (graph.contradictionHotspots.map fun e =>
      "Resolve " ++ toString (truncate e.2) ++ " contradiction(s) involving project '" ++ e.1 ++
        "'") ++
    ((Distinct.firsts OrgTransferEvent.targetProject activity.recentTransfers).map fun t =>
      "Follow up on transferred knowledge to '" ++ t.targetProject ++ "' from '" ++
        t.sourceProject ++ "'") ++
    (activity.inactiveProjects.map fun pid =>
      "Review inactive project '" ++ pid ++ "' — no activity in " ++
        toString activity.activityWindowHours ++ "h") ++
    ((consumers.take 3).map fun e =>
      "Support knowledge consumer '" ++ e.1 ++ "' (flow balance: -" ++ toString e.2 ++ ")") ++
    (if graph.health.clusterCohesion < 1 / 2 then
      ["Improve organizational cluster cohesion (current: " ++
        fixed2 graph.health.clusterCohesion ++ ")"] else [])
  if actions = [] then ["Review organizational knowledge health — no urgent issues detected"]
  else actions

/-- `_build_continuation_summary(...)`. -/
def buildContinuationSummary (attention nextActions : List String) : List String :=
  let counted {α : Type} (items : List α) (what : String) : List String :=
    if items.length = 0 then [] else [toString items.length ++ what]
  ([toString activity.activeProjects.length ++ " of " ++ toString activity.projectCount ++
      " projects active in last " ++ toString activity.activityWindowHours ++ "h"] ++
    counted activity.recentTransfers " transfer(s) detected" ++
    counted activity.recentConflicts " conflict(s) detected" ++
    counted activity.recentKnowledge " knowledge item(s) recently created/updated" ++
    counted attention " project(s) need attention" ++
    counted nextActions " recommended action(s)" ++
    (if activity.recentTransfers = [] ∧ activity.recentConflicts = [] then
      ["No significant organizational changes detected"] else [])).take maxSummaryItems

/-- `_compute_health(activity_state, projects_needing_attention)`, with `root n x` for
`x ** (1.0 / n)`. -/
def computeHealth (root : Nat → ℚ → ℚ) (attention : List String) :
    OrganizationContinuationHealth :=
  let total := activity.projectCount
  let coverage : ℚ := if 0 < total then (activity.activeProjects.length : ℚ) / total else 1
  let continuity : ℚ := if 0 < total then 1 - (attention.length : ℚ) / total else 1
  let accuracy : ℚ := if attention = [] then 1 else 7 / 10
  let nonZero := [coverage, continuity, accuracy].filter fun m => 0 < m
  { activityCoverage := coverage
    continuity := continuity
    attentionAccuracy := accuracy
    overall := if nonZero = [] then 0 else root nonZero.length nonZero.prod }

/-- `project(org_state, graph_state, activity_state, reference_time)`. -/
def project (fixed2 : ℚ → String) (root : Nat → ℚ → ℚ) (now : String) :
    OrganizationContinuationState :=
  let attention := computeProjectsNeedingAttention activity graph
  let nextActions := computeOrganizationalNextActions activity graph fixed2
  { compiledAt := now
    activityCompiledAt := activity.compiledAt
    projectsNeedingAttention := attention
    organizationalNextActions := nextActions
    continuationSummary := buildContinuationSummary activity attention nextActions
    health := computeHealth activity root attention }

end OrganizationContinuationProjection

/-! ## Hotspots -/

section Hotspots

open OrganizationGraphProjection

variable (state : OrganizationState)

/-- The conflicts of which both sides are listed. -/
def listedConflicts : List CrossProjectConflict :=
  state.crossProjectConflicts.filter fun c =>
    c.projectA ∈ state.projectIds && c.projectB ∈ state.projectIds

/-- How often a project is a side of a conflict between listed projects. -/
def conflictSides (pid : String) : Nat :=
  ((listedConflicts state).flatMap fun c => [c.projectA, c.projectB]).count pid

/-- How often a project is in a pair. -/
def sides (pid : String) (p : String × String) : Nat := [p.1, p.2].count pid

theorem sides_sortedPair (pid a b : String) : sides pid (sortedPair a b) = sides pid (a, b) := by
  rw [sortedPair]
  split
  · exact (List.Perm.swap a b []).count_eq pid
  · rfl

/-- The pair of a conflict. -/
def pairOf (c : CrossProjectConflict) : String × String := sortedPair c.projectA c.projectB

/-- Both projects of a pair are listed. -/
def isListed (p : String × String) : Bool := p.1 ∈ state.projectIds && p.2 ∈ state.projectIds

theorem isListed_pairOf (c : CrossProjectConflict) :
    isListed state (pairOf c) =
      (decide (c.projectA ∈ state.projectIds) && decide (c.projectB ∈ state.projectIds)) := by
  rw [pairOf, sortedPair]
  split
  · exact Bool.and_comm ..
  · rfl

theorem flatMap_ite {α β : Type} (l : List α) (p : α → Bool) (f : α → List β) :
    (l.flatMap fun a => if p a then f a else []) = (l.filter p).flatMap f := by
  induction l with
  | nil => rfl
  | cons a rest ih =>
      rw [List.flatMap_cons, ih, List.filter_cons]
      cases p a with
      | true => rfl
      | false => rfl

theorem relationType_of_mem_bothWays {a b : String} {r : OrganizationRelationType} {w c : ℚ}
    {e : OrganizationEdge} (h : e ∈ bothWays a b r w c) : e.relationType = r := by
  rcases List.mem_cons.mp h with rfl | h
  · rfl
  · rw [List.mem_singleton.mp h]

/-- Edges of one kind are all of a kind or none. -/
theorem filter_kind {l : List OrganizationEdge} {r : OrganizationRelationType}
    (hl : ∀ e ∈ l, e.relationType = r) (r' : OrganizationRelationType) :
    l.filter (fun e => e.relationType = r') = if r = r' then l else [] := by
  split_ifs with hr
  · exact List.filter_eq_self.mpr fun e he => by simpa [hl e he] using hr
  · exact List.filter_eq_nil_iff.mpr fun e he => by simpa [hl e he] using hr

/-- Each of the four loops collects edges of its own kind. -/
theorem collectEdges_kind (r : OrganizationRelationType) :
    (collectEdges state).filter (fun e => e.relationType = r) =
      (if .transferredTo = r then
        (transferAgg state).entries.map fun e => ⟨e.1.1, e.1.2, .transferredTo, e.2, 1⟩ else []) ++
      (if .sharedBy = r then
        (sharedAgg state).entries.flatMap fun e => bothWays e.1.1 e.1.2 .sharedBy e.2 1 else []) ++
      (if .conflictsWith = r then (conflictAgg state).entries.flatMap fun e =>
        bothWays e.1.1 e.1.2 .conflictsWith e.2.1 (if 0 < e.2.1 then e.2.2 / e.2.1 else 1)
        else []) ++
      (if .inCluster = r then state.projectClusters.flatMap fun cluster =>
        (Pairs.couples cluster).flatMap fun p => clusterEdges state p.1 p.2 else []) := by
  rw [collectEdges, List.filter_append, List.filter_append, List.filter_append, filter_kind,
    filter_kind, filter_kind, filter_kind]
  · intro e he
    obtain ⟨cluster, -, he⟩ := List.mem_flatMap.mp he
    obtain ⟨p, -, he⟩ := List.mem_flatMap.mp he
    exact relationType_of_mem_bothWays he
  · intro e he
    obtain ⟨s, -, he⟩ := List.mem_flatMap.mp he
    exact relationType_of_mem_bothWays he
  · intro e he
    obtain ⟨s, -, he⟩ := List.mem_flatMap.mp he
    exact relationType_of_mem_bothWays he
  · intro e he
    obtain ⟨s, -, rfl⟩ := List.mem_map.mp he
    rfl

/-- A conflict between two projects is an edge in each direction. -/
theorem conflictEdges_eq : (buildEdges state).filter (fun e => e.relationType = .conflictsWith) =
    ((conflictAgg state).entries.filter fun e => isListed state e.1).flatMap fun e =>
      bothWays e.1.1 e.1.2 .conflictsWith e.2.1 (if 0 < e.2.1 then e.2.2 / e.2.1 else 1) := by
  rw [buildEdges, List.filter_comm, collectEdges_kind]
  simp only [reduceCtorEq, if_false, if_true, List.nil_append, List.append_nil]
  rw [List.filter_flatMap, ← flatMap_ite]
  congr 1
  funext e
  by_cases hlisted : isListed state e.1 = true
  · have hids : e.1.1 ∈ state.projectIds ∧ e.1.2 ∈ state.projectIds := by
      simpa [isListed] using hlisted
    rw [if_pos hlisted]
    simp [bothWays, hids.1, hids.2]
  · have hids : e.1.1 ∈ state.projectIds → e.1.2 ∉ state.projectIds := by
      simpa [isListed] using hlisted
    rw [if_neg hlisted]
    simp only [bothWays, List.filter_eq_nil_iff]
    intro x hx
    rcases List.mem_cons.mp hx with rfl | hx
    · simpa using hids
    · rw [List.mem_singleton.mp hx]
      simpa using fun h₂ h₁ => hids h₁ h₂

/-- The score of a project in a list of edges: each edge counts for both of its ends. -/
def scored (edges : List OrganizationEdge) : List (String × ℚ) :=
  edges.flatMap fun e => [(e.source, e.weight), (e.target, e.weight)]

/-- What the scores of one project come to. -/
theorem sum_scored (pid : String) (edges : List OrganizationEdge) :
    (((scored edges).filter fun p => p.1 = pid).map Prod.snd).sum =
      (edges.map fun e => e.weight * (sides pid (e.source, e.target) : ℚ)).sum := by
  induction edges with
  | nil => rfl
  | cons e rest ih =>
      have hcons : scored (e :: rest) = [(e.source, e.weight), (e.target, e.weight)] ++
          scored rest := rfl
      rw [hcons, List.filter_append, List.map_append, List.sum_append, ih, List.map_cons,
        List.sum_cons]
      congr 1
      by_cases hs : e.source = pid
      · by_cases ht : e.target = pid
        · simp [sides, hs, ht, mul_two]
        · simp [sides, hs, ht]
      · by_cases ht : e.target = pid
        · simp [sides, hs, ht]
        · simp [sides, hs, ht]

/-- How many conflicts a pair has. -/
theorem conflictAgg_count {e : (String × String) × (Nat × ℚ)}
    (he : e ∈ (conflictAgg state).entries) :
    e.2.1 = (state.crossProjectConflicts.filter fun c => pairOf c = e.1).length ∧ 0 < e.2.1 := by
  have hfold : ∀ (l : List CrossProjectConflict) (data : Nat × ℚ),
      (l.foldl (fun data c => (data.1 + 1, data.2 + c.confidence)) data).1 =
        data.1 + l.length := by
    intro l
    induction l with
    | nil => exact fun _ => rfl
    | cons c rest ih =>
        intro data
        rw [List.foldl_cons, ih, List.length_cons]
        omega
  obtain ⟨a, rest, hfilter, hdata⟩ := Grouping.entries_group he
  have hlength : e.2.1 = (a :: rest).length := by rw [hdata, hfold, Nat.zero_add]
  refine ⟨?_, by rw [hlength]; exact Nat.succ_pos _⟩
  rw [hlength, ← hfilter]
  rfl

theorem conflictSides_eq (pid : String) :
    conflictSides state pid = ((listedConflicts state).map fun c => sides pid (pairOf c)).sum := by
  rw [conflictSides, List.count_flatMap]
  congr 1
  apply List.map_congr_left
  intro c _
  exact (sides_sortedPair pid c.projectA c.projectB).symm

/-- The conflicts of all pairs of listed projects are those between listed projects. -/
theorem sum_conflictAgg (pid : String) :
    (((conflictAgg state).entries.filter fun e => isListed state e.1).map fun e =>
      e.2.1 * sides pid e.1).sum = conflictSides state pid := by
  have hkeys : (((conflictAgg state).entries.filter fun e => isListed state e.1).map
      Prod.fst).Nodup := (conflictAgg state).nodup.sublist (List.filter_sublist.map _)
  have hmem : ∀ c ∈ listedConflicts state, pairOf c ∈
      ((conflictAgg state).entries.filter fun e => isListed state e.1).map Prod.fst := by
    intro c hc
    obtain ⟨hc, hlisted⟩ := List.mem_filter.mp hc
    have hkey : pairOf c ∈ (conflictAgg state).normKeys :=
      Grouping.mem_normKeys_group.mpr (List.mem_map_of_mem hc)
    obtain ⟨e, he, heq⟩ := List.mem_map.mp hkey
    refine List.mem_map.mpr ⟨e, List.mem_filter.mpr ⟨he, ?_⟩, heq⟩
    have hfst : e.1 = pairOf c := heq
    rw [hfst, isListed_pairOf]
    exact hlisted
  rw [conflictSides_eq, ← Tally.sum_fibers hkeys hmem, List.map_map]
  congr 1
  apply List.map_congr_left
  intro e he
  obtain ⟨he, hlisted⟩ := List.mem_filter.mp he
  have hfilter : (listedConflicts state).filter (fun c => pairOf c = e.1) =
      state.crossProjectConflicts.filter fun c => pairOf c = e.1 := by
    rw [listedConflicts, List.filter_filter]
    apply List.filter_congr
    intro c _
    by_cases hpair : pairOf c = e.1
    · rw [← isListed_pairOf, hpair, hlisted, Bool.and_true]
    · simp [hpair]
  have hsides : ((listedConflicts state).filter fun c => pairOf c = e.1).map
      (fun c => sides pid (pairOf c)) = List.replicate e.2.1 (sides pid e.1) := by
    rw [hfilter, (conflictAgg_count state he).1]
    refine List.map_eq_replicate_iff.mpr fun c hc => ?_
    rw [of_decide_eq_true (List.mem_filter.mp hc).2]
  rw [Function.comp_apply, hsides, List.sum_replicate_nat]

/-- The conflict edges together count every conflict of a project twice. -/
theorem sum_scored_conflictEdges (pid : String) :
    (((scored ((buildEdges state).filter fun e => e.relationType = .conflictsWith)).filter
      fun p => p.1 = pid).map Prod.snd).sum = 2 * (conflictSides state pid : ℚ) := by
  rw [sum_scored, conflictEdges_eq, ← sum_conflictAgg]
  induction (conflictAgg state).entries.filter fun e => isListed state e.1 with
  | nil => simp
  | cons e rest ih =>
      have hswap : sides pid (e.1.2, e.1.1) = sides pid e.1 :=
        (List.Perm.swap e.1.1 e.1.2 []).count_eq pid
      rw [List.flatMap_cons, List.map_append, List.sum_append, ih, List.map_cons, List.sum_cons,
        Nat.cast_add, mul_add]
      congr 1
      simp only [bothWays, List.map_cons, List.map_nil, List.sum_cons, List.sum_nil, add_zero,
        hswap, Nat.cast_mul, Prod.mk.eta]
      ring

/-- Adding up the scores of each project. -/
theorem collect_scores (l : List (String × ℚ)) :
    Grouping.collect (fun _ => (0 : ℚ)) (fun score p => score + p.2) l =
      if l = [] then none else some (l.map Prod.snd).sum := by
  have hfold : ∀ (l : List (String × ℚ)) (x : ℚ),
      l.foldl (fun score p => score + p.2) x = x + (l.map Prod.snd).sum := by
    intro l
    induction l with
    | nil => simp
    | cons p rest ih =>
        intro x
        rw [List.foldl_cons, ih, List.map_cons, List.sum_cons, add_assoc]
  cases l with
  | nil => rfl
  | cons p rest => rw [Grouping.collect, hfold, zero_add, if_neg (List.cons_ne_nil p rest)]

theorem weight_pos_of_mem_scored {p : String × ℚ}
    (hp : p ∈ scored ((buildEdges state).filter fun e => e.relationType = .conflictsWith)) :
    0 < p.2 := by
  obtain ⟨e, he, hp⟩ := List.mem_flatMap.mp hp
  rw [conflictEdges_eq] at he
  obtain ⟨a, ha, he⟩ := List.mem_flatMap.mp he
  have hpos : 0 < (a.2.1 : ℚ) :=
    Nat.cast_pos.mpr (conflictAgg_count state (List.mem_filter.mp ha).1).2
  have hweight : e.weight = a.2.1 := by
    rcases List.mem_cons.mp he with rfl | he
    · rfl
    · rw [List.mem_singleton.mp he]
  rcases List.mem_cons.mp hp with rfl | hp
  · exact hweight ▸ hpos
  · rw [List.mem_singleton.mp hp]
    exact hweight ▸ hpos

/-- The hotspots of a graph are the projects with a conflict, the most conflicts first. -/
theorem hotspots_spec (cubeRoot : ℚ → ℚ) (now : String) :
    ((project cubeRoot now state).contradictionHotspots.map Prod.fst).Nodup ∧
      (project cubeRoot now state).contradictionHotspots.Pairwise (fun e e' => e'.2 ≤ e.2) ∧
      ∀ pid score, (pid, score) ∈ (project cubeRoot now state).contradictionHotspots ↔
        0 < conflictSides state pid ∧ score = 2 * conflictSides state pid := by
  have hedges : ((computeEdgesByRelation (buildEdges state)).get? .conflictsWith).getD [] =
      (buildEdges state).filter fun e => e.relationType = .conflictsWith := by
    rw [computeEdgesByRelation, Grouping.getD_lists, List.map_id]
    rfl
  generalize hl : scored ((buildEdges state).filter fun e => e.relationType = .conflictsWith) = l
  have hhotspots : (project cubeRoot now state).contradictionHotspots =
      Table.orderByDesc Prod.snd (Grouping.group Prod.fst (fun _ => (0 : ℚ))
        (fun score p => score + p.2) l : OrdDict String ℚ).entries := by
    rw [← hl, ← hedges]
    rfl
  have hranked := Ranking.ranked_orderByDesc Prod.snd (Grouping.group Prod.fst (fun _ => (0 : ℚ))
    (fun score p => score + p.2) l : OrdDict String ℚ).entries
  rw [hhotspots]
  refine ⟨(hranked.perm.map Prod.fst).nodup_iff.mpr (OrdDict.nodup _), hranked.sorted, ?_⟩
  intro pid score
  have hsum : ((l.filter fun p => p.1 = pid).map Prod.snd).sum =
      2 * (conflictSides state pid : ℚ) := hl ▸ sum_scored_conflictEdges state pid
  have hget : (pid, score) ∈ (Grouping.group Prod.fst (fun _ => (0 : ℚ))
      (fun score p => score + p.2) l : OrdDict String ℚ).entries ↔
      (Grouping.group Prod.fst (fun _ => (0 : ℚ)) (fun score p => score + p.2) l :
        OrdDict String ℚ).get? pid = some score := by
    refine ⟨fun h => OrdDict.get?_of_mem h, fun h => ?_⟩
    obtain ⟨e, he, hkey, hvalue⟩ := OrdDict.lookupIn_mem h
    have hkey : e.1 = pid := hkey
    rw [← hkey, ← hvalue]
    exact he
  rw [hranked.perm.mem_iff, hget, Grouping.get?_group, collect_scores]
  simp only [DictKey.norm_string]
  rw [hsum]
  by_cases hnone : (l.filter fun p => p.1 = pid) = []
  · rw [hnone] at hsum
    have hzero : conflictSides state pid = 0 := by simpa using hsum.symm
    simp [hnone, hzero]
  · rw [if_neg hnone, Option.some.injEq]
    have hsumpos : 0 < ((l.filter fun p => p.1 = pid).map Prod.snd).sum := by
      refine List.sum_pos _ (fun x hx => ?_) (by simpa using hnone)
      obtain ⟨p, hp, rfl⟩ := List.mem_map.mp hx
      exact weight_pos_of_mem_scored state (hl ▸ (List.mem_filter.mp hp).1)
    have hpos : 0 < conflictSides state pid := by
      refine Nat.pos_of_ne_zero fun hzero => ?_
      rw [hsum, hzero, Nat.cast_zero, mul_zero] at hsumpos
      exact lt_irrefl 0 hsumpos
    exact ⟨fun h => ⟨hpos, h.symm⟩, fun h => h.2.symm⟩

end Hotspots

/-! ## Flow -/

section Flow

open OrganizationGraphProjection

variable (state : OrganizationState)

/-- The transfers between listed projects. -/
def listedTransfers : List (String × String) := (transferPairs state).filter (isListed state)

/-- How many more items a project gives than it takes. -/
def flowOf (pid : String) : Int :=
  (listedTransfers state).countP (fun p => p.1 = pid) -
    (listedTransfers state).countP fun p => p.2 = pid

/-- The transfer edges are those of the counted transfers. -/
theorem transferEdges_eq : (buildEdges state).filter isTransfer =
    ((transferAgg state).entries.filter fun e => isListed state e.1).map fun e =>
      ⟨e.1.1, e.1.2, .transferredTo, e.2, 1⟩ := by
  change (buildEdges state).filter (fun e => decide (e.relationType = .transferredTo)) = _
  rw [buildEdges, List.filter_comm, collectEdges_kind]
  simp only [reduceCtorEq, if_false, if_true, List.append_nil]
  rw [List.filter_map]
  rfl

theorem transferAgg_counts : Tally.Counts some (transferPairs state) (transferAgg state) := by
  rw [transferAgg]
  induction transferPairs state using List.reverseRecOn with
  | nil => exact Tally.Counts.nil
  | append_singleton l p ih =>
      rw [List.foldl_concat]
      exact ih.concat_bump rfl

/-- What the edges of one kind carry at one of their ends. -/
theorem sum_transferAgg (sel : String × String → String) (pid : String) :
    ((((transferAgg state).entries.filter fun e => isListed state e.1).filter
      fun e => sel e.1 = pid).map Prod.snd).sum =
      (listedTransfers state).countP fun p => sel p = pid := by
  generalize hentries : (((transferAgg state).entries.filter fun e => isListed state e.1).filter
    fun e => sel e.1 = pid) = entries
  have hsub : entries.Sublist (transferAgg state).entries := by
    rw [← hentries]
    exact List.filter_sublist.trans List.filter_sublist
  have hmem : ∀ {e}, e ∈ entries ↔
      e ∈ (transferAgg state).entries ∧ isListed state e.1 = true ∧ sel e.1 = pid := by
    intro e
    rw [← hentries, List.mem_filter, List.mem_filter, decide_eq_true_eq, and_assoc]
  have hkeys : (entries.map Prod.fst).Nodup := (transferAgg state).nodup.sublist (hsub.map _)
  have hl : ∀ p ∈ (listedTransfers state).filter (fun p => sel p = pid),
      id p ∈ entries.map Prod.fst := by
    intro p hp
    obtain ⟨hp, hsel⟩ := List.mem_filter.mp hp
    obtain ⟨hp, hlisted⟩ := List.mem_filter.mp hp
    have hkey : p ∈ (transferAgg state).normKeys :=
      ((transferAgg_counts state).mem_normKeys p).mpr ⟨p, hp, rfl⟩
    obtain ⟨e, he, rfl⟩ := List.mem_map.mp hkey
    exact List.mem_map_of_mem (hmem.mpr ⟨he, hlisted, of_decide_eq_true hsel⟩)
  rw [List.countP_eq_length_filter, ← (Tally.perm_fibers hkeys hl).length_eq, List.length_flatMap,
    List.map_map]
  congr 1
  apply List.map_congr_left
  intro e he
  obtain ⟨he, hlisted, hsel⟩ := hmem.mp he
  rw [((transferAgg_counts state).mem_entries he).1, Function.comp_apply, Tally.count,
    List.countP_eq_length_filter, listedTransfers, List.filter_filter, List.filter_filter]
  congr 1
  apply List.filter_congr
  intro p _
  have hnorm : (DictKey.norm e.1 : String × String) = e.1 := rfl
  by_cases hp : p = e.1
  · simp [hp, hlisted, hsel, hnorm]
  · simp [hp, hnorm]

theorem transferWeight_eq (key : OrganizationEdge → String) (sel : String × String → String)
    (hkey : ∀ a b w, key ⟨a, b, .transferredTo, w, 1⟩ = sel (a, b)) (pid : String) :
    transferWeight ((buildEdges state).filter fun e => key e = pid) =
      (listedTransfers state).countP fun p => sel p = pid := by
  rw [transferWeight, List.filter_filter, ← sum_transferAgg state sel pid]
  have hcomm : (buildEdges state).filter (fun e => isTransfer e && decide (key e = pid)) =
      ((buildEdges state).filter isTransfer).filter fun e => key e = pid := by
    rw [List.filter_filter]
    apply List.filter_congr
    intro e _
    exact Bool.and_comm ..
  rw [hcomm, transferEdges_eq, List.filter_map, List.map_map]
  have hsel : ∀ e : (String × String) × Nat,
      key ⟨e.1.1, e.1.2, .transferredTo, e.2, 1⟩ = sel e.1 := fun e => hkey e.1.1 e.1.2 e.2
  have htruncate : ∀ n : Nat, truncate (n : ℚ) = n := fun n => by simp [truncate]
  simp only [Function.comp_def, hsel, htruncate]
  rw [Nat.cast_list_sum, List.map_map]
  rfl

theorem mem_keys_buildNodes_iff {pid : String} :
    pid ∈ (buildNodes state).keys ↔ pid ∈ state.projectIds := by
  constructor
  · intro h
    obtain ⟨e, he, rfl⟩ := List.mem_map.mp h
    obtain ⟨before, e', after, hsplit, hkey, -⟩ :=
      OrdDict.get?_ofList_eq_some_iff.mp (OrdDict.get?_of_mem he)
    have hmem : e' ∈ state.projectIds.map fun pid => (pid, nodeOf state pid) := by
      rw [hsplit]
      exact List.mem_append_right _ List.mem_cons_self
    obtain ⟨pid, hpid, rfl⟩ := List.mem_map.mp hmem
    have hpid' : pid = e.1 := hkey
    exact hpid' ▸ hpid
  · exact mem_keys_buildNodes state

/-- The balances are those of the listed projects. -/
theorem mem_flowBalance (cubeRoot : ℚ → ℚ) (now : String) {pid : String} {balance : Int} :
    (pid, balance) ∈ (project cubeRoot now state).knowledgeFlowBalance.entries ↔
      pid ∈ state.projectIds ∧ balance = flowOf state pid := by
  have hentries : (project cubeRoot now state).knowledgeFlowBalance.entries =
      (buildNodes state).keys.map fun pid => (pid, flowOf state pid) := by
    refine entries_computeFlowBalance.trans (List.map_congr_left fun pid _ => ?_)
    rw [transferWeight_eq state OrganizationEdge.source Prod.fst (fun _ _ _ => rfl),
      transferWeight_eq state OrganizationEdge.target Prod.snd (fun _ _ _ => rfl)]
    rfl
  rw [hentries, List.mem_map]
  constructor
  · rintro ⟨pid', hpid', heq⟩
    obtain ⟨rfl, rfl⟩ := Prod.mk.inj heq
    exact ⟨(mem_keys_buildNodes_iff state).mp hpid', rfl⟩
  · rintro ⟨hpid, rfl⟩
    exact ⟨pid, (mem_keys_buildNodes_iff state).mpr hpid, rfl⟩

end Flow

/-! ## Attention -/

/-- Nothing happened in a project lately. -/
def Quiet (recent : Recent) (pid : String) : Prop :=
  (recent.events.get? pid).getD [] = [] ∧ (recent.knowledge.get? pid).getD [] = [] ∧
    (recent.memories.get? pid).getD [] = []

theorem mem_inactiveProjects {projectIds : List String} {recent : Recent} {pid : String} :
    pid ∈ (OrganizationActivityProjection.buildProjectActivity projectIds recent).2 ↔
      pid ∈ projectIds ∧ Quiet recent pid := by
  have hquiet : ∀ pid, OrganizationActivityProjection.isInactive
      (OrganizationActivityProjection.projectActivity recent pid) = true ↔ Quiet recent pid := by
    intro pid
    simp [OrganizationActivityProjection.isInactive,
      OrganizationActivityProjection.projectActivity, Quiet, and_assoc]
  simp only [OrganizationActivityProjection.buildProjectActivity, Table.mem_orderBy,
    List.filter_map, List.map_map, List.mem_map, List.mem_filter, Function.comp_apply]
  constructor
  · rintro ⟨pid', ⟨hpid', hinactive⟩, rfl⟩
    exact ⟨hpid', (hquiet pid').mp hinactive⟩
  · rintro ⟨hpid, h⟩
    exact ⟨pid, ⟨hpid, (hquiet pid).mpr h⟩, rfl⟩

/-- A project needs attention exactly if it is listed and quiet, has a conflict with a listed
project, or is listed and takes more items than it gives. -/
theorem mem_attention_iff (timestampValue : String → Option ℚ) (cubeRoot : ℚ → ℚ)
    (state : OrganizationState) (recent : Recent) (window : Int) (now : String) (pid : String) :
    pid ∈ OrganizationContinuationProjection.computeProjectsNeedingAttention
      (OrganizationActivityProjection.project timestampValue state.projectIds recent state window
        now)
      (OrganizationGraphProjection.project cubeRoot now state) ↔
      (pid ∈ state.projectIds ∧ Quiet recent pid) ∨ 0 < conflictSides state pid ∨
        (pid ∈ state.projectIds ∧ flowOf state pid < 0) := by
  have hconflict : pid ∈ (OrganizationGraphProjection.project cubeRoot now
      state).contradictionHotspots.map Prod.fst ↔ 0 < conflictSides state pid := by
    have hspec := (hotspots_spec state cubeRoot now).2.2 pid
    rw [List.mem_map]
    constructor
    · rintro ⟨⟨pid', score⟩, he, rfl⟩
      exact ((hspec score).mp he).1
    · intro hpos
      exact ⟨_, (hspec _).mpr ⟨hpos, rfl⟩, rfl⟩
  have hflow : pid ∈ (OrganizationContinuationProjection.extremeConsumers
      (OrganizationGraphProjection.project cubeRoot now state)).map Prod.fst ↔
      pid ∈ state.projectIds ∧ flowOf state pid < 0 := by
    simp only [OrganizationContinuationProjection.extremeConsumers, List.mem_map, List.mem_filter,
      decide_eq_true_eq]
    constructor
    · rintro ⟨⟨pid', balance⟩, ⟨he, hneg⟩, rfl⟩
      obtain ⟨hpid, rfl⟩ := (mem_flowBalance state cubeRoot now).mp he
      exact ⟨hpid, hneg⟩
    · rintro ⟨hpid, hneg⟩
      exact ⟨_, ⟨(mem_flowBalance state cubeRoot now).mpr ⟨hpid, rfl⟩, hneg⟩, rfl⟩
  rw [OrganizationContinuationProjection.computeProjectsNeedingAttention, mem_sortedSet,
    List.mem_append, List.mem_append, hconflict, hflow, or_assoc]
  exact or_congr_left mem_inactiveProjects

end RationaleVault.Organization
