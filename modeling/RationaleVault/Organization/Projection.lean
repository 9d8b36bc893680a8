import Mathlib.Algebra.Order.Field.Rat
import RationaleVault.CognitiveHead.Evidence
import RationaleVault.Knowledge.Models
import RationaleVault.Library.Forest
import RationaleVault.Library.Grouping
import RationaleVault.Library.OrdDict

/-!
# The state of the organization

A project sees the knowledge of the other projects that may leave them. Its state records every
transferable item under the project it comes from.

Lineages and shared knowledge are read from what the projects see of each other;
conflicts, spanning invariants and clusters from their knowledge itself. A project that
sees an item is counted among those that have it.
-/

namespace RationaleVault

/-- `is_transferable(transferability)`. -/
def isTransferable (transferability : String) : Bool :=
  transferability = KnowledgeTransferability.reusable.value ||
    transferability = KnowledgeTransferability.organizational.value

/-- An item of another project; how relevant it is to a query is left out. -/
structure CrossProjectKnowledge where
  knowledgeId : String
  sourceProjectId : String
  title : String
  content : String
  knowledgeType : String
  transferability : String
  confidence : ℚ
  deriving DecidableEq

structure CrossProjectState where
  projectId : String
  transferableKnowledge : List CrossProjectKnowledge := []
  provenanceMap : OrdDict String String := .empty

namespace CrossProjectProjection

/-- The record of an item of a project. -/
def recordOf (projId : String) (k : KnowledgeObject) : CrossProjectKnowledge where
  knowledgeId := k.id
  sourceProjectId := projId
  title := k.title
  content := k.content
  knowledgeType := k.knowledgeType.value
  transferability := k.transferability
  confidence := k.confidence.score

/-- Whether an item passes the filter; the empty filter lets every transferable item pass. -/
def passes (transferabilityFilter : List String) (k : KnowledgeObject) : Bool :=
  isTransferable k.transferability &&
    (transferabilityFilter.isEmpty || transferabilityFilter.contains k.transferability)

/-- `CrossProjectProjection.project(current_project_id, ..., target_knowledge, ...)`. -/
def project (currentProjectId : String)
    (targetKnowledge : OrdDict String (List KnowledgeObject))
    (transferabilityFilter : List String) : CrossProjectState :=
  let transferable := targetKnowledge.entries.flatMap fun target =>
    (target.2.filter (passes transferabilityFilter)).map (recordOf target.1)
  { projectId := currentProjectId
    transferableKnowledge := transferable
    provenanceMap := .ofList (transferable.map fun r => (r.knowledgeId, r.sourceProjectId)) }

/-- The states of all projects, each against the others, as `get_organization_state` makes them. -/
def states (knowledgeByProject : OrdDict String (List KnowledgeObject)) :
    OrdDict String CrossProjectState :=
  .ofList (knowledgeByProject.entries.map fun entry =>
    (entry.1, project entry.1 (knowledgeByProject.erase entry.1) []))

/-! ## What a project sees -/

variable {projects : OrdDict String (List KnowledgeObject)}

theorem entries_states : (states projects).entries = projects.entries.map fun entry =>
    (entry.1, project entry.1 (projects.erase entry.1) []) := by
  apply OrdDict.entries_ofList
  rw [List.map_map]
  exact projects.nodup

/-- The transferable items of the other projects. -/
theorem mem_transferable {projId : String} {r : CrossProjectKnowledge} :
    r ∈ (project projId (projects.erase projId) []).transferableKnowledge ↔
      ∃ entry ∈ projects.entries, entry.1 ≠ projId ∧
        ∃ k ∈ entry.2, isTransferable k.transferability = true ∧ r = recordOf entry.1 k := by
  simp only [project, OrdDict.erase, List.mem_flatMap, List.mem_filter, List.mem_map, passes,
    List.isEmpty_nil, Bool.true_or, Bool.and_true, decide_eq_true_eq, DictKey.norm_string]
  constructor
  · rintro ⟨entry, ⟨hentry, hne⟩, k, ⟨hk, htransferable⟩, rfl⟩
    exact ⟨entry, hentry, hne, k, hk, htransferable, rfl⟩
  · rintro ⟨entry, hentry, hne, k, hk, htransferable, rfl⟩
    exact ⟨entry, ⟨hentry, hne⟩, k, ⟨hk, htransferable⟩, rfl⟩

end CrossProjectProjection

end RationaleVault

/-! ## The state of the organization -/

namespace RationaleVault

structure KnowledgeLineage where
  knowledgeId : String
  originProject : String
  currentProjects : List String
  transferPath : List String
  depth : Nat
  deriving DecidableEq

structure SharedKnowledge where
  knowledgeId : String
  title : String
  knowledgeType : String
  presentInProjects : List String
  transferCount : Nat
  deriving DecidableEq

structure CrossProjectConflict where
  conflictId : String
  knowledgeAId : String
  knowledgeBId : String
  projectA : String
  projectB : String
  knowledgeATitle : String
  knowledgeBTitle : String
  confidence : ℚ
  reasons : List String
  deriving DecidableEq

structure TransferabilityTelemetry where
  localOnlyCount : Nat := 0
  reusableCount : Nat := 0
  organizationalCount : Nat := 0
  transferAttempts : Nat := 0
  transferMatches : Nat := 0
  acceptanceRate : ℚ := 0
  deriving DecidableEq

structure OrganizationHealth where
  totalProjects : Nat
  totalKnowledge : Nat
  transferableKnowledge : Nat
  sharedKnowledgeCount : Nat
  knowledgeAdoptionRate : ℚ
  crossProjectConflicts : Nat
  invariantCount : Nat
  lineageDepthAvg : ℚ
  overall : ℚ
  deriving DecidableEq

structure OrganizationState where
  compiledAt : String
  projectIds : List String
  activeLineages : OrdDict String KnowledgeLineage
  sharedKnowledge : List SharedKnowledge
  crossProjectConflicts : List CrossProjectConflict
  invariantsAcrossProjects : List SharedKnowledge
  projectClusters : List (List String)
  transferabilityTelemetry : TransferabilityTelemetry
  health : OrganizationHealth

namespace OrganizationProjection

variable (u : UnicodeTables)

abbrev States := OrdDict String CrossProjectState

abbrev Projects := OrdDict String (List KnowledgeObject)

/-! ## Lineages -/

/-- The items that a project sees and that come from another project. -/
def transfers (states : States) : List (String × CrossProjectKnowledge) :=
  states.entries.flatMap fun e =>
    (e.2.transferableKnowledge.filter fun k => k.sourceProjectId ≠ e.2.projectId).map
      fun k => (e.1, k)

/-- `kid_projects` of the lineages: who sees an item and where it comes from. -/
def lineageProjects (states : States) : OrdDict String (List String) :=
  Grouping.lists Prod.fst Prod.snd ((transfers states).flatMap fun t =>
    [(t.2.knowledgeId, t.1), (t.2.knowledgeId, t.2.sourceProjectId)])

/-- `kid_source`. -/
def kidSource (states : States) : OrdDict String String :=
  .ofList ((transfers states).map fun t => (t.2.knowledgeId, t.2.sourceProjectId))

/-- The project that the first object with an id names, if it names one. -/
def namedProject (kid : String) (klist : List KnowledgeObject) : Option String :=
  (klist.find? fun k => k.id = kid && k.projectId ≠ "").map KnowledgeObject.projectId

/-- The origin of an item: what the last project says about it, else where it was seen. -/
def originOf (states : States) (knowledgeByProject : Projects) (kid : String) : String :=
  knowledgeByProject.entries.foldl (fun origin e => (namedProject kid e.2).getD origin)
    (((kidSource states).get? kid).getD "")

/-- Follow the source that one state gives for an item. -/
def stepPath (kid : String) (path : List String) (state : CrossProjectState) : List String :=
  match state.provenanceMap.get? kid with
  | none => path
  | some source => if path.getLast? = some source then path else path ++ [source]

/-- `transfer_path`. -/
def transferPath (states : States) (origin kid : String) : List String :=
  states.values.foldl (stepPath kid) [origin]

def lineageOf (states : States) (knowledgeByProject : Projects) (kid : String)
    (projects : List String) : KnowledgeLineage :=
  let origin := originOf states knowledgeByProject kid
  let path := transferPath states origin kid
  { knowledgeId := kid
    originProject := origin
    currentProjects := sortedSet projects
    transferPath := path
    depth := path.length - 1 }

/-- `_compute_active_lineages(cross_project_states, knowledge_by_project)`. -/
def computeActiveLineages (states : States) (knowledgeByProject : Projects) :
    OrdDict String KnowledgeLineage :=
  .ofList ((lineageProjects states).entries.map fun e =>
    (e.1, lineageOf states knowledgeByProject e.1 e.2))

/-! ## Shared knowledge -/

/-- Every item that a project sees. -/
def sightings (states : States) : List (String × CrossProjectKnowledge) :=
  states.entries.flatMap fun e => e.2.transferableKnowledge.map fun k => (e.1, k)

/-- `kid_projects` of the shared knowledge: who sees an item. -/
def seenBy (states : States) : OrdDict String (List String) :=
  Grouping.lists (fun s : String × CrossProjectKnowledge => s.2.knowledgeId) Prod.fst
    (sightings states)

/-- `kid_meta`. -/
def kidMeta (states : States) : OrdDict String (String × String) :=
  .ofList ((sightings states).map fun s => (s.2.knowledgeId, s.2.title, s.2.knowledgeType))

/-- An entry for what more than one project has. -/
def sharedEntry (knowledgeId : String) (about : String × String) (projects : List String) :
    Option SharedKnowledge :=
  if 1 < projects.dedup.length then
    some {
      knowledgeId := knowledgeId
      title := about.1
      knowledgeType := about.2
      presentInProjects := sortedSet projects
      transferCount := projects.dedup.length - 1 }
  else none

/-- `_detect_shared_knowledge(cross_project_states)`. -/
def detectSharedKnowledge (states : States) : List SharedKnowledge :=
  Table.orderBy SharedKnowledge.knowledgeId ((seenBy states).entries.filterMap fun e =>
    sharedEntry e.1 (((kidMeta states).get? e.1).getD ("", "")) e.2)

/-! ## Conflicts -/

/-- `_lexical_similarity(text_a, text_b)`. -/
def lexicalSimilarity (textA textB : String) : ℚ :=
  let wordsA := (PythonText.split (u.lower textA).toList).toFinset
  let wordsB := (PythonText.split (u.lower textB).toList).toFinset
  if wordsA = ∅ ∨ wordsB = ∅ then 0
  else ((wordsA ∩ wordsB).card : ℚ) / (wordsA ∪ wordsB).card

/-- `_deterministic_id(a, b)`. -/
def deterministicId (a b : String) : String :=
  let pair := String.ofList (['|'].intercalate ((Table.orderBy id [a, b]).map String.toList))
  String.ofList ((Sha256.hexdigest pair).toList.take 16)

/-- The key of the type and title index. -/
def titleKey (k : KnowledgeObject) : String × String := (k.knowledgeType.value, u.lower k.title)

/-- The conflict of two objects of different projects, when they diverge. -/
def conflictOf (projA projB : String) (kA kB : KnowledgeObject) : Option CrossProjectConflict :=
  if kA.content = kB.content then none
  else
    let sim := lexicalSimilarity u kA.content kB.content
    if sim ≤ 3 / 10 then none
    else some {
      conflictId := deterministicId kA.id kB.id
      knowledgeAId := kA.id
      knowledgeBId := kB.id
      projectA := projA
      projectB := projB
      knowledgeATitle := kA.title
      knowledgeBTitle := kB.title
      confidence := sim
      reasons := ["same_title", "same_type", "content_divergence"] }

def conflictsBetween (projA projB : String) (klistA klistB : List KnowledgeObject) :
    List CrossProjectConflict :=
  klistB.flatMap fun kB =>
    (klistA.filter fun kA => titleKey u kA = titleKey u kB).filterMap fun kA =>
      conflictOf u projA projB kA kB

/-- The conflicts of every project with each later one of a list. -/
def conflictsAmong (knowledgeByProject : Projects) : List String → List CrossProjectConflict
  | [] => []
  | projA :: rest =>
      (rest.flatMap fun projB => conflictsBetween u projA projB
        ((knowledgeByProject.get? projA).getD []) ((knowledgeByProject.get? projB).getD [])) ++
      conflictsAmong knowledgeByProject rest

/-- `_detect_cross_project_conflicts(knowledge_by_project)`. -/
def detectCrossProjectConflicts (knowledgeByProject : Projects) : List CrossProjectConflict :=
  Table.orderBy CrossProjectConflict.conflictId
    (conflictsAmong u knowledgeByProject (Table.orderBy id knowledgeByProject.keys))

/-! ## Spanning invariants -/

instance : DictKey (String × String) (String × String) := ⟨id⟩

def isInvariant (k : KnowledgeObject) : Bool :=
  k.knowledgeType.value = "PROJECT_INVARIANT" ||
    k.transferability = KnowledgeTransferability.organizational.value

/-- The key of an invariant: its title in lower case and its type. -/
def invariantKey (k : KnowledgeObject) : String × String := (u.lower k.title, k.knowledgeType.value)

/-- The invariants of all projects with their projects. -/
def invariants (knowledgeByProject : Projects) : List (String × KnowledgeObject) :=
  knowledgeByProject.entries.flatMap fun e => (e.2.filter isInvariant).map fun k => (e.1, k)

/-- `key_projects`. -/
def keyProjects (knowledgeByProject : Projects) : OrdDict (String × String) (List String) :=
  Grouping.lists (fun i : String × KnowledgeObject => invariantKey u i.2) Prod.fst
    (invariants knowledgeByProject)

/-- `key_meta`. -/
def keyMeta (knowledgeByProject : Projects) : OrdDict (String × String) (String × String) :=
  .ofList ((invariants knowledgeByProject).map fun i =>
    (invariantKey u i.2, i.2.title, i.2.knowledgeType.value))

/-- `_find_spanning_invariants(knowledge_by_project)`. -/
def findSpanningInvariants (knowledgeByProject : Projects) : List SharedKnowledge :=
  Table.orderBy SharedKnowledge.knowledgeId
    ((keyProjects u knowledgeByProject).entries.filterMap fun e =>
      sharedEntry e.1.1 (((keyMeta u knowledgeByProject).get? e.1).getD ("", "")) e.2)

/-! ## Clusters -/

/-- The words of all titles of a project. -/
def terms (klist : List KnowledgeObject) : List (List Char) :=
  klist.flatMap fun k => PythonText.split (u.lower k.title).toList

/-- The later and earlier projects that share a word with a project. -/
def neighbors (knowledgeByProject : Projects) (projectIds : List String) (a : String) :
    List String :=
  if a ∈ projectIds then
    projectIds.filter fun b => b ≠ a &&
      (terms u ((knowledgeByProject.get? a).getD [])).any fun w =>
        (terms u ((knowledgeByProject.get? b).getD [])).contains w
  else []

/-- The breadth-first search of a component: what was visited and the component. -/
def searchComponent (adj : String → List String) (nodes : List String)
    (hadj : ∀ a, a ∉ nodes → adj a = []) (queue visited component : List String) :
    List String × List String :=
  match queue with
  | [] => (visited, component)
  | node :: rest =>
      if _h : node ∈ visited then searchComponent adj nodes hadj rest visited component
      else
        searchComponent adj nodes hadj (rest ++ (adj node).filter (· ∉ node :: visited))
          (node :: visited) (component ++ [node])
  termination_by (DepthFirst.unmet nodes visited, queue.length)
  decreasing_by
    · exact Prod.Lex.right _ (by simp)
    · by_cases hnode : node ∈ nodes
      · exact Prod.Lex.left _ _ (DepthFirst.unmet_cons_lt hnode _h)
      · rw [hadj node hnode]
        have hle : DepthFirst.unmet nodes (node :: visited) ≤ DepthFirst.unmet nodes visited :=
          DepthFirst.unmet_cons_le
        obtain hlt | heq := Nat.lt_or_eq_of_le hle
        · exact Prod.Lex.left _ _ hlt
        · rw [heq]
          exact Prod.Lex.right _ (by simp)

theorem neighbors_eq_nil (knowledgeByProject : Projects) (projectIds : List String) (a : String)
    (ha : a ∉ projectIds) : neighbors u knowledgeByProject projectIds a = [] := if_neg ha

/-- `_cluster_projects(knowledge_by_project)`. -/
def clusterProjects (knowledgeByProject : Projects) : List (List String) :=
  if knowledgeByProject.keys.length ≤ 1 then knowledgeByProject.keys.map fun p => [p]
  else
    let projectIds := Table.orderBy id knowledgeByProject.keys
    let clusters := projectIds.foldl (fun found start =>
      if start ∈ found.1 then found
      else
        let (visited, component) := searchComponent (neighbors u knowledgeByProject projectIds)
          projectIds (neighbors_eq_nil u knowledgeByProject projectIds) [start] found.1 []
        (visited, found.2 ++ [Table.orderBy id component])) (([] : List String), ([] : List _))
    Table.orderBy (fun c => c.headD "") clusters.2

/-! ## Telemetry and health -/

/-- `_compute_telemetry(knowledge_by_project)`. -/
def computeTelemetry (knowledgeByProject : Projects) : TransferabilityTelemetry :=
  let count (t : KnowledgeTransferability) : Nat :=
    (knowledgeByProject.values.flatMap id).countP fun k => k.transferability = t.value
  let total := count .localOnly + count .reusable + count .organizational
  let matching := count .reusable + count .organizational
  { localOnlyCount := count .localOnly
    reusableCount := count .reusable
    organizationalCount := count .organizational
    transferAttempts := total
    transferMatches := matching
    acceptanceRate := if 0 < total then (matching : ℚ) / total else 0 }

/-- `_compute_health(...)`. -/
def computeHealth (activeLineages : OrdDict String KnowledgeLineage)
    (shared : List SharedKnowledge) (conflicts : List CrossProjectConflict)
    (invariants : List SharedKnowledge) (telemetry : TransferabilityTelemetry)
    (projectCount : Nat) : OrganizationHealth :=
  let transferable := telemetry.transferMatches
  let adoption : ℚ := if 0 < transferable then (shared.length : ℚ) / transferable else 0
  let depths := activeLineages.values.map KnowledgeLineage.depth
  let avgDepth : ℚ := if depths = [] then 0 else (depths.sum : ℚ) / depths.length
  let parts : List ℚ :=
    (if 0 < projectCount then [min 1 ((projectCount : ℚ) / 5)] else []) ++
      (if 0 < transferable then [min 1 adoption] else []) ++
      ([if conflicts = [] then 1 else max 0 (1 - (conflicts.length : ℚ) * (1 / 10)),
        min 1 ((invariants.length : ℚ) / max 1 (projectCount : ℚ))] : List ℚ)
  { totalProjects := projectCount
    totalKnowledge := telemetry.transferAttempts
    transferableKnowledge := transferable
    sharedKnowledgeCount := shared.length
    knowledgeAdoptionRate := adoption
    crossProjectConflicts := conflicts.length
    invariantCount := invariants.length
    lineageDepthAvg := avgDepth
    overall := parts.sum / parts.length }

/-- `OrganizationProjection.project(registry, cross_project_states, knowledge_by_project, ...)`. -/
def project (now : String) (states : States) (knowledgeByProject : Projects)
    (includeTelemetry : Bool) : OrganizationState :=
  let activeLineages := computeActiveLineages states knowledgeByProject
  let shared := detectSharedKnowledge states
  let conflicts := detectCrossProjectConflicts u knowledgeByProject
  let invariants := findSpanningInvariants u knowledgeByProject
  let telemetry := if includeTelemetry then computeTelemetry knowledgeByProject else {}
  { compiledAt := now
    projectIds := Table.orderBy id states.keys
    activeLineages := activeLineages
    sharedKnowledge := shared
    crossProjectConflicts := conflicts
    invariantsAcrossProjects := invariants
    projectClusters := clusterProjects u knowledgeByProject
    transferabilityTelemetry := telemetry
    health := computeHealth activeLineages shared conflicts invariants telemetry
      states.keys.length }

/-- `get_organization_state()` of the registered projects. -/
def getOrganizationState (now : String) (knowledgeByProject : Projects) : OrganizationState :=
  project u now (CrossProjectProjection.states knowledgeByProject) knowledgeByProject true

end OrganizationProjection

end RationaleVault
