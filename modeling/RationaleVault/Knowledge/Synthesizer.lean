import RationaleVault.Knowledge.Models
import RationaleVault.Library.Table
import RationaleVault.Memory.Models

/-!
# The knowledge synthesizer

Seven detectors draw knowledge objects from groups of the project's memories.
Afterwards every object of the existing knowledge is marked: as superseded by
the new object of its type that shares the most memories with it, or as stale
when no new object shares a memory with it.
-/

namespace RationaleVault

namespace KnowledgeSynthesizer

variable (u : UnicodeTables) (float : ℚ → FloatLit)

/-! ## Groups of memories -/

/-- The loop of `_cluster_by_similarity` with the ids visited so far. -/
def clusterFrom (threshold : ℚ) : List MemoryRecord → List String → List (List MemoryRecord)
  | [], _ => []
  | m1 :: rest, visited =>
      if m1.id ∈ visited then clusterFrom threshold rest visited
      else
        let cluster := m1 :: rest.filter fun m2 => decide (m2.id ∉ visited) &&
          decide (threshold ≤ PythonText.jaccardSimilarity u m1.content m2.content)
        if 1 < cluster.length then
          cluster :: clusterFrom threshold rest (visited ++ cluster.map MemoryRecord.id)
        else clusterFrom threshold rest visited

/-- `_cluster_by_similarity(memories, threshold)`. -/
def clusterBySimilarity (memories : List MemoryRecord) (threshold : ℚ) :
    List (List MemoryRecord) := clusterFrom u threshold memories []

def ofType (memoryType : MemoryType) (memories : List MemoryRecord) : List MemoryRecord :=
  memories.filter fun m => m.memoryType = memoryType

/-- Whether `_detect_project_invariants` takes a memory for an invariant. -/
def isInvariant (mem : MemoryRecord) : Bool :=
  let contentLower := (u.lower mem.content).toList
  decide (mem.memoryType = .architecture) && decide (mem.importance = "critical") &&
    (["must", "never", "always", "required"].any (fun word =>
        PythonText.contains word.toList contentLower) ||
      mem.tags.any fun tag => ["invariant", "always", "never", "required", "must"].contains tag)

/-- The clusters of the architecture memories, and each memory outside them by itself. -/
def architectureClusters (memories : List MemoryRecord) : List (List MemoryRecord) :=
  let archMemories := ofType .architecture memories
  let clusters := clusterBySimilarity u archMemories (2 / 5)
  clusters ++ (archMemories.filter fun mem =>
    decide (mem.id ∉ clusters.flatten.map MemoryRecord.id)).map fun mem => [mem]

/-- `_find_matching_rationale(decision, rationales)`. -/
def findMatchingRationale (decision : MemoryRecord) (rationales : List MemoryRecord) :
    Option MemoryRecord :=
  rationales.find? fun rat => rat.sourceEventIds.contains decision.id ||
    decide (1 / 5 ≤ PythonText.jaccardSimilarity u decision.content rat.content)

/-- A decision and its rationale. -/
def sourceMemories (memories : List MemoryRecord) (dec : MemoryRecord) : List MemoryRecord :=
  dec :: (findMatchingRationale u dec (ofType .decisionRationale memories)).toList

/-! ## What a group says -/

/-- `_compute_confidence(memories)`. -/
def computeConfidence (memories : List MemoryRecord) : KnowledgeConfidence :=
  if memories = [] then ⟨0, 0, 0, .zero⟩
  else
    ⟨memories.length, (memories.flatMap MemoryRecord.sourceEventIds).toFinset.card, 0,
      float ((memories.map fun m => m.confidence.value).sum / memories.length)⟩

/-- `_merge_cluster_content(cluster)`. -/
def mergeClusterContent (cluster : List MemoryRecord) : String :=
  match cluster with
  | [mem] => mem.content
  | _ => String.intercalate "\n" (cluster.zipIdx.map fun p =>
      toString (p.2 + 1) ++ ". " ++ p.1.content)

def importanceOrder (importance : String) : Nat :=
  if importance = "critical" then 0
  else if importance = "high" then 1
  else if importance = "medium" then 2
  else if importance = "low" then 3
  else 2

/-- `_extract_principal_title(cluster)`. -/
def extractPrincipalTitle (cluster : List MemoryRecord) : String :=
  match cluster with
  | [mem] => mem.title
  | _ =>
      match Table.orderBy (fun m => importanceOrder (u.lower m.importance)) cluster with
      | m :: _ => m.title
      | [] => ""

/-- `_extract_tags(cluster)`. -/
def extractTags (cluster : List MemoryRecord) : List String :=
  (cluster.flatMap MemoryRecord.tags).dedup.insertionSort (· ≤ ·)

/-- `_collect_event_ids(cluster)`, in some order. -/
def collectEventIds (cluster : List MemoryRecord) : List String :=
  (cluster.flatMap MemoryRecord.sourceEventIds).dedup

/-- The content of a decision lineage. -/
def lineageContent (sources : List MemoryRecord) : String :=
  match sources with
  | [] => ""
  | [dec] => "Decision: " ++ dec.content
  | dec :: rationale :: _ => "Decision: " ++ dec.content ++ "\nRationale: " ++ rationale.content

/-! ## Detectors -/

/-- Where and when knowledge is synthesized. -/
structure Context where
  projectId : String
  synthesisEventId : String
  now : String

/-- The provenance of an object drawn from a group. -/
def provenance (ctx : Context) (kId : String) (group : List MemoryRecord)
    (sourceEventIds : List String) : ProvenanceChain where
  knowledgeId := kId
  sourceMemoryIds := group.map MemoryRecord.id
  sourceEventIds := sourceEventIds
  synthesisEventId := ctx.synthesisEventId
  confidence := computeConfidence float group
  evidenceCount := group.length
  createdAt := ctx.now

/-- The object that the detectors of clusters draw from a cluster. -/
def fromCluster (ctx : Context) (knowledgeType : KnowledgeType) (domain : KnowledgeDomain)
    (importance : String) (transferability : KnowledgeTransferability)
    (cluster : List MemoryRecord) : KnowledgeObject :=
  let content := mergeClusterContent cluster
  let title := extractPrincipalTitle u cluster
  let kId := generateKnowledgeId u knowledgeType.value title content ctx.projectId
  { id := kId
    version := 1
    title := title
    content := content
    knowledgeType := knowledgeType
    knowledgeDomain := domain
    confidence := computeConfidence float cluster
    importance := importance
    provenance := provenance float ctx kId cluster (collectEventIds cluster)
    tags := extractTags cluster
    supportingMemoryIds := cluster.map MemoryRecord.id
    createdAt := ctx.now
    updatedAt := ctx.now
    projectId := ctx.projectId
    transferability := transferability.value }

/-- `_detect_project_invariants`. -/
def detectProjectInvariants (ctx : Context) (memories : List MemoryRecord) :
    List KnowledgeObject :=
  (memories.filter (isInvariant u)).map fun mem =>
    let kId := generateKnowledgeId u KnowledgeType.projectInvariant.value mem.title mem.content
      ctx.projectId
    { id := kId
      version := 1
      title := mem.title
      content := mem.content
      knowledgeType := .projectInvariant
      knowledgeDomain := .architecture
      confidence := computeConfidence float [mem]
      importance := "critical"
      provenance := provenance float ctx kId [mem] mem.sourceEventIds
      tags := mem.tags ++ ["invariant"]
      supportingMemoryIds := [mem.id]
      createdAt := ctx.now
      updatedAt := ctx.now
      projectId := ctx.projectId
      transferability := KnowledgeTransferability.organizational.value }

/-- `_detect_architecture_principles`. -/
def detectArchitecturePrinciples (ctx : Context) (memories : List MemoryRecord) :
    List KnowledgeObject :=
  (architectureClusters u memories).map
    (fromCluster u float ctx .architecturePrinciple .architecture "critical" .localOnly)

/-- `_detect_lessons`. -/
def detectLessons (ctx : Context) (memories : List MemoryRecord) : List KnowledgeObject :=
  (clusterBySimilarity u (ofType .lessonLearned memories) (7 / 20)).map
    (fromCluster u float ctx .lesson .process "medium" .reusable)

/-- `_detect_failure_patterns`. -/
def detectFailurePatterns (ctx : Context) (memories : List MemoryRecord) : List KnowledgeObject :=
  (clusterBySimilarity u (ofType .failure memories) (7 / 20)).map
    (fromCluster u float ctx .failurePattern .quality "high" .reusable)

/-- `_detect_workflow_patterns`. -/
def detectWorkflowPatterns (ctx : Context) (memories : List MemoryRecord) : List KnowledgeObject :=
  (clusterBySimilarity u (ofType .workflow memories) (7 / 20)).map
    (fromCluster u float ctx .workflowPattern .process "medium" .reusable)

/-- `_detect_research_findings`. -/
def detectResearchFindings (ctx : Context) (memories : List MemoryRecord) : List KnowledgeObject :=
  (clusterBySimilarity u (ofType .research memories) (2 / 5)).map
    (fromCluster u float ctx .researchFinding .research "medium" .reusable)

/-- `_build_decision_lineage`. -/
def buildDecisionLineage (ctx : Context) (memories : List MemoryRecord) : List KnowledgeObject :=
  (ofType .decision memories).map fun dec =>
    let sources := sourceMemories u memories dec
    let content := lineageContent sources
    let kId := generateKnowledgeId u KnowledgeType.decisionLineage.value dec.title content
      ctx.projectId
    { id := kId
      version := 1
      title := "Decision Lineage: " ++ dec.title
      content := content
      knowledgeType := .decisionLineage
      knowledgeDomain := .architecture
      confidence := computeConfidence float sources
      importance := dec.importance
      provenance := provenance float ctx kId sources dec.sourceEventIds
      tags := dec.tags
      supportingMemoryIds := sources.map MemoryRecord.id
      createdAt := ctx.now
      updatedAt := ctx.now
      projectId := ctx.projectId }

/-- The objects drawn from the memories of a project, detector after detector. -/
def synthesize (ctx : Context) (memories : List MemoryRecord) : List KnowledgeObject :=
  detectProjectInvariants u float ctx memories ++ detectArchitecturePrinciples u float ctx memories ++
    detectLessons u float ctx memories ++ detectFailurePatterns u float ctx memories ++
    detectWorkflowPatterns u float ctx memories ++ detectResearchFindings u float ctx memories ++
    buildDecisionLineage u float ctx memories

/-! ## Marking the existing knowledge -/

/-- How many supporting memories two objects share. -/
def overlap (k k' : KnowledgeObject) : Nat :=
  (k.supportingMemoryIds.toFinset ∩ k'.supportingMemoryIds.toFinset).card

/-- The search of `_mark_stale_knowledge` for the best match and its overlap. -/
def bestMatch (current : List KnowledgeObject) (existing : KnowledgeObject) :
    Option KnowledgeObject × Nat :=
  current.foldl (fun best new =>
    if new.knowledgeType ≠ existing.knowledgeType then best
    else if best.2 < overlap existing new then (some new, overlap existing new)
    else best) (none, 0)

/-- What `_mark_stale_knowledge` makes of one existing object. -/
def markOne (now : String) (current : List KnowledgeObject) (existing : KnowledgeObject) :
    KnowledgeObject :=
  let marked :=
    match bestMatch current existing with
    | (some new, _ + 1) =>
        { existing with
          lifecycleStatus := KnowledgeLifecycle.superseded.value
          supersededBy := some new.id }
    | _ =>
        if ∀ k ∈ current, overlap existing k = 0 then
          { existing with lifecycleStatus := KnowledgeLifecycle.stale.value }
        else existing
  { marked with updatedAt := now }

/-- `_mark_stale_knowledge(current, existing)`. -/
def markStaleKnowledge (now : String) (current existing : List KnowledgeObject) :
    List KnowledgeObject := existing.map (markOne now current)

/-- The memories of a project. -/
def projectMemories (allMemories : List MemoryRecord) (projectId : String) : List MemoryRecord :=
  allMemories.filter fun m => m.projectId = projectId

/-- `synthesize_all(project_id, existing_knowledge, synthesis_event_id)` over the given store: the
new knowledge, and what the existing knowledge has become. -/
def synthesizeAll (allMemories : List MemoryRecord) (ctx : Context)
    (existingKnowledge : Option (List KnowledgeObject)) :
    List KnowledgeObject × Option (List KnowledgeObject) :=
  let knowledge := synthesize u float ctx (projectMemories allMemories ctx.projectId)
  (knowledge, existingKnowledge.map (markStaleKnowledge ctx.now knowledge))

end KnowledgeSynthesizer

end RationaleVault
