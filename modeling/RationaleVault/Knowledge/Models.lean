import RationaleVault.Library.Sha256
import RationaleVault.Python
import RationaleVault.PythonNumber
import RationaleVault.PythonText

/-!
# Knowledge objects and their relations

Knowledge is synthesized from memories. The score of a confidence is computed
from its evidence whenever the confidence is built, and the epistemic status
is derived by the projection and not stored.

Relations are detected between every object and each later one of a list, so
the order of the list decides which of the two is the source.
-/

namespace RationaleVault

inductive KnowledgeType
  | architecturePrinciple
  | projectInvariant
  | lesson
  | failurePattern
  | workflowPattern
  | researchFinding
  | decisionLineage
  deriving DecidableEq

def KnowledgeType.value : KnowledgeType → String
  | architecturePrinciple => "ARCHITECTURE_PRINCIPLE"
  | projectInvariant => "PROJECT_INVARIANT"
  | lesson => "LESSON"
  | failurePattern => "FAILURE_PATTERN"
  | workflowPattern => "WORKFLOW_PATTERN"
  | researchFinding => "RESEARCH_FINDING"
  | decisionLineage => "DECISION_LINEAGE"

inductive KnowledgeDomain
  | architecture
  | process
  | quality
  | research
  | operations
  deriving DecidableEq

def KnowledgeDomain.value : KnowledgeDomain → String
  | architecture => "ARCHITECTURE"
  | process => "PROCESS"
  | quality => "QUALITY"
  | research => "RESEARCH"
  | operations => "OPERATIONS"

inductive KnowledgeLifecycle
  | active
  | stale
  | superseded
  | archived
  deriving DecidableEq

def KnowledgeLifecycle.value : KnowledgeLifecycle → String
  | active => "ACTIVE"
  | stale => "STALE"
  | superseded => "SUPERSEDED"
  | archived => "ARCHIVED"

inductive KnowledgeTransferability
  | localOnly
  | reusable
  | organizational
  deriving DecidableEq

def KnowledgeTransferability.value : KnowledgeTransferability → String
  | localOnly => "LOCAL_ONLY"
  | reusable => "REUSABLE"
  | organizational => "ORGANIZATIONAL"

inductive EpistemicStatus
  | proposed
  | validated
  | invariant
  | conflicted
  | tombstoned
  deriving DecidableEq

def EpistemicStatus.value : EpistemicStatus → String
  | proposed => "PROPOSED"
  | validated => "VALIDATED"
  | invariant => "INVARIANT"
  | conflicted => "CONFLICTED"
  | tombstoned => "TOMBSTONED"

/-- `generate_knowledge_id(knowledge_type, title, content, project_id)`. -/
def generateKnowledgeId (u : UnicodeTables) (knowledgeType title content projectId : String) :
    String :=
  Sha256.hexdigest (u.lower knowledgeType ++ ":" ++ projectId ++ ":" ++
    PythonText.normalized u title ++ ":" ++ PythonText.normalized u content)

structure KnowledgeConfidence where
  memoryCount : Int
  sourceEventCount : Int
  contradictionCount : Int
  averageMemoryConfidence : FloatLit
  deriving DecidableEq

/-- `score`, which is set whenever a confidence is built. -/
def KnowledgeConfidence.score (c : KnowledgeConfidence) : ℚ :=
  if c.memoryCount = 0 then 0
  else
    let base := c.averageMemoryConfidence.value
    let evidenceBoost : ℚ := min (1 / 5) (c.memoryCount * (1 / 20))
    let contradictionPenalty : ℚ := c.contradictionCount * (3 / 20)
    max 0 (min 1 (base + evidenceBoost - contradictionPenalty))

structure ProvenanceChain where
  knowledgeId : String
  sourceMemoryIds : List String
  sourceEventIds : List String
  synthesisEventId : String
  confidence : KnowledgeConfidence
  evidenceCount : Int
  createdAt : String
  deriving DecidableEq

structure KnowledgeObject where
  id : String
  version : Int
  title : String
  content : String
  knowledgeType : KnowledgeType
  knowledgeDomain : KnowledgeDomain
  confidence : KnowledgeConfidence
  importance : String
  provenance : ProvenanceChain
  tags : List String := []
  supportingMemoryIds : List String := []
  contradictingMemoryIds : List String := []
  lifecycleStatus : String := KnowledgeLifecycle.active.value
  supersededBy : Option String := none
  createdAt : String
  updatedAt : String
  projectId : String := ""
  transferability : String := KnowledgeTransferability.localOnly.value
  epistemicStatus : EpistemicStatus := .proposed
  deriving DecidableEq

end RationaleVault

/-! ## Relations between knowledge objects -/

namespace RationaleVault

inductive RelationType
  | supports
  | contradicts
  | derivedFrom
  | supersedes
  | relatedTo
  deriving DecidableEq

/-- A relation; the time at which it was detected is left out. -/
structure KnowledgeRelation where
  sourceId : String
  targetId : String
  relationType : RelationType
  confidence : ℚ
  deriving DecidableEq

variable (u : UnicodeTables)

/-- `detect_contradiction(s1, s2)`. -/
def detectContradiction (s1 s2 : String) : Bool :=
  let s1l := (u.lower s1).toList
  let s2l := (u.lower s2).toList
  let has (needle : String) (cs : List Char) : Bool := PythonText.contains needle.toList cs
  (has "sqlite" s1l && has "postgres" s2l) || (has "postgres" s1l && has "sqlite" s2l) ||
    (has "fastapi" s1l && has "flask" s2l) || (has "flask" s1l && has "fastapi" s2l) ||
    ["not", "never", "no longer", "don't"].any fun neg =>
      ((has neg s1l && !has neg s2l) || (has neg s2l && !has neg s1l)) &&
        decide (2 / 5 < PythonText.getJaccardSimilarity u s1 s2)

/-- `_topic_overlap(k1, k2)`. -/
def topicOverlap (k1 k2 : KnowledgeObject) : Bool :=
  decide (k1.knowledgeDomain = k2.knowledgeDomain) ||
    decide (2 ≤ (k1.tags.toFinset ∩ k2.tags.toFinset).card) ||
    decide (3 / 10 ≤ PythonText.jaccardSimilarity u k1.content k2.content)

/-- The relation that `detect_relations` finds from an object to a later one. -/
def relation (k1 k2 : KnowledgeObject) : Option KnowledgeRelation :=
  if detectContradiction u k1.content k2.content then
    some ⟨k1.id, k2.id, .contradicts, 9 / 10⟩
  else if k1.knowledgeType = k2.knowledgeType then
    let sim := PythonText.jaccardSimilarity u k1.content k2.content
    if 1 / 2 ≤ sim then some ⟨k1.id, k2.id, .supports, sim⟩ else none
  else if topicOverlap u k1 k2 then some ⟨k1.id, k2.id, .relatedTo, 3 / 5⟩
  else none

/-- `detect_relations(knowledge)`. -/
def detectRelations : List KnowledgeObject → List KnowledgeRelation
  | [] => []
  | k1 :: rest => rest.filterMap (relation u k1) ++ detectRelations rest

/-- Whether two objects have a supporting memory in common. -/
def sharesMemory (k other : KnowledgeObject) : Bool :=
  k.supportingMemoryIds.any fun m => other.supportingMemoryIds.contains m

/-- The sources that `build_derivation_chain` lists for one object. -/
def derivationSources (knowledge : List KnowledgeObject) (k : KnowledgeObject) : List String :=
  (knowledge.filter fun other => decide (other.id ≠ k.id) && sharesMemory k other).map
    KnowledgeObject.id

/-- `build_derivation_chain(knowledge)`. -/
def buildDerivationChain (knowledge : List KnowledgeObject) : OrdDict String (List String) :=
  .ofList (knowledge.map fun k => (k.id, derivationSources knowledge k))

end RationaleVault
