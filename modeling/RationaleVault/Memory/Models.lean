import RationaleVault.Library.Sha256
import RationaleVault.Python
import RationaleVault.PythonNumber
import RationaleVault.PythonText

/-!
# Memory records

The id of a memory is a digest of its type, title and content.
-/

namespace RationaleVault

/-- `hashlib.sha256(data.encode("utf-8")).hexdigest()[:8].upper()`. -/
def shortHash (data : String) : String :=
  String.ofList (((Sha256.hexdigest data).toList.take 8).map Char.toUpper)

/-- Of some texts only equal ones have one short hash. -/
def CollisionFree (texts : List String) : Prop :=
  ∀ s ∈ texts, ∀ t ∈ texts, shortHash s = shortHash t → s = t

instance (texts : List String) : Decidable (CollisionFree texts) :=
  inferInstanceAs (Decidable (∀ s ∈ texts, ∀ t ∈ texts, shortHash s = shortHash t → s = t))

/-- A short hash has no characters but upper-case digits. -/
theorem not_mem_shortHash {c : Char} (hc : ∀ d < 16, (Hex.digit d).toUpper ≠ c) (data : String) :
    c ∉ (shortHash data).toList := by
  rw [shortHash, String.toList_ofList, List.mem_map]
  rintro ⟨digit, hdigit, hupper⟩
  obtain ⟨d, hd, rfl⟩ := Sha256.mem_hexdigest (List.mem_of_mem_take hdigit)
  exact hc d hd hupper

inductive MemoryType
  | decision
  | decisionRationale
  | lessonLearned
  | failure
  | architecture
  | implementationNote
  | research
  | workflow
  deriving DecidableEq

def MemoryType.value : MemoryType → String
  | decision => "DECISION"
  | decisionRationale => "DECISION_RATIONALE"
  | lessonLearned => "LESSON_LEARNED"
  | failure => "FAILURE"
  | architecture => "ARCHITECTURE"
  | implementationNote => "IMPLEMENTATION_NOTE"
  | research => "RESEARCH"
  | workflow => "WORKFLOW"

/-- `generate_memory_id(memory_type, title, content)`. -/
def generateMemoryId (u : UnicodeTables) (memoryType title content : String) : String :=
  Sha256.hexdigest (u.lower memoryType ++ ":" ++ PythonText.normalized u title ++ ":" ++
    PythonText.normalized u content)

/-- A memory record; `retrieval_priority` is computed from the importance. -/
structure MemoryRecord where
  id : String
  version : Int
  title : String
  content : String
  memoryType : MemoryType
  importance : String
  lifecycleStatus : String
  sourceEventIds : List String
  sourceType : String
  tags : List String := []
  confidence : FloatLit := .one
  referenceCount : Int := 0
  lastReferencedAt : Option String := none
  createdAt : String
  projectId : String := ""
  deriving DecidableEq

/-- `retrieval_priority`, which is set whenever a record is built. -/
def MemoryRecord.retrievalPriority (u : UnicodeTables) (r : MemoryRecord) : FloatLit :=
  let importance := u.lower r.importance
  if importance = "low" then .one
  else if importance = "medium" then .two
  else if importance = "high" then .three
  else if importance = "critical" then .five
  else .two

end RationaleVault
