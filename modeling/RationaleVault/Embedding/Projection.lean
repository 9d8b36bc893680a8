import RationaleVault.Library.Sha256
import RationaleVault.Python
import RationaleVault.PythonSort
import RationaleVault.PythonText
import RationaleVault.Schema.Events

/-!
# Embedding projection

The state holds the canonical texts of the knowledge nodes, without vectors. A node id is a payload
value, so it can be any hashable scalar.

The reducer renders each knowledge node to its canonical text. The state keeps the text, the type,
the importance and the tags of a node, but not its title, content and domain: an update that does not
carry them takes the title from the first line of the text and leaves content and domain empty.
-/

namespace RationaleVault

/-- `CanonicalKnowledgeRenderer.content_hash(canonical_text)`. -/
def contentHash (canonicalText : String) : String := Sha256.hexdigest canonicalText

/-- The entry of a node. -/
structure NodeInfo where
  canonicalText : String
  contentHash : String
  knowledgeType : Json
  importance : Json
  tags : List String
  lifecycle : String := "active"
  deriving DecidableEq

structure EmbeddingState where
  nodes : OrdDict Atom NodeInfo := .empty
  provider : String := "sentence-transformers"
  model : String := "all-MiniLM-L6-v2"
  version : Int := 1
  dimension : Int := 384
  sequence : Nat := 0

/-- `node_count`. -/
def EmbeddingState.nodeCount (s : EmbeddingState) : Nat := s.nodes.entries.length

/-- What the vectors depend on besides the texts. -/
def EmbeddingState.specification (s : EmbeddingState) : String × String × Int :=
  (s.provider, s.model, s.version)

end RationaleVault

/-! ## Embedding projection -/

namespace RationaleVault

namespace CanonicalKnowledgeRenderer

/-- The words of a line with single spaces between them. -/
def collapsed (line : List Char) : List Char := [' '].intercalate (PythonText.split line)

/-- `_normalize_whitespace(text)`. -/
def normalizeWhitespace (text : List Char) : List Char :=
  ['\n'].intercalate ((PythonText.splitlines (PythonText.strip text)).map collapsed)

/-- `_normalize_whitespace(value)`: only texts have a method `strip`. -/
def normalizeValue : Json → Except Exc (List Char)
  | .str s => .ok (normalizeWhitespace s.toList)
  | _ => .error (.attributeError "strip")

/-- The value as a piece of a joined text. -/
def textOf : Json → Except Exc String
  | .str s => .ok s
  | _ => .error .typeError

/-- `sorted(tags)` for tags that are joined. What is no text raises in the sorting or the joining. -/
def sortedTexts (tags : Json) : Except Exc (List String) := do
  let items ← tags.toList
  let texts ← items.mapM textOf
  return texts.insertionSort (· ≤ ·)

/-- The line of the tags. -/
def tagsLine (tags : Json) : Except Exc String :=
  if tags.truthy then return ",".intercalate (← sortedTexts tags) else .ok ""

/-- The canonical text of normalized parts. -/
def joinParts (title : List Char) (knowledgeType importance domain tags nodeId : String)
    (content : List Char) : String :=
  "# " ++ String.ofList title ++ "\ntype: " ++ knowledgeType ++ "\nimportance: " ++ importance ++
    "\ndomain: " ++ domain ++ "\ntags: " ++ tags ++ "\nnode_id: " ++ nodeId ++ "\n\n" ++
    String.ofList content

/-- `render(node_id, title, content, knowledge_type, tags, importance, domain)`. -/
def render (fmt : FormatText) (nodeId title content knowledgeType tags importance domain : Json) :
    Except Exc String := do
  let normalizedContent ← normalizeValue content
  let normalizedTitle ← normalizeValue title
  let tags ← tagsLine tags
  return joinParts normalizedTitle (fmt.format knowledgeType) (fmt.format importance)
    (fmt.format domain) tags (fmt.format nodeId) normalizedContent

end CanonicalKnowledgeRenderer

open CanonicalKnowledgeRenderer

namespace EmbeddingProjection

/-- `payload.get("knowledge_id", payload.get("id", ""))`. -/
def nodeId (payload : JsonObj) : Json := payload.getD "knowledge_id" (payload.getD "id" (.str ""))

/-- `payload.get("knowledge_domain", payload.get("domain", ""))`. -/
def domain (payload : JsonObj) : Json :=
  payload.getD "knowledge_domain" (payload.getD "domain" (.str ""))

variable (fmt : FormatText)

/-- The text that `_add_node` renders for a payload. -/
def renderPayload (payload : JsonObj) : Except Exc String :=
  render fmt (nodeId payload) (payload.getD "title" (.str "")) (payload.getD "content" (.str ""))
    (payload.getD "knowledge_type" (.str "")) (payload.getD "tags" (.arr []))
    (payload.getD "importance" (.str "")) (domain payload)

/-- The entry that `_add_node` makes for a payload. -/
def createdInfo (payload : JsonObj) : Except Exc NodeInfo := do
  let canonicalText ← renderPayload fmt payload
  return {
    canonicalText := canonicalText
    contentHash := contentHash canonicalText
    knowledgeType := payload.getD "knowledge_type" (.str "")
    importance := payload.getD "importance" (.str "")
    tags := ← sortedTexts (payload.getD "tags" (.arr [])) }

/-- `_add_node(state, event)`. -/
def addNode (state : EmbeddingState) (payload : JsonObj) : Except Exc EmbeddingState := do
  if !(nodeId payload).truthy then return state
  let info ← createdInfo fmt payload
  let key ← (nodeId payload).hash
  return { state with nodes := state.nodes.set key info }

/-- The title that the first line of a canonical text shows. -/
def defaultTitle (canonicalText : String) : String :=
  String.ofList (PythonText.strip ((canonicalText.toList.takeWhile (· ≠ '\n')).dropWhile fun c =>
    c = '#' || c = ' '))

/-- The entry that `_update_node` leaves for a node. -/
def updatedInfo (existing : NodeInfo) (payload : JsonObj) : Except Exc NodeInfo := do
  let knowledgeType := payload.getD "knowledge_type" existing.knowledgeType
  let importance := payload.getD "importance" existing.importance
  let tags := payload.getD "tags" (.arr (existing.tags.map .str))
  let newCanonical ← render fmt (nodeId payload)
    (payload.getD "title" (.str (defaultTitle existing.canonicalText)))
    (payload.getD "content" (.str "")) knowledgeType tags importance (domain payload)
  if contentHash newCanonical ≠ existing.contentHash then
    return {
      canonicalText := newCanonical
      contentHash := contentHash newCanonical
      knowledgeType := knowledgeType
      importance := importance
      tags := ← sortedTexts tags }
  else return existing

/-- `_update_node(state, event)`. -/
def updateNode (state : EmbeddingState) (payload : JsonObj) : Except Exc EmbeddingState := do
  if !(nodeId payload).truthy then return state
  let key ← (nodeId payload).hash
  match state.nodes.get? key with
  | none => return state
  | some existing =>
      return { state with nodes := state.nodes.set key (← updatedInfo fmt existing payload) }

/-- `_remove_node(state, event)`. -/
def removeNode (state : EmbeddingState) (payload : JsonObj) : Except Exc EmbeddingState := do
  if !(nodeId payload).truthy then return state
  let key ← (nodeId payload).hash
  return { state with nodes := state.nodes.erase key }

/-- `_apply_event(state, event)`. -/
def applyEvent (state : EmbeddingState) (event : EventRecord) : Except Exc EmbeddingState :=
  match event.eventType with
  | .knowledgeCreated => addNode fmt state event.payload
  | .knowledgeUpdated => updateNode fmt state event.payload
  | .knowledgeDeleted => removeNode state event.payload
  | .knowledgeSynthesized => addNode fmt state event.payload
  | .knowledgeSuperseded => removeNode state event.payload
  | _ => .ok state

/-- `reduce(events, initial_state)`. -/
def reduce (events : List EventRecord) (initialState : Option EmbeddingState) :
    Except Exc EmbeddingState := do
  let state ← events.foldlM (applyEvent fmt) (initialState.getD {})
  match (events.map EventRecord.eventSequence).max? with
  | none => return state
  | some lastSeq => return { state with sequence := max state.sequence lastSeq }

/-- The snapshot payload. -/
structure Snapshot where
  nodes : OrdDict Atom NodeInfo
  provider : String
  model : String
  version : Int
  dimension : Int
  sequence : Nat
  schemaVersion : Int

/-- `serialize(state)`. -/
def serialize (state : EmbeddingState) : Except Exc Snapshot := do
  let nodesSorted ← sortedBy AtomNorm.comparable AtomNorm.le
    (fun e : Atom × NodeInfo => DictKey.norm e.1) state.nodes.entries
  return {
    nodes := OrdDict.ofList nodesSorted
    provider := state.provider
    model := state.model
    version := state.version
    dimension := state.dimension
    sequence := state.sequence
    schemaVersion := 1 }

/-- `deserialize(payload)`. -/
def deserialize (payload : Snapshot) : EmbeddingState where
  nodes := OrdDict.ofList payload.nodes.entries
  provider := payload.provider
  model := payload.model
  version := payload.version
  dimension := payload.dimension
  sequence := payload.sequence

end EmbeddingProjection

end RationaleVault
