import RationaleVault.Knowledge.Models
import RationaleVault.MarkdownProvider

/-!
# The Markdown knowledge store

An object is written with all its fields, and building it again computes the
score of its confidences anew.
-/

namespace RationaleVault

variable (ft : FloatText)

/-! ## Dictionaries -/

namespace KnowledgeConfidence

/-- `to_dict()`. -/
def toDict (c : KnowledgeConfidence) : JsonObj :=
  [("memory_count", .int c.memoryCount),
    ("source_event_count", .int c.sourceEventCount),
    ("contradiction_count", .int c.contradictionCount),
    ("average_memory_confidence", .atom (.float c.averageMemoryConfidence)),
    ("score", .atom (.float (ft.repr c.score)))]

/-- `from_dict(d)`. Computing the score needs numbers unless there are no memories. -/
def fromDict (d : JsonObj) : Except Exc (Option KnowledgeConfidence) :=
  let memoryCount := d.getD "memory_count" (.int 0)
  let sourceEventCount := d.getD "source_event_count" (.int 0)
  let contradictionCount := d.getD "contradiction_count" (.int 0)
  let averageMemoryConfidence := d.getD "average_memory_confidence" (.atom (.float .zero))
  if memoryCount.eqInt 0 ||
      [memoryCount, contradictionCount, averageMemoryConfidence].all Json.isNumber then
    .ok do
      some
        { memoryCount := ← memoryCount.int?
          sourceEventCount := ← sourceEventCount.int?
          contradictionCount := ← contradictionCount.int?
          averageMemoryConfidence := ← averageMemoryConfidence.float? }
  else .error .typeError

/-- The confidence of an object or a provenance. A number or a text of one gives a confidence
without evidence. -/
def ofJson : Json → Except Exc (Option KnowledgeConfidence)
  | .obj d => fromDict d.reverse
  | .atom .null => .error .typeError
  | .atom (.str s) =>
      if ft.parses s then .ok (some ⟨0, 0, 0, .zero⟩)
      else .error (.valueError "could not convert string to float")
  | .atom _ => .ok (some ⟨0, 0, 0, .zero⟩)
  | .arr _ => .error .typeError

end KnowledgeConfidence

namespace ProvenanceChain

/-- `to_dict()`. -/
def toDict (p : ProvenanceChain) : JsonObj :=
  [("knowledge_id", .str p.knowledgeId),
    ("source_memory_ids", .strs p.sourceMemoryIds),
    ("source_event_ids", .strs p.sourceEventIds),
    ("synthesis_event_id", .str p.synthesisEventId),
    ("confidence", .obj (p.confidence.toDict ft)),
    ("evidence_count", .int p.evidenceCount),
    ("created_at", .str p.createdAt)]

/-- `from_dict(d)` at the time `now`. -/
def fromDict (now : String) (d : JsonObj) : Except Exc (Option ProvenanceChain) := do
  let confidence ← KnowledgeConfidence.ofJson ft (d.getD "confidence" (.obj []))
  return do
    some
      { knowledgeId := ← (d.getD "knowledge_id" (.str "")).str?
        sourceMemoryIds := ← (d.getD "source_memory_ids" (.arr [])).strs?
        sourceEventIds := ← (d.getD "source_event_ids" (.arr [])).strs?
        synthesisEventId := ← (d.getD "synthesis_event_id" (.str "")).str?
        confidence := ← confidence
        evidenceCount := ← (d.getD "evidence_count" (.int 0)).int?
        createdAt := ← (d.getD "created_at" (.str now)).str? }

end ProvenanceChain

/-- `KnowledgeType(v)`. -/
def KnowledgeType.ofJson (v : Json) : Except Exc KnowledgeType :=
  v.enum [.architecturePrinciple, .projectInvariant, .lesson, .failurePattern, .workflowPattern,
    .researchFinding, .decisionLineage] KnowledgeType.value "is not a valid KnowledgeType"

/-- `KnowledgeDomain(v)`. -/
def KnowledgeDomain.ofJson (v : Json) : Except Exc KnowledgeDomain :=
  v.enum [.architecture, .process, .quality, .research, .operations] KnowledgeDomain.value
    "is not a valid KnowledgeDomain"

/-- `EpistemicStatus(v)`. -/
def EpistemicStatus.ofJson (v : Json) : Except Exc EpistemicStatus :=
  v.enum [.proposed, .validated, .invariant, .conflicted, .tombstoned] EpistemicStatus.value
    "is not a valid EpistemicStatus"

namespace KnowledgeObject

/-- `to_dict()`. -/
def toDict (k : KnowledgeObject) : JsonObj :=
  [("id", .str k.id),
    ("version", .int k.version),
    ("title", .str k.title),
    ("content", .str k.content),
    ("knowledge_type", .str k.knowledgeType.value),
    ("knowledge_domain", .str k.knowledgeDomain.value),
    ("confidence", .obj (k.confidence.toDict ft)),
    ("importance", .str k.importance),
    ("provenance", .obj (k.provenance.toDict ft)),
    ("tags", .strs k.tags),
    ("supporting_memory_ids", .strs k.supportingMemoryIds),
    ("contradicting_memory_ids", .strs k.contradictingMemoryIds),
    ("lifecycle_status", .str k.lifecycleStatus),
    ("superseded_by", .optStr k.supersededBy),
    ("created_at", .str k.createdAt),
    ("updated_at", .str k.updatedAt),
    ("project_id", .str k.projectId),
    ("transferability", .str k.transferability),
    ("epistemic_status", .str k.epistemicStatus.value)]

/-- The provenance of `from_dict(d)`: an empty one when the object has none. -/
def provenanceOf (now : String) (d : JsonObj) (confidence : Option KnowledgeConfidence) :
    Except Exc (Option ProvenanceChain) :=
  let provData := d.getD "provenance" (.obj [])
  if provData.truthy then
    match provData with
    | .obj p => ProvenanceChain.fromDict ft now p.reverse
    | _ => .error (.attributeError "get")
  else
    .ok do
      some
        { knowledgeId := ← (d.getD "id" (.str "")).str?
          sourceMemoryIds := []
          sourceEventIds := []
          synthesisEventId := ""
          confidence := ← confidence
          evidenceCount := 0
          createdAt := now }

/-- `from_dict(d)` at the time `now`. -/
def fromDict (now : String) (d : JsonObj) : Except Exc (Option KnowledgeObject) := do
  let confidence ← KnowledgeConfidence.ofJson ft (d.getD "confidence" (.obj []))
  let provenance ← provenanceOf ft now d confidence
  let id ← d.getItem "id"
  let title ← d.getItem "title"
  let content ← d.getItem "content"
  let knowledgeType ← KnowledgeType.ofJson (← d.getItem "knowledge_type")
  let knowledgeDomain ← KnowledgeDomain.ofJson
    (d.getD "knowledge_domain" (.str KnowledgeDomain.architecture.value))
  let epistemicStatus ← EpistemicStatus.ofJson (d.getD "epistemic_status" (.str "PROPOSED"))
  return do
    some
      { id := ← id.str?
        version := ← (d.getD "version" (.int 1)).int?
        title := ← title.str?
        content := ← content.str?
        knowledgeType := knowledgeType
        knowledgeDomain := knowledgeDomain
        confidence := ← confidence
        importance := ← (d.getD "importance" (.str "medium")).str?
        provenance := ← provenance
        tags := ← (d.getD "tags" (.arr [])).strs?
        supportingMemoryIds := ← (d.getD "supporting_memory_ids" (.arr [])).strs?
        contradictingMemoryIds := ← (d.getD "contradicting_memory_ids" (.arr [])).strs?
        lifecycleStatus :=
          ← (d.getD "lifecycle_status" (.str KnowledgeLifecycle.active.value)).str?
        supersededBy := ← (d.get "superseded_by").optStr?
        createdAt := ← (d.getD "created_at" (.str now)).str?
        updatedAt := ← (d.getD "updated_at" (.str now)).str?
        projectId := ← (d.getD "project_id" (.str "")).str?
        transferability :=
          ← (d.getD "transferability" (.str KnowledgeTransferability.localOnly.value)).str?
        epistemicStatus := epistemicStatus }

end KnowledgeObject

/-! ## Reading what was written -/

variable {ft}

theorem KnowledgeConfidence.ofJson_toDict (c : KnowledgeConfidence) :
    KnowledgeConfidence.ofJson ft (.obj (c.toDict ft)) = .ok (some c) := by
  simp [ofJson, toDict, fromDict, JsonObj.getD, List.lookup_cons, Json.isNumber, Atom.number?]

theorem ProvenanceChain.fromDict_toDict (p : ProvenanceChain) (now : String) :
    ProvenanceChain.fromDict ft now (p.toDict ft).reverse = .ok (some p) := by
  simp [toDict, fromDict, JsonObj.getD, List.lookup_cons, KnowledgeConfidence.ofJson_toDict]

theorem KnowledgeType.ofJson_value (t : KnowledgeType) : ofJson (.str t.value) = .ok t := by
  cases t <;> decide

theorem KnowledgeDomain.ofJson_value (t : KnowledgeDomain) : ofJson (.str t.value) = .ok t := by
  cases t <;> decide

theorem EpistemicStatus.ofJson_value (t : EpistemicStatus) : ofJson (.str t.value) = .ok t := by
  cases t <;> decide

namespace KnowledgeObject

theorem provenanceOf_toDict (k : KnowledgeObject) (now : String)
    (confidence : Option KnowledgeConfidence) :
    provenanceOf ft now (k.toDict ft).reverse confidence = .ok (some k.provenance) := by
  have hget : JsonObj.getD (k.toDict ft).reverse "provenance" (.obj []) =
      .obj (k.provenance.toDict ft) := by simp [toDict, JsonObj.getD, List.lookup_cons]
  have htruthy : (Json.obj (k.provenance.toDict ft)).truthy = true := rfl
  rw [provenanceOf, hget]
  simp only [htruthy, if_true, ProvenanceChain.fromDict_toDict]

/-- An object is built again from its dictionary. -/
theorem fromDict_toDict (k : KnowledgeObject) (now : String) :
    fromDict ft now (k.toDict ft).reverse = .ok (some k) := by
  simp only [fromDict, provenanceOf_toDict]
  simp [toDict, JsonObj.getD, JsonObj.get, JsonObj.getItem, List.lookup_cons,
    KnowledgeConfidence.ofJson_toDict, KnowledgeType.ofJson_value, KnowledgeDomain.ofJson_value,
    EpistemicStatus.ofJson_value, bind, Except.bind, pure, Except.pure]

end KnowledgeObject

/-! ## The store -/

namespace MarkdownKnowledgeProvider

open MarkdownFormat

variable (ft)

/-- What `_write_records` writes behind the comment of an object. -/
def summary (k : KnowledgeObject) : List Char :=
  ['\n', '#', '#', ' ', '['] ++ k.knowledgeType.value.toList ++ [']', ' '] ++ k.title.toList ++
    [' ', '(', 'v'] ++ Json.encodeInt k.version ++ [')', '\n', '\n'] ++
    PythonText.strip k.content.toList ++ ['\n', '\n'] ++
    field "Domain" k.knowledgeDomain.value.toList ++
    field "Importance" k.importance.toList ++
    field "Confidence" (ft.fixed2 k.confidence.score) ++
    field "Status" k.lifecycleStatus.toList ++
    field "Tags" (joined k.tags) ++
    field "Source Memories" (joined k.supportingMemoryIds) ++
    field "Source Events" (joined k.provenance.sourceEventIds) ++
    ['\n', '-', '-', '-', '\n', '\n']

/-- The format of the knowledge corpus. Every exception of a comment is caught. -/
def format : MarkdownFormat KnowledgeObject where
  header := "# RationaleVault Knowledge Corpus\n\n".toList
  name := "knowledge_object".toList
  id := KnowledgeObject.id
  version := KnowledgeObject.version
  content := KnowledgeObject.content
  withVersion k v := { k with version := v }
  toDict := KnowledgeObject.toDict ft
  fromDict := KnowledgeObject.fromDict ft
  summary := summary ft
  caught _ := true
  header_plain := by decide
  name_ne_nil := by decide
  name_plain := by decide
  id_withVersion _ _ := rfl
  withVersion_version _ := rfl

/-- `get_all_knowledge(project_id, transferable_only)` at the time `now`. -/
def getAllKnowledge (file : Option (List Char)) (now : String) (projectId : Option String)
    (transferableOnly : Bool) : Option (List KnowledgeObject) :=
  ((format ft).getAll file now).map fun records =>
    let records := match projectId with
      | some p => if p = "" then records else records.filter fun r => r.projectId = p
      | none => records
    if transferableOnly then
      records.filter fun r => r.transferability = KnowledgeTransferability.reusable.value ∨
        r.transferability = KnowledgeTransferability.organizational.value
    else records

/-- `_write_records(records)`. -/
def writeRecords (records : List KnowledgeObject) : List Char := (format ft).writeRecords records

/-- `add_knowledge(knowledge)` at the time `now`. -/
def addKnowledge (file : Option (List Char)) (now : String) (knowledge : KnowledgeObject) :
    Option (List Char) := (format ft).add file now knowledge

variable {ft}

/-- Without filters all records are returned. -/
theorem getAllKnowledge_none (file : Option (List Char)) (now : String) :
    getAllKnowledge ft file now none false = (format ft).getAll file now := by
  simp [getAllKnowledge]

theorem reads (k : KnowledgeObject) : (format ft).Reads k := k.fromDict_toDict

/-- Objects without angle brackets in their texts are kept. -/
theorem recoverable_of_plain {k : KnowledgeObject}
    (h : ∀ s ∈ (Json.obj (k.toDict ft)).texts, '<' ∉ s.toList ∧ '>' ∉ s.toList) :
    (format ft).Recoverable k := by
  have htexts : ∀ s ∈ [k.knowledgeType.value, k.knowledgeDomain.value, k.title, k.content,
      k.importance, k.lifecycleStatus] ++ k.tags ++ k.supportingMemoryIds ++
      k.provenance.sourceEventIds, '<' ∉ s.toList := by
    intro s hs
    apply (h s _).1
    simp only [List.mem_append, List.mem_cons, List.not_mem_nil, or_false] at hs
    simp only [KnowledgeObject.toDict, ProvenanceChain.toDict, Json.texts, Json.textsMembers,
      Json.texts_strs]
    rcases hs with (((rfl | rfl | rfl | rfl | rfl | rfl) | hs) | hs) | hs <;> simp [*]
  have hcontent : '<' ∉ PythonText.strip k.content.toList := fun hmem =>
    htexts k.content (by simp) (PythonText.mem_of_mem_strip hmem)
  have htags : '<' ∉ joined k.tags := not_mem_joined fun s hs => htexts s (by simp [hs])
  have hmemories : '<' ∉ joined k.supportingMemoryIds :=
    not_mem_joined fun s hs => htexts s (by simp [hs])
  have hevents : '<' ∉ joined k.provenance.sourceEventIds :=
    not_mem_joined fun s hs => htexts s (by simp [hs])
  simp only [List.append_assoc, List.cons_append, List.forall_mem_cons] at htexts
  obtain ⟨htype, hdomain, htitle, -, himportance, hstatus, -⟩ := htexts
  refine fun v => ⟨framed_of_plain (fun s hs => (h s hs).2) ?_, reads _⟩
  change '<' ∉ summary ft { k with version := v }
  simp [summary, htype, htitle, not_mem_number, hcontent, not_mem_field, hdomain, himportance,
    ft.not_mem_fixed2, hstatus, htags, hmemories, hevents]

end MarkdownKnowledgeProvider

end RationaleVault
