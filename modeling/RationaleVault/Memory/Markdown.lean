import RationaleVault.MarkdownProvider
import RationaleVault.Memory.Store

/-!
# The Markdown memory store

A record without a source type or a creation time gets one when it is read. The
reader goes on after the exceptions it expects and stops at any other.
-/

namespace RationaleVault

/-- `MemoryType(v)`. -/
def MemoryType.ofJson (v : Json) : Except Exc MemoryType :=
  v.enum [.decision, .decisionRationale, .lessonLearned, .failure, .architecture,
    .implementationNote, .research, .workflow] MemoryType.value "is not a valid MemoryType"

theorem MemoryType.ofJson_value (t : MemoryType) : ofJson (.str t.value) = .ok t := by
  cases t <;> decide

namespace MemoryRecord

/-- `to_dict()`. -/
def toDict (u : UnicodeTables) (r : MemoryRecord) : JsonObj :=
  [("id", .str r.id),
    ("version", .int r.version),
    ("title", .str r.title),
    ("content", .str r.content),
    ("memory_type", .str r.memoryType.value),
    ("importance", .str r.importance),
    ("lifecycle_status", .str r.lifecycleStatus),
    ("source_event_ids", .strs r.sourceEventIds),
    ("source_type", .str r.sourceType),
    ("tags", .strs r.tags),
    ("confidence", .atom (.float r.confidence)),
    ("retrieval_priority", .atom (.float (r.retrievalPriority u))),
    ("reference_count", .int r.referenceCount),
    ("last_referenced_at", .optStr r.lastReferencedAt),
    ("created_at", .str r.createdAt),
    ("project_id", .str r.projectId)]

/-- The importance from which a new record computes its priority has to be a text. -/
def importanceOf : Json → Except Exc String
  | .atom (.str s) => .ok s
  | _ => .error (.attributeError "lower")

/-- `from_dict(d)` at the time `now`. -/
def fromDict (now : String) (d : JsonObj) : Except Exc (Option MemoryRecord) := do
  let id ← d.getItem "id"
  let title ← d.getItem "title"
  let content ← d.getItem "content"
  let memoryType ← MemoryType.ofJson (← d.getItem "memory_type")
  let importance ← importanceOf (d.getD "importance" (.str "medium"))
  return do
    some
      { id := ← id.str?
        version := ← (d.getD "version" (.int 1)).int?
        title := ← title.str?
        content := ← content.str?
        memoryType := memoryType
        importance := importance
        lifecycleStatus := ← (d.getD "lifecycle_status" (.str "active")).str?
        sourceEventIds := ← ((d.get "source_event_ids").orElse (.arr [])).strs?
        sourceType := ← ((d.get "source_type").orElse (.str "unknown")).str?
        tags := ← ((d.get "tags").orElse (.arr [])).strs?
        confidence := ← (d.getD "confidence" (.atom (.float .one))).float?
        referenceCount := ← (d.getD "reference_count" (.int 0)).int?
        lastReferencedAt := ← (d.get "last_referenced_at").optStr?
        createdAt := ← ((d.get "created_at").orElse (.str now)).str?
        projectId := ← (d.getD "project_id" (.str "")).str? }

theorem strs?_orElse (xs : List String) : ((Json.strs xs).orElse (.arr [])).strs? = some xs := by
  cases xs with
  | nil => rfl
  | cons s rest =>
      have htruthy : (Json.strs (s :: rest)).truthy = true := rfl
      rw [Json.orElse, if_pos htruthy, Json.strs?_strs]

theorem str?_orElse (s t : String) :
    ((Json.str s).orElse (.str t)).str? = some (if s = "" then t else s) := by
  rw [Json.orElse]
  by_cases hs : s = "" <;> simp [Json.truthy, hs]

/-- A record is built again from its dictionary up to the defaults of an empty source type and an
empty creation time. -/
theorem fromDict_toDict (u : UnicodeTables) (r : MemoryRecord) (now : String) :
    fromDict now (r.toDict u).reverse = .ok (some
      { r with
        sourceType := if r.sourceType = "" then "unknown" else r.sourceType
        createdAt := if r.createdAt = "" then now else r.createdAt }) := by
  simp [fromDict, toDict, JsonObj.getD, JsonObj.get, JsonObj.getItem, List.lookup_cons,
    MemoryType.ofJson_value, importanceOf, strs?_orElse, str?_orElse, bind, Except.bind, pure,
    Except.pure]

end MemoryRecord

/-! ## The store -/

namespace MarkdownMemoryProvider

open MarkdownFormat

variable (u : UnicodeTables) (ft : FloatText)

/-- `last_referenced_at or 'Never'`. -/
def lastReferenced (r : MemoryRecord) : String :=
  match r.lastReferencedAt with
  | some s => if s = "" then "Never" else s
  | none => "Never"

/-- What `_write_records` writes behind the comment of a record. -/
def summary (r : MemoryRecord) : List Char :=
  ['\n', '#', '#', ' ', '['] ++ r.memoryType.value.toList ++ [']', ' '] ++ r.title.toList ++
    [' ', '(', 'v'] ++ Json.encodeInt r.version ++ [')', '\n', '\n'] ++
    PythonText.strip r.content.toList ++ ['\n', '\n'] ++
    field "Importance" r.importance.toList ++
    field "Confidence" (ft.fixed2 r.confidence.value) ++
    field "Reference Count" (Json.encodeInt r.referenceCount) ++
    field "Last Referenced" (lastReferenced r).toList ++
    field "Tags" (joined r.tags) ++
    field "Source Type" r.sourceType.toList ++
    field "Source Events" (joined r.sourceEventIds) ++
    ['\n', '-', '-', '-', '\n', '\n']

/-- `except (json.JSONDecodeError, KeyError, TypeError, ValueError)`. -/
def caught : Exc → Bool
  | .jsonDecodeError => true
  | .keyError _ => true
  | .typeError => true
  | .valueError _ => true
  | _ => false

/-- The format of the memory corpus. -/
def format : MarkdownFormat MemoryRecord where
  header := "# RationaleVault Cognitive Memory Corpus\n\n".toList
  name := "memory_record".toList
  id := MemoryRecord.id
  version := MemoryRecord.version
  content := MemoryRecord.content
  withVersion r v := { r with version := v }
  toDict := MemoryRecord.toDict u
  fromDict := MemoryRecord.fromDict
  summary := summary ft
  caught := caught
  header_plain := by decide
  name_ne_nil := by decide
  name_plain := by decide
  id_withVersion _ _ := rfl
  withVersion_version _ := rfl

/-- `get_all_records()` at the time `now`. -/
def getAllRecords (file : Option (List Char)) (now : String) : Option (List MemoryRecord) :=
  (format u ft).getAll file now

/-- `_write_records(records)`. -/
def writeRecords (records : List MemoryRecord) : List Char := (format u ft).writeRecords records

/-- `add_record(record)` at the time `now`. -/
def addRecord (file : Option (List Char)) (now : String) (record : MemoryRecord) :
    Option (List Char) := (format u ft).add file now record

variable {u ft}

/-- Exactly the records with a source type and a creation time are read as they were written. -/
theorem reads_iff (r : MemoryRecord) :
    (format u ft).Reads r ↔ r.sourceType ≠ "" ∧ r.createdAt ≠ "" := by
  have hread : ∀ now, (format u ft).fromDict now ((format u ft).toDict r).reverse = _ :=
    fun now => r.fromDict_toDict u now
  constructor
  · intro h
    have heq : ∀ now, _ = r := fun now =>
      Option.some.inj (Except.ok.inj ((hread now).symm.trans (h now)))
    constructor
    · intro hempty
      have hsource := congrArg MemoryRecord.sourceType (heq "")
      rw [hempty] at hsource
      simp at hsource
    · intro hempty
      have hcreated := congrArg MemoryRecord.createdAt (heq "now")
      rw [hempty] at hcreated
      simp at hcreated
  · rintro ⟨hsource, hcreated⟩ now
    rw [hread, if_neg hsource, if_neg hcreated]

/-- Records without angle brackets in their texts are kept. -/
theorem recoverable_of_plain {r : MemoryRecord} (hsource : r.sourceType ≠ "")
    (hcreated : r.createdAt ≠ "")
    (h : ∀ s ∈ (Json.obj (r.toDict u)).texts, '<' ∉ s.toList ∧ '>' ∉ s.toList) :
    (format u ft).Recoverable r := by
  have htexts : ∀ s ∈ [r.memoryType.value, r.title, r.content, r.importance, r.sourceType] ++
      r.tags ++ r.sourceEventIds, '<' ∉ s.toList := by
    intro s hs
    apply (h s _).1
    simp only [List.mem_append, List.mem_cons, List.not_mem_nil, or_false] at hs
    simp only [MemoryRecord.toDict, Json.texts, Json.textsMembers, Json.texts_strs]
    rcases hs with ((rfl | rfl | rfl | rfl | rfl) | hs) | hs <;> simp [*]
  have hcontent : '<' ∉ PythonText.strip r.content.toList := fun hmem =>
    htexts r.content (by simp) (PythonText.mem_of_mem_strip hmem)
  have htags : '<' ∉ joined r.tags := not_mem_joined fun s hs => htexts s (by simp [hs])
  have hevents : '<' ∉ joined r.sourceEventIds :=
    not_mem_joined fun s hs => htexts s (by simp [hs])
  have hreferenced : '<' ∉ (lastReferenced r).toList := by
    rw [lastReferenced]
    split
    next s hs =>
      split
      · decide
      · exact (h s (by simp [MemoryRecord.toDict, Json.texts, Json.textsMembers, hs,
          Json.optStr])).1
    next => decide
  simp only [List.append_assoc, List.cons_append, List.forall_mem_cons] at htexts
  obtain ⟨htype, htitle, -, himportance, hsourceType, -⟩ := htexts
  refine fun v => ⟨framed_of_plain (fun s hs => (h s hs).2) ?_,
    (reads_iff _).mpr ⟨hsource, hcreated⟩⟩
  change '<' ∉ summary ft { r with version := v }
  have hsame : lastReferenced { r with version := v } = lastReferenced r := rfl
  simp [summary, htype, htitle, not_mem_number, hcontent, not_mem_field, himportance,
    ft.not_mem_fixed2, hsame, hreferenced, htags, hsourceType, hevents]

end MarkdownMemoryProvider

end RationaleVault
