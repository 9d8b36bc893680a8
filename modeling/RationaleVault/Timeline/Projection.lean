import RationaleVault.Library.Fold
import RationaleVault.Library.Table
import RationaleVault.Schema.Events

/-!
# Timeline projection

Every narratively significant event becomes one entry, and entries are only ever
appended. A snapshot sorts them by sequence, which is the order they have.
-/

namespace RationaleVault

inductive TimelineCategory
  | decision
  | knowledge
  | task
  | question
  | memory
  | milestone
  | system
  deriving DecidableEq

namespace TimelineCategory

def value : TimelineCategory → String
  | decision => "decision"
  | knowledge => "knowledge"
  | task => "task"
  | question => "question"
  | memory => "memory"
  | milestone => "milestone"
  | system => "system"

/-- `TimelineCategory(value)`. -/
def ofValue (v : Json) : Except Exc TimelineCategory :=
  v.enum [.decision, .knowledge, .task, .question, .memory, .milestone, .system] value
    "is not a valid TimelineCategory"

theorem ofValue_value (c : TimelineCategory) : ofValue (.str c.value) = .ok c :=
  Json.enum_value (by decide) (by cases c <;> decide) _

end TimelineCategory

structure TimelineEntry where
  sequence : Nat
  timestamp : Option DateTime
  eventType : EventType
  category : TimelineCategory
  actor : Json
  subjectEntity : Json
  summary : String
  references : List Int := []
  deriving DecidableEq

structure TimelineState where
  entries : List TimelineEntry := []
  sequence : Nat := 0
  deriving DecidableEq

/-! ## The normalizer -/

structure TimelineMapping where
  category : TimelineCategory
  actorExtractor : EventRecord → Json
  subjectExtractor : EventRecord → Json
  referenceExtractor : EventRecord → List Int := fun _ => []
  summaryRenderer : EventRecord → Except Exc String

namespace TimelineMapping

/-- `text + v`: only a text can be appended. -/
def append (text : String) : Json → Except Exc String
  | .str s => .ok (text ++ s)
  | _ => .error .typeError

/-- `v[:80]` appended to a text. A list is sliced before the addition refuses it, and a dict takes
the slice for a key. -/
def appendSlice (text : String) : Json → Except Exc String
  | .str s => .ok (text ++ String.ofList (s.toList.take 80))
  | .obj _ => .error (.keyError "slice(None, 80, None)")
  | _ => .error .typeError

/-- `_extract_payload_actor(event)`. -/
def extractPayloadActor (event : EventRecord) : Json :=
  event.payload.getD "actor" (.str event.metadata.actor)

/-- `_extract_metadata_actor(event)`. -/
def extractMetadataActor (event : EventRecord) : Json := .str event.metadata.actor

/-- `_title(event)`. -/
def title (event : EventRecord) : Json := event.payload.getD "title" (.str "untitled")

/-- `_subject(event, key)`. -/
def subject (key : String) (event : EventRecord) : Json := event.payload.get key

/-- `_subject(e, "knowledge_id") or _subject(e, "id")`. -/
def knowledgeSubject (event : EventRecord) : Json :=
  (subject "knowledge_id" event).orElse (subject "id" event)

/-- An event about the project itself. -/
def milestone (summary : EventRecord → Except Exc String) : TimelineMapping where
  category := .milestone
  actorExtractor := extractMetadataActor
  subjectExtractor event := .str event.projectId.str
  summaryRenderer := summary

/-- An event whose actor its payload may name and that is summed up by its title. -/
def titled (category : TimelineCategory) (key text : String) : TimelineMapping where
  category := category
  actorExtractor := extractPayloadActor
  subjectExtractor := subject key
  summaryRenderer event := append text (title event)

/-- An event about one entity that is summed up by a field of the payload. -/
def about (category : TimelineCategory) (subject : EventRecord → Json)
    (summary : EventRecord → Except Exc String) : TimelineMapping where
  category := category
  actorExtractor := extractMetadataActor
  subjectExtractor := subject
  summaryRenderer := summary

/-- `MAPPINGS.get(event_type)`. -/
def mappings : EventType → Option TimelineMapping
  | .projectCreated => some (milestone fun _ => .ok "Project created")
  | .projectGoalSet => some (milestone fun e =>
      append "Project goal set: " (e.payload.getD "goal" (.str "")))
  | .projectFocusChanged => some (milestone fun e =>
      append "Project focus changed: " (e.payload.getD "focus" (.str "")))
  | .taskCreated => some (titled .task "task_id" "Task created: ")
  | .taskCompleted => some (titled .task "task_id" "Task completed: ")
  | .decisionProposed => some (titled .decision "decision_id" "Decision proposed: ")
  | .decisionAccepted => some (titled .decision "decision_id" "Decision accepted: ")
  | .decisionSuperseded => some (titled .decision "decision_id" "Decision superseded: ")
  | .openQuestionRaised => some (about .question (subject "question_id") fun e =>
      append "Question raised: " (e.payload.getD "question" (.str "")))
  | .openQuestionResolved => some (about .question (subject "question_id") fun e =>
      append "Question resolved: " (e.payload.getD "question" (.str "")))
  | .knowledgeCreated => some (about .knowledge knowledgeSubject fun e =>
      append "Knowledge created: " (title e))
  | .knowledgeUpdated => some (about .knowledge knowledgeSubject fun e =>
      append "Knowledge updated: " (title e))
  | .knowledgeDeleted => some (about .knowledge knowledgeSubject fun e =>
      append "Knowledge deleted: " (title e))
  | .knowledgeSynthesized => some (about .knowledge knowledgeSubject fun e =>
      append "Knowledge synthesized: " (title e))
  | .knowledgePromotionApproved => some (about .milestone (subject "knowledge_id") fun e =>
      append "Knowledge promotion approved: " (title e))
  | .knowledgePromotionRejected => some (about .milestone (subject "knowledge_id") fun e =>
      append "Knowledge promotion rejected: " (title e))
  | .memoryRecorded => some (about .memory (subject "memory_id") fun e =>
      appendSlice "Memory recorded: " (e.payload.getD "content" (.str "")))
  | .governanceDecisionRecorded => some (about .decision (subject "governance_id") fun e =>
      append "Governance decision: " (e.payload.getD "action" (.str "")))
  | .skillExecuted => some (about .system (subject "skill_name") fun e =>
      append "Skill executed: " (e.payload.getD "skill_name" (.str "unknown")))
  | _ => none

end TimelineMapping

/-- `normalize_event(event)`. -/
def normalizeEvent (event : EventRecord) : Except Exc (Option TimelineEntry) :=
  match TimelineMapping.mappings event.eventType with
  | none => .ok none
  | some mapping => do
      let summary ← mapping.summaryRenderer event
      return some
        { sequence := event.eventSequence
          timestamp := event.recordedAt
          eventType := event.eventType
          category := mapping.category
          actor := mapping.actorExtractor event
          subjectEntity := mapping.subjectExtractor event
          summary := summary
          references := mapping.referenceExtractor event }

/-! ## The projection -/

namespace TimelineProjection

/-- One round of the loop of `reduce`. -/
def applyEvent (state : TimelineState) (event : EventRecord) : Except Exc TimelineState := do
  let entry ← normalizeEvent event
  return {
    entries := state.entries ++ entry.toList
    sequence := max state.sequence event.eventSequence }

/-- `reduce(events, initial_state)`. -/
def reduce (events : List EventRecord) (initialState : Option TimelineState) :
    Except Exc TimelineState :=
  events.foldlM applyEvent (initialState.getD {})

/-- An entry of the snapshot payload. -/
structure EntryPayload where
  sequence : Nat
  timestamp : Option DateTime
  eventType : String
  category : String
  actor : Json
  subjectEntity : Json
  summary : String
  references : List Int

/-- The snapshot payload. -/
structure Snapshot where
  entries : List EntryPayload
  sequence : Nat
  schemaVersion : Int

/-- The payload of an entry. -/
def entryToDict (e : TimelineEntry) : EntryPayload where
  sequence := e.sequence
  timestamp := e.timestamp
  eventType := e.eventType.value
  category := e.category.value
  actor := e.actor
  subjectEntity := e.subjectEntity
  summary := e.summary
  references := e.references

/-- `serialize(state)`. -/
def serialize (state : TimelineState) : Snapshot where
  entries := (Table.orderBy TimelineEntry.sequence state.entries).map entryToDict
  sequence := state.sequence
  schemaVersion := 1

/-- The entry of a payload. -/
def entryOfDict (e : EntryPayload) : Except Exc TimelineEntry := do
  let eventType ← match EventType.ofValue e.eventType with
    | some t => pure t
    | none => .error (.valueError "is not a valid EventType")
  let category ← TimelineCategory.ofValue (.str e.category)
  return {
    sequence := e.sequence
    timestamp := e.timestamp
    eventType := eventType
    category := category
    actor := e.actor
    subjectEntity := e.subjectEntity
    summary := e.summary
    references := e.references }

/-- `deserialize(payload)`. -/
def deserialize (payload : Snapshot) : Except Exc TimelineState := do
  let entries ← payload.entries.mapM entryOfDict
  return { entries := entries, sequence := payload.sequence }

/-! ## Snapshots -/

theorem entryOfDict_entryToDict (e : TimelineEntry) : entryOfDict (entryToDict e) = .ok e := by
  have htype : EventType.ofValue e.eventType.value = some e.eventType :=
    (EventType.ofValue_eq_some_iff _ _).mpr rfl
  rw [entryOfDict, entryToDict]
  simp only [htype, TimelineCategory.ofValue_value, pure, Except.pure, Except.ok_bind_eq]

/-- Entries that are in the order of their sequences are restored. -/
theorem deserialize_serialize {state : TimelineState}
    (h : state.entries.Pairwise fun e e' => e.sequence ≤ e'.sequence) :
    deserialize (serialize state) = .ok state := by
  have hentries : (state.entries.map entryToDict).mapM entryOfDict = .ok state.entries :=
    Fold.mapM_map_of_inverse fun e _ => entryOfDict_entryToDict e
  rw [deserialize, serialize, Table.orderBy_eq_self h, hentries]
  rfl

/-- The entries stand for events of the list, in its order. -/
theorem entries_sublist {state state' : TimelineState} {events : List EventRecord}
    (h : events.foldlM applyEvent state = .ok state') :
    ∃ sequences, sequences.Sublist (events.map EventRecord.eventSequence) ∧
      state'.entries.map TimelineEntry.sequence =
        state.entries.map TimelineEntry.sequence ++ sequences := by
  induction events generalizing state with
  | nil =>
      rw [List.foldlM_nil, Except.pure_eq_ok_iff] at h
      exact ⟨[], List.Sublist.refl _, by rw [h, List.append_nil]⟩
  | cons event rest ih =>
      rw [List.foldlM_cons, Except.bind_eq_ok_iff] at h
      obtain ⟨next, hnext, hrest⟩ := h
      obtain ⟨sequences, hsub, hsequences⟩ := ih hrest
      rw [applyEvent, Except.bind_eq_ok_iff] at hnext
      obtain ⟨entry, hentry, hnext⟩ := hnext
      rw [Except.pure_eq_ok_iff] at hnext
      subst hnext
      cases entry with
      | none => exact ⟨sequences, hsub.cons _, by simpa using hsequences⟩
      | some e =>
          have hsequence : e.sequence = event.eventSequence := by
            rw [normalizeEvent] at hentry
            split at hentry
            · cases hentry
            · rw [Except.bind_eq_ok_iff] at hentry
              obtain ⟨summary, -, hentry⟩ := hentry
              rw [Except.pure_eq_ok_iff, Option.some.injEq] at hentry
              rw [← hentry]
          refine ⟨event.eventSequence :: sequences, hsub.cons_cons _, ?_⟩
          simpa [hsequence] using hsequences

/-- Going on from a snapshot replays the whole history. -/
theorem resume {A : List EventRecord}
    (hA : (A.map EventRecord.eventSequence).Pairwise (· < ·)) (B : List EventRecord) :
    (reduce A none >>= fun s => deserialize (serialize s) >>= fun s => reduce B (some s)) =
      reduce (A ++ B) none := by
  rw [reduce, reduce, List.foldlM_append, Option.getD_none]
  cases hstate : A.foldlM applyEvent {} with
  | error e => rfl
  | ok state =>
      obtain ⟨sequences, hsub, hsequences⟩ := entries_sublist hstate
      have hsorted : state.entries.Pairwise fun e e' => e.sequence ≤ e'.sequence := by
        have hstrict : (state.entries.map TimelineEntry.sequence).Pairwise (· < ·) := by
          rw [hsequences]
          exact hA.sublist hsub
        exact (List.pairwise_map.mp hstrict).imp Nat.le_of_lt
      rw [Except.ok_bind_eq, deserialize_serialize hsorted]
      rfl

end TimelineProjection

end RationaleVault
