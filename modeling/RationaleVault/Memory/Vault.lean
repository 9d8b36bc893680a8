import RationaleVault.Db.EventStore
import RationaleVault.Memory.Bookkeeping
import RationaleVault.Projections.Bm25

/-!
# Events and memories side by side

A call of `append_event` records an event, draws memories from it and retires at most
one record, whose supersession is logged as a further event. The replay reads the
events only.
-/

namespace RationaleVault

open SQLiteMemoryProvider

/-! ## Appending with the log -/

namespace MemoryProvider

variable (P : MemoryProvider) (u : UnicodeTables)

/-- `handle_lifecycle_transitions` for a nonempty `supersedes` field: the state and the record whose
supersession is logged. -/
def supersedeLogged (s : P.State) (now supersedes : String) :
    Option (P.State × Option MemoryRecord) :=
  (P.getAllRecords s now).bind fun records =>
    match records.find? (names u supersedes) with
    | some target =>
        if target.lifecycleStatus ≠ "superseded" then
          (P.addRecord s now (retired target)).map fun
            | .ok s' => (s', some target)
            | .error _ => (s, none)
        else some (s, none)
    | none => some (s, none)

/-- `MemoryProvider.appendEvent` with the record whose supersession is logged. -/
def appendLogged (s : P.State) (call : AppendCall) : Option (P.State × Option MemoryRecord) :=
  if emitsNoMemory call.event.eventType then some (s, none)
  else
    match extractMemoriesFromEvent u call.event call.now with
    | .error _ => some (s, none)
    | .ok ms =>
        (P.addRecords s call.now ms).bind fun stored =>
          match supersedesOf call.event with
          | some supersedes =>
              if stored.2 then P.supersedeLogged u stored.1 call.now supersedes
              else some (stored.1, none)
          | none => some (stored.1, none)

variable {P u} {s : P.State}

theorem map_fst_supersedeLogged (now supersedes : String) :
    (P.supersedeLogged u s now supersedes).map Prod.fst = P.supersede u s now supersedes := by
  rw [supersedeLogged, supersede]
  cases P.getAllRecords s now with
  | none => rfl
  | some records =>
      rw [Option.bind_some, Option.bind_some]
      cases records.find? (names u supersedes) with
      | none => rfl
      | some target =>
          dsimp only
          split_ifs
          · rw [write, Option.map_map]
            congr 1
            funext result
            cases result <;> rfl
          · rfl

/-- The log changes nothing about the memories. -/
theorem map_fst_appendLogged (call : AppendCall) :
    (P.appendLogged u s call).map Prod.fst = P.appendEvent u s call := by
  rw [appendLogged, appendEvent]
  split_ifs
  · rfl
  · cases extractMemoriesFromEvent u call.event call.now with
    | error e => rfl
    | ok ms =>
        dsimp only
        cases P.addRecords s call.now ms with
        | none => rfl
        | some stored =>
            rw [Option.bind_some, Option.bind_some]
            cases supersedesOf call.event with
            | none => rfl
            | some supersedes =>
                dsimp only
                split_ifs
                · exact map_fst_supersedeLogged call.now supersedes
                · rfl

end MemoryProvider

/-! ## Calls -/

/-- The recorded events and the memories of a provider. -/
structure Vault (P : MemoryProvider) where
  events : EventDb
  memories : P.State

/-- The arguments of `append_event`, the time at which memories are drawn, and what the clock and
the generators give to the logged event. -/
structure VaultCall where
  request : AppendRequest
  now : String
  logId : UUID
  logRecordedAt : DateTime
  logTimestamp : String
  logCorrelationId : String
  logSessionId : String

/-- The `MEMORY_SUPERSEDED` event that is logged for a record. -/
def VaultCall.logRequest (call : VaultCall) (event : EventRecord) (target : MemoryRecord) :
    AppendRequest where
  projectId := event.projectId
  streamId := "decisions"
  eventType := .memorySuperseded
  payload := [("memory_id", .str target.id), ("superseded_by_event_id", .str event.id.str),
    ("timestamp", .str call.logTimestamp)]
  metadata := ⟨event.metadata.actor, "lifecycle_manager", call.logCorrelationId, call.logSessionId⟩
  parentId := some event.id
  eventId := call.logId
  recordedAt := call.logRecordedAt

namespace Vault

variable {P : MemoryProvider}

/-- The event that a call records. -/
def eventOf (v : Vault P) (call : VaultCall) : EventRecord := v.events.newRecord call.request

/-- The event store after the call, with the event that is logged. -/
def record (v : Vault P) (call : VaultCall) (logged : Option MemoryRecord) : EventDb :=
  match logged with
  | some target =>
      (v.events.appendEvent call.request).appendEvent (call.logRequest (v.eventOf call) target)
  | none => v.events.appendEvent call.request

/-- One call of `append_event`. -/
def append (u : UnicodeTables) (v : Vault P) (call : VaultCall) : Option (Vault P) :=
  (P.appendLogged u v.memories ⟨v.eventOf call, call.now⟩).map fun result =>
    { events := v.record call result.2, memories := result.1 }

def step (u : UnicodeTables) (state : Option (Vault P)) (call : VaultCall) : Option (Vault P) :=
  state.bind fun v => v.append u call

/-- The replay of the project's events finds the active memories of the provider. -/
def Agrees (u : UnicodeTables) (clock : EventRecord → String) (p : UUID)
    (state : Option (Vault P)) : Prop :=
  ∃ v, state = some v ∧ ∃ memories rows,
    BM25IndexProjection.reconstruct u clock (v.events.getProjectStream p 0) = .ok memories ∧
    (∀ now, P.getAllRecords v.memories now = some rows) ∧
    ∀ id, id ∈ activeIds memories.values ↔ id ∈ activeIds rows

end Vault

/-! ## What the replay follows -/

/-- The record that the lifecycle transition picks: the first one that is named once the drawn
memories have been written. -/
def picked (u : UnicodeTables) (place : List MemoryRecord → MemoryRecord → List MemoryRecord)
    (rows ms : List MemoryRecord) (event : EventRecord) : Option MemoryRecord :=
  (supersedesOf event).bind fun s => (ms.foldl place rows).find? (names u s)

/-- The replay can read the event, and it retires no active record but those that the event draws
again and the one that the lifecycle transition picks. -/
structure Followed (u : UnicodeTables)
    (place : List MemoryRecord → MemoryRecord → List MemoryRecord) (rows : List MemoryRecord)
    (event : EventRecord) (now : String) : Prop where
  transits : Transits event (rows = [])
  drawn : ∃ ms, extractMemoriesFromEvent u event now = .ok ms ∧
    ∀ r ∈ rows, r.lifecycleStatus = "active" → touched u event r.id (r.title, r.content) = true →
      (∀ m ∈ ms, m.id ≠ r.id) → picked u place rows ms event = some r

/-- The condition on a call in a state. -/
def Vault.Follows {P : MemoryProvider} (u : UnicodeTables)
    (place : List MemoryRecord → MemoryRecord → List MemoryRecord) (state : Option (Vault P))
    (call : VaultCall) : Prop :=
  ∀ v ∈ state, ∀ rows, P.getAllRecords v.memories call.now = some rows →
    Followed u place rows (v.eventOf call) call.now

end RationaleVault
