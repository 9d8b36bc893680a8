import Mathlib.Data.List.Range
import RationaleVault.Db.EventStore

/-!
# The event-stream law

Clients append to one store in whole transactions, in any order. The version
of an event is counted in its project and the sequence in the whole table;
both are computed again by every transaction. In every state that is reached
the versions of a project number its events without a gap, whatever happened
to the other projects in between.
-/

namespace RationaleVault

namespace EventDb

/-- `append_event` with the constraints of the table: an id is stored once, and so is a version
of a project. A transaction that violates one is rolled back. -/
def appendTransaction (db : EventDb) (req : AppendRequest) : Except Exc (EventDb × EventRecord) :=
  let record := db.newRecord req
  if record.id ∈ db.rows.map EventRecord.id ∨
      (record.projectId, record.version) ∈ db.rows.map fun r => (r.projectId, r.version) then
    .error .integrityError
  else .ok (db.appendEvent req, record)

/-- Sequence numbers that a rolled-back transaction does not give back. -/
def skip (db : EventDb) (n : Nat) : EventDb where
  rows := db.rows
  lastSequence := db.lastSequence + n
  ordered := db.ordered
  bounded := fun r hr => ⟨(db.bounded r hr).1, (db.bounded r hr).2.trans (Nat.le_add_right _ n)⟩

end EventDb

/-- One transaction of client `i`. It may be abandoned for a reason of its own, such as a lock
that is not granted in time. -/
inductive StoreAction (ι : Type)
  | append (i : ι) (req : AppendRequest)
  | abandon (i : ι) (skipped : Nat)

/-- The store and the appends it has acknowledged, with the record it returned for each. -/
structure StoreClients (ι : Type) where
  db : EventDb
  acknowledged : List (ι × AppendRequest × EventRecord)

/-- The record holds what the request asked to append. -/
structure EventRecord.Holds (record : EventRecord) (req : AppendRequest) : Prop where
  id : record.id = req.eventId
  projectId : record.projectId = req.projectId
  streamId : record.streamId = req.streamId
  eventType : record.eventType = req.eventType
  payload : record.payload = req.payload
  metadata : record.metadata = req.metadata
  parentId : record.parentId = req.parentId
  recordedAt : record.recordedAt = some req.recordedAt
  schemaVersion : record.schemaVersion = JsonObj.getD req.payload "schema_version" (.int 1)

namespace StoreClients

variable {ι : Type}

def initial : StoreClients ι := ⟨.empty, []⟩

def step (w : StoreClients ι) : StoreAction ι → StoreClients ι
  | .append i req =>
      match w.db.appendTransaction req with
      | .ok (db, record) => ⟨db, w.acknowledged ++ [(i, req, record)]⟩
      | .error _ => w
  | .abandon _ skipped => { w with db := w.db.skip skipped }

def run (w : StoreClients ι) (actions : List (StoreAction ι)) : StoreClients ι :=
  actions.foldl step w

/-- The records returned to the clients, in the order of the transactions. -/
def records (w : StoreClients ι) : List EventRecord := w.acknowledged.map fun a => a.2.2

end StoreClients

/-! ## One transaction -/

namespace EventDb

/-- The versions of every project are 1, 2, ..., n in the order of its rows. -/
def Numbered (db : EventDb) : Prop :=
  ∀ p, (db.projectRows p).map EventRecord.version = List.range' 1 (db.projectRows p).length

theorem maxD_range' (n : Nat) : Table.maxD 0 (List.range' 1 n) = n := by
  cases n with
  | zero => rfl
  | succ n =>
      apply Table.maxD_eq
      · simp [List.mem_range'_1]
      · intro v hv
        rw [List.mem_range'_1] at hv
        omega

theorem Numbered.nextVersion {db : EventDb} (h : db.Numbered) (p : UUID) :
    db.nextVersion p = (db.projectRows p).length + 1 := by
  rw [EventDb.nextVersion, h p, maxD_range']

theorem Numbered.appendEvent {db : EventDb} (h : db.Numbered) (req : AppendRequest) :
    (db.appendEvent req).Numbered := by
  intro p
  rw [projectRows_appendEvent]
  by_cases hp : req.projectId = p
  · subst hp
    rw [if_pos rfl, List.map_append, h req.projectId, List.length_append, List.length_singleton,
      List.range'_1_concat, List.map_singleton]
    simp only [newRecord, h.nextVersion, Nat.add_comm]
  · rw [if_neg hp, List.append_nil]
    exact h p

/-- The next version of a project is free, so only the id of a request can be refused. -/
theorem nextVersion_free (db : EventDb) (p : UUID) :
    (p, db.nextVersion p) ∉ db.rows.map fun r => (r.projectId, r.version) := by
  intro hmem
  obtain ⟨r, hr, hkey⟩ := List.mem_map.mp hmem
  obtain ⟨hproject, hversion⟩ := Prod.mk.inj hkey
  have hrow : r ∈ db.projectRows p := List.mem_filter.mpr ⟨hr, by simpa using hproject⟩
  have hle : r.version ≤ Table.maxD 0 ((db.projectRows p).map EventRecord.version) :=
    Table.le_maxD (List.mem_map_of_mem hrow)
  rw [EventDb.nextVersion] at hversion
  omega

theorem appendTransaction_eq_ok_iff (db : EventDb) (req : AppendRequest)
    (result : EventDb × EventRecord) :
    db.appendTransaction req = .ok result ↔
      req.eventId ∉ db.rows.map EventRecord.id ∧
        result = (db.appendEvent req, db.newRecord req) := by
  have hfree : ¬ ((db.newRecord req).projectId, (db.newRecord req).version) ∈
      db.rows.map fun r => (r.projectId, r.version) := nextVersion_free db req.projectId
  have hid : (db.newRecord req).id = req.eventId := rfl
  unfold appendTransaction
  dsimp only
  rw [hid]
  by_cases htaken : req.eventId ∈ db.rows.map EventRecord.id
  · rw [if_pos (Or.inl htaken)]
    simp [htaken]
  · rw [if_neg (not_or.mpr ⟨htaken, hfree⟩)]
    simp [htaken, eq_comm]

theorem holds_newRecord (db : EventDb) (req : AppendRequest) : (db.newRecord req).Holds req :=
  ⟨rfl, rfl, rfl, rfl, rfl, rfl, rfl, rfl, rfl⟩

/-- Reading from a sequence on is dropping what lies before. -/
theorem getProjectStream_isSuffix (db : EventDb) (p : UUID) (s : Int) :
    db.getProjectStream p s <:+ db.getProjectStream p 0 := by
  rw [getProjectStream_zero]
  exact ⟨db.upTo p s, upTo_append_stream db p s⟩

end EventDb

/-! ## Every run -/

namespace StoreClients

variable {ι : Type}

/-- What holds between the store and its clients after every transaction. -/
structure Consistent (w : StoreClients ι) : Prop where
  numbered : w.db.Numbered
  rows : w.db.rows = w.records
  ids : (w.db.rows.map EventRecord.id).Nodup
  holds : ∀ a ∈ w.acknowledged, a.2.2.Holds a.2.1

theorem Consistent.step {w : StoreClients ι} (h : w.Consistent) (a : StoreAction ι) :
    (w.step a).Consistent := by
  cases a with
  | append i req =>
      rw [StoreClients.step]
      cases htransaction : w.db.appendTransaction req with
      | error e => exact h
      | ok result =>
          obtain ⟨hid, rfl⟩ := (EventDb.appendTransaction_eq_ok_iff w.db req result).mp htransaction
          refine ⟨h.numbered.appendEvent req, ?_, ?_, ?_⟩
          · simp [EventDb.appendEvent, records, h.rows]
          · simp only [EventDb.appendEvent, List.map_append, List.map_cons, List.map_nil]
            exact h.ids.append (List.nodup_singleton _) (List.disjoint_singleton.mpr hid)
          · intro a ha
            rcases List.mem_append.mp ha with ha | ha
            · exact h.holds a ha
            · rw [List.mem_singleton.mp ha]
              exact EventDb.holds_newRecord w.db req
  | abandon i skipped => exact ⟨h.numbered, h.rows, h.ids, h.holds⟩

theorem consistent_run {w : StoreClients ι} (h : w.Consistent) (actions : List (StoreAction ι)) :
    (w.run actions).Consistent := by
  induction actions generalizing w with
  | nil => exact h
  | cons a rest ih => exact ih (h.step a)

theorem consistent_initial : (initial : StoreClients ι).Consistent where
  numbered := fun p => rfl
  rows := rfl
  ids := List.nodup_nil
  holds := fun a ha => by cases ha

/-- The stream law of a store: versions without gaps, sequences increasing over all projects,
the appends of each project stored once and in order, and every read from a sequence on a
suffix of the whole stream. -/
structure StreamLaw (w : StoreClients ι) : Prop where
  versions : ∀ p, (w.db.getProjectStream p 0).map EventRecord.version =
    List.range' 1 (w.db.getProjectStream p 0).length
  increasing : w.records.Pairwise fun r r' => r.eventSequence < r'.eventSequence
  stored : ∀ p, w.db.getProjectStream p 0 = w.records.filter fun r => r.projectId = p
  distinct : (w.records.map EventRecord.id).Nodup
  holds : ∀ a ∈ w.acknowledged, a.2.2.Holds a.2.1
  since : ∀ p s, w.db.getProjectStream p s <:+ w.db.getProjectStream p 0 ∧
    w.db.getProjectStream p s =
      (w.db.getProjectStream p 0).filter fun r => s < (r.eventSequence : Int)

theorem stream_law (actions : List (StoreAction ι)) : StreamLaw (initial.run actions) := by
  have h := consistent_run (ι := ι) consistent_initial actions
  refine ⟨fun p => ?_, ?_, fun p => ?_, ?_, h.holds, fun p s => ⟨?_, ?_⟩⟩
  · rw [EventDb.getProjectStream_zero]
    exact h.numbered p
  · rw [← h.rows]
    exact (initial.run actions).db.ordered
  · rw [EventDb.getProjectStream_zero, EventDb.projectRows, h.rows]
  · rw [← h.rows]
    exact h.ids
  · exact EventDb.getProjectStream_isSuffix _ p s
  · rw [EventDb.getProjectStream_zero]
    exact EventDb.getProjectStream_eq _ p s

end StoreClients

end RationaleVault
