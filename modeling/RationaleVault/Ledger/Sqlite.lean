import Mathlib.Algebra.Group.Int.Defs
import RationaleVault.Ledger.Journal
import RationaleVault.Library.Fold
import RationaleVault.Library.Table

/-!
# The SQLite ledger

The table of the SQLite ledger holds the entries with their payloads as text.
Sequences, orders and receipts are not stored: every append computes them from
the rows. An integer column holds 64-bit integers, and a number beyond them
cannot be bound to a statement.
-/

namespace RationaleVault

/-- A row of `ledger_entries`. -/
structure LedgerRow where
  streamId : String
  sequence : Int
  commitId : String
  eventId : String
  rvcjVersion : Int
  eventSchemaVersion : Int
  eventType : String
  timestamp : String
  payload : String
  globalOrder : Int
  deriving DecidableEq

/-- The integers that can be bound to a statement. -/
def IsInt64 (n : Int) : Prop := -2 ^ 63 ≤ n ∧ n < 2 ^ 63

instance (n : Int) : Decidable (IsInt64 n) := inferInstanceAs (Decidable (_ ∧ _))

namespace LedgerRow

/-- `PRIMARY KEY (stream_id, sequence)`. -/
def key (r : LedgerRow) : String × Int := (r.streamId, r.sequence)

def Fits (r : LedgerRow) : Prop :=
  IsInt64 r.sequence ∧ IsInt64 r.rvcjVersion ∧ IsInt64 r.eventSchemaVersion ∧
    IsInt64 r.globalOrder

instance (r : LedgerRow) : Decidable r.Fits := inferInstanceAs (Decidable (_ ∧ _))

/-- The parameters of the `INSERT`. -/
def bind (r : LedgerRow) : Except Exc Unit := if r.Fits then .ok () else .error .overflowError

theorem bind_eq_ok_iff {r : LedgerRow} : r.bind = .ok () ↔ r.Fits := by
  by_cases h : r.Fits <;> simp [bind, h]

theorem bind_eq_error_iff {r : LedgerRow} {e : Exc} :
    r.bind = .error e ↔ ¬ r.Fits ∧ e = .overflowError := by
  by_cases h : r.Fits <;> simp [bind, h, eq_comm]

/-- `_row_to_entry(row)`. -/
def toEntry (r : LedgerRow) : Except Exc LedgerEntry :=
  match Json.loads r.payload with
  | none => .error .jsonDecodeError
  | some payload => .ok {
      streamId := r.streamId, sequence := r.sequence, commitId := r.commitId, eventId := r.eventId
      rvcjVersion := r.rvcjVersion, eventSchemaVersion := r.eventSchemaVersion
      eventType := r.eventType, timestamp := r.timestamp, payload, globalOrder := r.globalOrder }

end LedgerRow

/-- The row an event of the commit is inserted as. -/
def Commit.row {nfc : Canonical.Normalizer} (c : Commit nfc) (globalOrder : Int)
    (event : CanonicalEnvelope) : LedgerRow where
  streamId := c.streamId
  sequence := event.sequence
  commitId := c.commitId
  eventId := "EVT-" ++ String.ofList ((event.contentDigest nfc).toList.take 12)
  rvcjVersion := event.rvcjVersion
  eventSchemaVersion := event.eventSchemaVersion
  eventType := event.eventType.value
  timestamp := Canonical.toIso8601 event.timestamp
  payload := Json.dumps .compact (.obj event.payload)
  globalOrder := globalOrder

/-- The table, in insertion order. -/
abbrev SQLiteLedger := List LedgerRow

namespace SQLiteLedger

variable {nfc : Canonical.Normalizer}

/-- The rows of a commit. -/
def withCommit (db : SQLiteLedger) (commitId : String) : List LedgerRow :=
  db.filter fun r => r.commitId = commitId

/-- The receipt of a recorded commit, rebuilt from its first and its last row. -/
def recordedReceipt (db : SQLiteLedger) (commitId : String) : Except Exc CommitReceipt :=
  match (Table.orderBy LedgerRow.sequence (db.withCommit commitId)).head?,
    (Table.orderByDesc LedgerRow.sequence (db.withCommit commitId)).head? with
  | some existing, some last => .ok {
      commitId, streamId := existing.streamId, sequenceStart := existing.sequence
      sequenceEnd := last.sequence, globalOrder := existing.globalOrder }
  | _, _ => .error .typeError

/-- `SELECT MAX(sequence) … WHERE stream_id = ?`, or zero. -/
def currentSequence (db : SQLiteLedger) (streamId : String) : Int :=
  Table.maxD 0 ((db.filter fun r => r.streamId = streamId).map LedgerRow.sequence)

/-- `SELECT COALESCE(MAX(global_order), -1)`, plus one. -/
def nextGlobalOrder (db : SQLiteLedger) : Int :=
  Table.maxD (-1) (db.map LedgerRow.globalOrder) + 1

/-- The insert transaction. -/
def insert (db : SQLiteLedger) (rows : List LedgerRow) : Except Exc SQLiteLedger :=
  Table.insertAll LedgerRow.bind LedgerRow.key .integrityError db rows

/-- `append(commit)`, with the table after it; an exception in the transaction rolls it back. -/
def append (db : SQLiteLedger) (c : Commit nfc) : Except Exc CommitReceipt × SQLiteLedger :=
  match (db.withCommit c.commitId).head? with
  | some _ => (db.recordedReceipt c.commitId, db)
  | none =>
      match Commit.checkSequences c.streamId (db.currentSequence c.streamId + 1) c.events with
      | .error e => (.error e, db)
      | .ok () =>
          match db.insert (c.events.map (c.row db.nextGlobalOrder)) with
          | .error e => (.error e, db)
          | .ok db' => (.ok (c.receipt db.nextGlobalOrder), db')

/-- `read_stream(stream_id)`. -/
def readStream (db : SQLiteLedger) (streamId : String) : Except Exc (List LedgerEntry) :=
  (Table.orderBy LedgerRow.sequence (db.filter fun r => r.streamId = streamId)).mapM
    LedgerRow.toEntry

/-- `read_from(global_order)`. -/
def readFrom (db : SQLiteLedger) (globalOrder : Int) : Except Exc (List LedgerEntry) :=
  if IsInt64 globalOrder then
    (Table.orderBy LedgerRow.globalOrder
      (db.filter fun r => globalOrder ≤ r.globalOrder)).mapM LedgerRow.toEntry
  else .error .overflowError

/-- `exists(commit_id)`. -/
def existsCommit (db : SQLiteLedger) (commitId : String) : Bool :=
  db.any fun r => r.commitId = commitId

/-- `stream_exists(stream_id)`. -/
def streamExists (db : SQLiteLedger) (streamId : String) : Bool :=
  db.any fun r => r.streamId = streamId

end SQLiteLedger

/-! ## Rows and entries -/

/-- The row that stores an entry. -/
def LedgerEntry.toRow (e : LedgerEntry) : LedgerRow where
  streamId := e.streamId
  sequence := e.sequence
  commitId := e.commitId
  eventId := e.eventId
  rvcjVersion := e.rvcjVersion
  eventSchemaVersion := e.eventSchemaVersion
  eventType := e.eventType
  timestamp := e.timestamp
  payload := Json.dumps .compact e.payload
  globalOrder := e.globalOrder

@[simp] theorem LedgerEntry.toEntry_toRow (e : LedgerEntry) : e.toRow.toEntry = .ok e := by
  rw [LedgerRow.toEntry, LedgerEntry.toRow, Json.loads_dumps]

theorem LedgerEntry.mapM_toEntry (l : List LedgerEntry) :
    (l.map LedgerEntry.toRow).mapM LedgerRow.toEntry = .ok l :=
  Fold.mapM_map_of_inverse fun e _ => e.toEntry_toRow

theorem Commit.map_row {nfc : Canonical.Normalizer} (c : Commit nfc) (order : Int) :
    c.events.map (c.row order) = (c.entries order).map LedgerEntry.toRow := by
  rw [Commit.entries, List.map_map]
  rfl

/-! ## Refinement of the journal -/

namespace SQLiteLedger

variable {nfc : Canonical.Normalizer}

/-- The rows are those of a valid journal, in order. -/
structure Represents (db : SQLiteLedger) (J : Journal nfc) : Prop where
  valid : J.Valid
  rows : db = J.entries.map LedgerEntry.toRow

theorem maxD_sequencesAfter (n : Nat) : Table.maxD 0 (Journal.sequencesAfter 0 n) = n := by
  cases n with
  | zero => rfl
  | succ n =>
      apply Table.maxD_eq
      · exact List.mem_map.mpr ⟨n, by simp, by push_cast; omega⟩
      · intro x hx
        obtain ⟨i, hi, rfl⟩ := List.mem_map.mp hx
        have := List.mem_range.mp hi
        push_cast
        omega

namespace Represents

variable {db : SQLiteLedger} {J : Journal nfc}

theorem empty : Represents [] ([] : Journal nfc) := ⟨.nil, rfl⟩

/-- Selecting rows is selecting entries. -/
theorem filter (h : db.Represents J) (p : LedgerRow → Bool) :
    db.filter p = (J.entries.filter fun e => p e.toRow).map LedgerEntry.toRow := by
  rw [h.rows, List.filter_map]
  rfl

theorem currentSequence (h : db.Represents J) (s : String) :
    db.currentSequence s = J.height s := by
  rw [SQLiteLedger.currentSequence, h.filter, List.map_map, ← maxD_sequencesAfter,
    ← h.valid.sequences]
  rfl

/-- The maximal order is that of the last commit. -/
theorem nextGlobalOrder (h : db.Represents J) : db.nextGlobalOrder = J.length := by
  rw [SQLiteLedger.nextGlobalOrder, h.rows, List.map_map]
  by_cases hJ : J = []
  · subst hJ
    rfl
  · exact Journal.maxD_globalOrder (-1) hJ

theorem existsCommit (h : db.Represents J) (id : String) :
    db.existsCommit id = true ↔ id ∈ J.ids := by
  rw [SQLiteLedger.existsCommit, h.rows, List.any_map, List.any_eq_true, Journal.mem_ids_iff]
  simp only [Function.comp_apply, decide_eq_true_eq]
  rfl

theorem isSome_head?_withCommit (h : db.Represents J) (id : String) :
    (db.withCommit id).head?.isSome = true ↔ id ∈ J.ids := by
  rw [← h.existsCommit, List.isSome_head?, withCommit, SQLiteLedger.existsCommit, Ne,
    List.filter_eq_nil_iff]
  simp

theorem streamExists (h : db.Represents J) (s : String) :
    db.streamExists s = J.entries.any fun e => e.streamId = s := by
  rw [SQLiteLedger.streamExists, h.rows, List.any_map]
  rfl

theorem readStream (h : db.Represents J) (s : String) : db.readStream s = .ok (J.stream s) := by
  rw [SQLiteLedger.readStream, h.filter, Table.orderBy_eq_self, LedgerEntry.mapM_toEntry]
  · rfl
  · rw [List.pairwise_map]
    exact (h.valid.pairwise_sequence s).imp fun hlt => hlt.le

theorem readFrom (h : db.Represents J) {n : Int} (hn : IsInt64 n) :
    db.readFrom n = .ok (J.entries.filter fun e => n ≤ e.globalOrder) := by
  rw [SQLiteLedger.readFrom, if_pos hn, h.filter, Table.orderBy_eq_self, LedgerEntry.mapM_toEntry]
  · rfl
  · rw [List.pairwise_map]
    exact (Journal.pairwise_globalOrder J).filter _

/-- The receipt rebuilt from the rows is the one of the journal. -/
theorem recordedReceipt (h : db.Represents J) {id : String} {r : CommitReceipt}
    (hr : J.receiptFor id = some r) : db.recordedReceipt id = .ok r := by
  obtain ⟨k, c, hc, rfl, rfl⟩ := Journal.receiptFor_eq_some hr
  have hrows : db.withCommit c.commitId = (c.entries k).map LedgerEntry.toRow := by
    rw [withCommit, h.filter, ← h.valid.filter_commitId hc]
    rfl
  have hdescribes := h.valid.describes hc
  have hordered : Table.orderBy LedgerRow.sequence (db.withCommit c.commitId) =
      (c.entries k).map LedgerEntry.toRow := by
    rw [hrows]
    apply Table.orderBy_eq_self
    rw [List.pairwise_map]
    exact hdescribes.pairwise_sequence.imp fun hlt => hlt.le
  obtain ⟨first, rest, hfirst⟩ := List.exists_cons_of_ne_nil hdescribes.nonempty
  obtain ⟨last, hlast⟩ : ∃ last, (Table.orderByDesc LedgerRow.sequence
      (db.withCommit c.commitId)).head? = some last := by
    rw [← Option.isSome_iff_exists, List.isSome_head?]
    apply List.ne_nil_of_mem (Table.mem_orderByDesc.mpr _)
    · exact first.toRow
    · simp [hrows, hfirst]
  have hend : last.sequence = (c.receipt k).sequenceEnd := by
    obtain ⟨hmem, hmax⟩ := Table.head?_orderByDesc hlast
    rw [hrows] at hmem hmax
    obtain ⟨e, he, rfl⟩ := List.mem_map.mp hmem
    have hrange := hdescribes.mem_sequences_iff.mp (List.mem_map_of_mem he)
    obtain ⟨e', he', hlast'⟩ := List.mem_map.mp
      (hdescribes.mem_sequences_iff.mpr ⟨hrange.1.trans hrange.2, le_rfl⟩)
    have hle := hmax _ (List.mem_map_of_mem he')
    apply le_antisymm hrange.2
    rw [← hlast']
    exact hle
  have hmem : first ∈ c.entries k := hfirst ▸ List.mem_cons_self
  rw [SQLiteLedger.recordedReceipt, hlast, hordered, hfirst]
  change Except.ok (CommitReceipt.mk _ first.streamId first.sequence last.sequence
    first.globalOrder) = _
  rw [hend, hdescribes.stream _ hmem, hdescribes.order _ hmem,
    hdescribes.head_sequence (by rw [hfirst, List.head?_cons])]
  rfl

/-- The primary key never refuses a commit that continues its stream. -/
theorem insert (h : db.Represents J) {c : Commit nfc} (hnew : c.commitId ∉ J.ids)
    (hnext : J.Continues c) :
    db.insert (c.events.map (c.row J.length)) =
      if ∀ r ∈ c.events.map (c.row J.length), r.Fits then
        .ok ((J ++ [c]).entries.map LedgerEntry.toRow) else .error .overflowError := by
  have hrows : db ++ c.events.map (c.row J.length) =
      (Journal.entries (J ++ [c])).map LedgerEntry.toRow := by
    rw [Journal.entries_snoc, List.map_append, ← h.rows, Commit.map_row]
  have hkeys : ((db ++ c.events.map (c.row J.length)).map LedgerRow.key).Nodup := by
    rw [hrows, List.map_map]
    exact (h.valid.snoc hnew hnext).nodup_keys
  rw [SQLiteLedger.insert, ← hrows]
  obtain ⟨r, hr, e, hbind, hrun⟩ | ⟨hall, hrun⟩ :=
    Table.insertAll_of_nodup LedgerRow.bind .integrityError hkeys
  · obtain ⟨hfit, rfl⟩ := LedgerRow.bind_eq_error_iff.mp hbind
    rw [hrun, if_neg fun hall => hfit (hall r hr)]
  · rw [hrun, if_pos fun r hr => LedgerRow.bind_eq_ok_iff.mp (hall r hr)]

/-- An append of a commit that the journal accepts. -/
theorem append_of_continues (h : db.Represents J) {c : Commit nfc} (hnew : c.commitId ∉ J.ids)
    (hnext : J.Continues c) :
    db.append c = if ∀ r ∈ c.events.map (c.row J.length), r.Fits then
      (.ok (c.receipt J.length), (J ++ [c]).entries.map LedgerEntry.toRow)
      else (.error .overflowError, db) := by
  have hnone : (db.withCommit c.commitId).head? = none := by
    rwa [← Option.not_isSome_iff_eq_none, h.isSome_head?_withCommit]
  have hcheck : Commit.checkSequences c.streamId (J.height c.streamId + 1) c.events = .ok () :=
    Journal.checkSequences_eq_ok_iff.mpr hnext
  rw [SQLiteLedger.append, hnone, h.currentSequence, h.nextGlobalOrder, hcheck,
    h.insert hnew hnext]
  by_cases hfit : ∀ r ∈ c.events.map (c.row J.length), r.Fits
  · rw [if_pos hfit, if_pos hfit]
  · rw [if_neg hfit, if_neg hfit]

/-- An append answers as the journal does unless it inserts a number that does not fit. -/
theorem append (h : db.Represents J) {c : Commit nfc}
    (hfit : c.commitId ∈ J.ids ∨ ¬ J.Continues c ∨
      ∀ r ∈ c.events.map (c.row J.length), r.Fits) :
    (db.append c).1 = (J.append c).1 ∧ (db.append c).2.Represents (J.append c).2 := by
  cases hreceipt : J.receiptFor c.commitId with
  | some receipt =>
      have hsome : (db.withCommit c.commitId).head?.isSome := by
        rw [h.isSome_head?_withCommit, ← Journal.receiptFor_isSome_iff, hreceipt]
        rfl
      obtain ⟨row, hrow⟩ := Option.isSome_iff_exists.mp hsome
      rw [SQLiteLedger.append, Journal.append, hreceipt, hrow]
      exact ⟨h.recordedReceipt hreceipt, h⟩
  | none =>
      have hnew := Journal.receiptFor_eq_none_iff.mp hreceipt
      have hnone : (db.withCommit c.commitId).head? = none := by
        rwa [← Option.not_isSome_iff_eq_none, h.isSome_head?_withCommit]
      cases hcheck : Commit.checkSequences c.streamId (J.height c.streamId + 1) c.events with
      | error e =>
          rw [SQLiteLedger.append, Journal.append, hreceipt, hnone, h.currentSequence, hcheck]
          exact ⟨rfl, h⟩
      | ok u =>
          have hnext : J.Continues c := Journal.checkSequences_eq_ok_iff.mp hcheck
          have hrows := (hfit.resolve_left hnew).resolve_left (not_not.mpr hnext)
          rw [h.append_of_continues hnew hnext, if_pos hrows, Journal.append, hreceipt, hcheck]
          exact ⟨rfl, h.valid.snoc hnew hnext, rfl⟩

end Represents

end SQLiteLedger

end RationaleVault
