import RationaleVault.Ledger.Memory
import RationaleVault.Ledger.Sqlite

/-!
# Agreement of the two ledgers

One client issues the same calls to both ledgers. Both refine the journal, so
they answer alike as long as every number that is bound to a statement fits a
64-bit column; the first call with a number that does not fit raises in the
SQLite ledger only.
-/

namespace RationaleVault

variable {nfc : Canonical.Normalizer}

/-- A call of the ledger interface. -/
inductive LedgerCall (nfc : Canonical.Normalizer)
  | append (c : Commit nfc)
  | readStream (streamId : String)
  | readFrom (globalOrder : Int)
  | existsCommit (commitId : String)
  | streamExists (streamId : String)

/-- What a call returns. -/
inductive LedgerAnswer
  | receipt (r : CommitReceipt)
  | entries (l : List LedgerEntry)
  | bool (b : Bool)
  deriving DecidableEq

/-- A call to the in-memory ledger. -/
def MemoryLedger.call (m : MemoryLedger) :
    LedgerCall nfc → Except Exc LedgerAnswer × MemoryLedger
  | .append c => ((m.appendResult c).1.map .receipt, (m.appendResult c).2)
  | .readStream s => (.ok (.entries (m.readStream s)), m)
  | .readFrom n => (.ok (.entries (m.readFrom n)), m)
  | .existsCommit id => (.ok (.bool (m.existsCommit id)), m)
  | .streamExists s => (.ok (.bool (m.streamExists s)), m)

/-- A call to the SQLite ledger. -/
def SQLiteLedger.call (db : SQLiteLedger) :
    LedgerCall nfc → Except Exc LedgerAnswer × SQLiteLedger
  | .append c => ((db.append c).1.map .receipt, (db.append c).2)
  | .readStream s => ((db.readStream s).map .entries, db)
  | .readFrom n => ((db.readFrom n).map .entries, db)
  | .existsCommit id => (.ok (.bool (db.existsCommit id)), db)
  | .streamExists s => (.ok (.bool (db.streamExists s)), db)

/-- The answers of the in-memory ledger to a sequence of calls, exceptions included. -/
def MemoryLedger.answers (m : MemoryLedger) :
    List (LedgerCall nfc) → List (Except Exc LedgerAnswer)
  | [] => []
  | call :: rest => (m.call call).1 :: (m.call call).2.answers rest

/-- The answers of the SQLite ledger. -/
def SQLiteLedger.answers (db : SQLiteLedger) :
    List (LedgerCall nfc) → List (Except Exc LedgerAnswer)
  | [] => []
  | call :: rest => (db.call call).1 :: SQLiteLedger.answers (db.call call).2 rest

/-- Every number the call makes the SQLite ledger bind fits a column. A recorded commit and a
commit that does not continue its stream bind none. -/
def MemoryLedger.Fits (m : MemoryLedger) : LedgerCall nfc → Prop
  | .append c => m.existsCommit c.commitId = true ∨
      (∃ e, Commit.checkSequences c.streamId
        ((m.streamSequences.get? c.streamId).getD 0 + 1) c.events = .error e) ∨
      IsInt64 m.nextGlobalOrder ∧ ∀ event ∈ c.events, IsInt64 event.sequence ∧
        IsInt64 event.rvcjVersion ∧ IsInt64 event.eventSchemaVersion
  | .readFrom n => IsInt64 n
  | .readStream _ => True
  | .existsCommit _ => True
  | .streamExists _ => True

/-- Every call fits in the state in which it is issued. -/
def MemoryLedger.AllFit (m : MemoryLedger) : List (LedgerCall nfc) → Prop
  | [] => True
  | call :: rest => m.Fits call ∧ (m.call call).2.AllFit rest

/-! ## One call -/

section Call

variable {m : MemoryLedger} {db : SQLiteLedger} {J : Journal nfc}

/-- The rows of an accepted commit fit when its numbers do. -/
theorem fits_rows_iff (c : Commit nfc) (order : Int) :
    (∀ r ∈ c.events.map (c.row order), r.Fits) ↔
      IsInt64 order ∧ ∀ event ∈ c.events, IsInt64 event.sequence ∧
        IsInt64 event.rvcjVersion ∧ IsInt64 event.eventSchemaVersion := by
  rw [List.forall_mem_map]
  constructor
  · intro h
    refine ⟨(h _ (List.head_mem c.nonempty)).2.2.2, ?_⟩
    intro event hevent
    obtain ⟨hsequence, hrvcj, hschema, _⟩ := h event hevent
    exact ⟨hsequence, hrvcj, hschema⟩
  · rintro ⟨horder, h⟩ event hevent
    obtain ⟨hsequence, hrvcj, hschema⟩ := h event hevent
    exact ⟨hsequence, hrvcj, hschema, horder⟩

/-- When an append fits, in terms of the journal. -/
theorem MemoryLedger.Represents.fits_append_iff (h : m.Represents J) (c : Commit nfc) :
    m.Fits (.append c) ↔ c.commitId ∈ J.ids ∨ ¬ J.Continues c ∨
      ∀ r ∈ c.events.map (c.row J.length), r.Fits := by
  have hgap : (∃ e, Commit.checkSequences c.streamId (J.height c.streamId + 1) c.events =
      .error e) ↔ ¬ J.Continues c := by
    rw [Journal.Continues, ← Journal.checkSequences_eq_ok_iff]
    cases Commit.checkSequences c.streamId (J.height c.streamId + 1) c.events with
    | error e => simp
    | ok u => simp
  rw [MemoryLedger.Fits, h.existsCommit, h.streamSequences, hgap, h.nextGlobalOrder,
    fits_rows_iff]

/-- A call that fits is answered alike, and the ledgers still hold one journal. -/
theorem call_eq_of_fits (hm : m.Represents J) (hdb : db.Represents J) {call : LedgerCall nfc}
    (hfit : m.Fits call) :
    (db.call call).1 = (m.call call).1 ∧
      ∃ J' : Journal nfc, (m.call call).2.Represents J' ∧ (db.call call).2.Represents J' := by
  cases call with
  | append c =>
      obtain ⟨hmem, hm'⟩ := hm.append c
      obtain ⟨hsql, hdb'⟩ := hdb.append ((hm.fits_append_iff c).mp hfit)
      refine ⟨?_, _, hm', hdb'⟩
      change (db.append c).1.map _ = (m.appendResult c).1.map _
      rw [hmem, hsql]
  | readStream s =>
      refine ⟨?_, J, hm, hdb⟩
      change (db.readStream s).map _ = .ok (LedgerAnswer.entries (m.readStream s))
      rw [hdb.readStream, hm.readStream]
      rfl
  | readFrom n =>
      refine ⟨?_, J, hm, hdb⟩
      change (db.readFrom n).map _ = .ok (LedgerAnswer.entries (m.readFrom n))
      rw [hdb.readFrom hfit, hm.readFrom]
      rfl
  | existsCommit id =>
      refine ⟨?_, J, hm, hdb⟩
      have hsame : db.existsCommit id = m.existsCommit id := by
        rw [Bool.eq_iff_iff, hdb.existsCommit, hm.existsCommit]
      change Except.ok (LedgerAnswer.bool (db.existsCommit id)) = _
      rw [hsame]
      rfl
  | streamExists s =>
      refine ⟨?_, J, hm, hdb⟩
      change Except.ok (LedgerAnswer.bool (db.streamExists s)) =
        Except.ok (LedgerAnswer.bool (m.streamExists s))
      rw [hdb.streamExists, MemoryLedger.streamExists, hm.entries]

/-- A call that does not fit raises in the SQLite ledger only. -/
theorem call_ne_of_not_fits (hm : m.Represents J) (hdb : db.Represents J) {call : LedgerCall nfc}
    (hfit : ¬ m.Fits call) : (db.call call).1 ≠ (m.call call).1 := by
  cases call with
  | append c =>
      rw [hm.fits_append_iff, not_or, not_or, not_not] at hfit
      obtain ⟨hnew, hnext, hrows⟩ := hfit
      have hmem := (hm.append c).1
      obtain ⟨receipt, hr, _⟩ | ⟨_, _, hgap, _⟩ | ⟨_, _, hJ⟩ := Journal.append_cases J c
      · rw [Journal.receiptFor_eq_none_iff.mpr hnew] at hr
        cases hr
      · exact absurd hnext hgap
      · change (db.append c).1.map _ ≠ (m.appendResult c).1.map _
        rw [hmem, hJ, hdb.append_of_continues hnew hnext, if_neg hrows]
        simp [Except.map]
  | readFrom n =>
      have hn : ¬ IsInt64 n := hfit
      change (db.readFrom n).map _ ≠ .ok (LedgerAnswer.entries (m.readFrom n))
      rw [SQLiteLedger.readFrom, if_neg hn]
      simp [Except.map]
  | readStream s => exact absurd trivial hfit
  | existsCommit id => exact absurd trivial hfit
  | streamExists s => exact absurd trivial hfit

/-- From ledgers that hold one journal, the answers to any calls. -/
theorem answers_eq_iff_allFit (hm : m.Represents J) (hdb : db.Represents J)
    (calls : List (LedgerCall nfc)) :
    SQLiteLedger.answers db calls = m.answers calls ↔ m.AllFit calls := by
  induction calls generalizing m db J with
  | nil => exact iff_of_true rfl trivial
  | cons call rest ih =>
      rw [SQLiteLedger.answers, MemoryLedger.answers, MemoryLedger.AllFit, List.cons.injEq]
      by_cases hfit : m.Fits call
      · obtain ⟨hanswer, J', hm', hdb'⟩ := call_eq_of_fits hm hdb hfit
        rw [and_iff_right hanswer, and_iff_right hfit]
        exact ih hm' hdb'
      · apply iff_of_false
        · exact fun h => call_ne_of_not_fits hm hdb hfit h.1
        · exact fun h => hfit h.1

end Call

/-- The ledgers answer a sequence of calls alike exactly when every call fits. -/
theorem ledgers_agree_iff (calls : List (LedgerCall nfc)) :
    SQLiteLedger.answers [] calls = MemoryLedger.empty.answers calls ↔
      MemoryLedger.empty.AllFit calls :=
  answers_eq_iff_allFit .empty .empty calls

/-- `read_from(2 ** 63)` returns no entries in memory and raises in the SQLite ledger. -/
theorem ledgers_differ_readFrom :
    ∃ calls : List (LedgerCall .identity), MemoryLedger.empty.answers calls = [.ok (.entries [])] ∧
      SQLiteLedger.answers [] calls = [.error .overflowError] :=
  ⟨[.readFrom (2 ^ 63)], rfl, rfl⟩

end RationaleVault
