import RationaleVault.Ledger.Equivalence
import RationaleVault.Replay.DefaultReplayer

/-!
# Replay over either ledger

The replayer reads a ledger through its interface only. After any calls that the SQLite ledger can
bind, both ledgers replay the journal of the accepted commits: a commit that was offered again, or
that did not continue its stream, leaves no trace.
-/

namespace RationaleVault

variable {nfc : Canonical.Normalizer}

/-- The in-memory ledger after some calls. -/
def MemoryLedger.after (m : MemoryLedger) (calls : List (LedgerCall nfc)) : MemoryLedger :=
  calls.foldl (fun m call => (m.call call).2) m

/-- The SQLite ledger after some calls. -/
def SQLiteLedger.after (db : SQLiteLedger) (calls : List (LedgerCall nfc)) : SQLiteLedger :=
  calls.foldl (fun db call => (db.call call).2) db

/-- The commit that a call offers. -/
def LedgerCall.offered : LedgerCall nfc → Option (Commit nfc)
  | .append c => some c
  | _ => none

namespace Replay.DefaultReplayer

variable {σ : Type}

/-- `_read_entries(ledger, scope)` of the SQLite ledger, which raises for a row it cannot read. -/
def readEntriesSqlite (db : SQLiteLedger) : ReplayScope → Except Exc (List LedgerEntry)
  | .global => db.readFrom 0
  | .stream s => db.readStream s

/-- `replay(ledger, scope, mode)` over the SQLite ledger. -/
def replaySqlite (init : σ) (registry : ReducerRegistry σ) (db : SQLiteLedger)
    (scope : ReplayScope) (mode : ReplayMode) : Except Exc (ReplayResult σ) := do
  let entries ← readEntriesSqlite db scope
  replayEntries init registry mode entries

/-- `replay_to(ledger, boundary, mode)` over the SQLite ledger. -/
def replayToSqlite (init : σ) (registry : ReducerRegistry σ) (db : SQLiteLedger)
    (boundary : ReplayBoundary) (mode : ReplayMode) : Except Exc (ReplayResult σ) := do
  let entries ← db.readFrom 0
  replayEntries init registry mode (entries.filter fun e => e.globalOrder ≤ boundary.globalOrder)

/-- The entries of the journal that a scope takes in. -/
def scopeEntries (J : Journal nfc) : ReplayScope → List LedgerEntry
  | .global => J.entries
  | .stream s => J.stream s

end Replay.DefaultReplayer

/-! ## Both ledgers hold the accepted commits -/

/-- The journal after the commits that the calls offer. -/
def Journal.after (J : Journal nfc) (calls : List (LedgerCall nfc)) : Journal nfc :=
  J.run (calls.filterMap LedgerCall.offered)

theorem Journal.after_cons (J : Journal nfc) (call : LedgerCall nfc) (rest : List (LedgerCall nfc)) :
    J.after (call :: rest) = (J.after [call]).after rest := by
  cases call with
  | append c => rfl
  | readStream s => rfl
  | readFrom n => rfl
  | existsCommit id => rfl
  | streamExists s => rfl

theorem MemoryLedger.Represents.call {m : MemoryLedger} {J : Journal nfc} (h : m.Represents J)
    (call : LedgerCall nfc) : (m.call call).2.Represents (J.after [call]) := by
  cases call with
  | append c => exact (h.append c).2
  | readStream s => exact h
  | readFrom n => exact h
  | existsCommit id => exact h
  | streamExists s => exact h

theorem SQLiteLedger.Represents.call {m : MemoryLedger} {db : SQLiteLedger} {J : Journal nfc}
    (hm : m.Represents J) (hdb : db.Represents J) {call : LedgerCall nfc} (hfit : m.Fits call) :
    (db.call call).2.Represents (J.after [call]) := by
  cases call with
  | append c => exact (hdb.append ((hm.fits_append_iff c).mp hfit)).2
  | readStream s => exact hdb
  | readFrom n => exact hdb
  | existsCommit id => exact hdb
  | streamExists s => exact hdb

/-- After calls that fit, both ledgers hold the journal of the accepted commits. -/
theorem represents_after {m : MemoryLedger} {db : SQLiteLedger} {J : Journal nfc}
    (hm : m.Represents J) (hdb : db.Represents J) {calls : List (LedgerCall nfc)}
    (hfit : m.AllFit calls) :
    (m.after calls).Represents (J.after calls) ∧
      (SQLiteLedger.after db calls).Represents (J.after calls) := by
  induction calls generalizing m db J with
  | nil => exact ⟨hm, hdb⟩
  | cons call rest ih =>
      rw [Journal.after_cons]
      exact ih (hm.call call) (SQLiteLedger.Represents.call hm hdb hfit.1) hfit.2

namespace Replay.DefaultReplayer

variable {σ : Type}

/-- Up to a boundary stand the entries of the commits with these orders. -/
theorem filter_entries_le (J : Journal nfc) (boundary : ReplayBoundary) :
    (J.entries.filter fun e => e.globalOrder ≤ boundary.globalOrder) =
      Journal.entries (J.take (boundary.globalOrder + 1).toNat) := by
  have hnonneg := boundary.nonneg
  generalize hn : (boundary.globalOrder + 1).toNat = n
  have hle : ∀ e : LedgerEntry,
      e.globalOrder ≤ boundary.globalOrder ↔ e.globalOrder < (n : Int) := by
    intro e
    omega
  simp only [hle]
  by_cases hall : J.length ≤ n
  · rw [List.take_of_length_le hall, List.filter_eq_self]
    intro e he
    have hlt := (Journal.globalOrder_lt he).2
    exact decide_eq_true (by omega)
  · have hlength : (J.take n).length = n := List.length_take_of_le (Nat.le_of_not_le hall)
    have hfilter := Journal.filter_entries_lt (J.take n) (J.drop n)
    rwa [List.take_append_drop, hlength] at hfilter

/-- A read of all entries gives those of the journal. -/
theorem readFrom_zero {db : SQLiteLedger} {J : Journal nfc} (h : db.Represents J) :
    db.readFrom 0 = .ok J.entries := by
  rw [h.readFrom (by decide), List.filter_eq_self.mpr]
  intro e he
  exact decide_eq_true (Journal.globalOrder_lt he).1

/-- After any calls that fit, a replay over either ledger is a replay of the accepted commits in the
order of their acceptance, and a replay up to a boundary one of the commits up to that order. -/
theorem replay_of_journal (calls : List (LedgerCall nfc)) (hfit : MemoryLedger.empty.AllFit calls)
    (init : σ) (registry : ReducerRegistry σ) (mode : ReplayMode) :
    (∀ scope, replay init registry (MemoryLedger.empty.after calls) scope mode =
        replayEntries init registry mode (scopeEntries (Journal.after [] calls) scope) ∧
      replaySqlite init registry (SQLiteLedger.after [] calls) scope mode =
        replayEntries init registry mode (scopeEntries (Journal.after [] calls) scope)) ∧
    ∀ boundary : ReplayBoundary,
      replayTo init registry (MemoryLedger.empty.after calls) boundary mode =
        replayEntries init registry mode (Journal.entries
          ((Journal.after [] calls).take (boundary.globalOrder + 1).toNat)) ∧
      replayToSqlite init registry (SQLiteLedger.after [] calls) boundary mode =
        replayEntries init registry mode (Journal.entries
          ((Journal.after [] calls).take (boundary.globalOrder + 1).toNat)) := by
  obtain ⟨hm, hdb⟩ := represents_after .empty .empty hfit
  constructor
  · intro scope
    cases scope with
    | global =>
        constructor
        · rw [replay, readEntries, hm.readFrom_zero, scopeEntries]
        · rw [replaySqlite, readEntriesSqlite, readFrom_zero hdb, scopeEntries]
          rfl
    | stream s =>
        constructor
        · rw [replay, readEntries, hm.readStream, scopeEntries]
        · rw [replaySqlite, readEntriesSqlite, hdb.readStream, scopeEntries]
          rfl
  · intro boundary
    constructor
    · rw [replayTo, hm.readFrom_zero, filter_entries_le]
    · rw [replayToSqlite, readFrom_zero hdb, ← filter_entries_le]
      rfl

/-- A commit that is offered and read. -/
def offeredAndRead : List (LedgerCall .identity) :=
  [.append (.single .identity "a" (firstEvent "a")), .readFrom 0]

theorem replay_of_journal_single :
    replaySqlite 0 countingRegistry (SQLiteLedger.after [] offeredAndRead) .global .full =
      replayEntries 0 countingRegistry .full
        (scopeEntries (Journal.after [] offeredAndRead) .global) := by
  have hfit : MemoryLedger.empty.AllFit offeredAndRead := by
    have hzero : IsInt64 0 := by decide
    refine ⟨Or.inr (Or.inr ⟨hzero, fun event hevent => ?_⟩), hzero, trivial⟩
    rw [List.mem_singleton.mp hevent]
    decide
  exact ((replay_of_journal offeredAndRead hfit 0 countingRegistry .full).1 .global).2

end Replay.DefaultReplayer

end RationaleVault
