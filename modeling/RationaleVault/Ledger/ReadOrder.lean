import Mathlib.Data.List.Perm.Basic
import RationaleVault.Ledger.Concurrency

/-!
# Commit order of reads

`read_from` sorts by `global_order` alone, and all events of a commit share
one order. SQL promises nothing about rows with equal keys, so a read may
return the events of a commit in any order.
-/

namespace RationaleVault

variable {nfc : Canonical.Normalizer}

/-- A result that SQL permits for `read_from(n)`: the selected rows sorted by their order. -/
def SQLiteLedger.MayReadFrom (db : SQLiteLedger) (n : Int) (entries : List LedgerEntry) : Prop :=
  IsInt64 n ∧ ∃ rows, Table.Ordered LedgerRow.globalOrder
    (db.filter fun r => n ≤ r.globalOrder) rows ∧ rows.mapM LedgerRow.toEntry = .ok entries

/-- The result with ties in insertion order is permitted. -/
theorem SQLiteLedger.mayReadFrom_of_readFrom {db : SQLiteLedger} {n : Int}
    {entries : List LedgerEntry} (h : db.readFrom n = .ok entries) : db.MayReadFrom n entries := by
  rw [SQLiteLedger.readFrom] at h
  split_ifs at h with hn
  exact ⟨hn, _, Table.ordered_orderBy _ _, h⟩

theorem LedgerEntry.toRow_injective : Function.Injective LedgerEntry.toRow := by
  intro e e' h
  have hentry := congrArg LedgerRow.toEntry h
  rw [e.toEntry_toRow, e'.toEntry_toRow, Except.ok.injEq] at hentry
  exact hentry

/-- Permitted results, in terms of the stored entries. -/
theorem SQLiteLedger.mayReadFrom_iff {stored entries : List LedgerEntry} {n : Int} :
    SQLiteLedger.MayReadFrom (stored.map LedgerEntry.toRow) n entries ↔
      IsInt64 n ∧ Table.Ordered LedgerEntry.globalOrder
        (stored.filter fun e => n ≤ e.globalOrder) entries := by
  rw [MayReadFrom, List.filter_map]
  constructor
  · rintro ⟨hn, rows, ⟨hperm, hsorted⟩, hentries⟩
    have hrange : rows ∈ Set.range (List.map LedgerEntry.toRow) := by
      rw [Set.range_list_map]
      intro r hr
      obtain ⟨e, _, rfl⟩ := List.mem_map.mp (hperm.subset hr)
      exact ⟨e, rfl⟩
    obtain ⟨result, rfl⟩ := hrange
    rw [LedgerEntry.mapM_toEntry, Except.ok.injEq] at hentries
    subst hentries
    refine ⟨hn, ?_, ?_⟩
    · exact (List.map_perm_map_iff LedgerEntry.toRow_injective).mp hperm
    · rw [List.pairwise_map] at hsorted
      exact hsorted
  · rintro ⟨hn, hperm, hsorted⟩
    refine ⟨hn, entries.map LedgerEntry.toRow, ⟨hperm.map _, ?_⟩, LedgerEntry.mapM_toEntry _⟩
    exact List.pairwise_map.mpr hsorted

/-! ## The commits of a run -/

namespace Writers

variable {ι : Type} [DecidableEq ι]

/-- The commits that a run stores, in the order of their transactions. -/
def committed (w : Writers nfc ι) : List (WriterStep nfc ι) → List (Commit nfc × Int)
  | [] => []
  | a :: rest => w.inserted a ++ (w.step a).committed rest

/-- The entries of stored commits. -/
def entriesOf (commits : List (Commit nfc × Int)) : List LedgerEntry :=
  commits.flatMap fun b => b.1.entries b.2

theorem entriesOf_append (bs bs' : List (Commit nfc × Int)) :
    entriesOf (bs ++ bs') = entriesOf bs ++ entriesOf bs' := List.flatMap_append

/-- A step adds the rows of the commit it stores. -/
theorem db_step {w : Writers nfc ι} (hkeys : (w.db.map LedgerRow.key).Nodup)
    (a : WriterStep nfc ι) :
    (w.step a).db = w.db ++ (entriesOf (w.inserted a)).map LedgerEntry.toRow ∧
      ((w.step a).db.map LedgerRow.key).Nodup := by
  obtain ⟨hsame, hnone⟩ | ⟨i, c, globalOrder, rfl, _, hinsert, hone⟩ := step_cases w a
  · rw [hsame, hnone]
    exact ⟨by simp [entriesOf], hkeys⟩
  · obtain ⟨hdb, hkeys', _⟩ := Table.insertAll_eq_ok hinsert hkeys
    refine ⟨?_, hkeys'⟩
    rw [hdb, hone, Commit.map_row]
    simp [entriesOf]

theorem db_run {w : Writers nfc ι} (hkeys : (w.db.map LedgerRow.key).Nodup)
    (steps : List (WriterStep nfc ι)) :
    (w.run steps).db = w.db ++ (entriesOf (w.committed steps)).map LedgerEntry.toRow ∧
      ((w.run steps).db.map LedgerRow.key).Nodup := by
  induction steps generalizing w with
  | nil => exact ⟨by simp [run, committed, entriesOf], hkeys⟩
  | cons a rest ih =>
      obtain ⟨hstep, hkeys'⟩ := db_step hkeys a
      obtain ⟨hrest, hkeys''⟩ := ih hkeys'
      refine ⟨?_, hkeys''⟩
      change ((w.step a).run rest).db = _
      rw [hrest, hstep, committed, entriesOf_append, List.map_append, List.append_assoc]

end Writers

/-! ## Order within a commit -/

/-- Every permitted result keeps two rows of one order in place only if there are no two such rows. -/
theorem keeps_order_iff {commits : List (Commit nfc × Int)} {n : Int}
    (hkeys : (((Writers.entriesOf commits).map LedgerEntry.toRow).map LedgerRow.key).Nodup) :
    (∀ entries, Table.Ordered LedgerEntry.globalOrder
        ((Writers.entriesOf commits).filter fun e => n ≤ e.globalOrder) entries →
      ∀ b ∈ commits, n ≤ b.2 → (b.1.entries b.2).Sublist entries) ↔
    ∀ b ∈ commits, n ≤ b.2 → b.1.events.length = 1 := by
  have hnodup : (Writers.entriesOf commits).Nodup := (hkeys.of_map _).of_map _
  have hselected : ∀ b ∈ commits, n ≤ b.2 → (b.1.entries b.2).Sublist
      ((Writers.entriesOf commits).filter fun e => n ≤ e.globalOrder) := by
    intro b hb hn
    have hblock : (b.1.entries b.2).Sublist (Writers.entriesOf commits) := by
      rw [Writers.entriesOf, List.flatMap_def]
      exact List.sublist_flatten_of_mem (List.mem_map_of_mem hb)
    have hself : (b.1.entries b.2).filter (fun e => n ≤ e.globalOrder) = b.1.entries b.2 := by
      rw [List.filter_eq_self]
      intro e he
      simpa [(Journal.commitId_of_mem_entries he).2] using hn
    rw [← hself]
    exact hblock.filter _
  constructor
  · intro h b hb hn
    by_contra hlen
    -- A commit with two events can come back with the first two exchanged.
    obtain ⟨event, event', rest, hevents⟩ : ∃ e e' rest, b.1.events = e :: e' :: rest := by
      cases hevents : b.1.events with
      | nil => exact absurd hevents b.1.nonempty
      | cons event rest =>
          cases rest with
          | nil => exact absurd (by rw [hevents]; rfl) hlen
          | cons event' rest => exact ⟨event, event', rest, rfl⟩
    have hpair : [b.1.entry b.2 event, b.1.entry b.2 event'].Sublist (b.1.entries b.2) := by
      rw [Commit.entries, hevents, List.map_cons, List.map_cons]
      exact ((List.nil_sublist _).cons_cons _).cons_cons _
    obtain ⟨entries, hentries, hswapped⟩ :=
      Table.exists_ordered_swap LedgerEntry.globalOrder (hpair.trans (hselected b hb hn)) rfl
    have hkept := hpair.trans (h entries hentries b hb hn)
    exact Table.not_pair_sublist_swap (hentries.perm.nodup_iff.mpr (hnodup.filter _)) hkept hswapped
  · intro h entries hentries b hb hn
    obtain ⟨event, hevent⟩ := List.length_eq_one_iff.mp (h b hb hn)
    have hblock : b.1.entries b.2 = [b.1.entry b.2 event] := by
      rw [Commit.entries, hevent, List.map_singleton]
    have hmem := (hselected b hb hn).subset (by rw [hblock]; exact List.mem_cons_self)
    rw [hblock, List.singleton_sublist]
    exact hentries.perm.symm.subset hmem

/-- Every permitted read keeps the events of every commit in commit order exactly when no commit
it selects has two events. -/
theorem readFrom_keeps_commit_order_iff {ι : Type} [DecidableEq ι]
    (steps : List (WriterStep nfc ι)) (n : Int) :
    let w : Writers nfc ι := Writers.initial
    (∀ entries, (w.run steps).db.MayReadFrom n entries →
      ∀ b ∈ w.committed steps, n ≤ b.2 → (b.1.entries b.2).Sublist entries) ↔
    (IsInt64 n → ∀ b ∈ w.committed steps, n ≤ b.2 → b.1.events.length = 1) := by
  intro w
  obtain ⟨hdb, hkeys⟩ := Writers.db_run (w := w) List.nodup_nil steps
  rw [show w.db = [] from rfl, List.nil_append] at hdb
  rw [hdb] at hkeys
  have horder := keeps_order_iff (n := n) hkeys
  rw [hdb]
  simp only [SQLiteLedger.mayReadFrom_iff, and_imp]
  constructor
  · intro h hn
    exact horder.mp fun entries => h entries hn
  · intro h entries hn
    exact horder.mpr (h hn) entries

/-- A commit of two events. -/
def pairCommit : Commit .identity where
  commitId := computeCommitId .identity [firstEvent "a", { firstEvent "a" with sequence := 2 }]
  streamId := "a"
  events := [firstEvent "a", { firstEvent "a" with sequence := 2 }]
  nonempty := List.cons_ne_nil _ _
  experience := by simp [firstEvent]
  digest := rfl

/-- One connection appends the commit of two events. -/
def pairWriter : List (WriterStep .identity Unit) :=
  [.lookup () pairCommit, .readSequence (), .readOrder (), .insert ()]

/-- SQL permits a read that returns the second event of the commit first. -/
theorem readFrom_may_exchange_events :
    ∃ entries, ((Writers.initial : Writers .identity Unit).run pairWriter).db.MayReadFrom 0 entries ∧
      entries.map LedgerEntry.sequence = [2, 1] := by
  obtain ⟨hdb, _⟩ := Writers.db_run (w := (Writers.initial : Writers .identity Unit))
    List.nodup_nil pairWriter
  have hcommitted : (Writers.initial : Writers .identity Unit).committed pairWriter =
      [(pairCommit, 0)] := rfl
  refine ⟨(pairCommit.entries 0).reverse, ?_, rfl⟩
  rw [hdb, hcommitted]
  apply SQLiteLedger.mayReadFrom_iff.mpr
  refine ⟨by decide, ?_, ?_⟩
  · exact List.reverse_perm _
  · decide

end RationaleVault
