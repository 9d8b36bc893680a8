import Mathlib.Data.Set.List
import RationaleVault.Ledger.Sqlite

/-!
# Concurrent writers

Several connections append to one database. The reads of an append run before
its insert transaction, so other appends commit in between. The primary key
refuses a second commit at the same place of a stream, but it says nothing
about orders: two appends to different streams that both read the maximal
order before either inserts get one order.
-/

namespace RationaleVault

/-- How far a connection is in its append. -/
inductive AppendPhase (nfc : Canonical.Normalizer)
  | idle
  | lookedUp (c : Commit nfc)
  | checked (c : Commit nfc)
  | ordered (c : Commit nfc) (globalOrder : Int)

/-- The database and its connections. -/
structure Writers (nfc : Canonical.Normalizer) (ι : Type) where
  db : SQLiteLedger
  phase : ι → AppendPhase nfc

/-- One step of the append of connection `i`. -/
inductive WriterStep (nfc : Canonical.Normalizer) (ι : Type)
  | lookup (i : ι) (c : Commit nfc)
  | readSequence (i : ι)
  | readOrder (i : ι)
  | insert (i : ι)
  | abort (i : ι)

namespace Writers

variable {nfc : Canonical.Normalizer} {ι : Type} [DecidableEq ι]

/-- An empty database on which no append runs. -/
def initial : Writers nfc ι := ⟨[], fun _ => .idle⟩

def setPhase (w : Writers nfc ι) (i : ι) (p : AppendPhase nfc) : Writers nfc ι :=
  { w with phase := Function.update w.phase i p }

/-- The effect of a step. A step that is not the next one of its connection does nothing. -/
def step (w : Writers nfc ι) : WriterStep nfc ι → Writers nfc ι
  | .lookup i c =>
      match w.phase i, (w.db.withCommit c.commitId).head? with
      | .idle, none => w.setPhase i (.lookedUp c)
      -- A recorded commit is answered from the table, which writes nothing.
      | _, _ => w
  | .readSequence i =>
      match w.phase i with
      | .lookedUp c =>
          match Commit.checkSequences c.streamId (w.db.currentSequence c.streamId + 1) c.events with
          | .ok () => w.setPhase i (.checked c)
          | .error _ => w.setPhase i .idle
      | _ => w
  | .readOrder i =>
      match w.phase i with
      | .checked c => w.setPhase i (.ordered c w.db.nextGlobalOrder)
      | _ => w
  | .insert i =>
      match w.phase i with
      | .ordered c globalOrder =>
          match w.db.insert (c.events.map (c.row globalOrder)) with
          | .ok db => { w.setPhase i .idle with db := db }
          | .error _ => w.setPhase i .idle
      | _ => w
  -- The database can be locked or the client can stop.
  | .abort i => w.setPhase i .idle

def run (w : Writers nfc ι) (steps : List (WriterStep nfc ι)) : Writers nfc ι := steps.foldl step w

/-- The commit that a step stores, with its order. -/
def inserted (w : Writers nfc ι) : WriterStep nfc ι → List (Commit nfc × Int)
  | .insert i =>
      match w.phase i with
      | .ordered c globalOrder =>
          match w.db.insert (c.events.map (c.row globalOrder)) with
          | .ok _ => [(c, globalOrder)]
          | .error _ => []
      | _ => []
  | _ => []

/-- The transaction is refused, or the maximal order is still the one its append read. -/
def Fresh (w : Writers nfc ι) : WriterStep nfc ι → Prop
  | .insert i =>
      match w.phase i with
      | .ordered c globalOrder =>
          (∃ r ∈ c.events.map (c.row globalOrder), ¬ r.Fits ∨ r.key ∈ w.db.map LedgerRow.key) ∨
            globalOrder = w.db.nextGlobalOrder
      | _ => True
  | _ => True

/-- Every insert of the run is fresh in the state before it. -/
def AllFresh (w : Writers nfc ι) : List (WriterStep nfc ι) → Prop
  | [] => True
  | a :: rest => w.Fresh a ∧ (w.step a).AllFresh rest

/-! ## Steps -/

/-- The only step that writes is an insert whose transaction goes through. -/
theorem step_cases (w : Writers nfc ι) (a : WriterStep nfc ι) :
    (w.step a).db = w.db ∧ w.inserted a = [] ∨
      ∃ i c globalOrder, a = .insert i ∧ w.phase i = .ordered c globalOrder ∧
        w.db.insert (c.events.map (c.row globalOrder)) = .ok (w.step a).db ∧
        w.inserted a = [(c, globalOrder)] := by
  cases a with
  | lookup i c =>
      refine Or.inl ⟨?_, rfl⟩
      simp only [step]
      split <;> rfl
  | readSequence i =>
      refine Or.inl ⟨?_, rfl⟩
      simp only [step]
      split
      · split <;> rfl
      · rfl
  | readOrder i =>
      refine Or.inl ⟨?_, rfl⟩
      simp only [step]
      split <;> rfl
  | insert i =>
      cases hphase : w.phase i with
      | ordered c globalOrder =>
          cases hinsert : w.db.insert (c.events.map (c.row globalOrder)) with
          | ok db =>
              right
              refine ⟨i, c, globalOrder, rfl, hphase, ?_, ?_⟩
              · simp only [step, hphase, hinsert]
              · simp only [inserted, hphase, hinsert]
          | error e =>
              left
              simp [step, inserted, hphase, hinsert, setPhase]
      | idle => left; simp [step, inserted, hphase]
      | lookedUp c => left; simp [step, inserted, hphase]
      | checked c => left; simp [step, inserted, hphase]
  | abort i => exact .inl ⟨rfl, rfl⟩

/-- What holds of the table as long as every insert is fresh. -/
structure Sound (db : SQLiteLedger) : Prop where
  keys : (db.map LedgerRow.key).Nodup
  stored : ∀ r ∈ db, ∃ e : LedgerEntry, e.toRow = r
  orders : ∀ r ∈ db, ∀ r' ∈ db, r.globalOrder = r'.globalOrder →
    r.commitId = r'.commitId ∧ r.streamId = r'.streamId

theorem Sound.nil : Sound [] where
  keys := List.nodup_nil
  stored := by simp
  orders := by simp

/-- The table has grown by rows whose orders exceed all earlier ones. -/
def Later (db db' : SQLiteLedger) : Prop :=
  ∃ added : List LedgerRow, db' = db ++ added ∧
    ∀ r ∈ added, ∀ r' ∈ db, r'.globalOrder < r.globalOrder

theorem Later.refl (db : SQLiteLedger) : Later db db := ⟨[], by simp, by simp⟩

theorem Later.trans {db₁ db₂ db₃ : SQLiteLedger} (h : Later db₁ db₂) (h' : Later db₂ db₃) :
    Later db₁ db₃ := by
  obtain ⟨added, rfl, hadded⟩ := h
  obtain ⟨added', rfl, hadded'⟩ := h'
  refine ⟨added ++ added', by rw [List.append_assoc], ?_⟩
  intro r hr r' hr'
  rcases List.mem_append.mp hr with hr | hr
  · exact hadded r hr r' hr'
  · exact hadded' r hr r' (List.mem_append_left _ hr')

/-- An order that the table does not reach yet is above all its orders. -/
theorem lt_nextGlobalOrder {db : SQLiteLedger} {r : LedgerRow} (h : r ∈ db) :
    r.globalOrder < db.nextGlobalOrder := by
  have := Table.le_maxD (d := -1) (List.mem_map_of_mem (f := LedgerRow.globalOrder) h)
  rw [SQLiteLedger.nextGlobalOrder]
  omega

/-- A fresh insert keeps the table sound. -/
theorem Sound.insert {db db' : SQLiteLedger} {c : Commit nfc} (h : Sound db)
    (hinsert : db.insert (c.events.map (c.row db.nextGlobalOrder)) = .ok db') :
    Sound db' ∧ Later db db' := by
  obtain ⟨rfl, hkeys, _⟩ := Table.insertAll_eq_ok hinsert h.keys
  have hnew : ∀ r ∈ c.events.map (c.row db.nextGlobalOrder), r.globalOrder = db.nextGlobalOrder ∧
      r.commitId = c.commitId ∧ r.streamId = c.streamId := by
    intro r hr
    obtain ⟨event, _, rfl⟩ := List.mem_map.mp hr
    exact ⟨rfl, rfl, rfl⟩
  refine ⟨⟨hkeys, ?_, ?_⟩, _, rfl, ?_⟩
  · intro r hr
    rcases List.mem_append.mp hr with hr | hr
    · exact h.stored r hr
    · rw [Commit.map_row] at hr
      obtain ⟨e, _, rfl⟩ := List.mem_map.mp hr
      exact ⟨e, rfl⟩
  · intro r hr r' hr' heq
    -- An old row and a new one never have one order.
    rcases List.mem_append.mp hr with hr | hr <;> rcases List.mem_append.mp hr' with hr' | hr'
    · exact h.orders r hr r' hr' heq
    · have := lt_nextGlobalOrder hr
      have := (hnew r' hr').1
      omega
    · have := lt_nextGlobalOrder hr'
      have := (hnew r hr).1
      omega
    · rw [(hnew r hr).2.1, (hnew r hr).2.2, (hnew r' hr').2.1, (hnew r' hr').2.2]
      exact ⟨rfl, rfl⟩
  · intro r hr r' hr'
    rw [(hnew r hr).1]
    exact lt_nextGlobalOrder hr'

/-- A transaction with a number that does not fit or a key that is taken is refused. -/
theorem Sound.not_refused {db db' : SQLiteLedger} {rows : List LedgerRow} (h : Sound db)
    (hinsert : db.insert rows = .ok db') :
    ¬ ∃ r ∈ rows, ¬ r.Fits ∨ r.key ∈ db.map LedgerRow.key := by
  obtain ⟨rfl, hkeys, hbind⟩ := Table.insertAll_eq_ok hinsert h.keys
  rintro ⟨r, hr, hfit | hkey⟩
  · exact hfit (LedgerRow.bind_eq_ok_iff.mp (hbind r hr))
  · rw [List.map_append, List.nodup_append] at hkeys
    exact hkeys.2.2 _ hkey _ (List.mem_map_of_mem hr) rfl

/-- One fresh step. -/
theorem Sound.step {w : Writers nfc ι} (h : Sound w.db) {a : WriterStep nfc ι} (hf : w.Fresh a) :
    Sound (w.step a).db ∧ Later w.db (w.step a).db := by
  obtain ⟨hsame, _⟩ | ⟨i, c, globalOrder, rfl, hphase, hinsert, _⟩ := step_cases w a
  · rw [hsame]
    exact ⟨h, Later.refl _⟩
  · have horder : globalOrder = w.db.nextGlobalOrder := by
      simp only [Fresh, hphase] at hf
      exact hf.resolve_left (h.not_refused hinsert)
    subst horder
    exact h.insert hinsert

/-- A run of fresh steps. -/
theorem Sound.run {w : Writers nfc ι} (h : Sound w.db) {steps : List (WriterStep nfc ι)}
    (hf : w.AllFresh steps) : Sound (w.run steps).db ∧ Later w.db (w.run steps).db := by
  induction steps generalizing w with
  | nil => exact ⟨h, Later.refl _⟩
  | cons a rest ih =>
      obtain ⟨hstep, hlater⟩ := h.step hf.1
      obtain ⟨hrest, hlater'⟩ := ih hstep hf.2
      exact ⟨hrest, hlater.trans hlater'⟩

theorem allFresh_append {w : Writers nfc ι} {earlier later : List (WriterStep nfc ι)} :
    w.AllFresh (earlier ++ later) ↔ w.AllFresh earlier ∧ (w.run earlier).AllFresh later := by
  induction earlier generalizing w with
  | nil => simp [AllFresh, run]
  | cons a rest ih =>
      rw [List.cons_append, AllFresh, AllFresh, ih, and_assoc]
      rfl

/-- What a read of the orders from `n` on returns. -/
theorem Sound.readFrom {db : SQLiteLedger} (h : Sound db) {n : Int} (hn : IsInt64 n) :
    ∃ entries, db.readFrom n = .ok entries ∧
      ∀ r ∈ db, n ≤ r.globalOrder → ∃ e ∈ entries, r.toEntry = .ok e := by
  have hrange : Table.orderBy LedgerRow.globalOrder (db.filter fun r => n ≤ r.globalOrder) ∈
      Set.range (List.map LedgerEntry.toRow) := by
    rw [Set.range_list_map]
    intro r hr
    exact h.stored r (List.mem_of_mem_filter (Table.mem_orderBy.mp hr))
  obtain ⟨entries, hentries⟩ := hrange
  refine ⟨entries, ?_, ?_⟩
  · rw [SQLiteLedger.readFrom, if_pos hn, ← hentries, LedgerEntry.mapM_toEntry]
  · intro r hr hle
    have hmem : r ∈ entries.map LedgerEntry.toRow := by
      rw [hentries, Table.mem_orderBy]
      exact List.mem_filter.mpr ⟨hr, by simpa using hle⟩
    obtain ⟨e, he, rfl⟩ := List.mem_map.mp hmem
    exact ⟨e, he, e.toEntry_toRow⟩

end Writers

/-- As long as every insert is fresh, different commits have different orders. Whatever is
committed after a reader saw a state lies above every order of that state, so a reader that has
processed order `n` finds every other entry from `n + 1` on. -/
theorem concurrent_orders_distinct {nfc : Canonical.Normalizer} {ι : Type} [DecidableEq ι]
    (earlier later : List (WriterStep nfc ι))
    (hf : (Writers.initial : Writers nfc ι).AllFresh (earlier ++ later)) :
    let seen := (Writers.initial.run earlier).db
    let db := (Writers.initial.run (earlier ++ later)).db
    (∀ r ∈ db, ∀ r' ∈ db, r.commitId ≠ r'.commitId → r.globalOrder ≠ r'.globalOrder) ∧
      (∀ r ∈ db, r ∉ seen → ∀ r' ∈ seen, r'.globalOrder < r.globalOrder) ∧
      ∀ last ∈ seen, IsInt64 (last.globalOrder + 1) →
        ∃ entries, db.readFrom (last.globalOrder + 1) = .ok entries ∧
          ∀ r ∈ db, r ∈ seen ∧ r.globalOrder ≤ last.globalOrder ∨
            ∃ e ∈ entries, r.toEntry = .ok e := by
  intro seen db
  obtain ⟨hearlier, hlater⟩ := Writers.allFresh_append.mp hf
  have hseen : Writers.Sound seen := (Writers.Sound.run .nil hearlier).1
  have hrun : db = ((Writers.initial.run earlier).run later).db := by
    simp only [db, Writers.run, List.foldl_append]
  obtain ⟨hdb, added, hadded, habove⟩ := Writers.Sound.run hseen hlater
  rw [← hrun] at hdb hadded
  have hnew : ∀ r ∈ db, r ∉ seen → ∀ r' ∈ seen, r'.globalOrder < r.globalOrder := by
    intro r hr hunseen
    rw [hadded] at hr
    exact habove r ((List.mem_append.mp hr).resolve_left hunseen)
  refine ⟨?_, hnew, ?_⟩
  · intro r hr r' hr' hne heq
    exact hne (hdb.orders r hr r' hr' heq).1
  · intro last hlast hfit
    obtain ⟨entries, hread, hall⟩ := hdb.readFrom hfit
    refine ⟨entries, hread, ?_⟩
    intro r hr
    by_cases hle : r.globalOrder ≤ last.globalOrder
    · left
      refine ⟨?_, hle⟩
      by_contra hunseen
      have := hnew r hr hunseen last hlast
      omega
    · right
      exact hall r hr (by omega)

/-! ## Two connections -/

/-- The commit that starts a stream. -/
def firstCommit (streamId : String) : Commit .identity :=
  .single .identity streamId (firstEvent streamId)

/-- The second connection reads the maximal order after the first has committed. -/
def waitingWriters : List (WriterStep .identity Bool) :=
  [.lookup false (firstCommit "a"), .lookup true (firstCommit "b"), .readSequence false,
    .readSequence true, .readOrder false, .insert false, .readOrder true, .insert true]

theorem waitingWriters_orders :
    (∀ r ∈ ((Writers.initial : Writers .identity Bool).run waitingWriters).db,
      ∀ r' ∈ ((Writers.initial : Writers .identity Bool).run waitingWriters).db,
        r.commitId ≠ r'.commitId → r.globalOrder ≠ r'.globalOrder) ∧
      ((Writers.initial : Writers .identity Bool).run waitingWriters).db.map
        LedgerRow.globalOrder = [0, 1] := by
  refine ⟨(concurrent_orders_distinct waitingWriters [] ?_).1, rfl⟩
  exact ⟨trivial, trivial, trivial, trivial, trivial, .inr rfl, trivial, .inr rfl, trivial⟩

/-- Both connections read the maximal order before either inserts. -/
def racingWriters : List (WriterStep .identity Bool) :=
  [.lookup false (firstCommit "a"), .lookup true (firstCommit "b"), .readSequence false,
    .readSequence true, .readOrder false, .readOrder true, .insert false, .insert true]

theorem firstCommit_ids_ne : (firstCommit "a").commitId ≠ (firstCommit "b").commitId := by
  apply Sha256.hexdigest_ne
  decide +kernel

/-- Two commits with one order; a reader that stopped after the first never sees the second. -/
theorem racingWriters_share_order :
    let db := ((Writers.initial : Writers .identity Bool).run racingWriters).db
    (∃ r ∈ db, ∃ r' ∈ db, r.commitId ≠ r'.commitId ∧ r.globalOrder = r'.globalOrder) ∧
      db.readFrom 1 = .ok [] := by
  intro db
  have hrows : db.map (fun r => (r.commitId, r.globalOrder)) =
      [((firstCommit "a").commitId, 0), ((firstCommit "b").commitId, 0)] := rfl
  have hrow : ∀ p ∈ db.map (fun r => (r.commitId, r.globalOrder)),
      ∃ r ∈ db, (r.commitId, r.globalOrder) = p := fun p hp => List.mem_map.mp hp
  rw [hrows] at hrow
  obtain ⟨r, hr, ha⟩ := hrow _ List.mem_cons_self
  obtain ⟨r', hr', hb⟩ := hrow _ (List.mem_cons_of_mem _ List.mem_cons_self)
  refine ⟨⟨r, hr, r', hr', ?_, ?_⟩, rfl⟩
  · rw [(Prod.mk.inj ha).1, (Prod.mk.inj hb).1]
    exact firstCommit_ids_ne
  · rw [(Prod.mk.inj ha).2, (Prod.mk.inj hb).2]

end RationaleVault
