import RationaleVault.Ledger.Journal
import RationaleVault.Library.OrdDict

/-!
# The in-memory ledger

The reference ledger keeps its entries, its receipts, the last sequence of
every stream and the next order. The fields are assigned one after another, so
an exception in the middle would leave the earlier assignments in place.
-/

namespace RationaleVault

/-- `MemoryLedger`. -/
structure MemoryLedger where
  entries : List LedgerEntry
  commits : OrdDict String CommitReceipt
  streamSequences : OrdDict String Int
  nextGlobalOrder : Int

/-- A method of the ledger: it may raise, and keeps the assignments made until then. -/
abbrev MemoryM := ExceptT Exc (StateM MemoryLedger)

namespace MemoryLedger

variable {nfc : Canonical.Normalizer}

/-- `MemoryLedger()`. -/
def empty : MemoryLedger := ⟨[], .empty, .empty, 0⟩

/-- The assignments of an accepted append, one by one. -/
def store (c : Commit nfc) : MemoryM CommitReceipt := do
  let globalOrder := (← get).nextGlobalOrder
  modify fun m => { m with nextGlobalOrder := m.nextGlobalOrder + 1 }
  c.events.forM fun event =>
    modify fun m => { m with entries := m.entries ++ [c.entry globalOrder event] }
  let receipt := c.receipt globalOrder
  modify fun m => { m with
    streamSequences := m.streamSequences.set c.streamId receipt.sequenceEnd }
  modify fun m => { m with commits := m.commits.set c.commitId receipt }
  return receipt

/-- `append(commit)`. -/
def append (c : Commit nfc) : MemoryM CommitReceipt := do
  let m ← get
  match m.commits.get? c.commitId with
  | some receipt => return receipt
  | none =>
      let currentSeq := (m.streamSequences.get? c.streamId).getD 0
      MonadExcept.ofExcept (Commit.checkSequences c.streamId (currentSeq + 1) c.events)
      store c

/-- `read_stream(stream_id)`. -/
def readStream (m : MemoryLedger) (streamId : String) : List LedgerEntry :=
  m.entries.filter fun e => e.streamId = streamId

/-- `read_from(global_order)`. -/
def readFrom (m : MemoryLedger) (globalOrder : Int) : List LedgerEntry :=
  m.entries.filter fun e => globalOrder ≤ e.globalOrder

/-- `exists(commit_id)`. -/
def existsCommit (m : MemoryLedger) (commitId : String) : Bool := m.commits.contains commitId

/-- `stream_exists(stream_id)`. -/
def streamExists (m : MemoryLedger) (streamId : String) : Bool :=
  m.entries.any fun e => e.streamId = streamId

/-- The result of an append and the ledger after it. -/
def appendResult (m : MemoryLedger) (c : Commit nfc) : Except Exc CommitReceipt × MemoryLedger :=
  (append c).run.run m

/-- The ledger after a sequence of appends, whether they return or raise. -/
def run (m : MemoryLedger) (commits : List (Commit nfc)) : MemoryLedger :=
  commits.foldl (fun m c => (m.appendResult c).2) m

/-! ## The effect of an append -/

/-- The loop that stores the entries. -/
theorem run_forM_entries (c : Commit nfc) (order : Int) (events : List CanonicalEnvelope)
    (m : MemoryLedger) :
    (events.forM fun event => (modify fun m : MemoryLedger =>
        { m with entries := m.entries ++ [c.entry order event] } : MemoryM Unit)).run.run m =
      (.ok (), { m with entries := m.entries ++ events.map (c.entry order) }) := by
  induction events generalizing m with
  | nil =>
      rw [List.map_nil, List.append_nil]
      rfl
  | cons event rest ih =>
      change ((rest.forM fun event => (modify fun m : MemoryLedger =>
        { m with entries := m.entries ++ [c.entry order event] } : MemoryM Unit)).run.run
          { m with entries := m.entries ++ [c.entry order event] }) = _
      rw [ih]
      simp

/-- The ledger after an accepted append. -/
def stored (m : MemoryLedger) (c : Commit nfc) : MemoryLedger where
  entries := m.entries ++ c.entries m.nextGlobalOrder
  commits := m.commits.set c.commitId (c.receipt m.nextGlobalOrder)
  streamSequences :=
    m.streamSequences.set c.streamId (c.receipt m.nextGlobalOrder).sequenceEnd
  nextGlobalOrder := m.nextGlobalOrder + 1

theorem run_store (m : MemoryLedger) (c : Commit nfc) :
    (store c).run.run m = (.ok (c.receipt m.nextGlobalOrder), m.stored c) := by
  have hloop := run_forM_entries c m.nextGlobalOrder c.events
    { m with nextGlobalOrder := m.nextGlobalOrder + 1 }
  change ((c.events.forM fun event => (modify fun m : MemoryLedger =>
    { m with entries := m.entries ++ [c.entry _ event] } : MemoryM Unit)) >>= fun _ =>
      (_ : MemoryM CommitReceipt)).run.run
        { m with nextGlobalOrder := m.nextGlobalOrder + 1 } = _
  rw [ExceptT.run_bind, StateT.run_bind]
  rw [hloop]
  rfl

/-- What an append does: return the recorded receipt, raise at a gap, or store the commit. -/
theorem appendResult_eq (m : MemoryLedger) (c : Commit nfc) :
    m.appendResult c =
      match m.commits.get? c.commitId with
      | some receipt => (.ok receipt, m)
      | none =>
          match Commit.checkSequences c.streamId
            ((m.streamSequences.get? c.streamId).getD 0 + 1) c.events with
          | .error e => (.error e, m)
          | .ok () => (.ok (c.receipt m.nextGlobalOrder), m.stored c) := by
  change (match m.commits.get? c.commitId with
    | some receipt => _
    | none => _ : MemoryM CommitReceipt).run.run m = _
  cases m.commits.get? c.commitId with
  | some receipt => rfl
  | none =>
      change ((MonadExcept.ofExcept (Commit.checkSequences c.streamId
        ((m.streamSequences.get? c.streamId).getD 0 + 1) c.events) >>= _ :
          MemoryM CommitReceipt)).run.run m = _
      cases Commit.checkSequences c.streamId
          ((m.streamSequences.get? c.streamId).getD 0 + 1) c.events with
      | error e => rfl
      | ok u => exact run_store m c

/-! ## Refinement of the journal -/

/-- The four fields are those of a valid journal. -/
structure Represents (m : MemoryLedger) (J : Journal nfc) : Prop where
  valid : J.Valid
  entries : m.entries = J.entries
  commits : ∀ id, m.commits.get? id = J.receiptFor id
  streamSequences : ∀ s, (m.streamSequences.get? s).getD 0 = J.height s
  nextGlobalOrder : m.nextGlobalOrder = J.length

namespace Represents

variable {m : MemoryLedger} {J : Journal nfc}

theorem empty : MemoryLedger.empty.Represents ([] : Journal nfc) where
  valid := .nil
  entries := rfl
  commits := fun _ => rfl
  streamSequences := fun _ => rfl
  nextGlobalOrder := rfl

/-- Storing a commit that the journal accepts. -/
theorem stored (h : m.Represents J) {c : Commit nfc} (hnew : c.commitId ∉ J.ids)
    (hnext : J.Continues c) : (m.stored c).Represents (J ++ [c]) where
  valid := h.valid.snoc hnew hnext
  entries := by
    rw [Journal.entries_snoc, ← h.entries, ← h.nextGlobalOrder]
    rfl
  commits := by
    intro id
    rw [MemoryLedger.stored, OrdDict.get?_set, Journal.receiptFor_snoc, h.commits,
      h.nextGlobalOrder]
    by_cases hid : c.commitId = id
    · subst hid
      simp [Journal.receiptFor_eq_none_iff.mpr hnew]
    · simp [hid]
  streamSequences := by
    intro s
    rw [MemoryLedger.stored, OrdDict.get?_set, Journal.height_snoc, Commit.receipt, hnext.firstEvent]
    by_cases hs : c.streamId = s
    · subst hs
      simp
      omega
    · simp [hs, h.streamSequences]
  nextGlobalOrder := by
    rw [MemoryLedger.stored, h.nextGlobalOrder]
    simp

/-- An append answers as the journal does and keeps representing it. -/
theorem append (h : m.Represents J) (c : Commit nfc) :
    (m.appendResult c).1 = (J.append c).1 ∧ (m.appendResult c).2.Represents (J.append c).2 := by
  rw [appendResult_eq, Journal.append, h.commits, h.streamSequences, h.nextGlobalOrder]
  cases hreceipt : J.receiptFor c.commitId with
  | some receipt => exact ⟨rfl, h⟩
  | none =>
      cases hcheck : Commit.checkSequences c.streamId (J.height c.streamId + 1) c.events with
      | error e => exact ⟨rfl, h⟩
      | ok u =>
          refine ⟨rfl, h.stored ?_ ?_⟩
          · exact Journal.receiptFor_eq_none_iff.mp hreceipt
          · exact Journal.checkSequences_eq_ok_iff.mp hcheck

theorem run (h : m.Represents J) (commits : List (Commit nfc)) :
    (m.run commits).Represents (J.run commits) := by
  induction commits generalizing m J with
  | nil => exact h
  | cons c rest ih => exact ih (h.append c).2

theorem existsCommit (h : m.Represents J) (id : String) :
    m.existsCommit id = true ↔ id ∈ J.ids := by
  rw [MemoryLedger.existsCommit, OrdDict.contains, h.commits, Journal.receiptFor_isSome_iff]

theorem readStream (h : m.Represents J) (s : String) : m.readStream s = J.stream s := by
  rw [MemoryLedger.readStream, h.entries]
  rfl

theorem readFrom (h : m.Represents J) (n : Int) :
    m.readFrom n = J.entries.filter fun e => n ≤ e.globalOrder := by
  rw [MemoryLedger.readFrom, h.entries]

/-- Every entry has an order from zero on. -/
theorem readFrom_zero (h : m.Represents J) : m.readFrom 0 = J.entries := by
  rw [h.readFrom, List.filter_eq_self]
  intro e he
  simpa using (Journal.globalOrder_lt he).1

/-- The recorded receipt describes the entries that carry the id. -/
theorem describes (h : m.Represents J) {id : String} {r : CommitReceipt}
    (hr : m.commits.get? id = some r) :
    r.commitId = id ∧ r.Describes (m.entries.filter fun e => e.commitId = id) := by
  rw [h.commits] at hr
  obtain ⟨k, c, hc, rfl, rfl⟩ := Journal.receiptFor_eq_some hr
  rw [h.entries, h.valid.filter_commitId hc]
  exact ⟨rfl, h.valid.describes hc⟩

end Represents

/-- An append that raises leaves the four fields as they were. -/
theorem appendResult_error {m : MemoryLedger} {c : Commit nfc} {e : Exc}
    (h : (m.appendResult c).1 = .error e) : (m.appendResult c).2 = m := by
  rw [appendResult_eq] at h ⊢
  cases hget : m.commits.get? c.commitId with
  | some receipt => rfl
  | none =>
      cases hcheck : Commit.checkSequences c.streamId
          ((m.streamSequences.get? c.streamId).getD 0 + 1) c.events with
      | error e => rfl
      | ok u => simp [hget, hcheck] at h

/-- The ledger invariants after any sequence of appends, whether they returned or raised. -/
theorem run_invariants (commits : List (Commit nfc)) :
    let m := MemoryLedger.empty.run commits
    (∀ s, (m.readStream s).map LedgerEntry.sequence =
        Journal.sequencesAfter 0 (m.readStream s).length) ∧
      (∃ accepted : Journal nfc, accepted.Sublist commits ∧ accepted.ids.Nodup ∧
        (∀ id, m.existsCommit id = true ↔ id ∈ accepted.ids) ∧
        m.readFrom 0 = accepted.entries ∧ m.nextGlobalOrder = accepted.length) ∧
      (∀ later : List (Commit nfc), (∀ s, m.readStream s <+: (m.run later).readStream s) ∧
        ∀ n, m.readFrom n <+: (m.run later).readFrom n) ∧
      (∀ id r, m.commits.get? id = some r →
        r.commitId = id ∧ r.Describes (m.entries.filter fun e => e.commitId = id)) ∧
      ∀ (c : Commit nfc) (e : Exc),
        (m.appendResult c).1 = .error e → (m.appendResult c).2 = m := by
  intro m
  have hm : m.Represents (Journal.run [] commits) := Represents.empty.run commits
  refine ⟨?_, ?_, ?_, ?_, ?_⟩
  · intro s
    rw [hm.readStream]
    exact hm.valid.sequences s
  · obtain ⟨accepted, haccepted, hsub⟩ := Journal.run_extends [] commits
    rw [haccepted, List.nil_append] at hm
    exact ⟨accepted, hsub, hm.valid.nodup_ids, hm.existsCommit, hm.readFrom_zero,
      hm.nextGlobalOrder⟩
  · intro later
    have hlater := hm.run later
    obtain ⟨added, hadded, _⟩ := Journal.run_extends (Journal.run [] commits) later
    rw [hadded] at hlater
    have hearlier := Journal.isPrefix_entries (Journal.run [] commits) added
    constructor
    · intro s
      rw [hm.readStream, hlater.readStream]
      exact hearlier.filter _
    · intro n
      rw [hm.readFrom, hlater.readFrom]
      exact hearlier.filter _
  · intro id r hr
    exact hm.describes hr
  · intro c e h
    exact appendResult_error h

end MemoryLedger

end RationaleVault
