import RationaleVault.Ledger.Commit
import RationaleVault.Ledger.Memory
import RationaleVault.Ledger.Sqlite

/-!
# Receipts

A recorded commit is answered with the receipt it was recorded with. The id of
a commit is a digest of its events and not of its stream, so a commit of the
same events to another stream gets a receipt of the first stream, and nothing
is stored.
-/

namespace RationaleVault

variable {nfc : Canonical.Normalizer}

/-- The receipt describes the commit, and the stream holds its events. -/
structure CommitReceipt.Reports (r : CommitReceipt) (c : Commit nfc) (stream : List LedgerEntry) :
    Prop where
  streamId : r.streamId = c.streamId
  sequenceStart : r.sequenceStart = c.firstEvent.sequence
  sequenceEnd : r.sequenceEnd = (c.events.getLast c.nonempty).sequence
  entries : ∀ event ∈ c.events, ∃ e ∈ stream, e.sequence = event.sequence ∧
    e.eventType = event.eventType.value ∧ e.timestamp = Canonical.toIso8601 event.timestamp ∧
    Canonical.canonicalize nfc e.payload = Canonical.canonicalize nfc (.obj event.payload)

/-! ## Alike commits -/

instance : Std.Refl (CanonicalEnvelope.Alike nfc) := ⟨fun _ => ⟨rfl, rfl, rfl, rfl⟩⟩

theorem sequences_eq_of_alike {events events' : List CanonicalEnvelope}
    (h : List.Forall₂ (CanonicalEnvelope.Alike nfc) events events') :
    events.map CanonicalEnvelope.sequence = events'.map CanonicalEnvelope.sequence := by
  induction h with
  | nil => rfl
  | cons he _ ih => rw [List.map_cons, List.map_cons, he.sequence, ih]

theorem exists_alike_of_mem {events events' : List CanonicalEnvelope}
    (h : List.Forall₂ (CanonicalEnvelope.Alike nfc) events events') {e' : CanonicalEnvelope}
    (he' : e' ∈ events') : ∃ e ∈ events, e.Alike nfc e' := by
  induction h with
  | nil => simp at he'
  | cons he _ ih =>
      rcases List.mem_cons.mp he' with rfl | he'
      · exact ⟨_, List.mem_cons_self, he⟩
      · obtain ⟨e, hmem, halike⟩ := ih he'
        exact ⟨e, List.mem_cons_of_mem _ hmem, halike⟩

/-- The receipt of a recorded commit reports every commit of alike events to the same stream. -/
theorem reports_of_alike {c₀ c : Commit nfc} {order : Int} {stream : List LedgerEntry}
    (hdescribes : (c₀.receipt order).Describes (c₀.entries order))
    (hstream : c₀.streamId = c.streamId) (hstored : ∀ e ∈ c₀.entries order, e ∈ stream)
    (halike : List.Forall₂ (CanonicalEnvelope.Alike nfc) c₀.events c.events) :
    (c₀.receipt order).Reports c stream := by
  have hsequences := sequences_eq_of_alike halike
  refine ⟨hstream, ?_, ?_, ?_⟩
  · have hhead := congrArg List.head? hsequences
    rw [List.head?_map, List.head?_map, List.head?_eq_some_head c₀.nonempty,
      List.head?_eq_some_head c.nonempty] at hhead
    exact Option.some.inj hhead
  · have hrange : c.events.map CanonicalEnvelope.sequence =
        (List.range c₀.events.length).map fun i : Nat => c₀.firstEvent.sequence + i := by
      rw [← hsequences, ← Journal.sequence_entries c₀ order, hdescribes.sequences,
        Commit.entries, List.length_map]
      rfl
    have hlen : 0 < c₀.events.length := List.length_pos_of_ne_nil c₀.nonempty
    have hlast := congrArg List.getLast? hrange
    rw [List.getLast?_map, List.getLast?_map, List.getLast?_eq_some_getLast c.nonempty,
      List.getLast?_range, if_neg hlen.ne', Option.map_some, Option.map_some,
      Option.some.injEq] at hlast
    rw [hlast]
    change c₀.firstEvent.sequence + c₀.events.length - 1 = _
    omega
  · intro event hevent
    obtain ⟨event₀, hevent₀, h⟩ := exists_alike_of_mem halike hevent
    exact ⟨c₀.entry order event₀, hstored _ (List.mem_map_of_mem hevent₀), h.sequence,
      h.eventType, h.timestamp, h.payload⟩

namespace Journal

/-- The receipt of an append reports the commit exactly when no other stream holds its id. -/
theorem reports_append_iff {J : Journal nfc} (hJ : J.Valid) {c : Commit nfc} {r : CommitReceipt}
    (hr : (J.append c).1 = .ok r)
    (hcollision : ∀ c' ∈ J, c'.commitId = c.commitId →
      commitText nfc c'.events = commitText nfc c.events) :
    r.Reports c ((J.append c).2.stream c.streamId) ↔
      ∀ e ∈ J.entries, e.commitId = c.commitId → e.streamId = c.streamId := by
  obtain ⟨receipt, hrecorded, h⟩ | ⟨_, _, _, h⟩ | ⟨hnew, hnext, h⟩ := append_cases J c
  · rw [h, Except.ok.injEq] at hr
    subst hr
    obtain ⟨k, c₀, hc₀, hid, rfl⟩ := receiptFor_eq_some hrecorded
    have hfilter := hJ.filter_commitId hc₀
    rw [hid] at hfilter
    rw [h]
    constructor
    · intro hreports e he heq
      have hmem : e ∈ c₀.entries k := by
        rw [← hfilter]
        exact List.mem_filter.mpr ⟨he, by simpa using heq⟩
      exact (streamId_of_mem_entries hmem).trans hreports.streamId
    · intro hstreams
      have hmem : ∀ e ∈ c₀.entries k, e ∈ J.entries ∧ e.commitId = c.commitId := by
        intro e he
        rw [← hfilter] at he
        simpa using List.mem_filter.mp he
      obtain ⟨e, he⟩ := List.exists_mem_of_ne_nil _ (entries_ne_nil c₀ k)
      have hstream : c₀.streamId = c.streamId := by
        rw [← streamId_of_mem_entries he]
        exact hstreams e (hmem e he).1 (hmem e he).2
      apply reports_of_alike (hJ.describes hc₀) hstream
      · intro e he
        apply List.mem_filter.mpr
        exact ⟨(hmem e he).1, by simpa using (streamId_of_mem_entries he).trans hstream⟩
      · apply CanonicalEnvelope.forall₂_alike_of_commitText_eq
        exact hcollision c₀ (List.mem_of_getElem? hc₀) hid
  · rw [h] at hr
    cases hr
  · rw [h, Except.ok.injEq] at hr
    subst hr
    rw [h]
    apply iff_of_true
    · apply reports_of_alike (hnext.describes _) rfl
      · intro e he
        rw [stream_snoc, if_pos rfl]
        exact List.mem_append_right _ he
      · exact List.forall₂_refl _
    · intro e he heq
      exact absurd (heq ▸ commitId_mem_ids he) hnew

end Journal

/-! ## The two ledgers -/

/-- The table after a sequence of appends, whether they return or raise. -/
def SQLiteLedger.run (db : SQLiteLedger) (commits : List (Commit nfc)) : SQLiteLedger :=
  commits.foldl (fun db c => (db.append c).2) db

namespace SQLiteLedger.Represents

variable {db : SQLiteLedger} {J : Journal nfc}

/-- An append that returns answers as the journal does. -/
theorem append_ok (h : db.Represents J) {c : Commit nfc} {r : CommitReceipt}
    (hr : (db.append c).1 = .ok r) :
    (J.append c).1 = .ok r ∧ (db.append c).2.Represents (J.append c).2 := by
  by_cases hfit : c.commitId ∈ J.ids ∨ ¬ J.Continues c ∨
      ∀ row ∈ c.events.map (c.row J.length), row.Fits
  · obtain ⟨hanswer, hafter⟩ := h.append hfit
    exact ⟨hanswer ▸ hr, hafter⟩
  · rw [not_or, not_or, not_not] at hfit
    rw [h.append_of_continues hfit.1 hfit.2.1, if_neg hfit.2.2] at hr
    cases hr

/-- The table after an append holds a journal of the same commits and perhaps the new one. -/
theorem append_exists (h : db.Represents J) (c : Commit nfc) :
    ∃ J' : Journal nfc, (db.append c).2.Represents J' ∧ ∀ c' ∈ J', c' ∈ J ∨ c' = c := by
  by_cases hfit : c.commitId ∈ J.ids ∨ ¬ J.Continues c ∨
      ∀ row ∈ c.events.map (c.row J.length), row.Fits
  · refine ⟨(J.append c).2, (h.append hfit).2, ?_⟩
    obtain ⟨added, hadded, hsub⟩ := Journal.append_extends J c
    intro c' hc'
    rw [hadded] at hc'
    exact (List.mem_append.mp hc').imp_right fun hmem => List.mem_singleton.mp (hsub.subset hmem)
  · rw [not_or, not_or, not_not] at hfit
    rw [h.append_of_continues hfit.1 hfit.2.1, if_neg hfit.2.2]
    exact ⟨J, h, fun c' hc' => .inl hc'⟩

theorem run (h : db.Represents J) (commits : List (Commit nfc)) :
    ∃ J' : Journal nfc, (db.run commits).Represents J' ∧ ∀ c ∈ J', c ∈ J ∨ c ∈ commits := by
  induction commits generalizing db J with
  | nil => exact ⟨J, h, fun c hc => .inl hc⟩
  | cons c rest ih =>
      obtain ⟨J₁, h₁, hmem₁⟩ := h.append_exists c
      obtain ⟨J₂, h₂, hmem₂⟩ := ih h₁
      refine ⟨J₂, h₂, ?_⟩
      intro c' hc'
      rcases hmem₂ c' hc' with hc' | hc'
      · rcases hmem₁ c' hc' with hc' | rfl
        · exact .inl hc'
        · exact .inr List.mem_cons_self
      · exact .inr (List.mem_cons_of_mem _ hc')

end SQLiteLedger.Represents

/-- After any appends, the receipt of an append reports the commit exactly when no other stream
holds entries with its id. The digests of the appended commits are assumed not to collide with
the digest of the commit. -/
theorem receipt_reports_iff (commits : List (Commit nfc)) (c : Commit nfc)
    (hcollision : ∀ c' ∈ commits, Sha256.hexdigest (commitText nfc c'.events) =
      Sha256.hexdigest (commitText nfc c.events) →
        commitText nfc c'.events = commitText nfc c.events) :
    (let m := MemoryLedger.empty.run commits
      ∀ r, (m.appendResult c).1 = .ok r →
        (r.Reports c ((m.appendResult c).2.readStream c.streamId) ↔
          ∀ e ∈ m.entries, e.commitId = c.commitId → e.streamId = c.streamId)) ∧
    (let db := SQLiteLedger.run [] commits
      ∀ r, (db.append c).1 = .ok r →
        ((∃ stream, (db.append c).2.readStream c.streamId = .ok stream ∧ r.Reports c stream) ↔
          ∀ row ∈ db, row.commitId = c.commitId → row.streamId = c.streamId)) := by
  have htexts : ∀ c' ∈ commits, c'.commitId = c.commitId →
      commitText nfc c'.events = commitText nfc c.events := by
    intro c' hc' hid
    rw [c'.digest, c.digest] at hid
    exact hcollision c' hc' hid
  constructor
  · intro m r hr
    have hm : m.Represents (Journal.run [] commits) := MemoryLedger.Represents.empty.run commits
    obtain ⟨added, hadded, hsub⟩ := Journal.run_extends [] commits
    rw [hadded, List.nil_append] at hm
    obtain ⟨hanswer, hafter⟩ := hm.append c
    rw [hafter.readStream, hm.entries]
    apply Journal.reports_append_iff hm.valid (hanswer ▸ hr)
    exact fun c' hc' => htexts c' (hsub.subset hc')
  · intro db r hr
    obtain ⟨J, hdb, hmem⟩ := SQLiteLedger.Represents.empty.run commits
    obtain ⟨hanswer, hafter⟩ := hdb.append_ok hr
    have hreports := Journal.reports_append_iff hdb.valid hanswer fun c' hc' =>
      htexts c' ((hmem c' hc').resolve_left List.not_mem_nil)
    have hrows : (∀ row ∈ db, row.commitId = c.commitId → row.streamId = c.streamId) ↔
        ∀ e ∈ J.entries, e.commitId = c.commitId → e.streamId = c.streamId := by
      rw [show db = J.entries.map LedgerEntry.toRow from hdb.rows, List.forall_mem_map]
      rfl
    rw [hafter.readStream, hrows, ← hreports]
    simp only [Except.ok.injEq, exists_eq_left']

/-! ## One list of events for two streams -/

/-- The commit of one event to any stream. -/
def copiedCommit (streamId : String) : Commit .identity :=
  .single .identity streamId (firstEvent "a")

/-- A retry to the same stream is reported. -/
theorem retried_receipt_reports :
    ∃ r, ((MemoryLedger.empty.run [copiedCommit "a"]).appendResult (copiedCommit "a")).1 = .ok r ∧
      r.Reports (copiedCommit "a") (((MemoryLedger.empty.run [copiedCommit "a"]).appendResult
        (copiedCommit "a")).2.readStream "a") := by
  have hrun : MemoryLedger.empty.run [copiedCommit "a"] =
      MemoryLedger.empty.stored (copiedCommit "a") := by
    change (MemoryLedger.empty.appendResult (copiedCommit "a")).2 = _
    rw [MemoryLedger.appendResult_eq]
    rfl
  have hr : ((MemoryLedger.empty.run [copiedCommit "a"]).appendResult (copiedCommit "a")).1 =
      .ok ((copiedCommit "a").receipt 0) := by
    rw [hrun, MemoryLedger.appendResult_eq, MemoryLedger.stored, OrdDict.get?_set_self]
    rfl
  refine ⟨_, hr, ?_⟩
  apply ((receipt_reports_iff [copiedCommit "a"] (copiedCommit "a") ?_).1 _ hr).mpr
  · intro e he _
    rw [hrun] at he
    exact Journal.streamId_of_mem_entries he
  · intro c' hc' _
    rw [List.mem_singleton.mp hc']

/-- The same event for another stream gets the receipt of the first stream and is not stored. -/
theorem copied_receipt_not_reported :
    (let m := MemoryLedger.empty.run [copiedCommit "a"]
      ∃ r, (m.appendResult (copiedCommit "b")).1 = .ok r ∧ r.streamId = "a" ∧
        (m.appendResult (copiedCommit "b")).2.readStream "b" = []) ∧
    (let db := SQLiteLedger.run [] [copiedCommit "a"]
      ∃ r, (db.append (copiedCommit "b")).1 = .ok r ∧ r.streamId = "a" ∧
        (db.append (copiedCommit "b")).2.readStream "b" = .ok []) := by
  have hJ : (Journal.run [] [copiedCommit "a"]) = [copiedCommit "a"] := rfl
  have hid : (copiedCommit "a").commitId = (copiedCommit "b").commitId := rfl
  have hreceipt : Journal.receiptFor [copiedCommit "a"] (copiedCommit "b").commitId =
      some ((copiedCommit "a").receipt 0) := by
    rw [← List.nil_append [copiedCommit "a"], Journal.receiptFor_snoc, if_pos hid]
    rfl
  have hanswer : Journal.append [copiedCommit "a"] (copiedCommit "b") =
      (.ok ((copiedCommit "a").receipt 0), [copiedCommit "a"]) := by
    rw [Journal.append, hreceipt]
  constructor
  · intro m
    have hm : m.Represents (Journal.run [] [copiedCommit "a"]) := MemoryLedger.Represents.empty.run _
    obtain ⟨hmem, hafter⟩ := hm.append (copiedCommit "b")
    rw [hJ, hanswer] at hmem hafter
    exact ⟨_, hmem, rfl, hafter.readStream _⟩
  · intro db
    have hempty : SQLiteLedger.Represents [] ([] : Journal .identity) := .empty
    have hdb : db.Represents (Journal.append [] (copiedCommit "a")).2 :=
      (hempty.append (.inr (.inr (by decide)))).2
    have hrecorded : (copiedCommit "b").commitId ∈ Journal.ids [copiedCommit "a"] :=
      Journal.receiptFor_isSome_iff.mp (by rw [hreceipt, Option.isSome_some])
    obtain ⟨hsql, hafter⟩ := hdb.append (.inl hrecorded)
    rw [show (Journal.append [] (copiedCommit "a")).2 = [copiedCommit "a"] from hJ, hanswer]
      at hsql hafter
    exact ⟨_, hsql, rfl, hafter.readStream _⟩

end RationaleVault
