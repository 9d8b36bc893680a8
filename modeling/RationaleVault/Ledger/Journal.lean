import Mathlib.Data.List.Induction
import RationaleVault.Ledger.Commit
import RationaleVault.Library.Table

/-!
# Journals

What a ledger is for: a list of accepted commits, each new and each continuing
its stream. Entries, orders and receipts are functions of that list. The two
ledgers are compared with it, and through it with each other.
-/

namespace RationaleVault

variable {nfc : Canonical.Normalizer}

/-- The entries of a commit, in commit order. -/
def Commit.entries (c : Commit nfc) (order : Int) : List LedgerEntry := c.events.map (c.entry order)

/-- The receipt gives the stream, the range of sequences and the order of the entries. -/
structure CommitReceipt.Describes (r : CommitReceipt) (entries : List LedgerEntry) : Prop where
  nonempty : entries ≠ []
  stream : ∀ e ∈ entries, e.streamId = r.streamId
  commit : ∀ e ∈ entries, e.commitId = r.commitId
  order : ∀ e ∈ entries, e.globalOrder = r.globalOrder
  sequences : entries.map LedgerEntry.sequence =
    (List.range entries.length).map fun i : Nat => r.sequenceStart + i
  last : r.sequenceEnd = r.sequenceStart + entries.length - 1

namespace CommitReceipt.Describes

variable {r : CommitReceipt} {entries : List LedgerEntry}

/-- The sequences are exactly those of the range. -/
theorem mem_sequences_iff (h : r.Describes entries) {n : Int} :
    n ∈ entries.map LedgerEntry.sequence ↔ r.sequenceStart ≤ n ∧ n ≤ r.sequenceEnd := by
  rw [h.sequences, h.last, List.mem_map]
  constructor
  · rintro ⟨i, hi, rfl⟩
    have := List.mem_range.mp hi
    omega
  · rintro ⟨hlo, hhi⟩
    exact ⟨(n - r.sequenceStart).toNat, List.mem_range.mpr (by omega), by omega⟩

theorem pairwise_sequence (h : r.Describes entries) :
    entries.Pairwise fun e e' => e.sequence < e'.sequence := by
  rw [← List.pairwise_map, h.sequences, List.pairwise_map]
  apply List.pairwise_lt_range.imp
  intro i k hik
  omega

/-- The first entry starts the range. -/
theorem head_sequence (h : r.Describes entries) {e : LedgerEntry} (he : entries.head? = some e) :
    e.sequence = r.sequenceStart := by
  cases entries with
  | nil => simp at he
  | cons e₀ rest =>
      have hseq := h.sequences
      rw [List.map_cons, List.length_cons, List.range_succ_eq_map, List.map_cons,
        List.cons.injEq] at hseq
      rw [List.head?_cons, Option.some.injEq] at he
      rw [← he, hseq.1]
      simp

end CommitReceipt.Describes

/-- The accepted commits, in the order of their acceptance. -/
abbrev Journal (nfc : Canonical.Normalizer) := List (Commit nfc)

namespace Journal

def ids (J : Journal nfc) : List String := J.map Commit.commitId

/-- Every entry, a commit being ordered by its place in the journal. -/
def entries (J : Journal nfc) : List LedgerEntry :=
  J.zipIdx.flatMap fun p => p.1.entries p.2

/-- The entries of one stream. -/
def stream (J : Journal nfc) (s : String) : List LedgerEntry :=
  J.entries.filter fun e => e.streamId = s

/-- The number of entries in a stream, which is also its last sequence. -/
def height (J : Journal nfc) (s : String) : Nat := (J.stream s).length

/-- The receipt of the commit with the given id. -/
def receiptFor (J : Journal nfc) (id : String) : Option CommitReceipt :=
  (J.zipIdx.find? fun p => p.1.commitId = id).map fun p => p.1.receipt p.2

/-- The consecutive sequences `start + 1, …, start + n`. -/
def sequencesAfter (start n : Nat) : List Int := (List.range n).map fun i : Nat => (start : Int) + 1 + i

/-- The events of the commit continue its stream. -/
def Continues (J : Journal nfc) (c : Commit nfc) : Prop :=
  c.events.map CanonicalEnvelope.sequence = sequencesAfter (J.height c.streamId) c.events.length

/-- Every commit was new and continued its stream when it was accepted. -/
inductive Valid : Journal nfc → Prop
  | nil : Valid []
  | snoc {J : Journal nfc} {c : Commit nfc} (hJ : Valid J) (hnew : c.commitId ∉ J.ids)
      (hnext : J.Continues c) : Valid (J ++ [c])

/-! ## Appending a commit -/

theorem entries_snoc (J : Journal nfc) (c : Commit nfc) :
    entries (J ++ [c]) = entries J ++ c.entries J.length := by
  simp [entries, List.zipIdx_append]

theorem ids_snoc (J : Journal nfc) (c : Commit nfc) : ids (J ++ [c]) = ids J ++ [c.commitId] := by
  simp [ids]

@[simp] theorem streamId_of_mem_entries {c : Commit nfc} {order : Int} {e : LedgerEntry}
    (h : e ∈ c.entries order) : e.streamId = c.streamId := by
  obtain ⟨event, _, rfl⟩ := List.mem_map.mp h
  rfl

theorem commitId_of_mem_entries {c : Commit nfc} {order : Int} {e : LedgerEntry}
    (h : e ∈ c.entries order) : e.commitId = c.commitId ∧ e.globalOrder = order := by
  obtain ⟨event, _, rfl⟩ := List.mem_map.mp h
  exact ⟨rfl, rfl⟩

theorem sequence_entries (c : Commit nfc) (order : Int) :
    (c.entries order).map LedgerEntry.sequence = c.events.map CanonicalEnvelope.sequence := by
  rw [Commit.entries, List.map_map]
  rfl

theorem entries_ne_nil (c : Commit nfc) (order : Int) : c.entries order ≠ [] := by
  simpa [Commit.entries] using c.nonempty

/-- A commit adds to its own stream only. -/
theorem stream_snoc (J : Journal nfc) (c : Commit nfc) (s : String) :
    stream (J ++ [c]) s = stream J s ++ if c.streamId = s then c.entries J.length else [] := by
  rw [stream, entries_snoc, List.filter_append]
  congr 1
  split_ifs with hs
  · rw [List.filter_eq_self]
    intro e he
    simpa using (streamId_of_mem_entries he).trans hs
  · rw [List.filter_eq_nil_iff]
    intro e he
    simpa using fun h => hs ((streamId_of_mem_entries he).symm.trans h)

theorem height_snoc (J : Journal nfc) (c : Commit nfc) (s : String) :
    height (J ++ [c]) s = height J s + if c.streamId = s then c.events.length else 0 := by
  rw [height, stream_snoc, List.length_append]
  split_ifs with hs
  · rw [Commit.entries, List.length_map]
    rfl
  · rfl

theorem receiptFor_snoc (J : Journal nfc) (c : Commit nfc) (id : String) :
    receiptFor (J ++ [c]) id =
      (receiptFor J id).or (if c.commitId = id then some (c.receipt J.length) else none) := by
  simp only [receiptFor, List.zipIdx_append, List.find?_append, List.zipIdx_singleton]
  cases J.zipIdx.find? fun p => p.1.commitId = id with
  | some p => rfl
  | none =>
      by_cases h : c.commitId = id <;> simp [h]

/-- The sequences of a stream after a further block. -/
theorem sequencesAfter_append (start m n : Nat) :
    sequencesAfter start (m + n) = sequencesAfter start m ++ sequencesAfter (start + m) n := by
  simp only [sequencesAfter, List.range_add, List.map_append, List.map_map]
  congr 1
  apply List.map_congr_left
  intro i _
  simp only [Function.comp_apply]
  push_cast
  omega

/-- What the sequence check accepts. -/
theorem checkSequences_eq_ok_iff {streamId : String} {start : Nat}
    {events : List CanonicalEnvelope} :
    Commit.checkSequences streamId (start + 1) events = .ok () ↔
      events.map CanonicalEnvelope.sequence = sequencesAfter start events.length := by
  induction events generalizing start with
  | nil => simp [Commit.checkSequences, sequencesAfter]
  | cons event rest ih =>
      have hsplit : sequencesAfter start (rest.length + 1) =
          ((start : Int) + 1) :: sequencesAfter (start + 1) rest.length := by
        rw [Nat.add_comm, sequencesAfter_append]
        simp [sequencesAfter]
      rw [Commit.checkSequences, List.map_cons, List.length_cons, hsplit, List.cons.injEq]
      split_ifs with h
      · rw [and_iff_right h, ← ih]
        push_cast
        rfl
      · simp [h]

/-! ## Valid journals -/

/-- The sequences of every stream are `1, 2, …` without gaps. -/
theorem Valid.sequences {J : Journal nfc} (hJ : J.Valid) (s : String) :
    (J.stream s).map LedgerEntry.sequence = sequencesAfter 0 (J.height s) := by
  induction hJ with
  | nil => rfl
  | @snoc J c hJ _ hnext ih =>
      rw [height, stream_snoc]
      split_ifs with hs
      · subst hs
        rw [List.map_append, List.length_append, sequencesAfter_append, ih, sequence_entries, hnext,
          Commit.entries, List.length_map, Nat.zero_add]
        rfl
      · rw [List.append_nil]
        exact ih

theorem Valid.pairwise_sequence {J : Journal nfc} (hJ : J.Valid) (s : String) :
    (J.stream s).Pairwise fun e e' => e.sequence < e'.sequence := by
  rw [← List.pairwise_map, hJ.sequences, sequencesAfter, List.pairwise_map]
  apply List.pairwise_lt_range.imp
  intro i k hik
  omega

/-- No two entries of a stream have one sequence. -/
theorem Valid.nodup_keys {J : Journal nfc} (hJ : J.Valid) :
    (J.entries.map fun e => (e.streamId, e.sequence)).Nodup := by
  apply List.pairwise_map.mpr
  apply List.pairwise_iff_forall_sublist.mpr
  intro e e' hsub heq
  obtain ⟨hstream, hsequence⟩ := Prod.mk.inj heq
  have hpair : [e, e'].Sublist (J.stream e.streamId) := by
    simpa [stream, hstream] using hsub.filter fun x => x.streamId = e.streamId
  have hlt := List.pairwise_iff_forall_sublist.mp (hJ.pairwise_sequence _) hpair
  omega

theorem Valid.nodup_ids {J : Journal nfc} (hJ : J.Valid) : J.ids.Nodup := by
  induction hJ with
  | nil => exact List.nodup_nil
  | @snoc J c _ hnew _ ih =>
      rw [ids_snoc]
      apply List.nodup_append.mpr
      refine ⟨ih, List.nodup_singleton _, ?_⟩
      intro a ha b hb hab
      rw [List.mem_singleton.mp hb] at hab
      exact hnew (hab ▸ ha)

theorem mem_entries_iff {J : Journal nfc} {e : LedgerEntry} :
    e ∈ J.entries ↔ ∃ (k : Nat) (c : Commit nfc), J[k]? = some c ∧ e ∈ c.entries k := by
  simp only [entries, List.mem_flatMap, Prod.exists, List.mem_zipIdx_iff_getElem?]
  constructor
  · rintro ⟨c, k, hc, he⟩
    exact ⟨k, c, hc, he⟩
  · rintro ⟨k, c, hc, he⟩
    exact ⟨c, k, hc, he⟩

theorem commitId_mem_ids {J : Journal nfc} {e : LedgerEntry} (h : e ∈ J.entries) :
    e.commitId ∈ J.ids := by
  obtain ⟨k, c, hc, he⟩ := mem_entries_iff.mp h
  rw [(commitId_of_mem_entries he).1]
  exact List.mem_map.mpr ⟨c, List.mem_of_getElem? hc, rfl⟩

/-- Every commit has an entry. -/
theorem mem_ids_iff {J : Journal nfc} {id : String} :
    id ∈ J.ids ↔ ∃ e ∈ J.entries, e.commitId = id := by
  constructor
  · intro h
    obtain ⟨c, hc, rfl⟩ := List.mem_map.mp h
    obtain ⟨k, hk⟩ := List.mem_iff_getElem?.mp hc
    obtain ⟨e, he⟩ := List.exists_mem_of_ne_nil _ (entries_ne_nil c k)
    exact ⟨e, mem_entries_iff.mpr ⟨k, c, hk, he⟩, (commitId_of_mem_entries he).1⟩
  · rintro ⟨e, he, rfl⟩
    exact commitId_mem_ids he

theorem entries_ne_nil_iff {J : Journal nfc} : J.entries ≠ [] ↔ J ≠ [] := by
  constructor
  · rintro h rfl
    exact h rfl
  · intro h hnil
    obtain ⟨c, hc⟩ := List.exists_mem_of_ne_nil J h
    obtain ⟨e, he, _⟩ := mem_ids_iff.mp (List.mem_map_of_mem (f := Commit.commitId) hc)
    rw [hnil] at he
    exact List.not_mem_nil he

/-- Orders lie below the length of the journal. -/
theorem globalOrder_lt {J : Journal nfc} {e : LedgerEntry} (h : e ∈ J.entries) :
    0 ≤ e.globalOrder ∧ e.globalOrder < J.length := by
  obtain ⟨k, c, hc, he⟩ := mem_entries_iff.mp h
  have hk := (List.getElem?_eq_some_iff.mp hc).1
  rw [(commitId_of_mem_entries he).2]
  omega

/-- Entries stand in the order of their commits. -/
theorem pairwise_globalOrder (J : Journal nfc) :
    J.entries.Pairwise fun e e' => e.globalOrder ≤ e'.globalOrder := by
  induction J using List.reverseRecOn with
  | nil => exact List.Pairwise.nil
  | append_singleton J c ih =>
      rw [entries_snoc, List.pairwise_append]
      refine ⟨ih, ?_, ?_⟩
      · apply List.pairwise_of_forall_mem_list
        intro e he e' he'
        rw [(commitId_of_mem_entries he).2, (commitId_of_mem_entries he').2]
      · intro e he e' he'
        rw [(commitId_of_mem_entries he').2]
        exact (globalOrder_lt he).2.le

/-- The maximal order is that of the last commit. -/
theorem maxD_globalOrder (d : Int) {J : Journal nfc} (hJ : J ≠ []) :
    Table.maxD d (J.entries.map LedgerEntry.globalOrder) + 1 = J.length := by
  obtain ⟨J, c, rfl⟩ := List.eq_nil_or_concat' J |>.resolve_left hJ
  obtain ⟨e, he⟩ := List.exists_mem_of_ne_nil _ (entries_ne_nil c J.length)
  have hmax : Table.maxD d ((entries (J ++ [c])).map LedgerEntry.globalOrder) = J.length := by
    apply Table.maxD_eq
    · refine List.mem_map.mpr ⟨e, ?_, (commitId_of_mem_entries he).2⟩
      rw [entries_snoc]
      exact List.mem_append_right _ he
    · intro x hx
      obtain ⟨e', he', rfl⟩ := List.mem_map.mp hx
      have := (globalOrder_lt he').2
      rw [List.length_append, List.length_singleton] at this
      omega
  rw [hmax]
  simp

/-- The entries that carry the id of a commit are the entries of that commit. -/
theorem Valid.filter_commitId {J : Journal nfc} (hJ : J.Valid) {k : Nat} {c : Commit nfc}
    (h : J[k]? = some c) :
    (J.entries.filter fun e => e.commitId = c.commitId) = c.entries k := by
  induction hJ with
  | nil => simp at h
  | @snoc J c₀ hJ hnew _ ih =>
      rw [entries_snoc, List.filter_append]
      by_cases hk : k < J.length
      · rw [List.getElem?_append_left hk] at h
        rw [ih h]
        have hne : c₀.commitId ≠ c.commitId := by
          intro heq
          exact hnew (heq ▸ List.mem_map.mpr ⟨c, List.mem_of_getElem? h, rfl⟩)
        rw [List.filter_eq_nil_iff.mpr, List.append_nil]
        intro e he
        simpa [(commitId_of_mem_entries he).1] using hne
      · have hklen : k = J.length := by
          have := (List.getElem?_eq_some_iff.mp h).1
          simp only [List.length_append, List.length_singleton] at this
          omega
        subst hklen
        rw [List.getElem?_append_right le_rfl, Nat.sub_self, List.getElem?_cons_zero,
          Option.some.injEq] at h
        subst h
        rw [List.filter_eq_nil_iff.mpr, List.nil_append, List.filter_eq_self.mpr]
        · intro e he
          simp [(commitId_of_mem_entries he).1]
        · intro e he
          have hne : e.commitId ≠ c₀.commitId := by
            intro heq
            exact hnew (heq ▸ commitId_mem_ids he)
          simpa using hne

/-- A receipt is recorded for exactly the commits of the journal. -/
theorem receiptFor_eq_some {J : Journal nfc} {id : String} {r : CommitReceipt}
    (h : J.receiptFor id = some r) :
    ∃ (k : Nat) (c : Commit nfc), J[k]? = some c ∧ c.commitId = id ∧ r = c.receipt k := by
  obtain ⟨⟨c, k⟩, hfind, rfl⟩ := Option.map_eq_some_iff.mp h
  have hmem := List.mem_of_find?_eq_some hfind
  have hid := List.find?_some hfind
  exact ⟨k, c, List.mem_zipIdx_iff_getElem?.mp hmem, by simpa using hid, rfl⟩

/-- The first event of an accepted commit has the sequence after the last one of its stream. -/
theorem Continues.firstEvent {J : Journal nfc} {c : Commit nfc} (h : J.Continues c) :
    c.firstEvent.sequence = J.height c.streamId + 1 := by
  have hlen : 0 < c.events.length := List.length_pos_of_ne_nil c.nonempty
  have hhead := congrArg (fun l => l[0]?) h
  simpa [sequencesAfter, hlen, Commit.firstEvent, List.head_eq_getElem, eq_comm] using hhead

/-- The receipt of an accepted commit describes its entries. -/
theorem Continues.describes {J : Journal nfc} {c : Commit nfc} (h : J.Continues c) (order : Int) :
    (c.receipt order).Describes (c.entries order) where
  nonempty := entries_ne_nil c order
  stream := fun _ he => streamId_of_mem_entries he
  commit := fun _ he => (commitId_of_mem_entries he).1
  order := fun _ he => (commitId_of_mem_entries he).2
  sequences := by
    rw [sequence_entries, h, Commit.entries, List.length_map, Commit.receipt, h.firstEvent]
    rfl
  last := by
    rw [Commit.entries, List.length_map]
    rfl

theorem Valid.describes {J : Journal nfc} (hJ : J.Valid) {k : Nat} {c : Commit nfc}
    (h : J[k]? = some c) : (c.receipt k).Describes (c.entries k) := by
  induction hJ with
  | nil => simp at h
  | @snoc J c₀ hJ _ hnext ih =>
      by_cases hk : k < J.length
      · rw [List.getElem?_append_left hk] at h
        exact ih h
      · rw [List.getElem?_append_right (by omega)] at h
        rw [List.mem_singleton.mp (List.mem_of_getElem? h)]
        exact hnext.describes k

theorem receiptFor_isSome_iff {J : Journal nfc} {id : String} :
    (J.receiptFor id).isSome = true ↔ id ∈ J.ids := by
  rw [receiptFor, Option.isSome_map, List.find?_isSome]
  constructor
  · rintro ⟨⟨c, k⟩, hmem, hid⟩
    have hc := List.mem_of_getElem? (List.mem_zipIdx_iff_getElem?.mp hmem)
    exact List.mem_map.mpr ⟨c, hc, by simpa using hid⟩
  · intro h
    obtain ⟨c, hc, rfl⟩ := List.mem_map.mp h
    obtain ⟨k, hk⟩ := List.mem_iff_getElem?.mp hc
    exact ⟨(c, k), List.mem_zipIdx_iff_getElem?.mpr hk, by simp⟩

theorem receiptFor_eq_none_iff {J : Journal nfc} {id : String} :
    J.receiptFor id = none ↔ id ∉ J.ids := by
  rw [← receiptFor_isSome_iff, Bool.not_eq_true, Option.isSome_eq_false_iff,
    Option.isNone_iff_eq_none]

/-! ## Offering a commit -/

/-- What an append is for: a recorded commit is answered with its receipt, a commit that continues
its stream is accepted, and any other is refused. -/
def append (J : Journal nfc) (c : Commit nfc) : Except Exc CommitReceipt × Journal nfc :=
  match J.receiptFor c.commitId with
  | some receipt => (.ok receipt, J)
  | none =>
      match Commit.checkSequences c.streamId (J.height c.streamId + 1) c.events with
      | .error e => (.error e, J)
      | .ok () => (.ok (c.receipt J.length), J ++ [c])

/-- The journal after a sequence of appends. -/
def run (J : Journal nfc) (commits : List (Commit nfc)) : Journal nfc :=
  commits.foldl (fun J c => (J.append c).2) J

/-- The three outcomes of an append. -/
theorem append_cases (J : Journal nfc) (c : Commit nfc) :
    (∃ receipt, J.receiptFor c.commitId = some receipt ∧ J.append c = (.ok receipt, J)) ∨
    (∃ e, c.commitId ∉ J.ids ∧ ¬ J.Continues c ∧ J.append c = (.error e, J)) ∨
    (c.commitId ∉ J.ids ∧ J.Continues c ∧ J.append c = (.ok (c.receipt J.length), J ++ [c])) := by
  rw [append]
  cases hreceipt : J.receiptFor c.commitId with
  | some receipt => exact .inl ⟨receipt, rfl, rfl⟩
  | none =>
      have hnew := receiptFor_eq_none_iff.mp hreceipt
      have hcontinues : Commit.checkSequences c.streamId (J.height c.streamId + 1) c.events = .ok () ↔
          J.Continues c := checkSequences_eq_ok_iff
      cases hcheck : Commit.checkSequences c.streamId (J.height c.streamId + 1) c.events with
      | error e =>
          rw [hcheck] at hcontinues
          exact .inr (.inl ⟨e, hnew, fun h => by simpa using hcontinues.mpr h, rfl⟩)
      | ok u => exact .inr (.inr ⟨hnew, hcontinues.mp hcheck, rfl⟩)

theorem Valid.append {J : Journal nfc} (hJ : J.Valid) (c : Commit nfc) : (J.append c).2.Valid := by
  obtain ⟨_, _, h⟩ | ⟨_, _, _, h⟩ | ⟨hnew, hnext, h⟩ := append_cases J c
  · rwa [h]
  · rwa [h]
  · rw [h]
    exact hJ.snoc hnew hnext

/-- An append that raises changes nothing, and no append removes a commit. -/
theorem append_extends (J : Journal nfc) (c : Commit nfc) :
    ∃ added : Journal nfc, (J.append c).2 = J ++ added ∧ added.Sublist [c] := by
  obtain ⟨_, _, h⟩ | ⟨_, _, _, h⟩ | ⟨_, _, h⟩ := append_cases J c
  · exact ⟨[], by rw [h, List.append_nil], List.nil_sublist _⟩
  · exact ⟨[], by rw [h, List.append_nil], List.nil_sublist _⟩
  · exact ⟨[c], by rw [h], List.Sublist.refl _⟩

theorem Valid.run {J : Journal nfc} (hJ : J.Valid) (commits : List (Commit nfc)) :
    (J.run commits).Valid := by
  induction commits generalizing J with
  | nil => exact hJ
  | cons c rest ih => exact ih (hJ.append c)

/-- A run only adds commits, in the order in which they were offered. -/
theorem run_extends (J : Journal nfc) (commits : List (Commit nfc)) :
    ∃ added : Journal nfc, J.run commits = J ++ added ∧ added.Sublist commits := by
  induction commits generalizing J with
  | nil => exact ⟨[], by rw [List.append_nil]; rfl, List.nil_sublist _⟩
  | cons c rest ih =>
      obtain ⟨first, hfirst, hc⟩ := append_extends J c
      obtain ⟨later, hlater, hrest⟩ := ih (J.append c).2
      refine ⟨first ++ later, ?_, hc.append hrest⟩
      change (J.append c).2.run rest = _
      rw [hlater, hfirst, List.append_assoc]

/-- The entries of further commits, ordered from `start` on. -/
def entriesFrom (start : Nat) (added : Journal nfc) : List LedgerEntry :=
  (added.zipIdx start).flatMap fun p => p.1.entries p.2

theorem entries_append (J added : Journal nfc) :
    entries (J ++ added) = entries J ++ entriesFrom J.length added := by
  simp [entries, entriesFrom, List.zipIdx_append]

theorem le_globalOrder_of_mem_entriesFrom {start : Nat} {added : Journal nfc} {e : LedgerEntry}
    (h : e ∈ entriesFrom start added) : (start : Int) ≤ e.globalOrder := by
  obtain ⟨⟨c, k⟩, hk, he⟩ := List.mem_flatMap.mp h
  rw [(commitId_of_mem_entries he).2]
  exact_mod_cast (List.le_snd_of_mem_zipIdx hk)

/-- Reading up to an order below the length of the journal reads nothing that came later. -/
theorem filter_entries_lt (J added : Journal nfc) :
    (entries (J ++ added)).filter (fun e => e.globalOrder < (J.length : Int)) = J.entries := by
  rw [entries_append, List.filter_append, List.filter_eq_self.mpr, List.filter_eq_nil_iff.mpr,
    List.append_nil]
  · intro e he
    simpa using le_globalOrder_of_mem_entriesFrom he
  · intro e he
    simpa using (globalOrder_lt he).2

/-- Reading from the length of the journal on reads exactly what came later. -/
theorem filter_entries_ge (J added : Journal nfc) :
    (entries (J ++ added)).filter (fun e => (J.length : Int) ≤ e.globalOrder) =
      entriesFrom J.length added := by
  rw [entries_append, List.filter_append, List.filter_eq_nil_iff.mpr, List.filter_eq_self.mpr,
    List.nil_append]
  · intro e he
    simpa using le_globalOrder_of_mem_entriesFrom he
  · intro e he
    simpa using (globalOrder_lt he).2

/-- Later entries come after the earlier ones. -/
theorem isPrefix_entries (J added : Journal nfc) : J.entries <+: entries (J ++ added) := by
  rw [entries_append]
  exact List.prefix_append _ _

end Journal

end RationaleVault
