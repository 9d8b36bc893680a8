import RationaleVault.Canonical.Envelope

/-!
# Commits and their digests

A commit is a nonempty list of events of one experience, addressed by the
digest of the events. The stream it is appended to is not part of the digest.

Canonical text is injective on canonical values, and a canonical value keeps
every member of an object. So events with one canonical text agree in their
sequence, type and time, and their payloads have one canonical form.
-/

namespace RationaleVault

/-- The text whose digest is the id of a commit: the array of the canonical events. -/
def commitText (nfc : Canonical.Normalizer) (events : List CanonicalEnvelope) : String :=
  Json.dumps .canonical (Canonical.canonicalize nfc (.arr (events.map fun e => .obj e.toDict)))

/-- `_compute_commit_id(events)`. -/
def computeCommitId (nfc : Canonical.Normalizer) (events : List CanonicalEnvelope) : String :=
  Sha256.hexdigest (commitText nfc events)

/-- A commit as `CommitBuilder.from_events` builds it. -/
structure Commit (nfc : Canonical.Normalizer) where
  commitId : String
  streamId : String
  events : List CanonicalEnvelope
  nonempty : events ≠ []
  experience : ∀ e ∈ events, ∀ e' ∈ events, e.experienceId = e'.experienceId
  digest : commitId = computeCommitId nfc events

/-- `CommitBuilder.from_events(stream_id, events)`. The second message ends with the text of the
set of experience ids, whose order is not determined; the model leaves that text out. -/
def CommitBuilder.fromEvents (nfc : Canonical.Normalizer) (streamId : String)
    (events : List CanonicalEnvelope) : Except Exc (Commit nfc) :=
  if hne : events = [] then .error (.valueError "Commit must contain at least one event")
  else if hexp : ∀ e ∈ events, ∀ e' ∈ events, e.experienceId = e'.experienceId then
    .ok { commitId := computeCommitId nfc events, streamId, events, nonempty := hne,
          experience := hexp, digest := rfl }
  else .error (.valueError "All events in a Commit must share the same experience_id. Got: ")

/-- What `append` returns. -/
structure CommitReceipt where
  commitId : String
  streamId : String
  sequenceStart : Int
  sequenceEnd : Int
  globalOrder : Int
  deriving DecidableEq

/-- A stored event. -/
structure LedgerEntry where
  streamId : String
  sequence : Int
  commitId : String
  eventId : String
  rvcjVersion : Int
  eventSchemaVersion : Int
  eventType : String
  timestamp : String
  payload : Json
  globalOrder : Int
  deriving DecidableEq

namespace Commit

variable {nfc : Canonical.Normalizer}

/-- Every commit is the one the builder returns for its stream and events. -/
theorem fromEvents_eq (c : Commit nfc) :
    CommitBuilder.fromEvents nfc c.streamId c.events = .ok c := by
  rw [CommitBuilder.fromEvents, dif_neg c.nonempty, dif_pos c.experience]
  cases c with
  | mk commitId streamId events nonempty experience digest =>
      subst digest
      rfl

/-- `commit.events[0]`. -/
def firstEvent (c : Commit nfc) : CanonicalEnvelope := c.events.head c.nonempty

/-- The entry an event of the commit is stored as. -/
def entry (c : Commit nfc) (globalOrder : Int) (event : CanonicalEnvelope) : LedgerEntry where
  streamId := c.streamId
  sequence := event.sequence
  commitId := c.commitId
  eventId := "EVT-" ++ String.ofList ((event.contentDigest nfc).toList.take 12)
  rvcjVersion := event.rvcjVersion
  eventSchemaVersion := event.eventSchemaVersion
  eventType := event.eventType.value
  timestamp := Canonical.toIso8601 event.timestamp
  payload := .obj event.payload
  globalOrder := globalOrder

/-- The receipt of a commit stored with the given order. -/
def receipt (c : Commit nfc) (globalOrder : Int) : CommitReceipt where
  commitId := c.commitId
  streamId := c.streamId
  sequenceStart := c.firstEvent.sequence
  sequenceEnd := c.firstEvent.sequence + c.events.length - 1
  globalOrder := globalOrder

/-- The commit of one event. -/
def single (nfc : Canonical.Normalizer) (streamId : String) (event : CanonicalEnvelope) :
    Commit nfc where
  commitId := computeCommitId nfc [event]
  streamId := streamId
  events := [event]
  nonempty := List.cons_ne_nil _ _
  experience := by simp
  digest := rfl

/-- The check that the events continue a stream after `current`: the exception names the first
event that does not. -/
def checkSequences (streamId : String) : (expected : Int) → List CanonicalEnvelope → Except Exc Unit
  | _, [] => .ok ()
  | expected, event :: rest =>
      if event.sequence = expected then checkSequences streamId (expected + 1) rest
      else .error (.valueError ("Sequence gap in stream " ++ streamId ++ ": expected seq " ++
        toString expected ++ ", got " ++ toString event.sequence))

end Commit

/-- An event that can start a stream. -/
def firstEvent (streamId : String) : CanonicalEnvelope where
  rvcjVersion := 1
  eventSchemaVersion := 1
  experienceId := "EXP-1"
  eventType := .decisionRecorded
  streamId := streamId
  sequence := 1
  timestamp := ⟨2026, 7, 14, 12, 0, 0, 0⟩
  actor := "alice"
  payload := []
  correlationId := none
  causationId := none

end RationaleVault

/-! ## What a canonical text determines -/

namespace RationaleVault

namespace Canonical

/-! ## ASCII text -/

theorem isAscii_append_iff {s t : String} : IsAscii (s ++ t) ↔ IsAscii s ∧ IsAscii t := by
  simp only [IsAscii, String.toList_append, List.forall_mem_append]

theorem isAscii_repr (n : Nat) : IsAscii (Nat.repr n) := by
  intro c hc
  have hdigit : c.isDigit = true := by
    apply Nat.isDigit_of_mem_toDigits (b := 10) (n := n) (by decide) (by decide)
    simpa [Nat.repr] using hc
  simp only [Char.isDigit, Bool.and_eq_true, decide_eq_true_eq] at hdigit
  have hle := UInt32.le_iff_toNat_le.mp hdigit.2
  simp at hle
  omega

theorem isAscii_pad (width n : Nat) : IsAscii (DateTime.pad width n) := by
  rw [DateTime.pad, isAscii_append_iff]
  refine ⟨?_, isAscii_repr n⟩
  intro c hc
  rw [String.toList_ofList] at hc
  rw [List.eq_of_mem_replicate hc]
  decide

theorem isAscii_toIso8601 (t : DateTime) : IsAscii (toIso8601 t) := by
  simp only [toIso8601, isAscii_append_iff, isAscii_pad, true_and, and_true]
  decide

theorem isAscii_value (t : EventType) : IsAscii t.value := by
  cases t <;> decide

/-! ## Canonical values -/

section

variable (nfc : Normalizer)

theorem canonicalizeItems_eq_map (items : List Json) :
    canonicalizeItems nfc items = items.map (canonicalize nfc) := by
  induction items with
  | nil => rfl
  | cons x rest ih => rw [canonicalizeItems, ih, List.map_cons]

theorem canonicalizeMembers_eq_map (members : List (String × Json)) :
    canonicalizeMembers nfc members = members.map fun m => (m.1, canonicalize nfc m.2) := by
  induction members with
  | nil => rfl
  | cons m rest ih => rw [canonicalizeMembers, ih, List.map_cons]

/-- Objects with one canonical form have the same members up to that form. -/
theorem exists_mem_of_canonicalize_eq {d d' : JsonObj}
    (h : canonicalize nfc (.obj d) = canonicalize nfc (.obj d')) {k : String} {v : Json}
    (hv : (k, v) ∈ d) : ∃ v', (k, v') ∈ d' ∧ canonicalize nfc v = canonicalize nfc v' := by
  rw [canonicalize, canonicalize, Json.obj.injEq] at h
  have hmem : (k, canonicalize nfc v) ∈ canonicalizeMembers nfc d := by
    rw [canonicalizeMembers_eq_map]
    exact List.mem_map.mpr ⟨(k, v), hv, rfl⟩
  rw [← List.mem_insertionSort fun m m' => m.1 ≤ m'.1, h, List.mem_insertionSort,
    canonicalizeMembers_eq_map] at hmem
  obtain ⟨⟨k', v'⟩, hv', heq⟩ := List.mem_map.mp hmem
  obtain ⟨rfl, hcanonical⟩ := Prod.mk.inj heq
  exact ⟨v', hv', hcanonical.symm⟩

end

end Canonical

namespace CanonicalEnvelope

/-- The events agree in what an entry records, payloads up to `canonicalize`. -/
structure Alike (nfc : Canonical.Normalizer) (e e' : CanonicalEnvelope) : Prop where
  sequence : e.sequence = e'.sequence
  eventType : e.eventType.value = e'.eventType.value
  timestamp : Canonical.toIso8601 e.timestamp = Canonical.toIso8601 e'.timestamp
  payload : Canonical.canonicalize nfc (.obj e.payload) = Canonical.canonicalize nfc (.obj e'.payload)

/-- Events with one canonical form are alike. -/
theorem alike_of_canonicalize_eq {nfc : Canonical.Normalizer} {e e' : CanonicalEnvelope}
    (h : Canonical.canonicalize nfc (.obj e.toDict) = Canonical.canonicalize nfc (.obj e'.toDict)) :
    e.Alike nfc e' := by
  have hmember : ∀ (k : String) (v : CanonicalEnvelope → Json),
      (∀ e : CanonicalEnvelope, ∀ x, (k, x) ∈ e.toDict ↔ x = v e) →
        Canonical.canonicalize nfc (v e) = Canonical.canonicalize nfc (v e') := by
    intro k v hk
    obtain ⟨x, hx, heq⟩ := Canonical.exists_mem_of_canonicalize_eq nfc h ((hk e _).mpr rfl)
    rwa [(hk e' x).mp hx] at heq
  have hsequence := hmember "sequence" (fun e => .int e.sequence) (by simp [toDict])
  have htype := hmember "event_type" (fun e => .str e.eventType.value) (by simp [toDict])
  have htime := hmember "timestamp" (fun e => .str (Canonical.toIso8601 e.timestamp))
    (by simp [toDict])
  refine ⟨?_, ?_, ?_, hmember "payload" (fun e => .obj e.payload) (by simp [toDict])⟩
  · simpa [Canonical.canonicalize, Json.int] using hsequence
  · simpa [Canonical.canonicalize, Json.str, nfc.ascii _ (Canonical.isAscii_value _)] using htype
  · simpa [Canonical.canonicalize, Json.str, nfc.ascii _ (Canonical.isAscii_toIso8601 _)] using htime

/-- Lists of events with one commit text are alike, event by event. -/
theorem forall₂_alike_of_commitText_eq {nfc : Canonical.Normalizer}
    {events events' : List CanonicalEnvelope}
    (h : commitText nfc events = commitText nfc events') :
    List.Forall₂ (Alike nfc) events events' := by
  have hvalue := Json.dumps_injective .canonical h
  rw [Canonical.canonicalize, Canonical.canonicalize, Json.arr.injEq,
    Canonical.canonicalizeItems_eq_map, Canonical.canonicalizeItems_eq_map, List.map_map,
    List.map_map, ← List.forall₂_eq_eq_eq, List.forall₂_map_left_iff,
    List.forall₂_map_right_iff] at hvalue
  exact hvalue.imp fun _ _ heq => alike_of_canonicalize_eq heq

end CanonicalEnvelope

end RationaleVault
