import RationaleVault.Python
import RationaleVault.Library.JsonText
import RationaleVault.Library.Sha256

/-!
# Canonical envelopes

The event representation that the ledger stores and digests. Canonical text
has sorted keys and normalized strings; the normal form of a string comes from
the Unicode tables of the interpreter and is a parameter of the model.
-/

namespace RationaleVault

namespace Canonical

/-- The registered event types. -/
inductive EventType
  | decisionRecorded
  | evaluationRecorded
  | knowledgeUpdated
  | experienceRecorded
  | outcomeObserved
  deriving DecidableEq

/-- `event_type.value`. -/
def EventType.value : EventType → String
  | decisionRecorded => "decision_recorded"
  | evaluationRecorded => "evaluation_recorded"
  | knowledgeUpdated => "knowledge_updated"
  | experienceRecorded => "experience_recorded"
  | outcomeObserved => "outcome_observed"

/-- Text without characters beyond ASCII. -/
def IsAscii (s : String) : Prop := ∀ c ∈ s.toList, c.toNat < 128

instance (s : String) : Decidable (IsAscii s) :=
  decidable_of_iff (s.toList.all fun c => c.toNat < 128) (by simp [IsAscii])

/-- `unicodedata.normalize("NFC", s)`, which leaves ASCII text alone. -/
structure Normalizer where
  normalize : String → String
  ascii : ∀ s, IsAscii s → normalize s = s

/-- The normalizer of texts that are in normal form already. -/
def Normalizer.identity : Normalizer := ⟨id, fun _ _ => rfl⟩

/-- `to_iso8601()`: the time with microseconds and a final `Z`. -/
def toIso8601 (t : DateTime) : String :=
  DateTime.pad 4 t.year ++ "-" ++ DateTime.pad 2 t.month ++ "-" ++ DateTime.pad 2 t.day ++ "T" ++
    DateTime.pad 2 t.hour ++ ":" ++ DateTime.pad 2 t.minute ++ ":" ++ DateTime.pad 2 t.second ++
    "." ++ DateTime.pad 6 t.microsecond ++ "Z"

section Canonicalize

variable (nfc : Normalizer)

mutual

/-- `canonicalize(obj)`: objects with sorted keys, strings in normal form, lists in order. -/
def canonicalize : Json → Json
  | .atom (.str s) => .str (nfc.normalize s)
  | .atom a => .atom a
  | .arr items => .arr (canonicalizeItems items)
  | .obj members => .obj ((canonicalizeMembers members).insertionSort fun m m' => m.1 ≤ m'.1)

def canonicalizeItems : List Json → List Json
  | [] => []
  | x :: rest => canonicalize x :: canonicalizeItems rest

/-- Keys are kept as they are. -/
def canonicalizeMembers : List (String × Json) → List (String × Json)
  | [] => []
  | (k, x) :: rest => (k, canonicalize x) :: canonicalizeMembers rest

end

end Canonicalize

end Canonical

/-- An immutable event envelope. -/
structure CanonicalEnvelope where
  rvcjVersion : Int
  eventSchemaVersion : Int
  experienceId : String
  eventType : Canonical.EventType
  streamId : String
  sequence : Int
  timestamp : DateTime
  actor : String
  payload : JsonObj
  correlationId : Option String
  causationId : Option String
  deriving DecidableEq

namespace CanonicalEnvelope

/-- `to_dict()`; absent ids have no member. -/
def toDict (e : CanonicalEnvelope) : JsonObj :=
  [("rvcj_version", .int e.rvcjVersion), ("event_schema_version", .int e.eventSchemaVersion),
    ("experience_id", .str e.experienceId), ("event_type", .str e.eventType.value),
    ("stream_id", .str e.streamId), ("sequence", .int e.sequence),
    ("timestamp", .str (Canonical.toIso8601 e.timestamp)), ("actor", .str e.actor),
    ("payload", .obj e.payload)] ++
    (e.correlationId.map fun id => ("correlation_id", Json.str id)).toList ++
    (e.causationId.map fun id => ("causation_id", Json.str id)).toList

/-- The text of the canonical bytes. -/
def canonicalText (nfc : Canonical.Normalizer) (e : CanonicalEnvelope) : String :=
  Json.dumps .canonical (Canonical.canonicalize nfc (.obj e.toDict))

/-- `CanonicalSerializer.content_digest(envelope)`. -/
def contentDigest (nfc : Canonical.Normalizer) (e : CanonicalEnvelope) : String :=
  Sha256.hexdigest (e.canonicalText nfc)

end CanonicalEnvelope

end RationaleVault
