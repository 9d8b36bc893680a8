import RationaleVault.Canonical.OneForm
import RationaleVault.Canonical.Timestamp

/-!
# The serializer

`serialize` writes the canonical bytes of an envelope and `deserialize` reads
an envelope from bytes. Reading gives the canonical form of what was written:
the payload with sorted keys, and every string in normal form.
-/

namespace RationaleVault

/-- `EventType(value)`; the message leaves the value out. -/
def Canonical.EventType.parse (value : Json) : Except Exc Canonical.EventType :=
  match [Canonical.EventType.decisionRecorded, .evaluationRecorded, .knowledgeUpdated,
      .experienceRecorded, .outcomeObserved].find? fun t => value = .str t.value with
  | some t => .ok t
  | none => .error (.valueError "not a valid EventType")

/-- What `CanonicalPayload(data).canonicalize()` holds. -/
def Canonical.canonicalPayload (nfc : Canonical.Normalizer) (payload : JsonObj) : JsonObj :=
  (Canonical.canonicalizeMembers nfc payload).insertionSort fun m m' => m.1 ≤ m'.1

namespace CanonicalEnvelope

/-! ## Reading an envelope

An envelope of the model has fields of the declared types. The class does not check them; other
values are reported as a type error here. -/

def readInt : Json → Except Exc Int
  | .int n => .ok n
  | _ => .error .typeError

def readStr : Json → Except Exc String
  | .str s => .ok s
  | _ => .error .typeError

def readDict : Json → Except Exc JsonObj
  | .obj members => .ok members
  | _ => .error .typeError

/-- `data.get(key)` for an optional id. -/
def readOptional : Json → Except Exc (Option String)
  | .null => .ok none
  | .str s => .ok (some s)
  | _ => .error .typeError

/-- `CanonicalEnvelope.from_dict(data)`. -/
def fromDict (data : JsonObj) : Except Exc CanonicalEnvelope := do
  let rvcjVersion ← readInt (← data.getItem "rvcj_version")
  let eventSchemaVersion ← readInt (← data.getItem "event_schema_version")
  let experienceId ← readStr (← data.getItem "experience_id")
  let eventType ← Canonical.EventType.parse (← data.getItem "event_type")
  let streamId ← readStr (← data.getItem "stream_id")
  let sequence ← readInt (← data.getItem "sequence")
  let timestamp ← Canonical.fromIso8601 (← readStr (← data.getItem "timestamp"))
  let actor ← readStr (← data.getItem "actor")
  let payload ← readDict (← data.getItem "payload")
  let correlationId ← readOptional (data.get "correlation_id")
  let causationId ← readOptional (data.get "causation_id")
  return { rvcjVersion, eventSchemaVersion, experienceId, eventType, streamId, sequence,
           timestamp, actor, payload, correlationId, causationId }

end CanonicalEnvelope

namespace CanonicalSerializer

/-- `CanonicalSerializer.serialize(envelope)`. -/
def serialize (nfc : Canonical.Normalizer) (e : CanonicalEnvelope) : ByteArray :=
  (e.canonicalText nfc).toUTF8

/-- `CanonicalSerializer.deserialize(data)`. -/
def deserialize (data : ByteArray) : Except Exc CanonicalEnvelope :=
  match String.fromUTF8? data with
  | none => .error (.valueError "invalid utf-8")
  | some text =>
      match Json.loads text with
      | none => .error .jsonDecodeError
      | some (.obj members) => CanonicalEnvelope.fromDict members
      | some _ => .error .typeError

end CanonicalSerializer

namespace CanonicalEnvelope

/-- The envelope with its payload and strings canonicalized. Its time is in UTC already. -/
def canonicalForm (nfc : Canonical.Normalizer) (e : CanonicalEnvelope) : CanonicalEnvelope :=
  { e with
    experienceId := nfc.normalize e.experienceId
    streamId := nfc.normalize e.streamId
    actor := nfc.normalize e.actor
    payload := Canonical.canonicalPayload nfc e.payload
    correlationId := e.correlationId.map nfc.normalize
    causationId := e.causationId.map nfc.normalize }

variable {nfc : Canonical.Normalizer}

theorem canonicalize_payload (payload : JsonObj) :
    Canonical.canonicalize nfc (.obj payload) = .obj (Canonical.canonicalPayload nfc payload) := by
  rw [Canonical.canonicalize, Canonical.canonicalPayload]

theorem canonicalize_str (s : String) :
    Canonical.canonicalize nfc (.str s) = .str (nfc.normalize s) := by
  rw [Canonical.canonicalize]

theorem parse_value (t : Canonical.EventType) :
    Canonical.EventType.parse (.str t.value) = .ok t := by
  cases t <;> decide +kernel

theorem nodup_toDict (e : CanonicalEnvelope) : (e.toDict.map Prod.fst).Nodup := by
  cases hcorr : e.correlationId <;> cases hcaus : e.causationId <;>
    simp [toDict, hcorr, hcaus]

/-- The canonical members of an envelope are looked up as those of its dictionary. -/
theorem lookup_canonicalPayload (e : CanonicalEnvelope) (key : String) :
    (Canonical.canonicalPayload nfc e.toDict).lookup key =
      (e.toDict.lookup key).map (Canonical.canonicalize nfc) := by
  have hperm : (Canonical.canonicalPayload nfc e.toDict).Perm
      (Canonical.canonicalizeMembers nfc e.toDict) := List.perm_insertionSort _ _
  have hkeys : ((Canonical.canonicalizeMembers nfc e.toDict).map Prod.fst).Nodup := by
    rw [Canonical.fst_canonicalizeMembers]
    exact nodup_toDict e
  calc
    (Canonical.canonicalPayload nfc e.toDict).lookup key =
        (Canonical.canonicalizeMembers nfc e.toDict).lookup key :=
      (Table.lookup_eq_of_perm hperm.symm hkeys key).symm
    _ = (e.toDict.lookup key).map (Canonical.canonicalize nfc) := by
      rw [Canonical.canonicalizeMembers_eq_map]
      exact Table.lookup_map _ _ _

theorem canonicalize_value (t : Canonical.EventType) :
    Canonical.canonicalize nfc (.str t.value) = .str t.value := by
  rw [canonicalize_str, nfc.ascii _ (Canonical.isAscii_value t)]

theorem canonicalize_toIso8601 (t : DateTime) :
    Canonical.canonicalize nfc (.str (Canonical.toIso8601 t)) = .str (Canonical.toIso8601 t) := by
  rw [canonicalize_str, nfc.ascii _ (Canonical.isAscii_toIso8601 t)]

/-- Reading the canonical dictionary of an envelope gives the envelope in canonical form. -/
theorem fromDict_canonicalPayload {e : CanonicalEnvelope} (h : e.timestamp.Valid) :
    fromDict (Canonical.canonicalPayload nfc e.toDict) = .ok (e.canonicalForm nfc) := by
  have hcorrelation : readOptional (((e.toDict.lookup "correlation_id").map
      (Canonical.canonicalize nfc)).getD .null) = .ok (e.correlationId.map nfc.normalize) := by
    cases hcorr : e.correlationId <;> cases hcaus : e.causationId <;>
      simp [toDict, hcorr, hcaus, List.lookup_cons, Canonical.canonicalize, readOptional]
  have hcausation : readOptional (((e.toDict.lookup "causation_id").map
      (Canonical.canonicalize nfc)).getD .null) = .ok (e.causationId.map nfc.normalize) := by
    cases hcorr : e.correlationId <;> cases hcaus : e.causationId <;>
      simp [toDict, hcorr, hcaus, List.lookup_cons, Canonical.canonicalize, readOptional]
  have hmember : ∀ key v, e.toDict.lookup key = some v →
      JsonObj.getItem (Canonical.canonicalPayload nfc e.toDict) key =
        .ok (Canonical.canonicalize nfc v) := by
    intro key v hv
    rw [JsonObj.getItem, lookup_canonicalPayload, hv, Option.map_some]
  rw [fromDict, JsonObj.get, JsonObj.get, JsonObj.getD, JsonObj.getD, lookup_canonicalPayload,
    lookup_canonicalPayload, hcorrelation, hcausation,
    hmember "rvcj_version" (.int e.rvcjVersion) rfl,
    hmember "event_schema_version" (.int e.eventSchemaVersion) rfl,
    hmember "experience_id" (.str e.experienceId) rfl,
    hmember "event_type" (.str e.eventType.value) rfl,
    hmember "stream_id" (.str e.streamId) rfl,
    hmember "sequence" (.int e.sequence) rfl,
    hmember "timestamp" (.str (Canonical.toIso8601 e.timestamp)) rfl,
    hmember "actor" (.str e.actor) rfl,
    hmember "payload" (.obj e.payload) rfl,
    canonicalize_value, canonicalize_toIso8601, canonicalize_payload]
  simp only [Canonical.canonicalize, bind, Except.bind, readInt, readStr, readDict, parse_value,
    Canonical.fromIso8601_toIso8601 h]
  rfl

/-- Canonicalizing the dictionary a second time, as one of the canonical form, changes nothing. -/
theorem canonicalize_toDict_canonicalForm
    (hnfc : ∀ s, nfc.normalize (nfc.normalize s) = nfc.normalize s) (e : CanonicalEnvelope) :
    Canonical.canonicalize nfc (.obj (e.canonicalForm nfc).toDict) =
      Canonical.canonicalize nfc (.obj e.toDict) := by
  have hpayload : Canonical.canonicalize nfc (.obj (Canonical.canonicalPayload nfc e.payload)) =
      .obj (Canonical.canonicalPayload nfc e.payload) := by
    rw [← canonicalize_payload, Canonical.canonicalize_canonicalize hnfc]
  have hmembers : Canonical.canonicalizeMembers nfc (e.canonicalForm nfc).toDict =
      Canonical.canonicalizeMembers nfc e.toDict := by
    rw [Canonical.canonicalizeMembers_eq_map, Canonical.canonicalizeMembers_eq_map]
    cases hcorr : e.correlationId <;> cases hcaus : e.causationId <;>
      simp [toDict, canonicalForm, hcorr, hcaus, hpayload, canonicalize_payload, canonicalize_str,
        hnfc]
  rw [Canonical.canonicalize_obj, Canonical.canonicalize_obj, hmembers]

end CanonicalEnvelope

namespace CanonicalSerializer

variable {nfc : Canonical.Normalizer}

theorem fromUTF8?_toUTF8 (s : String) : String.fromUTF8? s.toUTF8 = some s := by
  rw [String.toUTF8_eq_toByteArray, String.fromUTF8?, dif_pos (String.isValidUTF8 s)]
  rfl

theorem deserialize_serialize {e : CanonicalEnvelope} (h : e.timestamp.Valid) :
    deserialize (serialize nfc e) = .ok (e.canonicalForm nfc) := by
  rw [deserialize, serialize, fromUTF8?_toUTF8]
  simp only [CanonicalEnvelope.canonicalText, Json.loads_dumps,
    CanonicalEnvelope.canonicalize_payload, CanonicalEnvelope.fromDict_canonicalPayload h]

theorem serialize_canonicalForm
    (hnfc : ∀ s, nfc.normalize (nfc.normalize s) = nfc.normalize s) (e : CanonicalEnvelope) :
    serialize nfc (e.canonicalForm nfc) = serialize nfc e := by
  rw [serialize, serialize, CanonicalEnvelope.canonicalText, CanonicalEnvelope.canonicalText,
    CanonicalEnvelope.canonicalize_toDict_canonicalForm hnfc]

/-- Deserializing the bytes of an envelope gives its canonical form, which has the same bytes, and
the bytes of two envelopes are equal exactly when their canonical forms are. -/
theorem serialize_round_trip (nfc : Canonical.Normalizer)
    (hnfc : ∀ s, nfc.normalize (nfc.normalize s) = nfc.normalize s) :
    (∀ e : CanonicalEnvelope, e.timestamp.Valid →
      deserialize (serialize nfc e) = .ok (e.canonicalForm nfc) ∧
        (deserialize (serialize nfc e)).map (serialize nfc) = .ok (serialize nfc e)) ∧
    (∀ e e' : CanonicalEnvelope, e.timestamp.Valid → e'.timestamp.Valid →
      (serialize nfc e = serialize nfc e' ↔ e.canonicalForm nfc = e'.canonicalForm nfc)) := by
  refine ⟨fun e he => ⟨deserialize_serialize he, ?_⟩, fun e e' he he' => ⟨fun h => ?_, fun h => ?_⟩⟩
  · rw [deserialize_serialize he, Except.map, serialize_canonicalForm hnfc]
  · have hread : deserialize (serialize nfc e) = .ok (e.canonicalForm nfc) :=
      deserialize_serialize he
    rw [h, deserialize_serialize he', Except.ok.injEq] at hread
    exact hread.symm
  · calc
      serialize nfc e = serialize nfc (e.canonicalForm nfc) := (serialize_canonicalForm hnfc e).symm
      _ = serialize nfc (e'.canonicalForm nfc) := by rw [h]
      _ = serialize nfc e' := serialize_canonicalForm hnfc e'

/-- An event whose payload is not in canonical form. -/
def unsortedEvent : CanonicalEnvelope :=
  (firstEvent "a").withPayload [("name", .str "cafe\u0301"), ("age", .int 1)]

theorem serialize_round_trip_unsortedEvent :
    deserialize (serialize .acute unsortedEvent) =
      .ok (unsortedEvent.withPayload [("age", .int 1), ("name", .str "café")]) := by
  have hform : unsortedEvent.canonicalForm .acute =
      unsortedEvent.withPayload [("age", .int 1), ("name", .str "café")] := by decide +kernel
  have hround := serialize_round_trip .acute Canonical.acute_normalize_normalize
  rw [(hround.1 unsortedEvent (by decide)).1, hform]

end CanonicalSerializer

end RationaleVault
