import RationaleVault.CognitiveHead.SnapshotPayload
import RationaleVault.Library.Table

/-!
# Snapshot storage and the snapshot manager

A store keeps one row for each saved snapshot. What it hands back for a saved
payload is a parameter of the model, `stored`: the SQLite store writes the
payload without its hash as JSON text, while a store that returns saved
payloads unchanged hands back the complete dictionary. Validation is the
manager's part.
-/

namespace RationaleVault

/-- Why a snapshot was rejected. -/
inductive SnapshotValidationReason
  | notFound
  | hashMismatch
  | schemaVersion
  | projectionVersion
  | futureSequence
  | deserialization
  deriving DecidableEq

/-- `reason.value`. -/
def SnapshotValidationReason.value : SnapshotValidationReason → String
  | notFound => "not_found"
  | hashMismatch => "hash_mismatch"
  | schemaVersion => "schema_version_mismatch"
  | projectionVersion => "projection_version_mismatch"
  | futureSequence => "sequence_ahead_of_events"
  | deserialization => "deserialization_failed"

/-- The result of validating a snapshot: a payload when valid, a reason otherwise. -/
structure SnapshotValidationResult where
  valid : Bool
  payload : Option SnapshotPayload
  reason : Option SnapshotValidationReason
  deriving DecidableEq

namespace SnapshotValidationResult

def rejected (reason : SnapshotValidationReason) : SnapshotValidationResult :=
  ⟨false, none, some reason⟩

def accepted (payload : SnapshotPayload) : SnapshotValidationResult :=
  ⟨true, some payload, none⟩

end SnapshotValidationResult

/-! ## Storage -/

/-- A row of `rationalevault_snapshots`, with the payload as `load_latest_raw` decodes it. -/
structure SnapshotRow where
  projectId : UUID
  projectionName : String
  sequence : Int
  payload : SnapshotDict
  schemaVersion : Int
  projectionVersion : Int
  snapshotHash : String

abbrev SnapshotTable := List SnapshotRow

/-- What `SQLiteEventStore` hands back for a saved payload: the text it writes leaves the hash
out, which is kept in a column of its own. -/
def sqliteStored (p : SnapshotPayload) : SnapshotDict := (p.toDict true).reload

/-- What a store that returns saved payloads unchanged hands back. -/
def faithfulStored (p : SnapshotPayload) : SnapshotDict := p.toDict false

namespace SnapshotTable

/-- The rows of one project and projection. -/
def rowsOf (table : SnapshotTable) (p : UUID) (name : String) : List SnapshotRow :=
  table.filter fun r => r.projectId = p ∧ r.projectionName = name

/-- `load_latest_raw(project_id, projection_name)`. -/
def loadLatestRaw (table : SnapshotTable) (p : UUID) (name : String) : Option SnapshotRow :=
  (Table.orderByDesc SnapshotRow.sequence (rowsOf table p name)).head?

/-- `get_latest_snapshot_sequence(project_id, projection_name)`. -/
def getLatestSnapshotSequence (table : SnapshotTable) (p : UUID) (name : String) : Option Int :=
  (Table.orderByDesc SnapshotRow.sequence (rowsOf table p name)).head?.map SnapshotRow.sequence

/-- The row `save_snapshot` inserts. -/
def newRow (stored : SnapshotPayload → SnapshotDict) (p : UUID) (name : String)
    (payload : SnapshotPayload) : SnapshotRow where
  projectId := p
  projectionName := name
  sequence := payload.sequence
  payload := stored payload
  schemaVersion := payload.schemaVersion
  projectionVersion := payload.projectionVersion
  snapshotHash := payload.snapshotHash

/-- `save_snapshot(project_id, projection_name, payload)`. -/
def saveSnapshot (stored : SnapshotPayload → SnapshotDict) (table : SnapshotTable) (p : UUID)
    (name : String) (payload : SnapshotPayload) : SnapshotTable :=
  table ++ [newRow stored p name payload]

/-- The row that is loaded belongs to the project and has the largest sequence. -/
theorem loadLatestRaw_spec {table : SnapshotTable} {p : UUID} {name : String} {r : SnapshotRow}
    (h : loadLatestRaw table p name = some r) :
    r ∈ table ∧ r.projectId = p ∧ r.projectionName = name ∧
      ∀ r' ∈ rowsOf table p name, r'.sequence ≤ r.sequence := by
  obtain ⟨hmem, hmax⟩ := Table.head?_orderByDesc h
  obtain ⟨hin, hp⟩ := List.mem_filter.mp hmem
  simp only [decide_eq_true_eq] at hp
  exact ⟨hin, hp.1, hp.2, hmax⟩

end SnapshotTable

/-! ## Policies -/

/-- `should_snapshot(current_sequence, last_snapshot_sequence)`. -/
abbrev SnapshotPolicy := Int → Option Int → Bool

/-- `EventCountPolicy(threshold)`. -/
def eventCountPolicy (threshold : Int) : SnapshotPolicy := fun current last =>
  match last with
  | none => true
  | some n => current - n ≥ threshold

/-- `DEFAULT_POLICY`. -/
def defaultPolicy : SnapshotPolicy := eventCountPolicy 100

/-! ## The manager -/

/-- The registered projections of `SNAPSHOT_SERIALIZERS`. -/
def hasSerializer (name : String) : Bool := name == "cognitive_head"

/-- The checks on a deserialized payload, in the order the manager makes them. -/
def validatePayload (payload : SnapshotPayload) (latestSequence : Nat) :
    Except Exc SnapshotValidationResult := do
  let hashOk ← payload.validateHash
  if ¬hashOk then return .rejected .hashMismatch
  else if payload.schemaVersion ≠ snapshotSchemaVersion then return .rejected .schemaVersion
  else if payload.projectionVersion ≠ snapshotProjectionVersion then
    return .rejected .projectionVersion
  else if payload.sequence > latestSequence then return .rejected .futureSequence
  else return .accepted payload

/-- `load_valid_snapshot(project_id, projection_name)`. -/
def loadValidSnapshot (table : SnapshotTable) (latestSequence : Nat) (p : UUID) (name : String) :
    Except Exc SnapshotValidationResult :=
  match table.loadLatestRaw p name with
  | none => .ok (.rejected .notFound)
  | some raw =>
      if hasSerializer name then
        validatePayload (SnapshotPayload.fromDict raw.payload) latestSequence
      else .ok (.rejected .deserialization)

/-- `refresh_snapshot(project_id, projection_name, head, current_sequence)`: a failure to build
or save the snapshot is swallowed. -/
def refreshSnapshot (stored : SnapshotPayload → SnapshotDict) (policy : SnapshotPolicy)
    (table : SnapshotTable) (p : UUID) (name : String) (payload : SnapshotPayload)
    (currentSequence : Int) : SnapshotTable :=
  if policy currentSequence (table.getLatestSnapshotSequence p name) then
    match payload.withHash with
    | .ok hashed => table.saveSnapshot stored p name hashed
    | .error _ => table
  else table

/-- A refreshed table holds the old rows and at most one new one, with its hash. -/
theorem mem_refreshSnapshot {stored : SnapshotPayload → SnapshotDict} {policy : SnapshotPolicy}
    {table : SnapshotTable} {p : UUID} {name : String} {payload : SnapshotPayload}
    {currentSequence : Int} {r : SnapshotRow}
    (h : r ∈ refreshSnapshot stored policy table p name payload currentSequence) :
    r ∈ table ∨ ∃ hash, payload.computeHash = .ok hash ∧
      r = SnapshotTable.newRow stored p name { payload with snapshotHash := hash } := by
  unfold refreshSnapshot at h
  split at h
  · split at h
    · rename_i hashed hhash
      simp only [SnapshotPayload.withHash, Except.bind_eq_ok_iff, Except.pure_eq_ok_iff] at hhash
      obtain ⟨hash, hcompute, rfl⟩ := hhash
      rcases List.mem_append.mp h with h | h
      · exact Or.inl h
      · exact Or.inr ⟨hash, hcompute, List.mem_singleton.mp h⟩
    · exact Or.inl h
  · exact Or.inl h

end RationaleVault
