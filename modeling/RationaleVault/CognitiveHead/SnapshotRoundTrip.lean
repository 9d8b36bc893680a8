import RationaleVault.CognitiveHead.Snapshot
import RationaleVault.CognitiveHead.ReplayEngine

/-!
# Reading a saved snapshot back

The SQLite store leaves the hash out of the text it writes, and the manager
takes the hash from the decoded text, so every snapshot of that store is read
back with an empty hash. A digest is never empty.
-/

namespace RationaleVault

/-! ## Digests of reloaded payloads -/

/-- The digest of a payload read back from JSON text can always be computed. -/
theorem SnapshotPayload.computeHash_fromDict_reload (d : SnapshotDict) :
    ∃ text, (fromDict d.reload).computeHash = .ok (Sha256.hexdigest text) := by
  have hsorted : ∀ items : Option ItemDicts, ∃ v,
      ((items.map ItemDicts.reload).getD .empty).sortedJson = .ok v := by
    intro items
    have hkeys : ∀ k ∈ ((items.map ItemDicts.reload).getD .empty).keys, k.isStr = true := by
      cases items with
      | none => simp [OrdDict.keys]
      | some d => exact ItemDicts.isStr_keys_reload d
    obtain ⟨keys, hk⟩ := Atom.sorted_of_isStr hkeys
    exact ⟨_, by rw [ItemDicts.sortedJson, hk]; rfl⟩
  obtain ⟨t, ht⟩ := hsorted d.tasks
  obtain ⟨ds, hds⟩ := hsorted d.decisions
  obtain ⟨q, hq⟩ := hsorted d.questions
  simp only [computeHash, hashText, fromDict, SnapshotDict.reload, ht, hds, hq]
  exact ⟨_, rfl⟩

/-! ## The SQLite store -/

/-- Every row was written by `SQLiteEventStore.save_snapshot`. -/
def SnapshotTable.WrittenBySqlite (table : SnapshotTable) : Prop :=
  ∀ r ∈ table, ∃ P, r.payload = sqliteStored P

namespace SnapshotTable

theorem writtenBySqlite_nil : WrittenBySqlite [] := by simp [WrittenBySqlite]

/-- `refresh_snapshot` only adds rows that the store wrote. -/
theorem WrittenBySqlite.refreshSnapshot {table : SnapshotTable} (h : table.WrittenBySqlite)
    (policy : SnapshotPolicy) (p : UUID) (name : String) (P : SnapshotPayload) (current : Int) :
    (refreshSnapshot sqliteStored policy table p name P current).WrittenBySqlite := by
  intro r hr
  rcases mem_refreshSnapshot hr with hr | ⟨hash, _, rfl⟩
  · exact h r hr
  · exact ⟨_, rfl⟩

/-- A row of the SQLite store fails the hash check. -/
theorem validatePayload_sqliteStored (P : SnapshotPayload) (latest : Nat) :
    validatePayload (SnapshotPayload.fromDict (sqliteStored P)) latest =
      .ok (.rejected .hashMismatch) := by
  obtain ⟨text, htext⟩ := SnapshotPayload.computeHash_fromDict_reload (P.toDict true)
  have hempty : (SnapshotPayload.fromDict (sqliteStored P)).snapshotHash = "" := rfl
  have hne : ("" == Sha256.hexdigest text) = false := by
    simpa using (Sha256.hexdigest_ne_empty text).symm
  rw [validatePayload, SnapshotPayload.validateHash, hempty, sqliteStored, htext]
  simp [hne]

/-- A snapshot of the SQLite store is never loaded as valid. -/
theorem WrittenBySqlite.loadValidSnapshot {table : SnapshotTable} (h : table.WrittenBySqlite)
    (latest : Nat) (p : UUID) (name : String) :
    ∃ reason, RationaleVault.loadValidSnapshot table latest p name = .ok (.rejected reason) ∧
      (table.rowsOf p name ≠ [] → hasSerializer name = true → reason = .hashMismatch) := by
  unfold RationaleVault.loadValidSnapshot
  split
  · rename_i hnone
    refine ⟨_, rfl, fun hrows _ => ?_⟩
    obtain ⟨r, hr⟩ := List.exists_mem_of_ne_nil _ hrows
    have hmem := (@Table.mem_orderByDesc _ _ _ SnapshotRow.sequence _ _).mpr hr
    rw [loadLatestRaw, List.head?_eq_none_iff] at hnone
    simp [hnone] at hmem
  · rename_i raw hraw
    obtain ⟨P, hP⟩ := h raw (loadLatestRaw_spec hraw).1
    split
    · exact ⟨_, by rw [hP, validatePayload_sqliteStored], fun _ _ => rfl⟩
    · rename_i hname
      exact ⟨_, rfl, fun _ hser => absurd hser hname⟩

/-- After a snapshot was saved through the SQLite store, loading it is rejected for its hash,
whatever the payload, the policy and the rows already stored. -/
theorem loadValidSnapshot_refreshSnapshot_sqlite {table : SnapshotTable}
    (h : table.WrittenBySqlite) (policy : SnapshotPolicy) (p : UUID) (name : String)
    (P : SnapshotPayload) (current : Int) (latest : Nat) :
    ∃ reason, RationaleVault.loadValidSnapshot
        (RationaleVault.refreshSnapshot sqliteStored policy table p name P current) latest p name =
          .ok (.rejected reason) ∧
      (policy current (table.getLatestSnapshotSequence p name) = true →
        (∃ hashed, P.withHash = .ok hashed) → hasSerializer name = true →
        reason = .hashMismatch) := by
  obtain ⟨reason, hload, hreason⟩ :=
    (h.refreshSnapshot policy p name P current).loadValidSnapshot latest p name
  refine ⟨reason, hload, fun hfires ⟨hashed, hhash⟩ hser => hreason ?_ hser⟩
  rw [RationaleVault.refreshSnapshot, if_pos hfires, hhash]
  simp [saveSnapshot, rowsOf, newRow]

/-- A payload without items, taken at sequence 3. -/
def samplePayload : SnapshotPayload where
  sequence := 3
  schemaVersion := snapshotSchemaVersion
  projectionVersion := snapshotProjectionVersion
  snapshotHash := ""
  projectId := UUID.zero.str
  projectName := .str "vault"
  projectGoal := .str "ship"
  currentFocus := .str "replay"
  ledgerVersion := 3
  compiledAt := "now"
  tasks := .empty
  decisions := .empty
  questions := .empty
  blockers := []

/-- The first snapshot of a project is rejected. -/
theorem loadValidSnapshot_first_snapshot :
    (∃ hashed, samplePayload.withHash = .ok hashed) ∧
    RationaleVault.loadValidSnapshot (RationaleVault.refreshSnapshot sqliteStored defaultPolicy []
      .zero "cognitive_head" samplePayload 3) 3 .zero "cognitive_head" =
        .ok (.rejected .hashMismatch) := by
  obtain ⟨reason, hload, hreason⟩ := loadValidSnapshot_refreshSnapshot_sqlite writtenBySqlite_nil
    defaultPolicy .zero "cognitive_head" samplePayload 3 3
  have hhash : ∃ hashed, samplePayload.withHash = .ok hashed := ⟨_, rfl⟩
  refine ⟨hhash, ?_⟩
  rw [hload, hreason rfl hhash rfl]

/-- The snapshot saved by the firing default policy is the only one and not ahead of the
events, and still it is not loaded. -/
theorem saved_snapshot_not_loaded :
    ∃ hashed table, samplePayload.withHash = .ok hashed ∧
      defaultPolicy 3 (getLatestSnapshotSequence [] .zero "cognitive_head") = true ∧
      RationaleVault.refreshSnapshot sqliteStored defaultPolicy [] .zero "cognitive_head"
        samplePayload 3 = table ∧
      table.getLatestSnapshotSequence .zero "cognitive_head" = some samplePayload.sequence ∧
      RationaleVault.loadValidSnapshot table 3 .zero "cognitive_head" ≠ .ok (.accepted hashed) := by
  refine ⟨_, _, rfl, rfl, rfl, rfl, ?_⟩
  obtain ⟨reason, hload, _⟩ := (writtenBySqlite_nil.refreshSnapshot defaultPolicy .zero
    "cognitive_head" samplePayload 3).loadValidSnapshot 3 .zero "cognitive_head"
  rw [hload]
  simp [SnapshotValidationResult.rejected, SnapshotValidationResult.accepted]

end SnapshotTable

end RationaleVault
