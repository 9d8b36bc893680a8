import RationaleVault.Projections.Registers
import RationaleVault.Schema.Policy

/-!
# Compiling the schema policy from the governance state

The recorded versions become schemas; a target that is no event type is left
out. The factory knows no migration steps, so every path it makes is empty.
-/

namespace RationaleVault.SchemaPolicyFactory

/-- The schema of one recorded version. -/
def addSchema (schemas : OrdDict EventType EventSchema) (key : Atom) (version : Int) :
    OrdDict EventType EventSchema :=
  match key with
  | .str value =>
      match EventType.ofValue value with
      | some eventType => schemas.set eventType ⟨eventType, version, {}⟩
      | none => schemas
  | _ => schemas

def compile (governanceState : GovernanceState) : SchemaPolicy :=
  ⟨governanceState.schemaVersions.entries.foldl (fun schemas e => addSchema schemas e.1 e.2.1)
    .empty⟩

def compileAtSequence (governanceState : GovernanceState) (sequence : Int) :
    Except Exc SchemaPolicy := do
  let schemas ← governanceState.schemaVersions.entries.foldlM (fun schemas e => do
    if ← e.2.2.leInt sequence then return addSchema schemas e.1 e.2.1
    return schemas) .empty
  return ⟨schemas⟩

/-- Whether a recorded version takes effect by the sequence. -/
def inForce (sequence : Int) (entry : Int × Json) : Bool :=
  (entry.2.leInt sequence).toOption.getD false

theorem get?_addSchema (schemas : OrdDict EventType EventSchema) (key : Atom) (version : Int)
    (eventType : EventType) :
    (addSchema schemas key version).get? eventType =
      if DictKey.norm key = DictKey.norm (Atom.str eventType.value) then
        some ⟨eventType, version, {}⟩
      else schemas.get? eventType := by
  unfold addSchema
  split
  · rename_i value
    rw [Atom.norm_str, Atom.norm_str]
    cases hvalue : EventType.ofValue value with
    | none =>
        have hne : value ≠ eventType.value := fun h => by
          rw [(EventType.ofValue_eq_some_iff value eventType).mpr h] at hvalue
          cases hvalue
        simp [hne]
    | some t =>
        have ht := (EventType.ofValue_eq_some_iff value t).mp hvalue
        by_cases heq : t = eventType
        · subst heq
          simp [ht]
        · have hne : value ≠ eventType.value := fun h =>
            heq (EventType.value_injective (ht.symm.trans h))
          simp [OrdDict.get?_set, heq, hne]
  · rename_i hstr
    have hne : DictKey.norm key ≠ DictKey.norm (Atom.str eventType.value) := fun h =>
      hstr _ (Atom.eq_of_norm_eq_str h)
    rw [if_neg hne]

/-- The schemas made from a list of records with distinct targets. -/
theorem get?_foldl_addSchema {records : List (Atom × Int × Json)}
    (hnodup : (records.map fun e => DictKey.norm e.1).Nodup)
    (schemas : OrdDict EventType EventSchema) (eventType : EventType) :
    (records.foldl (fun schemas e => addSchema schemas e.1 e.2.1) schemas).get? eventType =
      match OrdDict.lookupIn (Atom.str eventType.value) records with
      | some entry => some ⟨eventType, entry.1, {}⟩
      | none => schemas.get? eventType := by
  induction records generalizing schemas with
  | nil => rfl
  | cons e rest ih =>
      rw [List.map_cons, List.nodup_cons] at hnodup
      rw [List.foldl_cons, ih hnodup.2, OrdDict.lookupIn, get?_addSchema]
      by_cases hkey : DictKey.norm e.1 = DictKey.norm (Atom.str eventType.value)
      · rw [OrdDict.lookupIn_eq_none (hkey ▸ hnodup.1), if_pos hkey, if_pos hkey]
      · rw [if_neg hkey, if_neg hkey]

section Compiled

variable {governanceState : GovernanceState}

theorem get?_compile (governanceState : GovernanceState) (eventType : EventType) :
    (compile governanceState).schemas.get? eventType =
      (governanceState.schemaVersions.get? (.str eventType.value)).map
        fun entry => ⟨eventType, entry.1, {}⟩ := by
  rw [compile, get?_foldl_addSchema governanceState.schemaVersions.nodup, ← OrdDict.get?]
  cases governanceState.schemaVersions.get? (.str eventType.value) with
  | none => rfl
  | some entry => rfl

theorem latestVersion_compile (governanceState : GovernanceState) (eventType : EventType) :
    (compile governanceState).latestVersion eventType =
      GovernanceProjection.schemaView
        (governanceState.schemaVersions.get? (.str eventType.value)) := by
  rw [SchemaPolicy.latestVersion, get?_compile, GovernanceProjection.schemaView]
  cases governanceState.schemaVersions.get? (.str eventType.value) with
  | none => rfl
  | some entry => rfl

/-- A compiled policy has no migration steps. -/
theorem migrationPath_compile (governanceState : GovernanceState) (eventType : EventType) :
    (compile governanceState).migrationPath eventType = {} := by
  rw [SchemaPolicy.migrationPath, SchemaPolicy.schema, get?_compile]
  cases governanceState.schemaVersions.get? (.str eventType.value) with
  | none => rfl
  | some entry => rfl

/-- Compiling for a sequence is compiling the versions in force by then. -/
theorem schemas_compileAtSequence {sequence : Int} {policy : SchemaPolicy}
    (h : compileAtSequence governanceState sequence = .ok policy) :
    policy.schemas = (governanceState.schemaVersions.entries.filter
      fun e => inForce sequence e.2).foldl (fun schemas e => addSchema schemas e.1 e.2.1)
        .empty := by
  obtain ⟨schemas, hschemas, h⟩ := Except.bind_eq_ok_iff.mp h
  cases h
  generalize governanceState.schemaVersions.entries = records at hschemas
  generalize (OrdDict.empty : OrdDict EventType EventSchema) = start at hschemas
  induction records generalizing start with
  | nil =>
      rw [List.foldlM_nil, Except.pure_eq_ok_iff] at hschemas
      exact hschemas.symm
  | cons e rest ih =>
      rw [List.foldlM_cons, Except.bind_eq_ok_iff] at hschemas
      obtain ⟨next, hnext, hrest⟩ := hschemas
      obtain ⟨early, hearly, hnext⟩ := Except.bind_eq_ok_iff.mp hnext
      have hforce : inForce sequence e.2 = early := by
        rw [inForce, hearly]
        rfl
      rw [ih next hrest, List.filter_cons, hforce]
      cases early with
      | true =>
          cases hnext
          rfl
      | false =>
          cases hnext
          rfl

theorem latestVersion_compileAtSequence {sequence : Int} {policy : SchemaPolicy}
    (h : compileAtSequence governanceState sequence = .ok policy) (eventType : EventType) :
    policy.latestVersion eventType = GovernanceProjection.schemaView
      ((governanceState.schemaVersions.get? (.str eventType.value)).filter
        (inForce sequence)) := by
  have hnodup : ((governanceState.schemaVersions.entries.filter
      fun e => inForce sequence e.2).map fun e => DictKey.norm e.1).Nodup :=
    governanceState.schemaVersions.nodup.sublist (List.filter_sublist.map _)
  rw [SchemaPolicy.latestVersion, schemas_compileAtSequence h, get?_foldl_addSchema hnodup,
    OrdDict.lookupIn_filter _ _ governanceState.schemaVersions.nodup, ← OrdDict.get?,
    GovernanceProjection.schemaView]
  cases (governanceState.schemaVersions.get? (.str eventType.value)).filter
    (inForce sequence) with
  | none => rfl
  | some entry => rfl

end Compiled

end RationaleVault.SchemaPolicyFactory
