import RationaleVault.Projections.Governance

/-!
# Governance decisions as writes of registers

Each name of the governance state is a register: a decision about the name
overwrites or clears it, and the state keeps the last one in sequence order.
-/

namespace RationaleVault.GovernanceProjection

/-! ## The decisions about one name -/

/-- What a policy decision writes at its target. -/
def policyWrite (name : String) (event : EventRecord) : Option (Int × Option PolicyValue) :=
  match decision event with
  | none => none
  | some record =>
      if record.target = .str name then
        match record.domain, record.action with
        | .policy, .adjusted =>
            some (event.eventSequence, some ⟨record.newVersion, effectiveSeq record event⟩)
        | .policy, .disabled => some (event.eventSequence, none)
        | _, _ => none
      else none

/-- What a schema decision writes at its target; it is never taken back. -/
def schemaWrite (name : String) (event : EventRecord) : Option (Int × Option (Int × Json)) :=
  match decision event with
  | none => none
  | some record =>
      if record.target = .str name then
        match record.domain, record.action, record.newVersion.truthy, record.newVersion.toInt with
        | .schema, .migrationApplied, true, .ok version =>
            some (event.eventSequence, some (version, effectiveSeq record event))
        | _, _, _, _ => none
      else none

/-- What a component decision writes at its target. -/
def componentWrite (name : String) (event : EventRecord) : Option (Int × Option Json) :=
  match decision event with
  | none => none
  | some record =>
      if record.target = .str name then
        match record.domain, record.action with
        | .projection, .disabled => some (event.eventSequence, some (effectiveSeq record event))
        | .projection, .adjusted => some (event.eventSequence, none)
        | _, _ => none
      else none

/-! What the queries show of an entry. -/

def policyView (entry : Option PolicyValue) : Json := (entry.map PolicyValue.value).getD .null

def schemaView (entry : Option (Int × Json)) : Int := (entry.map Prod.fst).getD 1

def componentView (entry : Option Json) : Bool := entry.isSome

/-! ## One step -/

section Step

variable {state state' : GovernanceState} {record : GovernanceRecord} {effective : Json}

theorem get?_set_hash {ν : Type} {d : OrdDict Atom ν} {target : Json} {key : Atom}
    (h : target.hash = .ok key) (x : ν) (name : String) :
    (d.set key x).get? (.str name) =
      if target = .str name then some x else d.get? (.str name) := by
  simp only [OrdDict.get?_set, Json.norm_eq_str_iff h]

theorem get?_popTarget {ν : Type} {d d' : OrdDict Atom ν} {target : Json}
    (h : popTarget d target = .ok d') (name : String) :
    d'.get? (.str name) = if target = .str name then none else d.get? (.str name) := by
  unfold popTarget at h
  split at h
  · rename_i hempty
    cases h
    have hnone : d.get? (.str name) = none := by
      rw [OrdDict.get?, List.isEmpty_iff.mp hempty]
      rfl
    rw [hnone, ite_self]
  · obtain ⟨key, hkey, rfl⟩ := Except.map_eq_ok_iff.mp h
    simp only [OrdDict.get?_erase, Json.norm_eq_str_iff hkey]

/-- Everything a record can do to a state. -/
inductive Applied (state : GovernanceState) (record : GovernanceRecord) (effective : Json) :
    GovernanceState → Prop
  | policyAdjusted {key : Atom} (hdomain : record.domain = .policy)
      (haction : record.action = .adjusted) (hkey : record.target.hash = .ok key) :
      Applied state record effective
        { state with policies := state.policies.set key ⟨record.newVersion, effective⟩ }
  | policyDisabled {d : OrdDict Atom PolicyValue} (hdomain : record.domain = .policy)
      (haction : record.action = .disabled)
      (hpop : popTarget state.policies record.target = .ok d) :
      Applied state record effective { state with policies := d }
  | topologyChanged (hdomain : record.domain = .projection)
      (haction : record.action = .topologyChanged) :
      Applied state record effective
        { state with
          projectionTopology := record.target
          topologyEffectiveSequence := effective }
  | componentDisabled {key : Atom} (hdomain : record.domain = .projection)
      (haction : record.action = .disabled) (hkey : record.target.hash = .ok key) :
      Applied state record effective
        { state with disabledComponents := state.disabledComponents.set key effective }
  | componentEnabled {d : OrdDict Atom Json} (hdomain : record.domain = .projection)
      (haction : record.action = .adjusted)
      (hpop : popTarget state.disabledComponents record.target = .ok d) :
      Applied state record effective { state with disabledComponents := d }
  | migrated {version : Int} {key : Atom} (hdomain : record.domain = .schema)
      (haction : record.action = .migrationApplied) (htruthy : record.newVersion.truthy = true)
      (hversion : record.newVersion.toInt = .ok version) (hkey : record.target.hash = .ok key) :
      Applied state record effective
        { state with schemaVersions := state.schemaVersions.set key (version, effective) }
  | unversioned (hdomain : record.domain = .schema) (haction : record.action = .migrationApplied)
      (hfalsy : record.newVersion.truthy = false) : Applied state record effective state
  | idle (hpolicy : record.domain = .policy →
        record.action ≠ .adjusted ∧ record.action ≠ .disabled)
      (hprojection : record.domain = .projection → record.action ≠ .topologyChanged ∧
        record.action ≠ .disabled ∧ record.action ≠ .adjusted)
      (hschema : record.domain = .schema → record.action ≠ .migrationApplied) :
      Applied state record effective state

theorem applied_of_applyRecord (h : applyRecord state record effective = .ok state') :
    Applied state record effective state' := by
  unfold applyRecord at h
  split at h
  case h_1 hdomain haction =>
    obtain ⟨key, hkey, h⟩ := Except.bind_eq_ok_iff.mp h
    cases h
    exact .policyAdjusted hdomain haction hkey
  case h_2 hdomain haction =>
    obtain ⟨d, hpop, h⟩ := Except.bind_eq_ok_iff.mp h
    cases h
    exact .policyDisabled hdomain haction hpop
  case h_3 hdomain haction =>
    cases h
    exact .topologyChanged hdomain haction
  case h_4 hdomain haction =>
    obtain ⟨key, hkey, h⟩ := Except.bind_eq_ok_iff.mp h
    cases h
    exact .componentDisabled hdomain haction hkey
  case h_5 hdomain haction =>
    obtain ⟨d, hpop, h⟩ := Except.bind_eq_ok_iff.mp h
    cases h
    exact .componentEnabled hdomain haction hpop
  case h_6 hdomain haction =>
    split at h
    · rename_i htruthy
      obtain ⟨version, hversion, h⟩ := Except.bind_eq_ok_iff.mp h
      obtain ⟨key, hkey, h⟩ := Except.bind_eq_ok_iff.mp h
      cases h
      exact .migrated hdomain haction htruthy hversion hkey
    · rename_i hfalsy
      cases h
      exact .unversioned hdomain haction (by simpa using hfalsy)
  case h_7 hadj hdis htop hcomp hen hmig =>
    cases h
    exact .idle (fun hd => ⟨hadj hd, hdis hd⟩) (fun hd => ⟨htop hd, hcomp hd, hen hd⟩) (hmig)

/-- An event that is no decision leaves the state alone. -/
theorem applyEvent_cases {event : EventRecord} (h : applyEvent state event = .ok state') :
    (decision event = none ∧ state' = state) ∨ ∃ record, decision event = some record ∧
      Applied state record (effectiveSeq record event) state' := by
  unfold applyEvent at h
  split at h
  · rename_i hdecision
    exact Or.inl ⟨hdecision, (Except.ok.inj h).symm⟩
  · rename_i record hdecision
    exact Or.inr ⟨record, hdecision, applied_of_applyRecord h⟩

/-! One register after a step: the decision's own write, or what it held before. -/

theorem policies_applyEvent {event : EventRecord} (h : applyEvent state event = .ok state')
    (name : String) :
    state'.policies.get? (.str name) =
      ((policyWrite name event).map Prod.snd).getD (state.policies.get? (.str name)) := by
  obtain ⟨hdecision, rfl⟩ | ⟨record, hdecision, happlied⟩ := applyEvent_cases h
  · simp [policyWrite, hdecision]
  · rw [policyWrite, hdecision]
    by_cases htarget : record.target = .str name
    · cases happlied with
      | policyAdjusted hdomain haction hkey =>
          simp [hdomain, haction, htarget, get?_set_hash hkey]
      | policyDisabled hdomain haction hpop =>
          simp [hdomain, haction, htarget, get?_popTarget hpop]
      | topologyChanged hdomain haction => simp [hdomain, haction]
      | componentDisabled hdomain haction hkey => simp [hdomain, haction]
      | componentEnabled hdomain haction hpop => simp [hdomain, haction]
      | migrated hdomain haction htruthy hversion hkey => simp [hdomain, haction]
      | unversioned hdomain haction hfalsy => simp [hdomain, haction]
      | idle hpolicy hprojection hschema => split <;> simp_all
    · cases happlied with
      | policyAdjusted hdomain haction hkey => simp [htarget, get?_set_hash hkey]
      | policyDisabled hdomain haction hpop => simp [htarget, get?_popTarget hpop]
      | _ => simp [htarget]

theorem schemaVersions_applyEvent {event : EventRecord}
    (h : applyEvent state event = .ok state') (name : String) :
    state'.schemaVersions.get? (.str name) =
      ((schemaWrite name event).map Prod.snd).getD (state.schemaVersions.get? (.str name)) := by
  obtain ⟨hdecision, rfl⟩ | ⟨record, hdecision, happlied⟩ := applyEvent_cases h
  · simp [schemaWrite, hdecision]
  · rw [schemaWrite, hdecision]
    by_cases htarget : record.target = .str name
    · cases happlied with
      | policyAdjusted hdomain haction hkey => simp [hdomain]
      | policyDisabled hdomain haction hpop => simp [hdomain]
      | topologyChanged hdomain haction => simp [hdomain]
      | componentDisabled hdomain haction hkey => simp [hdomain]
      | componentEnabled hdomain haction hpop => simp [hdomain]
      | migrated hdomain haction htruthy hversion hkey =>
          simp [hdomain, haction, htruthy, hversion, htarget, get?_set_hash hkey]
      | unversioned hdomain haction hfalsy => simp [hfalsy]
      | idle hpolicy hprojection hschema => split <;> simp_all
    · cases happlied with
      | migrated hdomain haction htruthy hversion hkey => simp [htarget, get?_set_hash hkey]
      | _ => simp [htarget]

theorem disabledComponents_applyEvent {event : EventRecord}
    (h : applyEvent state event = .ok state') (name : String) :
    state'.disabledComponents.get? (.str name) =
      ((componentWrite name event).map Prod.snd).getD
        (state.disabledComponents.get? (.str name)) := by
  obtain ⟨hdecision, rfl⟩ | ⟨record, hdecision, happlied⟩ := applyEvent_cases h
  · simp [componentWrite, hdecision]
  · rw [componentWrite, hdecision]
    by_cases htarget : record.target = .str name
    · cases happlied with
      | policyAdjusted hdomain haction hkey => simp [hdomain]
      | policyDisabled hdomain haction hpop => simp [hdomain]
      | topologyChanged hdomain haction => simp [hdomain, haction]
      | componentDisabled hdomain haction hkey =>
          simp [hdomain, haction, htarget, get?_set_hash hkey]
      | componentEnabled hdomain haction hpop =>
          simp [hdomain, haction, htarget, get?_popTarget hpop]
      | migrated hdomain haction htruthy hversion hkey => simp [hdomain]
      | unversioned hdomain haction hfalsy => simp [hdomain]
      | idle hpolicy hprojection hschema => split <;> simp_all
    · cases happlied with
      | componentDisabled hdomain haction hkey => simp [htarget, get?_set_hash hkey]
      | componentEnabled hdomain haction hpop => simp [htarget, get?_popTarget hpop]
      | _ => simp [htarget]

end Step

/-! ## All events -/

variable {events : List EventRecord} {state : GovernanceState}

/-- The writes of a register, in sequence order. -/
def writes {α : Type} (write : EventRecord → Option (Int × Option α))
    (events : List EventRecord) : List (Int × Option α) :=
  (Table.orderBy EventRecord.eventSequence events).filterMap write

theorem policies_project (h : project events = .ok state) (name : String) :
    state.policies.get? (.str name) = LastWrite.final (writes (policyWrite name) events) := by
  rw [← LastWrite.finalFrom_none]
  exact LastWrite.finalFrom_filterMap (fun s => s.policies.get? (.str name))
    (fun _ _ _ hstep => policies_applyEvent hstep name) h

theorem schemaVersions_project (h : project events = .ok state) (name : String) :
    state.schemaVersions.get? (.str name) = LastWrite.final (writes (schemaWrite name) events) := by
  rw [← LastWrite.finalFrom_none]
  exact LastWrite.finalFrom_filterMap (fun s => s.schemaVersions.get? (.str name))
    (fun _ _ _ hstep => schemaVersions_applyEvent hstep name) h

theorem disabledComponents_project (h : project events = .ok state) (name : String) :
    state.disabledComponents.get? (.str name) =
      LastWrite.final (writes (componentWrite name) events) := by
  rw [← LastWrite.finalFrom_none]
  exact LastWrite.finalFrom_filterMap (fun s => s.disabledComponents.get? (.str name))
    (fun _ _ _ hstep => disabledComponents_applyEvent hstep name) h

end RationaleVault.GovernanceProjection
