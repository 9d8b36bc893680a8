import RationaleVault.Projections.Registers

/-!
# Asking the governance state for an earlier time

Each name of the governance state is a register that keeps the last decision
about it. A query with a sequence argument compares that one entry with the
sequence; what the entry has replaced is gone. So the answer for an earlier
time is the one of that time exactly when nothing was decided about the name
since, or when the last decision of that time left the name at its default.
-/

namespace RationaleVault.GovernanceProjection

variable {α : Type} {β : Type}

/-- Every record takes effect at the sequence of its own event. -/
def OwnSequence (events : List EventRecord) : Prop :=
  ∀ event ∈ events, ∀ record, decision event = some record →
    (effectiveSeq record event).eqInt event.eventSequence = true

/-- The events with `event_sequence <= s`. -/
def eventsUpTo (s : Int) (events : List EventRecord) : List EventRecord :=
  events.filter fun event => (event.eventSequence : Int) ≤ s

/-- Nothing was decided since `s`, or the last decision up to `s`, if any, leaves the default. -/
def SettledAt (write : EventRecord → Option (Int × Option α)) (view : Option α → β)
    (events : List EventRecord) (s : Int) : Prop :=
  (∀ event ∈ events, (write event).isSome = true → (event.eventSequence : Int) ≤ s) ∨
    view (LastWrite.final (LastWrite.upTo s (writes write events))) = view none

/-- The writes of a register are decisions, timed by their events. -/
def Decides (write : EventRecord → Option (Int × Option α)) (effective : α → Json) : Prop :=
  ∀ event w, write event = some w → w.1 = event.eventSequence ∧
    ∃ record, decision event = some record ∧
      ∀ a, w.2 = some a → effective a = effectiveSeq record event

/-- A register that a decision about its name writes. -/
theorem decides_of_body {write : EventRecord → Option (Int × Option α)} {effective : α → Json}
    {name : String} {body : GovernanceRecord → EventRecord → Option (Int × Option α)}
    (hwrite : ∀ event, write event = match decision event with
      | none => none
      | some record => if record.target = .str name then body record event else none)
    (hbody : ∀ record event w, body record event = some w → w.1 = event.eventSequence ∧
      ∀ a, w.2 = some a → effective a = effectiveSeq record event) :
    Decides write effective := by
  intro event w h
  rw [hwrite] at h
  cases hdecision : decision event with
  | none => simp [hdecision] at h
  | some record =>
      rw [hdecision] at h
      dsimp only at h
      split_ifs at h
      obtain ⟨htime, heffective⟩ := hbody record event w h
      exact ⟨htime, record, rfl, heffective⟩

theorem decides_policyWrite (name : String) :
    Decides (policyWrite name) PolicyValue.effectiveSequence := by
  apply decides_of_body fun _ => rfl
  intro record event w h
  split at h <;> cases h
  · exact ⟨rfl, fun a ha => by cases ha; rfl⟩
  · exact ⟨rfl, fun a ha => by cases ha⟩

theorem decides_schemaWrite (name : String) : Decides (schemaWrite name) Prod.snd := by
  apply decides_of_body fun _ => rfl
  intro record event w h
  split at h <;> cases h
  exact ⟨rfl, fun a ha => by cases ha; rfl⟩

theorem decides_componentWrite (name : String) : Decides (componentWrite name) id := by
  apply decides_of_body fun _ => rfl
  intro record event w h
  split at h <;> cases h
  · exact ⟨rfl, fun a ha => by cases ha; rfl⟩
  · exact ⟨rfl, fun a ha => by cases ha⟩

/-- The sequence is before the effective one. -/
def late (s : Int) (effective : Json) : Bool := (effective.gtInt s).toOption.getD false

section Register

variable {write : EventRecord → Option (Int × Option α)} {effective : α → Json}
  {events : List EventRecord}

theorem exists_event_of_mem_writes {w : Int × Option α} (h : w ∈ writes write events) :
    ∃ event ∈ events, write event = some w := by
  obtain ⟨event, hevent, hw⟩ := List.mem_filterMap.mp h
  exact ⟨event, Table.mem_orderBy.mp hevent, hw⟩

/-- What the register holds is effective from the time it was written. -/
theorem eqInt_of_mem_writes (hdecides : Decides write effective) (hown : OwnSequence events)
    {w : Int × Option α} (hw : w ∈ writes write events) {a : α} (ha : w.2 = some a) :
    (effective a).eqInt w.1 = true := by
  obtain ⟨event, hevent, hwrite⟩ := exists_event_of_mem_writes hw
  obtain ⟨htime, record, hrecord, heffective⟩ := hdecides event w hwrite
  rw [heffective a ha, htime]
  exact hown event hevent record hrecord

theorem exists_eqInt_of_final (hdecides : Decides write effective) (hown : OwnSequence events)
    {a : α} (h : LastWrite.final (writes write events) = some a) :
    ∃ t : Int, (effective a).eqInt t = true := by
  obtain ⟨w, hw, ha⟩ := Option.bind_eq_some_iff.mp h
  exact ⟨w.1, eqInt_of_mem_writes hdecides hown (List.mem_of_getLast? hw) ha⟩

theorem writes_pairwise (hdecides : Decides write effective) (events : List EventRecord) :
    (writes write events).Pairwise fun w w' => w.1 ≤ w'.1 := by
  have hsorted := (Table.ordered_orderBy EventRecord.eventSequence events).sorted
  apply List.Pairwise.filterMap write ?_ hsorted
  intro event event' hle w hw w' hw'
  rw [(hdecides event w hw).1, (hdecides event' w' hw').1]
  exact_mod_cast hle

theorem writes_eventsUpTo (hdecides : Decides write effective) (s : Int)
    (events : List EventRecord) :
    writes write (eventsUpTo s events) = LastWrite.upTo s (writes write events) := by
  rw [writes, eventsUpTo, ← Table.filter_orderBy]
  exact LastWrite.filterMap_filter (fun event w hw => (hdecides event w hw).1) s _

/-- The register read with a sequence against the register of that time. -/
theorem read_writes_iff (hdecides : Decides write effective) (hown : OwnSequence events) (s : Int)
    (view : Option α → β) :
    view ((LastWrite.final (writes write events)).filter fun a => !late s (effective a)) =
        view (LastWrite.final (writes write (eventsUpTo s events))) ↔
      SettledAt write view events s := by
  rw [writes_eventsUpTo hdecides, LastWrite.read_eq_iff (writes_pairwise hdecides events)]
  · apply or_congr_left
    constructor
    · intro h event hevent hwrite
      obtain ⟨w, hw⟩ := Option.isSome_iff_exists.mp hwrite
      rw [← (hdecides event w hw).1]
      exact h w (List.mem_filterMap.mpr ⟨event, Table.mem_orderBy.mpr hevent, hw⟩)
    · intro h w hw
      obtain ⟨event, hevent, hwrite⟩ := exists_event_of_mem_writes hw
      rw [(hdecides event w hwrite).1]
      exact h event hevent (by simp [hwrite])
  · intro w hw a ha
    rw [late, Json.gtInt_of_eqInt (eqInt_of_mem_writes hdecides hown hw ha)]
    rfl

end Register

/-! ## The queries -/

section Queries

variable {state : GovernanceState} {name : String}

theorem isBefore_some {effective : Json} {t : Int} (h : effective.eqInt t = true) (s : Int) :
    GovernanceState.isBefore (some s) effective = .ok (late s effective) := by
  rw [GovernanceState.isBefore, late, Json.gtInt_of_eqInt h]
  rfl

theorem getEffectivePolicy_none :
    state.getEffectivePolicy name none = .ok (policyView (state.policies.get? (.str name))) := by
  unfold GovernanceState.getEffectivePolicy
  cases state.policies.get? (.str name) with
  | none => rfl
  | some policy => rfl

theorem getEffectivePolicy_some
    (h : ∀ a, state.policies.get? (.str name) = some a →
      ∃ t : Int, a.effectiveSequence.eqInt t = true) (s : Int) :
    state.getEffectivePolicy name (some s) = .ok (policyView
      ((state.policies.get? (.str name)).filter fun a => !late s a.effectiveSequence)) := by
  unfold GovernanceState.getEffectivePolicy
  cases hentry : state.policies.get? (.str name) with
  | none => rfl
  | some policy =>
      obtain ⟨t, ht⟩ := h policy hentry
      dsimp only
      rw [isBefore_some ht]
      cases hlate : late s policy.effectiveSequence <;> simp [Except.map, policyView, Option.filter, hlate]

theorem getEffectiveSchemaVersion_none :
    state.getEffectiveSchemaVersion name none =
      .ok (schemaView (state.schemaVersions.get? (.str name))) := by
  unfold GovernanceState.getEffectiveSchemaVersion
  cases state.schemaVersions.get? (.str name) with
  | none => rfl
  | some entry => rfl

theorem getEffectiveSchemaVersion_some
    (h : ∀ a, state.schemaVersions.get? (.str name) = some a →
      ∃ t : Int, a.2.eqInt t = true) (s : Int) :
    state.getEffectiveSchemaVersion name (some s) = .ok (schemaView
      ((state.schemaVersions.get? (.str name)).filter fun a => !late s a.2)) := by
  unfold GovernanceState.getEffectiveSchemaVersion
  cases hentry : state.schemaVersions.get? (.str name) with
  | none => rfl
  | some entry =>
      obtain ⟨t, ht⟩ := h entry hentry
      dsimp only
      rw [isBefore_some ht]
      cases hlate : late s entry.2 <;> simp [Except.map, schemaView, Option.filter, hlate]

/-- `None` equals no integer. -/
theorem eqInt_ne_null {v : Json} {t : Int} (h : v.eqInt t = true) : v ≠ .null := by
  rintro rfl
  simp [Json.eqInt, DictKey.norm, Atom.norm] at h

/-- The query of a disabled component is a comparison of the two sequences. -/
theorem isComponentDisabled_of_get? {effective : Json} {t : Int} (ht : effective.eqInt t = true)
    (hget : state.disabledComponents.get? (.str name) = some effective) (sequence : Option Int) :
    state.isComponentDisabled name sequence =
      (GovernanceState.isBefore sequence effective).map fun before => !before := by
  rw [GovernanceState.isComponentDisabled, hget, Option.getD_some]
  split
  · exact absurd rfl (eqInt_ne_null ht)
  · rfl

theorem isComponentDisabled_of_absent
    (hget : state.disabledComponents.get? (.str name) = none) (sequence : Option Int) :
    state.isComponentDisabled name sequence = .ok false := by
  rw [GovernanceState.isComponentDisabled, hget]
  rfl

theorem isComponentDisabled_none
    (h : ∀ a, state.disabledComponents.get? (.str name) = some a → ∃ t : Int, a.eqInt t = true) :
    state.isComponentDisabled name none =
      .ok (componentView (state.disabledComponents.get? (.str name))) := by
  cases hentry : state.disabledComponents.get? (.str name) with
  | none => exact isComponentDisabled_of_absent hentry none
  | some effective =>
      obtain ⟨t, ht⟩ := h effective hentry
      exact isComponentDisabled_of_get? ht hentry none

theorem isComponentDisabled_some
    (h : ∀ a, state.disabledComponents.get? (.str name) = some a → ∃ t : Int, a.eqInt t = true)
    (s : Int) :
    state.isComponentDisabled name (some s) = .ok (componentView
      ((state.disabledComponents.get? (.str name)).filter fun a => !late s a)) := by
  cases hentry : state.disabledComponents.get? (.str name) with
  | none => exact isComponentDisabled_of_absent hentry (some s)
  | some effective =>
      obtain ⟨t, ht⟩ := h effective hentry
      rw [isComponentDisabled_of_get? ht hentry, isBefore_some ht]
      cases hlate : late s effective <;> simp [Except.map, componentView, Option.filter, hlate]

end Queries

/-! ## Time travel -/

/-- The queries with sequence `s` on the state of all events answer as the queries without a
sequence on the state of the events up to `s`. -/
def AnswersAsOf (s : Int) (name : String) (events : List EventRecord) : Prop :=
  ∀ state past, project events = .ok state → project (eventsUpTo s events) = .ok past →
    state.getEffectiveSchemaVersion name (some s) = past.getEffectiveSchemaVersion name none ∧
    state.getEffectivePolicy name (some s) = past.getEffectivePolicy name none ∧
    state.isComponentDisabled name (some s) = past.isComponentDisabled name none

/-- The events of an earlier time are projected first. -/
theorem exists_project_eventsUpTo {events : List EventRecord} {state : GovernanceState}
    (h : project events = .ok state) (s : Int) :
    ∃ past, project (eventsUpTo s events) = .ok past := by
  have hprefix : Table.orderBy EventRecord.eventSequence (eventsUpTo s events) <+:
      Table.orderBy EventRecord.eventSequence events := by
    rw [eventsUpTo, ← Table.filter_orderBy]
    exact Table.filter_isPrefix (Table.ordered_orderBy EventRecord.eventSequence events).sorted
      fun a b hab hb => by
        simp only [decide_eq_true_eq] at hb ⊢
        exact (Int.ofNat_le.mpr hab).trans hb
  obtain ⟨rest, hrest⟩ := hprefix
  rw [project, ← hrest, List.foldlM_append, Except.bind_eq_ok_iff] at h
  obtain ⟨past, hpast, -⟩ := h
  exact ⟨past, hpast⟩

theorem OwnSequence.eventsUpTo {events : List EventRecord} (h : OwnSequence events) (s : Int) :
    OwnSequence (eventsUpTo s events) :=
  fun event hevent => h event (List.mem_of_mem_filter hevent)

theorem answers_as_of_iff {events : List EventRecord} {state : GovernanceState}
    (hproject : project events = .ok state) (hown : OwnSequence events) (s : Int)
    (name : String) :
    AnswersAsOf s name events ↔
      SettledAt (schemaWrite name) schemaView events s ∧
      SettledAt (policyWrite name) policyView events s ∧
      SettledAt (componentWrite name) componentView events s := by
  obtain ⟨past, hpast⟩ := exists_project_eventsUpTo hproject s
  have hschema := decides_schemaWrite name
  have hpolicy := decides_policyWrite name
  have hcomponent := decides_componentWrite name
  -- each query is a view of the register, and each register is its last write
  have hqueries : AnswersAsOf s name events ↔
      schemaView ((LastWrite.final (writes (schemaWrite name) events)).filter
          fun a => !late s a.2) =
        schemaView (LastWrite.final (writes (schemaWrite name) (eventsUpTo s events))) ∧
      policyView ((LastWrite.final (writes (policyWrite name) events)).filter
          fun a => !late s a.effectiveSequence) =
        policyView (LastWrite.final (writes (policyWrite name) (eventsUpTo s events))) ∧
      componentView ((LastWrite.final (writes (componentWrite name) events)).filter
          fun a => !late s (id a)) =
        componentView (LastWrite.final (writes (componentWrite name) (eventsUpTo s events))) := by
    rw [← schemaVersions_project hproject, ← schemaVersions_project hpast,
      ← policies_project hproject, ← policies_project hpast,
      ← disabledComponents_project hproject, ← disabledComponents_project hpast]
    have hstate : ∀ a, state.schemaVersions.get? (.str name) = some a →
        ∃ t : Int, a.2.eqInt t = true := fun a ha =>
      exists_eqInt_of_final hschema hown (schemaVersions_project hproject name ▸ ha)
    have hpolicies : ∀ a, state.policies.get? (.str name) = some a →
        ∃ t : Int, a.effectiveSequence.eqInt t = true := fun a ha =>
      exists_eqInt_of_final hpolicy hown (policies_project hproject name ▸ ha)
    have hdisabled : ∀ a, state.disabledComponents.get? (.str name) = some a →
        ∃ t : Int, a.eqInt t = true := fun a ha =>
      exists_eqInt_of_final hcomponent hown (disabledComponents_project hproject name ▸ ha)
    have hbefore : ∀ a, past.disabledComponents.get? (.str name) = some a →
        ∃ t : Int, a.eqInt t = true := fun a ha =>
      exists_eqInt_of_final hcomponent (hown.eventsUpTo s)
        (disabledComponents_project hpast name ▸ ha)
    constructor
    · intro h
      have hall := h state past hproject hpast
      rw [getEffectiveSchemaVersion_some hstate, getEffectiveSchemaVersion_none,
        getEffectivePolicy_some hpolicies, getEffectivePolicy_none,
        isComponentDisabled_some hdisabled, isComponentDisabled_none hbefore] at hall
      simpa using hall
    · intro h state' past' hproject' hpast'
      obtain rfl := Except.ok.inj (hproject.symm.trans hproject')
      obtain rfl := Except.ok.inj (hpast.symm.trans hpast')
      rw [getEffectiveSchemaVersion_some hstate, getEffectiveSchemaVersion_none,
        getEffectivePolicy_some hpolicies, getEffectivePolicy_none,
        isComponentDisabled_some hdisabled, isComponentDisabled_none hbefore]
      simpa using h
  rw [hqueries, read_writes_iff hschema hown, read_writes_iff hpolicy hown,
    read_writes_iff hcomponent hown]

/-- Tasks are migrated to version 2 and then to version 3. -/
def twoMigrations : List EventRecord :=
  [decisionEvent 10 "SCHEMA" "MIGRATION_APPLIED" "TASK_CREATED" (.str "2"),
    decisionEvent 20 "SCHEMA" "MIGRATION_APPLIED" "TASK_CREATED" (.str "3")]

theorem ownSequence_twoMigrations : OwnSequence twoMigrations := by
  intro event hevent record hrecord
  simp only [twoMigrations, List.mem_cons, List.not_mem_nil, or_false] at hevent
  obtain rfl | rfl := hevent <;> cases hrecord <;> decide

/-- Between the two migrations the state answers version 1, which was never in force then. -/
theorem migration_hides_earlier_one :
    OwnSequence twoMigrations ∧ ¬ AnswersAsOf 15 "TASK_CREATED" twoMigrations := by
  refine ⟨ownSequence_twoMigrations, fun h => ?_⟩
  have hanswer := (h _ _ rfl rfl).1
  exact absurd hanswer (by decide)

/-- After both of them nothing is hidden. -/
theorem answers_as_of_last_migration : AnswersAsOf 20 "TASK_CREATED" twoMigrations := by
  apply (answers_as_of_iff rfl ownSequence_twoMigrations 20 "TASK_CREATED").mpr
  refine ⟨Or.inl ?_, Or.inl ?_, Or.inl ?_⟩ <;> decide

end RationaleVault.GovernanceProjection
