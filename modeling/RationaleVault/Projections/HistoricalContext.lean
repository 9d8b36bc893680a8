import RationaleVault.Projections.Pipeline

/-!
# Historical contexts

A historical context limits the events it reads, but its policy is compiled
from the whole governance state. It is the policy of its time exactly when
every version recorded later is the default one, and later decisions leave it
alone exactly when they leave every recorded version as it was.
-/

namespace RationaleVault

open GovernanceProjection

/-- A historical request at a sequence. -/
def historicalAt (s : Int) : ReplayRequest := { mode := .historical, sequence := some s }

/-- The historical context has the latest versions of the policy compiled for its sequence. -/
def PolicyOfItsTime (governance : GovernanceState) (s : Int) : Prop :=
  ∀ context policy, InterpretiveContextBuilder.build governance (historicalAt s) = .ok context →
    SchemaPolicyFactory.compileAtSequence governance s = .ok policy →
    ∀ eventType, context.toReplayContext.schemaPolicy.latestVersion eventType =
      policy.latestVersion eventType

/-- The historical contexts of two governance states resolve every event alike. -/
def ResolveAlike (s : Int) (state state' : GovernanceState) : Prop :=
  ∀ context context', InterpretiveContextBuilder.build state (historicalAt s) = .ok context →
    InterpretiveContextBuilder.build state' (historicalAt s) = .ok context' →
    ∀ registry event,
      (ReplayPipeline.make (some context.toReplayContext) (some registry)).resolver.resolve event =
        (ReplayPipeline.make (some context'.toReplayContext) (some registry)).resolver.resolve event

/-- Every decision among the events takes effect after the sequence. -/
def TakesEffectAfter (s : Int) (events : List EventRecord) : Prop :=
  ∀ event ∈ events, ∀ record, decision event = some record →
    (effectiveSeq record event).gtInt s = .ok true

/-- The version that the last migration of the type sets, in sequence order; 1 without one. -/
def migratedVersion (eventType : EventType) (events : List EventRecord) : Int :=
  schemaView (LastWrite.final (writes (schemaWrite eventType.value) events))

theorem build_historicalAt (governance : GovernanceState) (s : Int) :
    InterpretiveContextBuilder.build governance (historicalAt s) = .ok
      { governance := governance
        replayMode := .historical
        sequence := some s
        replayContext :=
          { maxSequence := some s, schemaPolicy := SchemaPolicyFactory.compile governance } } :=
  InterpretiveContextBuilder.build_of_supported governance (by simp [historicalAt])

theorem policyOfItsTime_iff {governance : GovernanceState} {s : Int} {policy : SchemaPolicy}
    (hpolicy : SchemaPolicyFactory.compileAtSequence governance s = .ok policy) :
    PolicyOfItsTime governance s ↔ ∀ (eventType : EventType) (version : Int) (effective : Json),
      governance.schemaVersions.get? (.str eventType.value) = some (version, effective) →
      SchemaPolicyFactory.inForce s (version, effective) = true ∨ version = 1 := by
  have hversions : PolicyOfItsTime governance s ↔ ∀ eventType : EventType,
      schemaView (governance.schemaVersions.get? (.str eventType.value)) =
        schemaView ((governance.schemaVersions.get? (.str eventType.value)).filter
          (SchemaPolicyFactory.inForce s)) := by
    constructor
    · intro h eventType
      have hsame := h _ policy (build_historicalAt governance s) hpolicy eventType
      rw [SchemaPolicyFactory.latestVersion_compileAtSequence hpolicy] at hsame
      rw [← hsame]
      exact (SchemaPolicyFactory.latestVersion_compile governance eventType).symm
    · intro h context policy' hcontext hpolicy' eventType
      rw [build_historicalAt] at hcontext
      cases hcontext
      rw [SchemaPolicyFactory.latestVersion_compileAtSequence hpolicy', ← h]
      exact SchemaPolicyFactory.latestVersion_compile governance eventType
  rw [hversions]
  apply forall_congr'
  intro eventType
  cases governance.schemaVersions.get? (.str eventType.value) with
  | none => simp
  | some entry =>
      obtain ⟨version, effective⟩ := entry
      constructor
      · rintro h _ _ ⟨⟩
        cases hforce : SchemaPolicyFactory.inForce s (version, effective) with
        | true => exact Or.inl rfl
        | false =>
            apply Or.inr
            simpa [schemaView, Option.filter, hforce] using h
      · intro h
        obtain hforce | rfl := h version effective rfl
        · simp [Option.filter, hforce]
        · cases hforce : SchemaPolicyFactory.inForce s (1, effective) <;>
            simp [schemaView, Option.filter, hforce]

/-- What a context resolves tells the latest versions of its policy apart. -/
theorem resolveAlike_iff (s : Int) (state state' : GovernanceState) :
    ResolveAlike s state state' ↔ ∀ eventType,
      (SchemaPolicyFactory.compile state).latestVersion eventType =
        (SchemaPolicyFactory.compile state').latestVersion eventType := by
  constructor
  · intro h eventType
    -- an event at the first state's version is returned, so the second state returns it too
    let event : EventRecord :=
      { ReplayResolver.taskV1 with
        eventType := eventType
        schemaVersion := .int ((SchemaPolicyFactory.compile state).latestVersion eventType) }
    have hcurrent : (SchemaPolicyFactory.compile state).isCurrent event = true := by
      simp [SchemaPolicy.isCurrent, event]
    have halike := h _ _ (build_historicalAt state s) (build_historicalAt state' s)
      UpcasterRegistry.default event
    have hresolve := (resolve_compile state UpcasterRegistry.default event).symm.trans
      (halike.trans (resolve_compile state' UpcasterRegistry.default event))
    rw [if_pos hcurrent] at hresolve
    split at hresolve
    · rename_i hcurrent'
      simpa [SchemaPolicy.isCurrent, event] using hcurrent'
    · cases hresolve
  · intro h context context' hcontext hcontext' registry event
    rw [build_historicalAt] at hcontext hcontext'
    cases hcontext
    cases hcontext'
    have hleft := resolve_compile state registry event
    have hright := resolve_compile state' registry event
    simp only [SchemaPolicy.isCurrent, h] at hleft hright
    exact hleft.trans hright.symm

theorem latestVersion_project {events : List EventRecord} {state : GovernanceState}
    (h : project events = .ok state) (eventType : EventType) :
    (SchemaPolicyFactory.compile state).latestVersion eventType =
      migratedVersion eventType events := by
  rw [SchemaPolicyFactory.latestVersion_compile, schemaVersions_project h, migratedVersion]

theorem historical_context_iff {governance : GovernanceState} {s : Int} {policy : SchemaPolicy}
    (hpolicy : SchemaPolicyFactory.compileAtSequence governance s = .ok policy)
    {earlier later : List EventRecord} {state state' : GovernanceState}
    (hearlier : project earlier = .ok state) (hall : project (earlier ++ later) = .ok state') :
    (PolicyOfItsTime governance s ↔ ∀ (eventType : EventType) (version : Int) (effective : Json),
      governance.schemaVersions.get? (.str eventType.value) = some (version, effective) →
      SchemaPolicyFactory.inForce s (version, effective) = true ∨ version = 1) ∧
    (ResolveAlike s state state' ↔ ∀ eventType,
      migratedVersion eventType earlier = migratedVersion eventType (earlier ++ later)) := by
  refine ⟨policyOfItsTime_iff hpolicy, ?_⟩
  rw [resolveAlike_iff]
  simp only [latestVersion_project hearlier, latestVersion_project hall]

/-- The state in which the migration of tasks is recorded. -/
def migratedState : GovernanceState :=
  { schemaVersions := OrdDict.empty.set (.str "TASK_CREATED") (2, .int 10) }

/-- At sequence 5 the migration at 10 lies ahead: the context already uses version 2, and a
task of version 1 is resolved before the decision and refused after it. -/
theorem later_migration_moves_historical_context :
    ¬ PolicyOfItsTime migratedState 5 ∧
    project [] = .ok {} ∧ project ([] ++ taskMigration) = .ok migratedState ∧
    TakesEffectAfter 5 taskMigration ∧ ¬ ResolveAlike 5 {} migratedState := by
  refine ⟨fun h => ?_, rfl, rfl, ?_, fun h => ?_⟩
  · have hversion := h _ _ (build_historicalAt migratedState 5) rfl .taskCreated
    exact absurd hversion (by decide)
  · intro event hevent record hrecord
    rw [taskMigration, List.mem_singleton] at hevent
    subst hevent
    cases hrecord
    decide
  · have halike := h _ _ (build_historicalAt {} 5) (build_historicalAt migratedState 5)
      UpcasterRegistry.default ReplayResolver.taskV1
    cases halike

/-- From sequence 10 on the migration is in force. -/
theorem migration_in_force_keeps_historical_context :
    PolicyOfItsTime migratedState 10 ∧ ResolveAlike 10 migratedState migratedState := by
  have hproject : project taskMigration = .ok migratedState := rfl
  have hiff : (PolicyOfItsTime migratedState 10 ↔ _) ∧
      (ResolveAlike 10 migratedState migratedState ↔ _) :=
    historical_context_iff rfl hproject (by rw [List.append_nil]; exact hproject)
  refine ⟨hiff.1.mpr ?_, hiff.2.mpr fun _ => by rw [List.append_nil]⟩
  intro eventType version effective h
  rw [migratedState, OrdDict.get?_set] at h
  split at h
  · cases h
    exact Or.inl (by decide)
  · cases h

end RationaleVault
