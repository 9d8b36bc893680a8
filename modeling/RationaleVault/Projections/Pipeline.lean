import RationaleVault.Schema.Factory
import RationaleVault.Schema.Resolver

/-!
# Interpretive contexts and the replay pipeline

A context is built from the governance state and a request; the pipeline
resolves the events of a stream under the context's policy. The policy is
compiled without migration steps, so the pipeline returns the events that are
at their recorded version and refuses every other one.
-/

namespace RationaleVault

inductive Projections.ReplayMode
  | current
  | historical
  | interpretive
  | counterfactual
  deriving DecidableEq

structure ReplayContext where
  maxSequence : Option Int := none
  schemaPolicy : SchemaPolicy := {}

structure ReplayRequest where
  mode : Projections.ReplayMode := .current
  sequence : Option Int := none
  deriving DecidableEq

structure InterpretiveContext where
  governance : GovernanceState
  replayMode : Projections.ReplayMode
  sequence : Option Int
  replayContext : ReplayContext

def InterpretiveContext.toReplayContext (context : InterpretiveContext) : ReplayContext :=
  context.replayContext

namespace InterpretiveContextBuilder

def build (governance : GovernanceState) (request : ReplayRequest) :
    Except Exc InterpretiveContext := do
  if request.mode = .counterfactual then
    throw (.notImplementedError
      "Counterfactual replay mode is not supported in the current epoch.")
  let policy := SchemaPolicyFactory.compile governance
  let maxSeq := if request.mode = .current then none else request.sequence
  let replayContext : ReplayContext := { maxSequence := maxSeq, schemaPolicy := policy }
  return {
    governance := governance
    replayMode := request.mode
    sequence := maxSeq
    replayContext := replayContext }

/-- Every mode that is supported compiles the policy of the whole governance state. -/
theorem build_of_supported (governance : GovernanceState) {request : ReplayRequest}
    (h : request.mode ≠ .counterfactual) :
    build governance request = .ok
      { governance := governance
        replayMode := request.mode
        sequence := if request.mode = .current then none else request.sequence
        replayContext :=
          { maxSequence := if request.mode = .current then none else request.sequence
            schemaPolicy := SchemaPolicyFactory.compile governance } } := by
  simp [build, h, pure, Except.pure]

end InterpretiveContextBuilder

/-- Resolves the events of a stream, up to the sequence limit of its context. -/
structure ReplayPipeline where
  context : ReplayContext
  registry : UpcasterRegistry

namespace ReplayPipeline

/-- `ReplayPipeline(context, registry)`. -/
def make (context : Option ReplayContext) (registry : Option UpcasterRegistry) : ReplayPipeline :=
  ⟨context.getD {}, registry.getD UpcasterRegistry.default⟩

def resolver (pipeline : ReplayPipeline) : ReplayResolver :=
  ⟨pipeline.context.schemaPolicy, pipeline.registry⟩

/-- The event lies behind the sequence limit. -/
def isBeyond (pipeline : ReplayPipeline) (event : EventRecord) : Bool :=
  match pipeline.context.maxSequence with
  | none => false
  | some limit => limit < event.eventSequence

def process (pipeline : ReplayPipeline) :
    List EventRecord → Except UnknownSchemaError (List EventRecord)
  | [] => return []
  | event :: rest =>
      if pipeline.isBeyond event then return []
      else do
        let resolvedEvent ← pipeline.resolver.resolve event
        return resolvedEvent :: (← process pipeline rest)

/-- `run(reducer, events)`. -/
def run {ρ : Type} (pipeline : ReplayPipeline) (reducer : List EventRecord → ρ)
    (events : Option (List EventRecord)) : Except UnknownSchemaError ρ :=
  (pipeline.process (events.getD [])).map reducer

/-- Without a limit every event of the stream is resolved, or the replay is refused. -/
theorem process_eq_ok_iff {pipeline : ReplayPipeline} (h : pipeline.context.maxSequence = none)
    (events result : List EventRecord) :
    pipeline.process events = .ok result ↔
      List.Forall₂ (fun e e' => pipeline.resolver.resolve e = .ok e') events result := by
  have hbeyond : ∀ event, pipeline.isBeyond event = false := by
    intro event
    rw [isBeyond, h]
  induction events generalizing result with
  | nil => rw [process, Except.pure_eq_ok_iff, List.forall₂_nil_left_iff, eq_comm]
  | cons e rest ih =>
      rw [process, hbeyond e, if_neg Bool.false_ne_true, List.forall₂_cons_left_iff,
        Except.bind_eq_ok_iff]
      constructor
      · rintro ⟨e', he', hrest⟩
        obtain ⟨rest', hrest', heq⟩ := Except.bind_eq_ok_iff.mp hrest
        exact ⟨e', rest', he', (ih rest').mp hrest', (Except.pure_eq_ok_iff.mp heq).symm⟩
      · rintro ⟨e', rest', he', hrest', rfl⟩
        exact ⟨e', he', Except.bind_eq_ok_iff.mpr ⟨rest', (ih rest').mpr hrest', rfl⟩⟩

/-- An event within the limit is resolved. -/
theorem process_singleton {pipeline : ReplayPipeline} {event : EventRecord}
    (h : pipeline.isBeyond event = false) :
    pipeline.process [event] = (pipeline.resolver.resolve event).map fun e => [e] := by
  simp only [process, h, Bool.false_eq_true, if_false]
  cases pipeline.resolver.resolve event with
  | error e => rfl
  | ok e => rfl

end ReplayPipeline

/-- A compiled policy resolves exactly the events at their recorded version, as they are. -/
theorem resolve_compile (governance : GovernanceState) (registry : UpcasterRegistry)
    (event : EventRecord) :
    ReplayResolver.resolve ⟨SchemaPolicyFactory.compile governance, registry⟩ event =
      if (SchemaPolicyFactory.compile governance).isCurrent event then .ok event
      else .error (.noPath event.eventType event.schemaVersion event.eventSequence
        ((SchemaPolicyFactory.compile governance).latestVersion event.eventType)) := by
  cases hcurrent : (SchemaPolicyFactory.compile governance).isCurrent event with
  | true =>
      rw [if_pos rfl]
      exact ReplayResolver.resolve_of_isCurrent hcurrent
  | false =>
      have hresolve : (SchemaPolicyFactory.compile governance).canResolve event = false := by
        simp [SchemaPolicy.canResolve, hcurrent, SchemaPolicyFactory.migrationPath_compile,
          MigrationPath.exists]
      rw [if_neg Bool.false_ne_true]
      exact ReplayResolver.resolve_of_not_canResolve hcurrent hresolve

/-! ## Events under a governance migration -/

/-- The payload after the upcasters for the versions from `first` up to `last`, in order. -/
def UpcasterRegistry.upcastRange (registry : UpcasterRegistry) (eventType : EventType)
    (first last : Int) (payload : JsonObj) : JsonObj :=
  (List.range (last - first).toNat).foldl (fun p (i : Nat) =>
    match registry.getUpcaster eventType (first + i) with
    | some upcaster => upcaster p
    | none => p) payload

/-- The pipeline of the current interpretation takes the event to the version that the
governance events record for its type. -/
def MigrationReadable (governance : List EventRecord) (registry : UpcasterRegistry)
    (request : ReplayRequest) (event : EventRecord) : Prop :=
  ∀ state version effective own, GovernanceProjection.project governance = .ok state →
    state.schemaVersions.get? (.str event.eventType.value) = some (version, effective) →
    event.schemaVersion = .int own →
    (∀ v, own ≤ v → v < version → registry.isRegistered event.eventType v = true) →
    ∃ context, InterpretiveContextBuilder.build state request = .ok context ∧
      (ReplayPipeline.make (some context.toReplayContext) (some registry)).process [event] =
        .ok [{ event with
          payload := registry.upcastRange event.eventType own version event.payload
          schemaVersion := .int version }]

theorem migrationReadable_iff {governance : List EventRecord} {state : GovernanceState}
    {registry : UpcasterRegistry} {request : ReplayRequest} {event : EventRecord}
    {version own : Int} {effective : Json}
    (hproject : GovernanceProjection.project governance = .ok state)
    (hrecorded : state.schemaVersions.get? (.str event.eventType.value) =
      some (version, effective))
    (hown : event.schemaVersion = .int own) (hmode : request.mode = .current)
    (hregistered : ∀ v, own ≤ v → v < version →
      registry.isRegistered event.eventType v = true) :
    MigrationReadable governance registry request event ↔ own = version := by
  have hsupported : request.mode ≠ .counterfactual := by simp [hmode]
  have hlatest : (SchemaPolicyFactory.compile state).latestVersion event.eventType = version := by
    rw [SchemaPolicyFactory.latestVersion_compile, hrecorded]
    rfl
  have hcurrent : (SchemaPolicyFactory.compile state).isCurrent event = decide (own = version) := by
    rw [SchemaPolicy.isCurrent, hlatest, hown, Json.eqInt_int]
  -- in the current mode no event lies behind the limit
  have hprocess : ∀ context, InterpretiveContextBuilder.build state request = .ok context →
      (ReplayPipeline.make (some context.toReplayContext) (some registry)).process [event] =
        if own = version then .ok [event]
        else .error (.noPath event.eventType event.schemaVersion event.eventSequence version) := by
    intro context hcontext
    rw [InterpretiveContextBuilder.build_of_supported state hsupported] at hcontext
    cases hcontext
    have hbeyond : (ReplayPipeline.make
        (some { maxSequence := if request.mode = .current then none else request.sequence
                schemaPolicy := SchemaPolicyFactory.compile state })
        (some registry)).isBeyond event = false := by
      simp [ReplayPipeline.isBeyond, ReplayPipeline.make, hmode]
    rw [InterpretiveContext.toReplayContext, ReplayPipeline.process_singleton hbeyond]
    have hresolve := resolve_compile state registry event
    rw [hcurrent, hlatest] at hresolve
    rw [ReplayPipeline.resolver, ReplayPipeline.make]
    dsimp only [Option.getD_some]
    rw [hresolve]
    by_cases hv : own = version <;> simp [hv, Except.map]
  constructor
  · intro hreadable
    obtain ⟨context, hcontext, hok⟩ :=
      hreadable state version effective own hproject hrecorded hown hregistered
    rw [hprocess context hcontext] at hok
    by_contra hne
    rw [if_neg hne] at hok
    cases hok
  · rintro rfl state' version' effective' own' hproject' hrecorded' hown' -
    obtain rfl := Except.ok.inj (hproject.symm.trans hproject')
    obtain ⟨rfl, rfl⟩ := Prod.mk.inj (Option.some.inj (hrecorded.symm.trans hrecorded'))
    obtain rfl : own = own' := by
      have hint := hown.symm.trans hown'
      injection hint with hatom
      injection hatom
    refine ⟨_, InterpretiveContextBuilder.build_of_supported state hsupported, ?_⟩
    rw [hprocess _ (InterpretiveContextBuilder.build_of_supported state hsupported), if_pos rfl]
    have hsame : registry.upcastRange event.eventType own own event.payload = event.payload := by
      simp [UpcasterRegistry.upcastRange]
    rw [hsame, ← hown]

/-- A decision that tasks are migrated to version 2. -/
def taskMigration : List EventRecord :=
  [GovernanceProjection.decisionEvent 10 "SCHEMA" "MIGRATION_APPLIED" "TASK_CREATED" (.str "2")]

theorem default_registered_taskCreated (v : Int) (hfirst : 1 ≤ v) (hlast : v < 2) :
    UpcasterRegistry.default.isRegistered .taskCreated v = true := by
  obtain rfl : v = 1 := by omega
  decide

/-- The production upcaster for tasks is registered, and the task of version 1 is refused. -/
theorem migration_refuses_older_task :
    ¬ MigrationReadable taskMigration UpcasterRegistry.default {} ReplayResolver.taskV1 := by
  intro h
  obtain ⟨context, hcontext, hok⟩ := h _ 2 _ 1 rfl rfl rfl default_registered_taskCreated
  cases hcontext
  cases hok

theorem migration_reads_current_task :
    MigrationReadable taskMigration UpcasterRegistry.default {}
      { ReplayResolver.taskV1 with schemaVersion := .int 2 } := by
  have hrefine : MigrationReadable taskMigration UpcasterRegistry.default {}
      { ReplayResolver.taskV1 with schemaVersion := .int 2 } ↔ (2 : Int) = 2 :=
    migrationReadable_iff rfl rfl rfl rfl fun v hfirst hlast =>
      absurd (hfirst.trans_lt hlast) (by decide)
  exact hrefine.mpr rfl

end RationaleVault
