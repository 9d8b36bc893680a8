import RationaleVault.Schema.Policy

/-!
# Resolution of events to their canonical version

`ReplayResolver` runs the upcasters along the policy's migration path. The
policy's own check of the path stops as soon as the canonical version is
reached, the resolver reads the path to its end. The two agree exactly when
the rest of the path leads back to where the check has stopped.
-/

namespace RationaleVault

/-- Rewrites a payload from one version to the next. -/
abbrev UpcasterCallable := JsonObj → JsonObj

def taskCreatedV1ToV2 : UpcasterCallable := fun payload =>
  let title := payload.getD "title" (.str "")
  let untitled := payload.pop "title"
  let description := untitled.getD "description" (.str "")
  (untitled.pop "description").set "details"
    (.obj [("summary", title), ("body", description)])

def decisionProposedV1ToV2 : UpcasterCallable := fun payload =>
  (payload.setdefault "context" (.str "")).setdefault "category" (.str "general")

instance : DictKey (String × Int) (String × Int) := ⟨id⟩

@[simp] theorem norm_typeVersion (k : String × Int) : DictKey.norm k = k := rfl

/-- Upcasters by event type and source version. -/
structure UpcasterRegistry where
  upcasters : OrdDict (String × Int) UpcasterCallable := .empty

namespace UpcasterRegistry

/-- `UpcasterRegistry(upcasters)`. -/
def make (upcasters : List (String × List (Int × UpcasterCallable))) : UpcasterRegistry :=
  ⟨upcasters.foldl (fun d m => m.2.foldl (fun d e => d.set (m.1, e.1) e.2) d) .empty⟩

/-- `UpcasterRegistry.default()`. -/
def default : UpcasterRegistry :=
  make [("TASK_CREATED", [(1, taskCreatedV1ToV2)]),
    ("DECISION_PROPOSED", [(1, decisionProposedV1ToV2)])]

def register (registry : UpcasterRegistry) (eventType : EventType) (sourceVersion : Int)
    (upcaster : UpcasterCallable) : UpcasterRegistry :=
  ⟨registry.upcasters.set (eventType.value, sourceVersion) upcaster⟩

def isRegistered (registry : UpcasterRegistry) (eventType : EventType) (version : Int) : Bool :=
  registry.upcasters.contains (eventType.value, version)

def getUpcaster (registry : UpcasterRegistry) (eventType : EventType) (sourceVersion : Int) :
    Option UpcasterCallable :=
  registry.upcasters.get? (eventType.value, sourceVersion)

theorem isRegistered_eq (registry : UpcasterRegistry) (eventType : EventType) (version : Int) :
    registry.isRegistered eventType version = (registry.getUpcaster eventType version).isSome := rfl

end UpcasterRegistry

/-- `UnknownSchemaError`, with the values its message names. -/
inductive UnknownSchemaError
  | noPath (eventType : EventType) (schemaVersion : Json) (eventSequence : Nat) (latest : Int)
  | noUpcaster (eventType : EventType) (fromVersion toVersion : Int) (eventSequence : Nat)
  deriving DecidableEq

/-- The message; `str` prints a version. -/
def UnknownSchemaError.message (str : Json → String) : UnknownSchemaError → String
  | noPath eventType schemaVersion eventSequence latest =>
      "Cannot resolve event type '" ++ eventType.value ++ "' at schema_version=" ++
        str schemaVersion ++ " (seq=" ++ toString eventSequence ++
        "): no migration path to canonical version " ++ toString latest ++ "."
  | noUpcaster eventType fromVersion toVersion eventSequence =>
      "No upcaster registered for event type '" ++ eventType.value ++ "' from version " ++
        toString fromVersion ++ " to " ++ toString toVersion ++
        " (seq=" ++ toString eventSequence ++ ")."

/-- Executes a policy with the registered upcasters. -/
structure ReplayResolver where
  policy : SchemaPolicy
  registry : UpcasterRegistry

namespace ReplayResolver

/-- One step of the path on the payload and the version reached so far. -/
def resolveStep (registry : UpcasterRegistry) (event : EventRecord) (state : JsonObj × Json)
    (step : MigrationStep) : Except UnknownSchemaError (JsonObj × Json) :=
  if state.2.eqInt step.fromVersion then
    match registry.getUpcaster event.eventType step.fromVersion with
    | none =>
        .error (.noUpcaster event.eventType step.fromVersion step.toVersion event.eventSequence)
    | some upcaster => .ok (upcaster state.1, .int step.toVersion)
  else .ok state

def resolve (resolver : ReplayResolver) (event : EventRecord) :
    Except UnknownSchemaError EventRecord := do
  if resolver.policy.isCurrent event then return event
  if !resolver.policy.canResolve event then
    throw (.noPath event.eventType event.schemaVersion event.eventSequence
      (resolver.policy.latestVersion event.eventType))
  let path := resolver.policy.migrationPath event.eventType
  let (payload, version) ←
    path.steps.foldlM (resolveStep resolver.registry event) (event.payload, event.schemaVersion)
  return { event with payload := payload, schemaVersion := version }

variable {registry : UpcasterRegistry} {resolver : ReplayResolver} {event : EventRecord}

/-- The version after a successful walk does not depend on the upcasters. -/
theorem resolveSteps_version {steps : List MigrationStep} {state result : JsonObj × Json}
    (h : steps.foldlM (resolveStep registry event) state = .ok result) :
    result.2 = MigrationPath.walk steps state.2 := by
  induction steps generalizing state with
  | nil =>
      rw [List.foldlM_nil, Except.pure_eq_ok_iff] at h
      rw [← h]
      rfl
  | cons step rest ih =>
      rw [List.foldlM_cons, Except.bind_eq_ok_iff] at h
      obtain ⟨next, hnext, hrest⟩ := h
      have hadvance : next.2 = MigrationStep.advance state.2 step := by
        unfold resolveStep at hnext
        rw [MigrationStep.advance]
        split at hnext
        · rename_i hfrom
          rw [if_pos hfrom]
          cases hget : registry.getUpcaster event.eventType step.fromVersion with
          | none => rw [hget] at hnext; cases hnext
          | some upcaster =>
              rw [hget] at hnext
              cases hnext
              rfl
        · rename_i hfrom
          rw [if_neg hfrom]
          cases hnext
          rfl
      rw [ih hrest, hadvance]
      rfl

/-- The walk succeeds exactly when every step it takes has an upcaster. -/
theorem resolveSteps_ok_iff (steps : List MigrationStep) (state : JsonObj × Json) :
    (∃ result, steps.foldlM (resolveStep registry event) state = .ok result) ↔
      ∀ step ∈ MigrationPath.taken steps state.2,
        registry.isRegistered event.eventType step.fromVersion = true := by
  induction steps generalizing state with
  | nil => exact ⟨by simp [MigrationPath.taken], fun _ => ⟨state, rfl⟩⟩
  | cons step rest ih =>
      rw [List.foldlM_cons, MigrationPath.taken, resolveStep]
      by_cases hfrom : state.2.eqInt step.fromVersion = true
      · rw [if_pos hfrom, if_pos hfrom, List.forall_mem_cons, UpcasterRegistry.isRegistered_eq]
        cases hget : registry.getUpcaster event.eventType step.fromVersion with
        | none => simp
        | some upcaster => simpa using ih (upcaster state.1, .int step.toVersion)
      · rw [if_neg hfrom, if_neg hfrom]
        exact ih state

theorem resolve_of_isCurrent (h : resolver.policy.isCurrent event = true) :
    resolver.resolve event = .ok event := by
  simp [resolve, h, pure, Except.pure]

theorem resolve_of_not_canResolve (hcurrent : resolver.policy.isCurrent event = false)
    (h : resolver.policy.canResolve event = false) :
    resolver.resolve event = .error (.noPath event.eventType event.schemaVersion
      event.eventSequence (resolver.policy.latestVersion event.eventType)) := by
  simp [resolve, hcurrent, h, throw, throwThe, MonadExceptOf.throw, bind, Except.bind]

/-- Resolving an outdated event is walking the whole path. -/
theorem resolve_of_canResolve (hcurrent : resolver.policy.isCurrent event = false)
    (h : resolver.policy.canResolve event = true) :
    resolver.resolve event =
      ((resolver.policy.migrationPath event.eventType).steps.foldlM
        (resolveStep resolver.registry event) (event.payload, event.schemaVersion)).map
        fun result => { event with payload := result.1, schemaVersion := result.2 } := by
  simp only [resolve, hcurrent, h, Bool.false_eq_true, if_false, Bool.not_true]
  cases (resolver.policy.migrationPath event.eventType).steps.foldlM
    (resolveStep resolver.registry event) (event.payload, event.schemaVersion) with
  | error e => rfl
  | ok result => rfl

/-! ## Landing on the canonical version -/

/-- Every step that the walk takes for the event has an upcaster. -/
def StepsRegistered (resolver : ReplayResolver) (event : EventRecord) : Prop :=
  ∀ step ∈ MigrationPath.taken (resolver.policy.migrationPath event.eventType).steps
      event.schemaVersion,
    resolver.registry.isRegistered event.eventType step.fromVersion = true

/-- The steps left when the canonical version is first reached lead back to it. -/
def LeadsBack (resolver : ReplayResolver) (event : EventRecord) : Prop :=
  MigrationPath.walk (resolver.policy.stepsPast event)
      (.int (resolver.policy.latestVersion event.eventType)) =
    .int (resolver.policy.latestVersion event.eventType)

/-- What resolution promises for an event: what it returns is canonical and is returned
unchanged when it is resolved again, and a complete path with all its upcasters never raises. -/
def LandsOnCanonical (resolver : ReplayResolver) (event : EventRecord) : Prop :=
  (∀ e, resolver.resolve event = .ok e →
    e.schemaVersion.eqInt (resolver.policy.latestVersion event.eventType) = true ∧
    resolver.policy.isCurrent e = true ∧ resolver.resolve e = .ok e) ∧
  (resolver.policy.canResolve event = true →
    (∀ step ∈ (resolver.policy.migrationPath event.eventType).steps,
      resolver.registry.isRegistered event.eventType step.fromVersion = true) →
    ∃ e, resolver.resolve event = .ok e)

/-- A path that has no step from the canonical version ends where the check stops. -/
theorem leadsBack_of_final
    (h : ∀ step ∈ (resolver.policy.migrationPath event.eventType).steps,
      step.fromVersion ≠ resolver.policy.latestVersion event.eventType) :
    LeadsBack resolver event := by
  apply MigrationPath.walk_eq_self
  intro step hstep
  have hmem := (Fold.foldUntil_isSuffix _ _ _ _).subset hstep
  simpa using (h step hmem).symm

/-- A path that the policy accepts never raises for want of a path, whatever its shape. -/
theorem exists_resolve (hresolve : resolver.policy.canResolve event = true)
    (hregistered : StepsRegistered resolver event) : ∃ e, resolver.resolve event = .ok e := by
  cases hcurrent : resolver.policy.isCurrent event with
  | true => exact ⟨event, resolve_of_isCurrent hcurrent⟩
  | false =>
      obtain ⟨result, hresult⟩ := (resolveSteps_ok_iff _ (event.payload, event.schemaVersion)).mpr
        hregistered
      rw [resolve_of_canResolve hcurrent hresolve, hresult]
      exact ⟨_, rfl⟩

/-- Where the resolver ends for an outdated event that it resolves. -/
theorem resolve_eq_ok (hcurrent : resolver.policy.isCurrent event = false) {e : EventRecord}
    (h : resolver.resolve event = .ok e) :
    resolver.policy.canResolve event = true ∧ StepsRegistered resolver event ∧
      e.eventType = event.eventType ∧
      e.schemaVersion = MigrationPath.walk (resolver.policy.stepsPast event)
        (.int (resolver.policy.latestVersion event.eventType)) := by
  cases hresolve : resolver.policy.canResolve event with
  | false =>
      rw [resolve_of_not_canResolve hcurrent hresolve] at h
      cases h
  | true =>
      rw [resolve_of_canResolve hcurrent hresolve, Except.map_eq_ok_iff] at h
      obtain ⟨result, hresult, rfl⟩ := h
      refine ⟨rfl, (resolveSteps_ok_iff _ _).mp ⟨result, hresult⟩, rfl, ?_⟩
      rw [← SchemaPolicy.walk_eq_walk_stepsPast hcurrent hresolve]
      exact resolveSteps_version hresult

/-- A step never leaves an integer version for anything but an integer version. -/
theorem walk_int (steps : List MigrationStep) (n : Int) :
    ∃ m : Int, MigrationPath.walk steps (.int n) = .int m := by
  induction steps generalizing n with
  | nil => exact ⟨n, rfl⟩
  | cons step rest ih =>
      rw [MigrationPath.walk, List.foldl_cons, MigrationStep.advance]
      split
      · exact ih step.toVersion
      · exact ih n

theorem resolve_lands_on_canonical_iff (resolver : ReplayResolver) (event : EventRecord) :
    LandsOnCanonical resolver event ↔
      resolver.policy.isCurrent event = true ∨ resolver.policy.canResolve event = false ∨
        ¬ StepsRegistered resolver event ∨ LeadsBack resolver event := by
  have hraise : resolver.policy.canResolve event = true →
      (∀ step ∈ (resolver.policy.migrationPath event.eventType).steps,
        resolver.registry.isRegistered event.eventType step.fromVersion = true) →
      ∃ e, resolver.resolve event = .ok e := fun hresolve hall =>
    exists_resolve hresolve fun step hstep => hall step (MigrationPath.taken_subset _ _ hstep)
  cases hcurrent : resolver.policy.isCurrent event with
  | true =>
      refine iff_of_true ⟨fun e he => ?_, hraise⟩ (Or.inl rfl)
      rw [resolve_of_isCurrent hcurrent, Except.ok.injEq] at he
      subst he
      exact ⟨hcurrent, hcurrent, resolve_of_isCurrent hcurrent⟩
  | false =>
      constructor
      · intro hlands
        by_cases hall : resolver.policy.canResolve event = true ∧ StepsRegistered resolver event
        · obtain ⟨e, he⟩ := exists_resolve hall.1 hall.2
          obtain ⟨-, -, -, hversion⟩ := resolve_eq_ok hcurrent he
          have hcanonical := (hlands.1 e he).1
          obtain ⟨m, hm⟩ := walk_int (resolver.policy.stepsPast event)
            (resolver.policy.latestVersion event.eventType)
          rw [hversion, hm, Json.eqInt_int, decide_eq_true_iff] at hcanonical
          refine Or.inr (Or.inr (Or.inr ?_))
          rw [LeadsBack, hm, hcanonical]
        · rw [not_and_or, Bool.not_eq_true] at hall
          exact Or.inr (hall.imp_right Or.inl)
      · intro hcond
        refine ⟨fun e he => ?_, hraise⟩
        obtain ⟨hresolve, hregistered, htype, hversion⟩ := resolve_eq_ok hcurrent he
        have hback : LeadsBack resolver event := by
          obtain h | h | h | h := hcond
          · cases h
          · rw [hresolve] at h
            cases h
          · exact absurd hregistered h
          · exact h
        have hlatest : e.schemaVersion.eqInt
            (resolver.policy.latestVersion event.eventType) = true := by
          rw [hversion, hback]
          simp
        have hnow : resolver.policy.isCurrent e = true := by
          rw [SchemaPolicy.isCurrent, htype, hlatest]
        exact ⟨hlatest, hnow, resolve_of_isCurrent hnow⟩

/-- Version 2 of a task is canonical, and the path goes on to version 3. -/
def overlongPolicy : SchemaPolicy :=
  ⟨OrdDict.empty.set .taskCreated ⟨.taskCreated, 2, ⟨[⟨1, 2⟩, ⟨2, 3⟩]⟩⟩⟩

/-- The production upcasters and one for the second step. -/
def overlongRegistry : UpcasterRegistry :=
  UpcasterRegistry.default.register .taskCreated 2 id

def taskV1 : EventRecord where
  eventSequence := 1
  id := UUID.zero
  projectId := UUID.zero
  streamId := "test"
  version := 1
  eventType := .taskCreated
  metadata := ⟨"test", "test", "", ""⟩
  payload := [("title", .str "Write docs")]
  parentId := none
  recordedAt := none
  schemaVersion := .int 1

/-- The task is taken to version 3. -/
theorem overlong_path_misses_canonical :
    ¬ LandsOnCanonical ⟨overlongPolicy, overlongRegistry⟩ taskV1 := by
  intro h
  have hmissed := (h.1 _ rfl).1
  exact absurd hmissed (by decide)

end ReplayResolver

end RationaleVault
