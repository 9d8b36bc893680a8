import Mathlib.Logic.Function.Iterate
import RationaleVault.CognitiveHead.ReducerInvariants
import RationaleVault.Projections.Service

/-!
# Tasks under a migration to version 2

The upcaster of version 1 moves the title and the description of a flat
payload into its details. A stored payload that says nothing of its version
counts as version 1, whatever its shape, so a payload that has details already
is upcast as well: its details are replaced by those of a flat payload.
-/

namespace RationaleVault

/-! ## The upcaster -/

/-- The details the upcaster writes. -/
def upcastDetails (payload : JsonObj) : Json :=
  .obj [("summary", payload.getD "title" (.str "")), ("body", payload.getD "description" (.str ""))]

theorem lookup_taskCreatedV1ToV2 (payload : JsonObj) (k : String) :
    (taskCreatedV1ToV2 payload).lookup k =
      if k = "details" then some (upcastDetails payload)
      else if k = "description" then none
      else if k = "title" then none
      else payload.lookup k := by
  have hdescription : JsonObj.getD (payload.pop "title") "description" (.str "") =
      payload.getD "description" (.str "") := by
    rw [JsonObj.getD, JsonObj.lookup_pop, if_neg (by decide), JsonObj.getD]
  rw [taskCreatedV1ToV2, JsonObj.lookup_set, hdescription, JsonObj.lookup_pop, JsonObj.lookup_pop]
  rfl

/-- A second pass finds neither title nor description. -/
theorem lookup_iterate (payload : JsonObj) (n : Nat) (k : String) :
    (taskCreatedV1ToV2^[n + 1] payload).lookup k =
      if k = "details" then
        some (if n = 0 then upcastDetails payload else upcastDetails [])
      else if k = "description" then none
      else if k = "title" then none
      else payload.lookup k := by
  induction n generalizing k with
  | zero => exact lookup_taskCreatedV1ToV2 payload k
  | succ n ih =>
      have htitle : (taskCreatedV1ToV2^[n + 1] payload).lookup "title" = none := by
        rw [ih, if_neg (by decide), if_neg (by decide), if_pos rfl]
      have hdescription : (taskCreatedV1ToV2^[n + 1] payload).lookup "description" = none := by
        rw [ih, if_neg (by decide), if_pos rfl]
      have hlost : upcastDetails (taskCreatedV1ToV2^[n + 1] payload) = upcastDetails [] := by
        rw [upcastDetails, JsonObj.getD, JsonObj.getD, htitle, hdescription]
        rfl
      rw [Function.iterate_succ_apply', lookup_taskCreatedV1ToV2, hlost, ih,
        if_neg (Nat.succ_ne_zero n)]
      split_ifs <;> rfl

/-! ## The migration path -/

/-- The default registry upcasts tasks from version 1 only. -/
theorem getUpcaster_default (v : Int) :
    UpcasterRegistry.default.getUpcaster .taskCreated v =
      if v = 1 then some taskCreatedV1ToV2 else none := by
  have hdefault : UpcasterRegistry.default.upcasters =
      (OrdDict.empty.set ("TASK_CREATED", 1) taskCreatedV1ToV2).set ("DECISION_PROPOSED", 1)
        decisionProposedV1ToV2 := rfl
  have hother : ("DECISION_PROPOSED", (1 : Int)) ≠ (EventType.taskCreated.value, v) := by
    simp [EventType.value]
  rw [UpcasterRegistry.getUpcaster, hdefault, OrdDict.get?_set, OrdDict.get?_set]
  simp only [norm_typeVersion, if_neg hother, OrdDict.get?_empty]
  by_cases hv : v = 1
  · rw [if_pos hv, if_pos (by rw [hv]; rfl)]
  · rw [if_neg hv, if_neg (fun h => hv (Prod.mk.inj h).2.symm)]

/-- The steps that are taken from version 1 when the canonical version is 2: some that stay at
version 1, and the one to version 2. -/
def stepsFromOne (n : Nat) : List MigrationStep := List.replicate n ⟨1, 1⟩ ++ [⟨1, 2⟩]

theorem stepsFromOne_succ (n : Nat) : stepsFromOne (n + 1) = ⟨1, 1⟩ :: stepsFromOne n := by
  rw [stepsFromOne, List.replicate_succ, List.cons_append, stepsFromOne]

theorem stepsFromOne_head {n : Nat} {step : MigrationStep} {rest : List MigrationStep}
    (h : step :: rest = stepsFromOne n) :
    step = ⟨1, 1⟩ ∧ (∃ m, n = m + 1 ∧ rest = stepsFromOne m) ∨ step = ⟨1, 2⟩ ∧ n = 0 ∧ rest = [] := by
  cases n with
  | zero =>
      obtain ⟨rfl, rfl⟩ := List.cons.inj h
      exact Or.inr ⟨rfl, rfl, rfl⟩
  | succ m =>
      rw [stepsFromOne_succ] at h
      obtain ⟨rfl, rfl⟩ := List.cons.inj h
      exact Or.inl ⟨rfl, m, rfl, rfl⟩

/-- A version that no step of the default registry starts from is kept by a walk that succeeds. -/
theorem foldUntil_eq_of_ne_one {event : EventRecord} (htype : event.eventType = .taskCreated)
    {steps : List MigrationStep} {payload : JsonObj} {version : Json} {result : JsonObj × Json}
    (hversion : version.eqInt 1 = false)
    (h : steps.foldlM (ReplayResolver.resolveStep .default event) (payload, version) = .ok result) :
    MigrationPath.taken steps version = [] ∧ result = (payload, version) ∧
      (Fold.foldUntil MigrationStep.advance (fun current => current.eqInt 2) steps version).1 =
        version := by
  induction steps with
  | nil =>
      rw [List.foldlM_nil, Except.pure_eq_ok_iff] at h
      exact ⟨rfl, h.symm, rfl⟩
  | cons step rest ih =>
      rw [List.foldlM_cons, ReplayResolver.resolveStep] at h
      by_cases hfrom : version.eqInt step.fromVersion = true
      · -- the step is taken, and it does not start at version 1
        have hne : step.fromVersion ≠ 1 := by
          intro heq
          rw [heq, hversion] at hfrom
          cases hfrom
        rw [if_pos hfrom, htype, getUpcaster_default, if_neg hne] at h
        cases h
      · rw [if_neg hfrom] at h
        have hadvance : MigrationStep.advance version step = version := by
          rw [MigrationStep.advance, if_neg hfrom]
        obtain ⟨htaken, hresult, huntil⟩ := ih h
        refine ⟨?_, hresult, ?_⟩
        · rw [MigrationPath.taken, if_neg hfrom, htaken]
        · rw [Fold.foldUntil, hadvance]
          split
          · rfl
          · exact huntil

/-- Version 1 is taken to version 2, and read to the end of the path, exactly along the steps that
start at version 1. -/
theorem resolveSteps_one_iff {event : EventRecord} (htype : event.eventType = .taskCreated)
    (steps : List MigrationStep) (payload : JsonObj) {version : Json}
    (hversion : version.eqInt 1 = true) (result : JsonObj × Json) :
    ((Fold.foldUntil MigrationStep.advance (fun current => current.eqInt 2) steps version).1.eqInt 2 =
        true ∧
      steps.foldlM (ReplayResolver.resolveStep .default event) (payload, version) = .ok result) ↔
    ∃ n, MigrationPath.taken steps version = stepsFromOne n ∧
      result = (taskCreatedV1ToV2^[n + 1] payload, .int 2) := by
  have htwo : version.eqInt 2 = false := by
    rw [Json.eqInt_eq_decide hversion]
    rfl
  induction steps generalizing payload version with
  | nil =>
      constructor
      · rintro ⟨huntil, -⟩
        rw [Fold.foldUntil, htwo] at huntil
        cases huntil
      · rintro ⟨n, htaken, -⟩
        cases n <;> simp [MigrationPath.taken, stepsFromOne] at htaken
  | cons step rest ih =>
      obtain ⟨first, last⟩ := step
      rw [List.foldlM_cons, Fold.foldUntil, if_neg (by simp [htwo]), ReplayResolver.resolveStep,
        MigrationPath.taken, MigrationStep.advance]
      dsimp only
      by_cases hfrom : version.eqInt first = true
      · have hfirst : first = 1 := by
          rw [Json.eqInt_eq_decide hversion, decide_eq_true_eq] at hfrom
          exact hfrom.symm
        subst hfirst
        rw [if_pos hfrom, if_pos hfrom, if_pos hfrom, htype, getUpcaster_default, if_pos rfl]
        by_cases hlast : last = 1
        · -- the version stays at 1
          subst hlast
          have hrest := @ih (taskCreatedV1ToV2 payload) (.int 1) (by decide) (by decide)
          apply hrest.trans
          constructor
          · rintro ⟨n, htaken, hresult⟩
            exact ⟨n + 1, by rw [htaken, stepsFromOne_succ], hresult⟩
          · rintro ⟨n, htaken, hresult⟩
            rcases stepsFromOne_head htaken with ⟨-, m, rfl, hrest⟩ | ⟨hstep, -, -⟩
            · exact ⟨m, hrest, hresult⟩
            · cases hstep
        · -- nothing can follow, since no other version has an upcaster
          have hone : (Json.int last).eqInt 1 = false := by simp [hlast]
          constructor
          · rintro ⟨huntil, hok⟩
            obtain ⟨htaken, hresult, hstop⟩ := foldUntil_eq_of_ne_one htype hone hok
            rw [hstop, Json.eqInt_int, decide_eq_true_eq] at huntil
            subst huntil
            exact ⟨0, by rw [htaken]; rfl, hresult⟩
          · rintro ⟨n, htaken, hresult⟩
            rcases stepsFromOne_head htaken with ⟨hstep, -⟩ | ⟨hstep, rfl, hrest⟩
            · exact absurd (MigrationStep.mk.inj hstep).2 hlast
            · obtain rfl : last = 2 := (MigrationStep.mk.inj hstep).2
              have hresolves : ∃ result,
                  rest.foldlM (ReplayResolver.resolveStep .default event)
                    (taskCreatedV1ToV2 payload, .int 2) = .ok result :=
                (ReplayResolver.resolveSteps_ok_iff rest _).mpr (by simp [hrest])
              obtain ⟨result', hok⟩ := hresolves
              obtain ⟨-, hsame, hstop⟩ := foldUntil_eq_of_ne_one htype hone hok
              refine ⟨by rw [hstop]; rfl, ?_⟩
              rw [hresult]
              exact hok.trans (congrArg Except.ok hsame)
      · rw [if_neg hfrom, if_neg hfrom, if_neg hfrom]
        exact ih payload hversion htwo

/-- Only equality with integers decides which steps are taken. -/
theorem taken_eq_of_eqInt_one {version : Json} (h : version.eqInt 1 = true)
    (steps : List MigrationStep) :
    MigrationPath.taken steps version = MigrationPath.taken steps (.int 1) := by
  induction steps with
  | nil => rfl
  | cons step rest ih =>
      rw [MigrationPath.taken, MigrationPath.taken, ih, Json.eqInt_eq_decide h, Json.eqInt_int]

namespace SchemaPolicy

/-- The steps that a task of version 1 is taken along. -/
def taskSteps (policy : SchemaPolicy) : List MigrationStep :=
  MigrationPath.taken (policy.migrationPath .taskCreated).steps (.int 1)

theorem canResolve_task {policy : SchemaPolicy} (hlatest : policy.latestVersion .taskCreated = 2)
    {event : EventRecord} (htype : event.eventType = .taskCreated)
    (htwo : event.schemaVersion.eqInt 2 = false) :
    policy.canResolve event =
      (Fold.foldUntil MigrationStep.advance (fun current => current.eqInt 2)
        (policy.migrationPath .taskCreated).steps event.schemaVersion).1.eqInt 2 := by
  have hcurrent : policy.isCurrent event = false := by
    rw [isCurrent, htype, hlatest, htwo]
  rw [canResolve, if_neg (by simp [hcurrent]), htype, hlatest]
  cases hsteps : (policy.migrationPath .taskCreated).steps with
  | nil => simp [MigrationPath.exists, hsteps, Fold.foldUntil, htwo]
  | cons step rest => simp [MigrationPath.exists, hsteps]

end SchemaPolicy

/-- A task is returned as it is at version 2, and from version 1 with its payload upcast for every
step that is taken. Any other task is refused. -/
theorem resolve_task_iff {policy : SchemaPolicy} (hlatest : policy.latestVersion .taskCreated = 2)
    {event : EventRecord} (htype : event.eventType = .taskCreated) (result : EventRecord) :
    ReplayResolver.resolve ⟨policy, .default⟩ event = .ok result ↔
      (event.schemaVersion.eqInt 2 = true ∧ result = event) ∨
      (event.schemaVersion.eqInt 1 = true ∧ ∃ n, policy.taskSteps = stepsFromOne n ∧
        result = { event with
          payload := taskCreatedV1ToV2^[n + 1] event.payload
          schemaVersion := .int 2 }) := by
  cases htwo : event.schemaVersion.eqInt 2 with
  | true =>
      have hcurrent : policy.isCurrent event = true := by
        rw [SchemaPolicy.isCurrent, htype, hlatest, htwo]
      have hone : event.schemaVersion.eqInt 1 = false := Json.eqInt_eq_decide htwo 1
      rw [ReplayResolver.resolve_of_isCurrent hcurrent, hone]
      simp [eq_comm]
  | false =>
      have hcurrent : policy.isCurrent event = false := by
        rw [SchemaPolicy.isCurrent, htype, hlatest, htwo]
      have hcan := SchemaPolicy.canResolve_task hlatest htype htwo
      have hresolve : ReplayResolver.resolve ⟨policy, .default⟩ event = .ok result ↔
          policy.canResolve event = true ∧ ∃ state,
            (policy.migrationPath .taskCreated).steps.foldlM
              (ReplayResolver.resolveStep .default event) (event.payload, event.schemaVersion) =
                .ok state ∧
            result = { event with payload := state.1, schemaVersion := state.2 } := by
        cases hyes : policy.canResolve event with
        | false =>
            rw [ReplayResolver.resolve_of_not_canResolve hcurrent hyes]
            simp
        | true =>
            rw [ReplayResolver.resolve_of_canResolve hcurrent hyes, Except.map_eq_ok_iff, htype]
            simp [eq_comm]
      rw [hresolve, hcan]
      cases hone : event.schemaVersion.eqInt 1 with
      | true =>
          have hsteps := resolveSteps_one_iff htype (policy.migrationPath .taskCreated).steps
            event.payload hone
          constructor
          · rintro ⟨huntil, state, hok, rfl⟩
            obtain ⟨n, htaken, rfl⟩ := (hsteps state).mp ⟨huntil, hok⟩
            rw [taken_eq_of_eqInt_one hone] at htaken
            exact Or.inr ⟨rfl, n, htaken, rfl⟩
          · rintro (⟨h, -⟩ | ⟨-, n, htaken, rfl⟩)
            · cases h
            · rw [SchemaPolicy.taskSteps, ← taken_eq_of_eqInt_one hone] at htaken
              obtain ⟨huntil, hok⟩ := (hsteps _).mpr ⟨n, htaken, rfl⟩
              exact ⟨huntil, _, hok, rfl⟩
      | false =>
          constructor
          · rintro ⟨huntil, state, hok, -⟩
            obtain ⟨-, -, hstop⟩ := foldUntil_eq_of_ne_one htype hone hok
            rw [hstop, htwo] at huntil
            cases huntil
          · rintro (⟨h, -⟩ | ⟨h, -⟩) <;> cases h

/-! ## Titles and descriptions -/

/-- The title and description of a flat payload. -/
def flatTitles (p : JsonObj) : Json × Json :=
  (p.getD "title" (.str ""), p.getD "description" (.str ""))

/-- The title and description a payload carries, in its details if it has any. -/
def carriedTitles (p : JsonObj) : Json × Json :=
  match p.lookup "details" with
  | some (.obj details) => (JsonObj.get details "summary", JsonObj.get details "body")
  | _ => flatTitles p

/-- A payload for a task of its own: in the form the reducer requires, of whatever version, or
flat and of version 1. -/
structure TaskPayload (p : JsonObj) : Prop where
  key : ∃ a, p.get "task_id" = .atom a ∧ Json.truthy (.atom a) = true
  tags : ∃ items, (p.getD "tags" (.arr [])).toList = .ok items
  blockedBy : ∃ items, (p.getD "blocked_by" (.arr [])).toList = .ok items
  shape :
    (∃ details summary body, p.lookup "details" = some (.obj details) ∧
      details.lookup "summary" = some summary ∧ details.lookup "body" = some body) ∨
    (p.lookup "details" = none ∧ (p.getD "schema_version" (.int 1)).eqInt 1 = true)

/-- The event creates the task with the given key and titles. -/
structure CreatesTask (event : EventRecord) (a : Atom) (titles : Json × Json) : Prop where
  eventType : event.eventType = .taskCreated
  key : event.payload.get "task_id" = .atom a
  truthy : Json.truthy (.atom a) = true
  created : ∃ t, TaskReducer.created event = .ok t ∧ (t.title, t.description) = titles

/-- The reducer needs details with both texts; the other fields of a task have defaults. -/
theorem CreatesTask.of_details {event : EventRecord} (htype : event.eventType = .taskCreated)
    {a : Atom} (hkey : event.payload.get "task_id" = .atom a) (ha : Json.truthy (.atom a) = true)
    (htags : ∃ items, (event.payload.getD "tags" (.arr [])).toList = .ok items)
    (hblocked : ∃ items, (event.payload.getD "blocked_by" (.arr [])).toList = .ok items)
    {details : JsonObj} {summary body : Json}
    (hdetails : event.payload.lookup "details" = some (.obj details))
    (hsummary : details.lookup "summary" = some summary)
    (hbody : details.lookup "body" = some body) : CreatesTask event a (summary, body) := by
  obtain ⟨tags, htags⟩ := htags
  obtain ⟨blockedBy, hblocked⟩ := hblocked
  refine ⟨htype, hkey, ha, ?_⟩
  rw [TaskReducer.created, JsonObj.getItem, hdetails]
  simp only [Except.ok_bind_eq, Json.getItem, JsonObj.getItem, hsummary, hbody, htags, hblocked]
  exact ⟨_, rfl, rfl⟩

/-- What the pipeline makes of the titles of a stored task. -/
def SchemaPolicy.seenTitles (policy : SchemaPolicy) (event : EventRecord) : Json × Json :=
  if event.schemaVersion.eqInt 2 then carriedTitles event.payload
  else if policy.taskSteps = [⟨1, 2⟩] then flatTitles event.payload
  else (.str "", .str "")

/-- A resolved task is created under its own key with the titles that were seen. -/
theorem createsTask_of_resolve {policy : SchemaPolicy}
    (hlatest : policy.latestVersion .taskCreated = 2) {event result : EventRecord}
    (htype : event.eventType = .taskCreated) (htask : TaskPayload event.payload)
    (hversion : event.schemaVersion = event.payload.getD "schema_version" (.int 1))
    (h : ReplayResolver.resolve ⟨policy, .default⟩ event = .ok result) {a : Atom}
    (ha : event.payload.get "task_id" = .atom a) :
    CreatesTask result a (policy.seenTitles event) := by
  have htruthy : Json.truthy (.atom a) = true := by
    obtain ⟨a', ha', htruthy⟩ := htask.key
    rw [ha] at ha'
    exact Json.atom.inj ha' ▸ htruthy
  rcases (resolve_task_iff hlatest htype result).mp h with ⟨htwo, rfl⟩ | ⟨hone, n, hsteps, rfl⟩
  · rcases htask.shape with ⟨details, summary, body, hdetails, hsummary, hbody⟩ | ⟨-, hflat⟩
    · have hseen : policy.seenTitles result = (summary, body) := by
        rw [SchemaPolicy.seenTitles, if_pos htwo, carriedTitles, hdetails]
        simp only [JsonObj.get, JsonObj.getD, hsummary, hbody, Option.getD_some]
      rw [hseen]
      exact .of_details htype ha htruthy htask.tags htask.blockedBy hdetails hsummary hbody
    · rw [← hversion, Json.eqInt_eq_decide htwo] at hflat
      cases hflat
  · have hkeep : ∀ key default, key ≠ "details" → key ≠ "description" → key ≠ "title" →
        JsonObj.getD (taskCreatedV1ToV2^[n + 1] event.payload) key default =
          event.payload.getD key default := by
      intro key default h₁ h₂ h₃
      rw [JsonObj.getD, lookup_iterate, if_neg h₁, if_neg h₂, if_neg h₃, JsonObj.getD]
    have htwo : event.schemaVersion.eqInt 2 = false := Json.eqInt_eq_decide hone 2
    have hseen : policy.seenTitles event =
        if n = 0 then flatTitles event.payload else flatTitles [] := by
      rw [SchemaPolicy.seenTitles, htwo, if_neg Bool.false_ne_true, hsteps]
      cases n with
      | zero => rfl
      | succ n =>
          have hlong : stepsFromOne (n + 1) ≠ [⟨1, 2⟩] := by simp [stepsFromOne]
          rw [if_neg hlong, if_neg (Nat.succ_ne_zero n)]
          rfl
    have hdetails : List.lookup "details" (taskCreatedV1ToV2^[n + 1] event.payload) =
        some (.obj [("summary", (policy.seenTitles event).1),
          ("body", (policy.seenTitles event).2)]) := by
      rw [lookup_iterate, if_pos rfl, hseen]
      split_ifs <;> rfl
    refine .of_details (by exact htype) ?_ htruthy ?_ ?_ hdetails rfl rfl
    · rw [JsonObj.get, hkeep _ _ (by decide) (by decide) (by decide)]
      exact ha
    · rw [hkeep _ _ (by decide) (by decide) (by decide)]
      exact htask.tags
    · rw [hkeep _ _ (by decide) (by decide) (by decide)]
      exact htask.blockedBy

/-! ## A run over a stream of tasks -/

/-- Task events that create tasks leave, under every key, what the last of them created. -/
theorem reduce_createsTask {stream resolved : List EventRecord} {seen : EventRecord → Json × Json}
    (h : List.Forall₂ (fun e e' => ∃ a, taskIdOf e = .atom a ∧ CreatesTask e' a (seen e))
      stream resolved) (tasks : TaskDict) :
    ∃ final, TaskReducer.reduce tasks resolved = .ok final ∧
      (∀ a, (∀ e ∈ stream, ∀ a', taskIdOf e = .atom a' → DictKey.norm a' ≠ DictKey.norm a) →
        final.get? a = tasks.get? a) ∧
      (∀ before e after a, stream = before ++ e :: after → taskIdOf e = .atom a →
        (∀ e' ∈ after, ∀ a', taskIdOf e' = .atom a' → DictKey.norm a' ≠ DictKey.norm a) →
        ∃ t, final.get? a = some t ∧ (t.title, t.description) = seen e) := by
  induction h generalizing tasks with
  | nil => exact ⟨tasks, rfl, fun _ _ => rfl, fun before e after a h => by simp at h⟩
  | @cons e e' rest rest' hhead _ ih =>
      obtain ⟨a, hid, htype, hkey, htruthy, t, ht, htitles⟩ := hhead
      have hstep : TaskReducer.step tasks e' = .ok (tasks.set a t) := by
        rw [TaskReducer.step, TaskReducer.action, htype, hkey]
        simp only [keyedStep, htruthy, if_true, ht, Except.ok_bind_eq, Json.hash_atom]
        rfl
      obtain ⟨final, hfinal, hother, hlast⟩ := ih (tasks.set a t)
      refine ⟨final, ?_, ?_, ?_⟩
      · rw [TaskReducer.reduce, List.foldlM_cons, hstep, Except.ok_bind_eq]
        exact hfinal
      · intro b hb
        rw [hother b fun e₁ he₁ => hb e₁ (List.mem_cons_of_mem _ he₁)]
        exact OrdDict.get?_set_of_ne _ _ (hb e List.mem_cons_self a hid)
      · intro before e₁ after b hsplit hid₁ hnone
        cases before with
        | nil =>
            obtain ⟨rfl, rfl⟩ := List.cons.inj hsplit
            obtain rfl := Json.atom.inj (hid.symm.trans hid₁)
            exact ⟨t, by rw [hother a hnone, OrdDict.get?_set_self], htitles⟩
        | cons e₂ before =>
            obtain ⟨rfl, rfl⟩ := List.cons.inj hsplit
            exact hlast before e₁ after b rfl hid₁ hnone

/-- No later event of the stream is about the same task. -/
def IsLastOfTask (stream : List EventRecord) (e : EventRecord) (a : Atom) : Prop :=
  ∃ before after, stream = before ++ e :: after ∧ taskIdOf e = .atom a ∧
    ∀ e' ∈ after, ∀ a', taskIdOf e' = .atom a' → DictKey.norm a' ≠ DictKey.norm a

/-- The pipeline and the reducer give every task the titles of its own payload. -/
def KeepsTitles (policy : SchemaPolicy) (stream : List EventRecord) : Prop :=
  ∃ resolved tasks,
    (ReplayPipeline.make (some { schemaPolicy := policy }) none).process stream = .ok resolved ∧
    TaskReducer.reduce .empty resolved = .ok tasks ∧
    ∀ e a, IsLastOfTask stream e a →
      ∃ t, tasks.get? a = some t ∧ (t.title, t.description) = carriedTitles e.payload

/-- Every event can be taken to version 2, and the last payload of every task is at version 2, or
carries what a flat payload with its members would carry. -/
structure TitlesSurvive (policy : SchemaPolicy) (stream : List EventRecord) : Prop where
  readable : ∀ e ∈ stream, e.schemaVersion.eqInt 2 = true ∨
    e.schemaVersion.eqInt 1 = true ∧ ∃ n, policy.taskSteps = stepsFromOne n
  last : ∀ e a, IsLastOfTask stream e a → e.schemaVersion.eqInt 2 = true ∨
    carriedTitles e.payload =
      if policy.taskSteps = [⟨1, 2⟩] then flatTitles e.payload else (.str "", .str "")

/-- Under a policy with version 2 of tasks, the stored stream of a project gives every task the
titles of its own payload exactly when those survive the upcasts. -/
theorem keepsTitles_iff (policy : SchemaPolicy) (hlatest : policy.latestVersion .taskCreated = 2)
    (reqs : List AppendRequest) (p : UUID)
    (htasks : ∀ req ∈ reqs, req.projectId = p →
      req.eventType = .taskCreated ∧ TaskPayload req.payload) :
    KeepsTitles policy ((EventDb.empty.appendAll reqs).getProjectStream p 0) ↔
      TitlesSurvive policy ((EventDb.empty.appendAll reqs).getProjectStream p 0) := by
  have hholds := EventDb.forall₂_holds_getProjectStream reqs p
  generalize (EventDb.empty.appendAll reqs).getProjectStream p 0 = stream at hholds ⊢
  have hevents : ∀ e ∈ stream, e.eventType = .taskCreated ∧ TaskPayload e.payload ∧
      e.schemaVersion = e.payload.getD "schema_version" (.int 1) := by
    intro e he
    obtain ⟨req, hreq, h⟩ := hholds.exists_of_mem he
    rw [List.mem_filter, decide_eq_true_eq] at hreq
    rw [h.eventType, h.payload, h.schemaVersion]
    exact ⟨(htasks req hreq.1 hreq.2).1, (htasks req hreq.1 hreq.2).2, rfl⟩
  -- whatever was resolved is reduced to the titles that were seen
  have hreduce : ∀ resolved, List.Forall₂ (fun e e' =>
      ReplayResolver.resolve ⟨policy, .default⟩ e = .ok e') stream resolved →
      ∃ final, TaskReducer.reduce .empty resolved = .ok final ∧ ∀ e a, IsLastOfTask stream e a →
        ∃ t, final.get? a = some t ∧ (t.title, t.description) = policy.seenTitles e := by
    intro resolved hresolved
    have hcreates : List.Forall₂ (fun e e' =>
        ∃ a, taskIdOf e = .atom a ∧ CreatesTask e' a (policy.seenTitles e)) stream resolved := by
      refine ((List.forall₂_and_left stream resolved).mpr ⟨hevents, hresolved⟩).imp ?_
      rintro e e' ⟨⟨htype, htask, hversion⟩, he'⟩
      obtain ⟨a, ha, -⟩ := htask.key
      exact ⟨a, ha, createsTask_of_resolve hlatest htype htask hversion he' ha⟩
    obtain ⟨final, hfinal, -, hlast⟩ := reduce_createsTask hcreates .empty
    refine ⟨final, hfinal, ?_⟩
    rintro e a ⟨before, after, hsplit, hid, hnone⟩
    exact hlast before e after a hsplit hid hnone
  constructor
  · rintro ⟨resolved, tasks, hprocess, htasks, hkeep⟩
    have hresolved := (ReplayPipeline.process_eq_ok_iff rfl _ _).mp hprocess
    obtain ⟨final, hfinal, hlast⟩ := hreduce resolved hresolved
    obtain rfl : tasks = final := Except.ok.inj (htasks.symm.trans hfinal)
    constructor
    · intro e he
      obtain ⟨e', -, he'⟩ := hresolved.exists_of_mem he
      rcases (resolve_task_iff hlatest (hevents e he).1 e').mp he' with ⟨htwo, -⟩ | ⟨hone, n, hn, -⟩
      · exact Or.inl htwo
      · exact Or.inr ⟨hone, n, hn⟩
    · intro e a hlastOf
      obtain ⟨t, ht, hcarried⟩ := hkeep e a hlastOf
      obtain ⟨t', ht', hseen⟩ := hlast e a hlastOf
      obtain rfl := Option.some.inj (ht.symm.trans ht')
      rw [hcarried, SchemaPolicy.seenTitles] at hseen
      by_cases htwo : e.schemaVersion.eqInt 2 = true
      · exact Or.inl htwo
      · rw [if_neg htwo] at hseen
        exact Or.inr hseen
  · intro hsurvive
    obtain ⟨resolved, hresolved⟩ : ∃ resolved, List.Forall₂ (fun e e' =>
        ReplayResolver.resolve ⟨policy, .default⟩ e = .ok e') stream resolved := by
      apply List.exists_forall₂
      intro e he
      rcases hsurvive.readable e he with htwo | ⟨hone, n, hn⟩
      · exact ⟨e, (resolve_task_iff hlatest (hevents e he).1 e).mpr (Or.inl ⟨htwo, rfl⟩)⟩
      · exact ⟨_, (resolve_task_iff hlatest (hevents e he).1 _).mpr (Or.inr ⟨hone, n, hn, rfl⟩)⟩
    obtain ⟨final, hfinal, hlast⟩ := hreduce resolved hresolved
    refine ⟨resolved, final, (ReplayPipeline.process_eq_ok_iff rfl _ _).mpr hresolved, hfinal, ?_⟩
    intro e a hlastOf
    obtain ⟨t, ht, hseen⟩ := hlast e a hlastOf
    refine ⟨t, ht, ?_⟩
    rw [hseen, SchemaPolicy.seenTitles]
    rcases hsurvive.last e a hlastOf with htwo | hcarried
    · rw [if_pos htwo]
    · split_ifs with htwo hsteps
      · rfl
      · rw [hcarried, if_pos hsteps]
      · rw [hcarried, if_neg hsteps]

/-- Version 2 of tasks, one step from version 1. -/
def taskPolicyV2 : SchemaPolicy :=
  ⟨OrdDict.empty.set .taskCreated ⟨.taskCreated, 2, ⟨[⟨1, 2⟩]⟩⟩⟩

/-- A task in the form the reducer requires, which does not name a version. -/
def nestedTask : AppendRequest := sampleRequest (sampleTask (.str "T1") "Write docs" "high")

theorem taskPayload_sampleTask (id : String) (hid : id ≠ "") (title priority : String) :
    TaskPayload (sampleTask (.str id) title priority).2 where
  key := ⟨.str id, rfl, by simp [Json.truthy, hid]⟩
  tags := ⟨[], rfl⟩
  blockedBy := ⟨[], rfl⟩
  shape := Or.inl ⟨_, _, _, rfl, rfl, rfl⟩

/-- The details of the task are replaced by empty ones. -/
theorem nestedTask_loses_title :
    (nestedTask.eventType = .taskCreated ∧ TaskPayload nestedTask.payload) ∧
      taskPolicyV2.latestVersion .taskCreated = 2 ∧
      ¬ KeepsTitles taskPolicyV2 ((EventDb.empty.appendAll [nestedTask]).getProjectStream .zero 0) := by
  refine ⟨⟨rfl, taskPayload_sampleTask "T1" (by decide) _ _⟩, rfl, ?_⟩
  rintro ⟨resolved, tasks, hprocess, htasks, hkeep⟩
  cases hprocess
  cases htasks
  obtain ⟨t, ht, htitles⟩ := hkeep (EventDb.empty.newRecord nestedTask) (.str "T1")
    ⟨[], [], rfl, rfl, by simp⟩
  cases ht
  exact absurd htitles (by decide)

/-- A flat task followed by a task at version 2. -/
def flatThenNested : List AppendRequest :=
  [sampleRequest (.taskCreated, [("task_id", .str "T1"), ("title", .str "Write docs")]),
    sampleRequest (.taskCreated,
      (sampleTask (.str "T2") "Write tests" "high").2 ++ [("schema_version", .int 2)])]

theorem keepsTitles_flatThenNested :
    KeepsTitles taskPolicyV2 ((EventDb.empty.appendAll flatThenNested).getProjectStream .zero 0) := by
  refine (keepsTitles_iff taskPolicyV2 rfl flatThenNested .zero ?_).mpr ⟨?_, ?_⟩
  · intro req hreq _
    simp only [flatThenNested, List.mem_cons, List.not_mem_nil, or_false] at hreq
    rcases hreq with rfl | rfl
    · exact ⟨rfl, ⟨.str "T1", rfl, rfl⟩, ⟨[], rfl⟩, ⟨[], rfl⟩, Or.inr ⟨rfl, rfl⟩⟩
    · exact ⟨rfl, ⟨.str "T2", rfl, rfl⟩, ⟨[], rfl⟩, ⟨[], rfl⟩, Or.inl ⟨_, _, _, rfl, rfl, rfl⟩⟩
  · intro e he
    have hversions : ∀ e ∈ (EventDb.empty.appendAll flatThenNested).getProjectStream .zero 0,
        e.schemaVersion.eqInt 2 = true ∨ e.schemaVersion.eqInt 1 = true := by decide +kernel
    exact (hversions e he).imp_right fun hone => ⟨hone, 0, rfl⟩
  · rintro e a ⟨before, after, hsplit, -⟩
    have hcarried : ∀ e ∈ (EventDb.empty.appendAll flatThenNested).getProjectStream .zero 0,
        e.schemaVersion.eqInt 2 = true ∨ carriedTitles e.payload = flatTitles e.payload := by
      decide +kernel
    exact hcarried e (by rw [hsplit]; simp)

end RationaleVault
