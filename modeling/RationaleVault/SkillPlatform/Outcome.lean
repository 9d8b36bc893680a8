import RationaleVault.Projections.Intelligence
import RationaleVault.SkillPlatform.Executor

/-!
# What the events say of an execution

Two producers write `SKILL_EXECUTED` events, and one projection reads them. The
producers are compared with what happened: the permissions were refused, the
skill took too long, it returned (an output that the schema accepts), or else.
-/

namespace RationaleVault.SkillPlatform

variable (u : UnicodeTables) (ft : FormatText)

open ExecutionIntelligenceProjection in
/-- An event with the payload, appended to any history, adds its execution to the class and to no
other; timed out, it is recommended for a retry with backoff, completed, it gets no
recommendation. -/
def Classified (payload : JsonObj) (c : ExecutionClass) : Prop :=
  ∀ event : EventRecord, event.eventType = .skillExecuted → event.payload = payload →
    ∀ history known s, ExecutionStateProjection.reduce history known = .ok s →
      ∃ s', ExecutionStateProjection.reduce (history ++ [event]) known = .ok s' ∧
        s.Adds s' (.ofPayload payload) c ∧
        ∀ recs, retryRecommendations u ft s = .ok recs →
          ∃ recs' own, retryRecommendations u ft s' = .ok recs' ∧ recs'.Perm (recs ++ own) ∧
            (c = .timeout → own.map RetryRecommendation.decision = [.backoff]) ∧
            (c = .completed → own = [])

/-- The payload of an execution: its ids are texts, and so is its error. -/
structure FromExecution (payload : JsonObj) : Prop where
  decisionId : ∃ id, (ExecutionEntry.ofPayload payload).decisionId = .str id
  skillId : ∃ id, (ExecutionEntry.ofPayload payload).skillId = .str id
  error : ∃ error, (ExecutionEntry.ofPayload payload).error = optStr error

theorem FromExecution.exists_retryOf {payload : JsonObj} (h : FromExecution payload) :
    ∃ r, ExecutionIntelligenceProjection.retryOf u ft (.ofPayload payload) = .ok r ∧
      ((ExecutionEntry.ofPayload payload).state = .str "TIMEOUT" → r.decision = .backoff) := by
  rw [ExecutionIntelligenceProjection.retryOf]
  by_cases htimeout : (ExecutionEntry.ofPayload payload).state = .str "TIMEOUT"
  · rw [if_pos htimeout]
    exact ⟨_, rfl, fun _ => rfl⟩
  · rw [if_neg htimeout]
    obtain ⟨error, herror⟩ := h.error
    have hpermanent : ∃ b, ExecutionIntelligenceProjection.isPermanent u
        (ExecutionEntry.ofPayload payload).error = .ok b := by
      rw [herror]
      cases error with
      | none => exact ⟨_, rfl⟩
      | some text => exact ExecutionIntelligenceProjection.exists_isPermanent_str u text
    obtain ⟨b, hb⟩ := hpermanent
    rw [hb]
    cases b
    · exact ⟨_, rfl, fun hstate => absurd hstate htimeout⟩
    · exact ⟨_, rfl, fun hstate => absurd hstate htimeout⟩

/-- The state text alone decides the class. -/
theorem FromExecution.classified_iff_state {payload : JsonObj} (h : FromExecution payload)
    (c : ExecutionClass) :
    Classified u ft payload c ↔ .ofState (ExecutionEntry.ofPayload payload).state = c := by
  obtain ⟨decisionId, hdecision⟩ := h.decisionId
  obtain ⟨skillId, hskill⟩ := h.skillId
  constructor
  · intro hclassified
    let event : EventRecord := {
      eventSequence := 1, id := .zero, projectId := .zero, streamId := "", version := 1
      eventType := .skillExecuted, metadata := ⟨"", "", "", ""⟩, payload := payload
      parentId := none, recordedAt := none, schemaVersion := .null }
    have hempty : ExecutionStateProjection.reduce [] none = .ok (ExecutionFold.toState {} none) :=
      rfl
    have htype : event.eventType = .skillExecuted := rfl
    obtain ⟨s', hs', hadds, -⟩ := hclassified event htype rfl [] none _ hempty
    obtain ⟨s'', hs'', hstate⟩ := ExecutionStateProjection.reduce_concat hempty htype
      (by rw [hdecision]; rfl) (by rw [hskill]; rfl)
    obtain rfl := Except.ok.inj (hs'.symm.trans hs'')
    by_contra hne
    -- the execution is in the class of its state, and so in the given one
    have hin := hstate (.ofState (ExecutionEntry.ofPayload payload).state)
    have hout := hadds (.ofState (ExecutionEntry.ofPayload payload).state)
    rw [if_pos rfl] at hin
    rw [if_neg hne] at hout
    simpa using hin.symm.trans hout
  · rintro rfl event htype rfl history known s hs
    obtain ⟨s', hs', hadds⟩ := ExecutionStateProjection.reduce_concat hs htype
      (by rw [hdecision]; rfl) (by rw [hskill]; rfl)
    refine ⟨s', hs', hadds, fun recs hrecs => ?_⟩
    obtain ⟨r, hr, hbackoff⟩ := h.exists_retryOf u ft
    by_cases hcompleted : ExecutionClass.ofState (ExecutionEntry.ofPayload event.payload).state =
        .completed
    · have hown : (if ExecutionClass.ofState (ExecutionEntry.ofPayload event.payload).state =
          .completed then [] else [ExecutionEntry.ofPayload event.payload]).mapM
            (ExecutionIntelligenceProjection.retryOf u ft) = .ok [] := by
        rw [if_pos hcompleted]
        rfl
      obtain ⟨recs', hrecs', hperm⟩ :=
        ExecutionIntelligenceProjection.retryRecommendations_of_adds u ft hadds hrecs hown
      exact ⟨recs', [], hrecs', hperm, fun htimeout => by simp [hcompleted] at htimeout,
        fun _ => rfl⟩
    · have hown : (if ExecutionClass.ofState (ExecutionEntry.ofPayload event.payload).state =
          .completed then [] else [ExecutionEntry.ofPayload event.payload]).mapM
            (ExecutionIntelligenceProjection.retryOf u ft) = .ok [r] := by
        rw [if_neg hcompleted, List.mapM_cons, hr]
        rfl
      obtain ⟨recs', hrecs', hperm⟩ :=
        ExecutionIntelligenceProjection.retryRecommendations_of_adds u ft hadds hrecs hown
      refine ⟨recs', [r], hrecs', hperm, fun htimeout => ?_, fun hc => absurd hc hcompleted⟩
      have hstate : (ExecutionEntry.ofPayload event.payload).state = .str "TIMEOUT" := by
        rw [ExecutionClass.ofState] at htimeout
        split_ifs at htimeout with h1 h2
        exact h2
      simp [hbackoff hstate]

/-! ## The runtime -/

/-- What happened in an execution by the runtime. -/
def SkillRuntime.outcome (skill : Skill) (context : ExecutionContext) : ExecutionClass :=
  if !(permissionDecision context).allowed then .denied
  else if (skill (.obj context.inputSnapshot)).Exceeds context.manifest.timeoutSeconds then .timeout
  else
    match (skill (.obj context.inputSnapshot)).outcome with
    | .returned _ => .completed
    | .raised _ | .exited => .failed

theorem SkillExecutionRecord.fromExecution (r : SkillExecutionRecord) :
    FromExecution r.toEventPayload :=
  ⟨⟨_, rfl⟩, ⟨_, rfl⟩, ⟨_, rfl⟩⟩

/-- The payload of the runtime is filed as a failure, whatever happened. -/
theorem SkillRuntime.classified_of_execute_iff {clock : Nat → String} {milliseconds : ℚ → Int}
    {skill : Skill}
    {context : ExecutionContext} {r : SkillExecutionRecord}
    (h : execute clock milliseconds skill context = some r) :
    Classified u ft r.toEventPayload (outcome skill context) ↔
      (permissionDecision context).allowed = true ∧
      ¬ (skill (.obj context.inputSnapshot)).Exceeds context.manifest.timeoutSeconds ∧
      ∃ message, (skill (.obj context.inputSnapshot)).outcome = .raised message := by
  rw [r.fromExecution.classified_iff_state]
  obtain ⟨outputSnapshot, error, rfl⟩ := exists_record_of_execute h
  have hclass : ExecutionClass.ofState (ExecutionEntry.ofPayload
      (record clock context outputSnapshot error).toEventPayload).state = .failed := rfl
  rw [hclass, outcome]
  cases hallowed : (permissionDecision context).allowed with
  | false => simp
  | true =>
      by_cases hexceeds : (skill (.obj context.inputSnapshot)).Exceeds
          context.manifest.timeoutSeconds
      · simp [hexceeds]
      · cases houtcome : (skill (.obj context.inputSnapshot)).outcome with
        | returned output => simp [hexceeds]
        | raised message => simp [hexceeds]
        | exited =>
            rw [execute, hallowed] at h
            obtain ⟨seconds, _, h⟩ := Option.bind_eq_some_iff.mp h
            rw [houtcome] at h
            cases h

/-! ## The executor -/

namespace SkillExecutor

variable (x : Executor)

/-- What happened in an execution by the executor. -/
def outcome (plan : ExecutionPlan) (skillFn : Option Skill) : ExecutionClass :=
  match activated x plan skillFn, inputOf x plan with
  | .ok skill, .ok input =>
      if !(permissionDecision plan).allowed then .denied
      else if (skill input).Exceeds (timeout plan) then .timeout
      else
        match (skill input).outcome with
        | .returned output =>
            if OutputValidator.accepts x.format plan.context.manifest.outputSchema output then
              .completed else .failed
        | .raised _ | .exited => .failed
  | _, _ => .failed

/-- A call of the skill that the execution reaches. -/
def Reaches (plan : ExecutionPlan) (skillFn : Option Skill) (run : SkillRun) : Prop :=
  ∃ skill input, activated x plan skillFn = .ok skill ∧ inputOf x plan = .ok input ∧
    (permissionDecision plan).allowed = true ∧ run = skill input

theorem fromExecution (e : SkillExecutionEvent) : FromExecution e.toPayload :=
  ⟨⟨_, rfl⟩, ⟨_, rfl⟩, ⟨_, rfl⟩⟩

/-- The state of an execution that was validated and recorded. -/
theorem state_of_record {plan : ExecutionPlan} {outputs : JsonObj} {output : SkillOutput}
    {steps : List ExecutionStep} {e : Execution}
    (h : record x plan outputs output steps = .ok e) :
    e.event.state =
      if OutputValidator.accepts x.format plan.context.manifest.outputSchema (.obj outputs) then
        "COMPLETED" else "FAILED" := by
  obtain ⟨validation, hvalidate, h⟩ := Except.bind_eq_ok_iff.mp h
  have haccepts : OutputValidator.accepts x.format plan.context.manifest.outputSchema
      (.obj outputs) = validation.valid := by
    simp only [OutputValidator.accepts, hvalidate]
  rw [haccepts]
  cases hvalid : validation.valid with
  | false =>
      simp only [hvalid, Bool.not_false, if_true] at h
      cases h
      rfl
  | true =>
      simp only [hvalid, Bool.not_true, Bool.false_eq_true, if_false] at h
      split at h
      · cases h
        rfl
      · cases h

/-- The state of an execution whose skill was run. -/
theorem state_of_finish {plan : ExecutionPlan} {attempt : Except String Json}
    {steps : List ExecutionStep} {e : Execution} (h : finish x plan attempt steps = .ok e) :
    e.event.state =
      match attempt with
      | .ok output =>
          if OutputValidator.accepts x.format plan.context.manifest.outputSchema output then
            "COMPLETED" else "FAILED"
      | .error _ => "FAILED" := by
  cases attempt with
  | error message =>
      cases h
      rfl
  | ok output =>
      cases output with
      | obj outputs => exact state_of_record x h
      | arr items =>
          cases h
          rfl
      | atom a =>
          cases h
          rfl

/-- The state of an execution with an activated skill: a call that took too long counts as failed,
and one that exited as if it had returned the empty dictionary. -/
theorem state_of_run {plan : ExecutionPlan} {skill : Skill} {input : Json}
    (hinput : inputOf x plan = .ok input) {steps : List ExecutionStep} {e : Execution}
    (h : (run x plan skill steps).result = some (.ok e)) :
    e.event.state =
      if !(permissionDecision plan).allowed then "DENIED"
      else if (skill input).Exceeds (timeout plan) then "FAILED"
      else
        match (skill input).outcome with
        | .returned output =>
            if OutputValidator.accepts x.format plan.context.manifest.outputSchema output then
              "COMPLETED" else "FAILED"
        | .exited =>
            if OutputValidator.accepts x.format plan.context.manifest.outputSchema (.obj [])
            then "COMPLETED" else "FAILED"
        | .raised _ => "FAILED" := by
  obtain ⟨skillInput, hbuild, rfl⟩ := Except.map_eq_ok_iff.mp hinput
  simp only [run, hbuild] at h
  cases hallowed : (permissionDecision plan).allowed with
  | false =>
      simp only [hallowed, Bool.not_false, if_true] at h ⊢
      cases h
      rfl
  | true =>
      simp only [hallowed, Bool.not_true, Bool.false_eq_true, if_false] at h ⊢
      by_cases hexceeds : (skill (skillInput.toDict x.float x.round4)).Exceeds (timeout plan)
      · simp only [SkillSandbox.executeWithTimeout, if_pos hexceeds, Option.map_some] at h ⊢
        exact state_of_finish x (Option.some.inj h)
      · simp only [SkillSandbox.executeWithTimeout, if_neg hexceeds] at h ⊢
        obtain ⟨attempt, hattempt, h⟩ := Option.map_eq_some_iff.mp h
        obtain ⟨seconds, _, rfl⟩ := Option.map_eq_some_iff.mp hattempt
        cases houtcome : (skill (skillInput.toDict x.float x.round4)).outcome with
        | returned output =>
            rw [houtcome] at h
            exact state_of_finish x h
        | raised message =>
            rw [houtcome] at h
            exact state_of_finish x h
        | exited =>
            rw [houtcome] at h
            exact state_of_finish x h

/-- An execution that returns is filed as what happened, unless its skill took too long, or exited
and the schema accepts the empty dictionary. -/
theorem classified_of_execute_iff {plan : ExecutionPlan} {skillFn : Option Skill} {e : Execution}
    (h : (execute x plan skillFn).result = some (.ok e)) :
    Classified u ft e.event.toPayload (outcome x plan skillFn) ↔
      ∀ run, Reaches x plan skillFn run → ¬ run.Exceeds (timeout plan) ∧
        (run.outcome = .exited →
          OutputValidator.accepts x.format plan.context.manifest.outputSchema (.obj []) =
            false) := by
  rw [(fromExecution e.event).classified_iff_state]
  have hstate : (ExecutionEntry.ofPayload e.event.toPayload).state = .str e.event.state := rfl
  obtain ⟨input, hinput⟩ : ∃ input, inputOf x plan = .ok input := ⟨_, rfl⟩
  rw [hstate, outcome, hinput]
  cases hactivated : activated x plan skillFn with
  | error message =>
      rw [execute, hactivated] at h
      cases h
      apply iff_of_true rfl
      rintro run ⟨skill, _, hskill, -⟩
      rw [hactivated] at hskill
      cases hskill
  | ok skill =>
      have hreaches : ∀ run, Reaches x plan skillFn run ↔
          (permissionDecision plan).allowed = true ∧ run = skill input := by
        intro run
        simp [Reaches, hactivated, hinput]
      rw [execute, hactivated] at h
      rw [state_of_run x hinput h]
      simp only [hreaches]
      cases hallowed : (permissionDecision plan).allowed with
      | false => simp [ExecutionClass.ofState]
      | true =>
          by_cases hexceeds : (skill input).Exceeds (timeout plan)
          · simp [hexceeds, ExecutionClass.ofState]
          · cases houtcome : (skill input).outcome with
            | returned output =>
                cases haccepts : OutputValidator.accepts x.format
                  plan.context.manifest.outputSchema output <;>
                simp [hexceeds, houtcome, haccepts, ExecutionClass.ofState]
            | raised message => simp [hexceeds, houtcome, ExecutionClass.ofState]
            | exited =>
                cases OutputValidator.accepts x.format plan.context.manifest.outputSchema
                  (.obj []) <;>
                simp [hexceeds, houtcome, ExecutionClass.ofState]

end SkillExecutor

end RationaleVault.SkillPlatform
