import RationaleVault.Library.Fold
import RationaleVault.Python
import RationaleVault.Schema.Events

/-!
# The state of executions

A projection of the `SKILL_EXECUTED` events. An execution is filed by the text
under `state` alone; whatever is none of three texts counts as a failure.
-/

namespace RationaleVault.SkillPlatform

/-- What is kept of an event. -/
structure ExecutionEntry where
  executionId : Json
  decisionId : Json
  skillId : Json
  state : Json
  inputHash : Json
  outputHash : Json
  error : Json
  startedAt : Json
  completedAt : Json
  durationMs : Json

def ExecutionEntry.ofPayload (payload : JsonObj) : ExecutionEntry where
  executionId := payload.getD "execution_id" (.str "")
  decisionId := payload.getD "decision_id" (.str "")
  skillId := payload.getD "skill_id" (.str "")
  state := payload.getD "state" (.str "UNKNOWN")
  inputHash := payload.getD "input_hash" (.str "")
  outputHash := payload.getD "output_hash" (.str "")
  error := payload.get "error"
  startedAt := payload.get "started_at"
  completedAt := payload.get "completed_at"
  durationMs := payload.get "duration_ms"

/-- The lists and counts that the fold fills. -/
structure ExecutionFold where
  completed : List ExecutionEntry := []
  failed : List ExecutionEntry := []
  timeouts : List ExecutionEntry := []
  denied : List ExecutionEntry := []
  executedDecisionIds : OrdDict Atom Unit := .empty
  executionCounts : OrdDict Atom Nat := .empty
  successCounts : OrdDict Atom Nat := .empty
  durations : OrdDict Atom (List Json) := .empty

structure ExecutionState where
  pendingDecisions : List String
  completedExecutions : List ExecutionEntry
  failedExecutions : List ExecutionEntry
  timeoutExecutions : List ExecutionEntry
  deniedExecutions : List ExecutionEntry
  executionCounts : OrdDict Atom Nat
  successCounts : OrdDict Atom Nat
  durations : OrdDict Atom (List Json)
  totalExecutions : Nat
  totalCompleted : Nat
  totalFailed : Nat
  totalTimeout : Nat
  totalDenied : Nat

namespace ExecutionFold

/-- File an entry by its state. -/
def classify (f : ExecutionFold) (skillId : Atom) (entry : ExecutionEntry) : ExecutionFold :=
  if entry.state = .str "COMPLETED" then
    { f with
      completed := f.completed ++ [entry]
      successCounts := f.successCounts.set skillId ((f.successCounts.get? skillId).getD 0 + 1) }
  else if entry.state = .str "TIMEOUT" then { f with timeouts := f.timeouts ++ [entry] }
  else if entry.state = .str "DENIED" then { f with denied := f.denied ++ [entry] }
  else { f with failed := f.failed ++ [entry] }

/-- One event. The ids are keys of dictionaries, so a list or a dict raises. -/
def step (f : ExecutionFold) (event : EventRecord) : Except Exc ExecutionFold :=
  if event.eventType ≠ .skillExecuted then .ok f
  else do
    let entry := ExecutionEntry.ofPayload event.payload
    let decisionId ← entry.decisionId.hash
    let skillId ← entry.skillId.hash
    let durations :=
      if entry.durationMs = .null then f.durations
      else f.durations.set skillId ((f.durations.get? skillId).getD [] ++ [entry.durationMs])
    return { f with
      executedDecisionIds := f.executedDecisionIds.set decisionId ()
      executionCounts := f.executionCounts.set skillId
        ((f.executionCounts.get? skillId).getD 0 + 1)
      durations := durations }.classify skillId entry

def toState (f : ExecutionFold) (knownDecisionIds : Option (List String)) : ExecutionState where
  pendingDecisions := (knownDecisionIds.getD []).filter fun d =>
    !f.executedDecisionIds.contains (.str d)
  completedExecutions := f.completed
  failedExecutions := f.failed
  timeoutExecutions := f.timeouts
  deniedExecutions := f.denied
  executionCounts := f.executionCounts
  successCounts := f.successCounts
  durations := f.durations
  totalExecutions := f.completed.length + f.failed.length + f.timeouts.length + f.denied.length
  totalCompleted := f.completed.length
  totalFailed := f.failed.length
  totalTimeout := f.timeouts.length
  totalDenied := f.denied.length

end ExecutionFold

/-- `ExecutionStateProjection.reduce(events, known_decision_ids)`. -/
def ExecutionStateProjection.reduce (events : List EventRecord)
    (knownDecisionIds : Option (List String)) : Except Exc ExecutionState := do
  let f ← events.foldlM ExecutionFold.step {}
  return f.toState knownDecisionIds

/-! ## Classes -/

/-- The four lists. -/
inductive ExecutionClass
  | completed
  | failed
  | timeout
  | denied
  deriving DecidableEq

/-- The class of a state text. -/
def ExecutionClass.ofState (state : Json) : ExecutionClass :=
  if state = .str "COMPLETED" then .completed
  else if state = .str "TIMEOUT" then .timeout
  else if state = .str "DENIED" then .denied
  else .failed

namespace ExecutionState

def executions (s : ExecutionState) : ExecutionClass → List ExecutionEntry
  | .completed => s.completedExecutions
  | .failed => s.failedExecutions
  | .timeout => s.timeoutExecutions
  | .denied => s.deniedExecutions

/-- The second state has one more execution, in one class. -/
def Adds (s s' : ExecutionState) (entry : ExecutionEntry) (c : ExecutionClass) : Prop :=
  ∀ c', s'.executions c' = s.executions c' ++ if c' = c then [entry] else []

end ExecutionState

/-- A classified entry is added to the class of its state. -/
theorem ExecutionFold.adds_classify (f : ExecutionFold) (skillId : Atom) (entry : ExecutionEntry)
    (known : Option (List String)) :
    (f.toState known).Adds ((f.classify skillId entry).toState known) entry
      (.ofState entry.state) := by
  intro c'
  rw [ExecutionFold.classify, ExecutionClass.ofState]
  split_ifs <;> cases c' <;> simp [ExecutionState.executions, ExecutionFold.toState] at *

/-- An event whose ids are keys adds its execution to the state of any history. -/
theorem ExecutionStateProjection.reduce_concat {history : List EventRecord}
    {known : Option (List String)} {s : ExecutionState} (h : reduce history known = .ok s)
    {event : EventRecord} (htype : event.eventType = .skillExecuted)
    (hdecision : (ExecutionEntry.ofPayload event.payload).decisionId.hashable = true)
    (hskill : (ExecutionEntry.ofPayload event.payload).skillId.hashable = true) :
    ∃ s', reduce (history ++ [event]) known = .ok s' ∧
      s.Adds s' (.ofPayload event.payload)
        (.ofState (ExecutionEntry.ofPayload event.payload).state) := by
  obtain ⟨f, hf, hs⟩ := Except.bind_eq_ok_iff.mp h
  obtain rfl := Except.pure_eq_ok_iff.mp hs
  cases hd : (ExecutionEntry.ofPayload event.payload).decisionId with
  | arr | obj => rw [hd] at hdecision; cases hdecision
  | atom decisionId =>
      cases hk : (ExecutionEntry.ofPayload event.payload).skillId with
      | arr | obj => rw [hk] at hskill; cases hskill
      | atom skillId =>
          rw [reduce, Fold.append_of_ok hf]
          simp only [List.foldlM_cons, List.foldlM_nil, ExecutionFold.step, htype, ne_eq,
            not_true_eq_false, if_false, hd, hk, Json.hash_atom, Except.ok_bind_eq]
          exact ⟨_, rfl, ExecutionFold.adds_classify _ skillId _ known⟩

end RationaleVault.SkillPlatform
