import RationaleVault.PythonText
import RationaleVault.SkillPlatform.ExecutionState

/-!
# Retry recommendations

Every execution that is filed as failed, timed out or denied gets one
recommendation, which its state text and its error text decide.
-/

namespace RationaleVault.SkillPlatform

inductive RetryDecision
  | none
  | immediate
  | backoff
  | manual
  | permanentFailure
  deriving DecidableEq

def RetryDecision.value : RetryDecision → String
  | none => "NONE"
  | immediate => "IMMEDIATE"
  | backoff => "BACKOFF"
  | manual => "MANUAL"
  | permanentFailure => "PERMANENT_FAILURE"

structure RetryRecommendation where
  executionId : Json
  resultId : Json
  decision : RetryDecision
  reason : String
  recommendedBackoffSeconds : Int
  maxAttempts : Int

namespace ExecutionIntelligenceProjection

variable (u : UnicodeTables) (ft : FormatText)

/-- `e.error and ("validation failed" in e.error.lower() or ...)`: only a text has `lower`. -/
def isPermanent (error : Json) : Except Exc Bool :=
  if !error.truthy then .ok false
  else
    match error with
    | .str text =>
        let lower := (u.lower text).toList
        .ok (PythonText.contains "validation failed".toList lower ||
          PythonText.contains "missing capabilities".toList lower)
    | _ => .error (.attributeError "lower")

/-- A text, or none, can be looked into. -/
theorem exists_isPermanent_str (text : String) : ∃ b, isPermanent u (.str text) = .ok b := by
  unfold isPermanent
  split_ifs
  · exact ⟨_, rfl⟩
  · exact ⟨_, rfl⟩

/-- The recommendation for one execution. -/
def retryOf (e : ExecutionEntry) : Except Exc RetryRecommendation :=
  if e.state = .str "TIMEOUT" then
    .ok {
      executionId := e.executionId
      resultId := e.outputHash.orElse (.str "UNKNOWN")
      decision := .backoff
      reason := "Transient execution timeout detected"
      recommendedBackoffSeconds := 10
      maxAttempts := 3 }
  else do
    if ← isPermanent u e.error then
      return {
        executionId := e.executionId
        resultId := e.outputHash.orElse (.str "UNKNOWN")
        decision := .permanentFailure
        reason := "Non-transient execution error: " ++ ft.format e.error
        recommendedBackoffSeconds := 0
        maxAttempts := 1 }
    else
      return {
        executionId := e.executionId
        resultId := e.outputHash.orElse (.str "UNKNOWN")
        decision := .immediate
        reason := "Execution failed; immediate retry recommended"
        recommendedBackoffSeconds := 0
        maxAttempts := 3 }

/-- The executions that are scanned. -/
def scanned (s : ExecutionState) : List ExecutionEntry :=
  s.failedExecutions ++ s.timeoutExecutions ++ s.deniedExecutions

/-- `intelligence.retry_recommendations` of the report. -/
def retryRecommendations (s : ExecutionState) : Except Exc (List RetryRecommendation) :=
  (scanned s).mapM (retryOf u ft)

/-- An execution added to a state adds its own recommendation, unless it is completed. -/
theorem retryRecommendations_of_adds {s s' : ExecutionState} {entry : ExecutionEntry}
    {c : ExecutionClass} (h : s.Adds s' entry c) {recs : List RetryRecommendation}
    (hrecs : retryRecommendations u ft s = .ok recs) {own : List RetryRecommendation}
    (hown : (if c = .completed then [] else [entry]).mapM (retryOf u ft) = .ok own) :
    ∃ recs', retryRecommendations u ft s' = .ok recs' ∧ recs'.Perm (recs ++ own) := by
  have hscanned : (scanned s').Perm (scanned s ++ if c = .completed then [] else [entry]) := by
    have hfailed : s'.failedExecutions = _ := h .failed
    have htimeout : s'.timeoutExecutions = _ := h .timeout
    have hdenied : s'.deniedExecutions = _ := h .denied
    rw [scanned, scanned, hfailed, htimeout, hdenied]
    -- an entry that is no failure of the last kind stands before the later kinds
    cases c with
    | completed => simp [ExecutionState.executions]
    | failed =>
        simp only [ExecutionState.executions, reduceCtorEq, if_true, if_false, List.append_nil]
        rw [List.append_assoc, List.append_assoc, List.append_assoc, List.append_assoc]
        exact List.Perm.append_left _ (List.perm_append_comm.trans (by simp))
    | timeout =>
        simp only [ExecutionState.executions, reduceCtorEq, if_true, if_false, List.append_nil]
        rw [List.append_assoc, List.append_assoc, List.append_assoc, List.append_assoc]
        exact List.Perm.append_left _ (List.Perm.append_left _ List.perm_append_comm)
    | denied => simp [ExecutionState.executions]
  exact Fold.mapM_perm hscanned (Fold.mapM_append_eq_ok hrecs hown)

end ExecutionIntelligenceProjection

end RationaleVault.SkillPlatform
