import RationaleVault.Runtime.AgentRuntime

/-!
# The session registry

A registry is an immutable list of sessions. It asks for an open session of the
same agent in the same workspace when a session is created and never again, so
a session that is attached to another workspace or resumed can become a second
open one, and an update reaches every session with its id.
-/

namespace RationaleVault.Runtime

/-- Statuses that count as open. -/
def SessionStatus.isOpen : SessionStatus → Bool
  | created | attached | streaming | resumed => true
  | paused | detached | closed => false

structure SessionRegistry where
  sessions : List AgentSession
  compiledAt : String

/-- An open session of the agent in the workspace. -/
def AgentSession.isOpenIn (s : AgentSession) (agentId workspaceId : String) : Bool :=
  s.profileId == agentId && s.workspaceId == workspaceId && s.status.isOpen

namespace SessionRegistry

/-- `SessionRegistry()`. -/
def empty : SessionRegistry := ⟨[], ""⟩

def hasOpenSession (r : SessionRegistry) (agentId workspaceId : String) : Bool :=
  r.sessions.any fun s => s.isOpenIn agentId workspaceId

def addSession (r : SessionRegistry) (session : AgentSession) : SessionRegistry :=
  { r with sessions := r.sessions ++ [session] }

/-- Every session with the id of the given one becomes the given one. -/
def updateSession (r : SessionRegistry) (session : AgentSession) : SessionRegistry :=
  { r with sessions :=
      r.sessions.map fun s => if s.sessionId = session.sessionId then session else s }

end SessionRegistry

/-! ## Operations on a registered session -/

/-- The operations that move a session. -/
inductive SessionOperation
  | attach (workspace : Workspace) (capabilities : AgentCapabilities)
  | pause
  | resume
  | streamPackage (contextId : String)
  | detach (binding : WorkspaceBinding)
  | close (packagesStreamed eventsEmitted : Int)

namespace SessionOperation

/-- The session that a successful operation returns. -/
def run (clock : Clock) (session : AgentSession) : SessionOperation → Except String AgentSession
  | attach workspace capabilities =>
      (AgentRuntime.attach clock session workspace capabilities).map Prod.fst
  | pause => (AgentRuntime.pause clock session).map Prod.fst
  | resume => (AgentRuntime.resume clock session).map Prod.fst
  | streamPackage contextId => AgentRuntime.streamPackage clock session contextId
  | detach binding => (AgentRuntime.detach clock session binding).map Prod.fst
  | close packagesStreamed eventsEmitted =>
      (AgentRuntime.close clock session packagesStreamed eventsEmitted).map Prod.fst

/-- The statuses in which the operation is accepted. -/
def accepts : SessionOperation → SessionStatus → Bool
  | attach _ _, status => status = .created
  | pause, status => status ∈ [.attached, .streaming, .resumed]
  | resume, status => status = .paused
  | streamPackage _, status => status ∈ [.attached, .resumed, .streaming]
  | detach _, status => status ∉ [.closed, .detached]
  | close _ _, status => status ≠ .closed

/-- The workspace in which the operation leaves the session open, if it does. -/
def opensIn (session : AgentSession) : SessionOperation → Option String
  | attach workspace _ => some workspace.workspaceId
  | resume | streamPackage _ => some session.workspaceId
  | pause | detach _ | close _ _ => none

/-- An operation that is accepted keeps id and agent, and it says where the session is open
afterwards. -/
theorem exists_run (op : SessionOperation) (clock : Clock) {session : AgentSession}
    (h : op.accepts session.status = true) :
    ∃ updated, op.run clock session = .ok updated ∧ updated.sessionId = session.sessionId ∧
      ∀ agent workspace, updated.isOpenIn agent workspace =
        (session.profileId == agent && op.opensIn session == some workspace) := by
  cases op with
  | attach workspace capabilities =>
      have hstatus : session.status = .created := of_decide_eq_true h
      refine ⟨(WorkspaceBinder.attach clock session workspace.workspaceId).1, ?_, rfl, ?_⟩
      · rw [run, AgentRuntime.attach, if_neg (not_not.mpr hstatus)]
        rfl
      · simp [AgentSession.isOpenIn, opensIn, WorkspaceBinder.attach, SessionStatus.isOpen]
  | pause =>
      have hstatus : session.status ∈ [.attached, .streaming, .resumed] := of_decide_eq_true h
      refine ⟨{ session with status := .paused, lastActiveAt := clock.iso 0 }, ?_, rfl, ?_⟩
      · rw [run, AgentRuntime.pause, if_neg (not_not.mpr hstatus)]
        rfl
      · simp [AgentSession.isOpenIn, opensIn, SessionStatus.isOpen]
  | resume =>
      have hstatus : session.status = .paused := of_decide_eq_true h
      refine ⟨{ session with status := .resumed, lastActiveAt := clock.iso 0 }, ?_, rfl, ?_⟩
      · rw [run, AgentRuntime.resume, if_neg (not_not.mpr hstatus)]
        rfl
      · simp [AgentSession.isOpenIn, opensIn, SessionStatus.isOpen]
  | streamPackage contextId =>
      have hstatus : session.status ∈ [.attached, .resumed, .streaming] := of_decide_eq_true h
      refine ⟨{ session with
        status := .streaming, contextId := some contextId, lastActiveAt := clock.iso 0 },
        ?_, rfl, ?_⟩
      · rw [run, AgentRuntime.streamPackage, if_neg (not_not.mpr hstatus)]
      · simp [AgentSession.isOpenIn, opensIn, SessionStatus.isOpen]
  | detach binding =>
      have hstatus : session.status ∉ [.closed, .detached] := of_decide_eq_true h
      refine ⟨(WorkspaceBinder.detach clock session binding).1, ?_, rfl, ?_⟩
      · rw [run, AgentRuntime.detach, if_neg hstatus]
        rfl
      · simp [AgentSession.isOpenIn, opensIn, WorkspaceBinder.detach, SessionStatus.isOpen]
  | close packagesStreamed eventsEmitted =>
      have hstatus : session.status ≠ .closed := of_decide_eq_true h
      refine ⟨WorkspaceBinder.closeSession clock session, ?_, rfl, ?_⟩
      · rw [run, AgentRuntime.close, if_neg hstatus]
        rfl
      · simp [AgentSession.isOpenIn, opensIn, WorkspaceBinder.closeSession, SessionStatus.isOpen]

/-- What is not accepted fails. -/
theorem accepts_of_run {clock : Clock} {session updated : AgentSession} {op : SessionOperation}
    (h : op.run clock session = .ok updated) : op.accepts session.status = true := by
  by_contra hno
  cases op with
  | attach workspace capabilities =>
      rw [run, AgentRuntime.attach, if_pos (by simpa [accepts] using hno)] at h
      cases h
  | pause =>
      rw [run, AgentRuntime.pause, if_pos (by simpa [accepts] using hno)] at h
      cases h
  | resume =>
      rw [run, AgentRuntime.resume, if_pos (by simpa [accepts] using hno)] at h
      cases h
  | streamPackage contextId =>
      rw [run, AgentRuntime.streamPackage, if_pos (by simpa [accepts] using hno)] at h
      cases h
  | detach binding =>
      rw [run, AgentRuntime.detach, if_pos (by simpa [accepts, imp_iff_not_or] using hno)] at h
      cases h
  | close packagesStreamed eventsEmitted =>
      rw [run, AgentRuntime.close, if_pos (by simpa [accepts] using hno)] at h
      cases h

end SessionOperation

/-! ## Runs -/

/-- A step of a run: a session is created, or an operation is applied to a registered one. -/
inductive RegistryStep
  | create (clock : Clock) (profile : AgentProfile) (workspace : Workspace)
      (protocolVersion : String) (denied : Option (Finset Capability))
  | operate (clock : Clock) (session : AgentSession) (op : SessionOperation)

namespace SessionRegistry

/-- The effect of a step. A created session is added if the agent has no open one in the
workspace; a step that fails does nothing. -/
def step (r : SessionRegistry) : RegistryStep → SessionRegistry
  | .create clock profile workspace protocolVersion denied =>
      match AgentRuntime.createSession clock profile workspace protocolVersion denied with
      | .ok (.ok (session, _)) =>
          if r.hasOpenSession profile.profileId workspace.workspaceId then r
          else r.addSession session
      | _ => r
  | .operate clock session op =>
      if session ∈ r.sessions then
        match op.run clock session with
        | .ok updated => r.updateSession updated
        | .error _ => r
      else r

/-- At most one open session per agent and workspace. -/
def AtMostOneOpen (r : SessionRegistry) : Prop :=
  ∀ agent workspace, r.sessions.countP (fun s => s.isOpenIn agent workspace) ≤ 1

/-- The operation leaves its session open in a workspace only where no other open session of the
agent is, and its id is registered once. -/
def Admits (r : SessionRegistry) : RegistryStep → Prop
  | .create .. => True
  | .operate _ session op =>
      ∀ workspace, session ∈ r.sessions → op.accepts session.status = true →
        op.opensIn session = some workspace →
          r.sessions.countP (fun s => s.sessionId = session.sessionId) = 1 ∧
          ∀ s ∈ r.sessions, s.sessionId ≠ session.sessionId →
            s.isOpenIn session.profileId workspace = false

/-- Open sessions after an update: the updated one, once for every session with its id, and the
open ones with other ids. -/
theorem countP_updateSession (r : SessionRegistry) (updated : AgentSession)
    (agent workspace : String) :
    (r.updateSession updated).sessions.countP (fun s => s.isOpenIn agent workspace) =
      (if updated.isOpenIn agent workspace then
        r.sessions.countP fun s => s.sessionId = updated.sessionId else 0) +
      r.sessions.countP fun s =>
        s.isOpenIn agent workspace && decide (s.sessionId ≠ updated.sessionId) := by
  rw [updateSession]
  induction r.sessions with
  | nil => simp
  | cons s rest ih =>
      rw [List.map_cons, List.countP_cons, List.countP_cons, List.countP_cons, ih]
      by_cases hid : s.sessionId = updated.sessionId
      · by_cases hopen : updated.isOpenIn agent workspace = true
        · simp [hid, hopen]
          omega
        · simp [hid, hopen]
      · simp [hid]
        omega

theorem atMostOneOpen_empty : empty.AtMostOneOpen := fun _ _ => Nat.zero_le 1

/-- A session is only added where the agent has no open one. -/
theorem atMostOneOpen_create {r : SessionRegistry} (h : r.AtMostOneOpen) (clock : Clock)
    (profile : AgentProfile) (workspace : Workspace) (protocolVersion : String)
    (denied : Option (Finset Capability)) :
    (r.step (.create clock profile workspace protocolVersion denied)).AtMostOneOpen := by
  rw [step]
  split
  · rename_i session rest hcreate
    split_ifs with hopen
    · exact h
    · obtain ⟨hprofile, hworkspace, -⟩ := AgentRuntime.createSession_eq_ok hcreate
      have hnone : ∀ s ∈ r.sessions, s.isOpenIn profile.profileId workspace.workspaceId = false := by
        simpa [hasOpenSession] using hopen
      intro agent ws
      rw [addSession, List.countP_append, List.countP_singleton]
      split_ifs with hsession
      · -- the new session is open where no session was
        have heq : agent = profile.profileId ∧ ws = workspace.workspaceId := by
          simp only [AgentSession.isOpenIn, Bool.and_eq_true, beq_iff_eq] at hsession
          exact ⟨hsession.1.1.symm.trans hprofile, hsession.1.2.symm.trans hworkspace⟩
        have hzero : r.sessions.countP (fun s => s.isOpenIn agent ws) = 0 := by
          rw [List.countP_eq_zero, heq.1, heq.2]
          simpa using hnone
        omega
      · exact h agent ws
  · exact h

/-- An operation keeps the law exactly if the registry admits it. -/
theorem atMostOneOpen_operate {r : SessionRegistry} (h : r.AtMostOneOpen) (clock : Clock)
    (session : AgentSession) (op : SessionOperation) :
    (r.step (.operate clock session op)).AtMostOneOpen ↔ r.Admits (.operate clock session op) := by
  by_cases haccepts : session ∈ r.sessions ∧ op.accepts session.status = true
  · obtain ⟨hmem, haccepts⟩ := haccepts
    obtain ⟨updated, hrun, hid, hopen⟩ := op.exists_run clock haccepts
    have hstep : r.step (.operate clock session op) = r.updateSession updated := by
      rw [step, if_pos hmem, hrun]
    have hpos : 0 < r.sessions.countP fun s => s.sessionId = session.sessionId :=
      List.countP_pos_iff.mpr ⟨session, hmem, by simp⟩
    rw [hstep, AtMostOneOpen]
    simp only [countP_updateSession, hid]
    constructor
    · intro hone ws _ _ hws
      have hle := hone session.profileId ws
      rw [if_pos (by simp [hopen, hws])] at hle
      refine ⟨by omega, fun s hs hne => ?_⟩
      have hzero := List.countP_eq_zero.mp (Nat.le_zero.mp (Nat.le_of_lt_succ (by omega :
        r.sessions.countP (fun s => s.isOpenIn session.profileId ws &&
          decide (s.sessionId ≠ session.sessionId)) < 1))) s hs
      simpa [hne] using hzero
    · intro hadmits agent ws
      have hle : (r.sessions.countP fun s => s.isOpenIn agent ws &&
          decide (s.sessionId ≠ session.sessionId)) ≤ 1 := by
        refine le_trans (List.countP_mono_left fun s _ hs => ?_) (h agent ws)
        exact (Bool.and_eq_true_iff.mp hs).1
      split_ifs with hws
      · rw [hopen, Bool.and_eq_true, beq_iff_eq, beq_iff_eq] at hws
        obtain ⟨hunique, hother⟩ := hadmits ws hmem haccepts hws.2
        have hzero : (r.sessions.countP fun s => s.isOpenIn agent ws &&
            decide (s.sessionId ≠ session.sessionId)) = 0 := by
          rw [List.countP_eq_zero, ← hws.1]
          intro s hs
          by_cases hne : s.sessionId = session.sessionId
          · simp [hne]
          · simp [hother s hs hne]
        omega
      · omega
  · have hstep : r.step (.operate clock session op) = r := by
      rw [step]
      split_ifs with hmem
      · split
        · rename_i updated hrun
          exact absurd ⟨hmem, SessionOperation.accepts_of_run hrun⟩ haccepts
        · rfl
      · rfl
    rw [hstep]
    exact iff_of_true h fun ws hmem hacc => absurd ⟨hmem, hacc⟩ haccepts

/-- Every registry of a run has at most one open session per agent and workspace exactly if each
step of the run is admitted where it happens. -/
theorem atMostOneOpen_iff (steps : List RegistryStep) :
    (∀ pre, pre <+: steps → (pre.foldl step empty).AtMostOneOpen) ↔
      ∀ pre st post, steps = pre ++ st :: post → (pre.foldl step empty).Admits st := by
  refine Fold.always_iff (fun r st h => ?_) atMostOneOpen_empty steps
  cases st with
  | create clock profile workspace protocolVersion denied =>
      exact iff_of_true (atMostOneOpen_create h _ _ _ _ _) trivial
  | operate clock session op => exact atMostOneOpen_operate h clock session op

end SessionRegistry

/-- A clock that reads one time. -/
def Clock.at (time : String) : Clock := ⟨some time, fun _ => ""⟩

def sampleProfile : AgentProfile := ⟨"AGNT-1", ∅, .active⟩

/-- The session that the sample profile is given at a time. -/
def sampleSession (time : String) : AgentSession :=
  WorkspaceBinder.createSession time "AGNT-1" "WS-1"
    { bindingId := WorkspaceBinding.generateBindingId "pending-AGNT-1" "WS-1"
      sessionId := "pending"
      workspaceId := "WS-1"
      role := "PRIMARY"
      attachedAt := time } "1.0.0"

/-- A session is attached and paused, another one is created, and the first one is resumed. -/
def resumedSteps : List RegistryStep :=
  let attached := (WorkspaceBinder.attach (.at "2") (sampleSession "1") "WS-1").1
  [.create (.at "1") sampleProfile ⟨"WS-1"⟩ "1.0.0" none,
    .operate (.at "2") (sampleSession "1") (.attach ⟨"WS-1"⟩ ⟨"AGNT-1", ∅, ∅, "2"⟩),
    .operate (.at "3") attached .pause,
    .create (.at "4") sampleProfile ⟨"WS-1"⟩ "1.0.0" none,
    .operate (.at "5") { attached with status := .paused, lastActiveAt := "3" } .resume]

/-- The resumed session and the new one are both open. -/
theorem not_atMostOneOpen_resumed :
    ¬ (resumedSteps.foldl SessionRegistry.step .empty).AtMostOneOpen := by
  intro h
  have hone := h "AGNT-1" "WS-1"
  revert hone
  decide +kernel

end RationaleVault.Runtime
