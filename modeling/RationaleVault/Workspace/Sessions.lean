import RationaleVault.Workspace.Service

/-!
# Agents that share a workspace

Joining is refused to agents that the workspace does not list and to agents
with an open session, so of any run of joining and leaving each agent has at
most one open session. The caller keeps the sessions and the roster shows them
in the order in which they were started.
-/

namespace RationaleVault.Workspaces

/-! ## Contracts -/

inductive AgentRole
  | primary
  | advisor
  | observer
  deriving DecidableEq

def AgentRole.value : AgentRole → String
  | primary => "PRIMARY"
  | advisor => "ADVISOR"
  | observer => "OBSERVER"

/-- Status of a workspace session. -/
inductive SessionStatus
  | opened
  | closed
  | suspended
  deriving DecidableEq

def SessionStatus.value : SessionStatus → String
  | opened => "OPEN"
  | closed => "CLOSED"
  | suspended => "SUSPENDED"

structure WorkspaceSession where
  sessionId : String
  workspaceId : String
  agentId : String
  agentRole : AgentRole
  status : SessionStatus
  startedAt : String
  endedAt : Option String
  snapshotId : Option String

def WorkspaceSession.generateSessionId (workspaceId agentId createdAt : String) : String :=
  "WSSSN-" ++ shortHash ("workspace_session:" ++ workspaceId ++ ":" ++ agentId ++ ":" ++ createdAt)

structure WorkspaceSessionOpenedPayload where
  schemaVersion : String := "1.0"
  sessionId : String
  workspaceId : String
  agentId : String
  agentRole : String
  snapshotId : Option String := none
  createdAt : String

/-- An agent's status in a workspace. -/
structure AgentRosterEntry where
  agentId : String
  role : String
  sessionId : String
  status : String
  joinedAt : String

structure WorkspaceRoster where
  workspaceId : String
  compiledAt : String
  agents : List AgentRosterEntry := []

namespace WorkspaceRoster

def activeAgents (r : WorkspaceRoster) : List AgentRosterEntry :=
  r.agents.filter fun a => a.status = SessionStatus.opened.value

def agentCount (r : WorkspaceRoster) : Nat := r.agents.length

def activeCount (r : WorkspaceRoster) : Nat := r.activeAgents.length

end WorkspaceRoster

/-! ## The service -/

namespace MultiAgentService

/-- The agent has an open session. -/
def isOpenFor (agentId : String) (s : WorkspaceSession) : Bool :=
  s.agentId = agentId && s.status.value = SessionStatus.opened.value

def join (now : String) (workspace : Workspace) (agentId : String) (role : AgentRole)
    (sessions : List WorkspaceSession) :
    Except String (WorkspaceSession × WorkspaceSessionOpenedPayload) :=
  if sessions.any (isOpenFor agentId) then
    .error ("Agent " ++ agentId ++ " already has an open session")
  else if agentId ∉ workspace.agentIds then
    .error ("Agent " ++ agentId ++ " is not in workspace agent list")
  else
    let sessionId := WorkspaceSession.generateSessionId workspace.workspaceId agentId now
    .ok ({
      sessionId := sessionId
      workspaceId := workspace.workspaceId
      agentId := agentId
      agentRole := role
      status := .opened
      startedAt := now
      endedAt := none
      snapshotId := none }, {
      sessionId := sessionId
      workspaceId := workspace.workspaceId
      agentId := agentId
      agentRole := role.value
      createdAt := now })

def leave (now : String) (session : WorkspaceSession) : WorkspaceSession :=
  { session with status := .closed, endedAt := some now }

def rosterEntry (s : WorkspaceSession) : AgentRosterEntry where
  agentId := s.agentId
  role := s.agentRole.value
  sessionId := s.sessionId
  status := s.status.value
  joinedAt := s.startedAt

def roster (now : String) (workspace : Workspace) (sessions : List WorkspaceSession) :
    WorkspaceRoster where
  workspaceId := workspace.workspaceId
  compiledAt := now
  agents := (sessions.map rosterEntry).insertionSort fun a b => a.joinedAt ≤ b.joinedAt

end MultiAgentService

/-! ## Runs of joining and leaving -/

inductive SessionStep
  | join (now agentId : String) (role : AgentRole)
  | leave (now : String) (position : Nat)

namespace SessionStep

open MultiAgentService

/-- The sessions that the caller keeps after a step. -/
def run (workspace : Workspace) (sessions : List WorkspaceSession) :
    SessionStep → List WorkspaceSession
  | join now agentId role =>
      match MultiAgentService.join now workspace agentId role sessions with
      | .ok (session, _) => sessions ++ [session]
      | .error _ => sessions
  | leave now position =>
      match sessions[position]? with
      | some session => sessions.set position (MultiAgentService.leave now session)
      | none => sessions

/-- The open sessions. -/
def openSessions (sessions : List WorkspaceSession) : List WorkspaceSession :=
  sessions.filter fun s => s.status = .opened

/-- The open sessions are of pairwise different agents, all of them listed. -/
structure Exclusive (workspace : Workspace) (sessions : List WorkspaceSession) : Prop where
  nodup : ((openSessions sessions).map WorkspaceSession.agentId).Nodup
  listed : ∀ s ∈ sessions, s.agentId ∈ workspace.agentIds

theorem isOpenFor_iff {agentId : String} {s : WorkspaceSession} :
    isOpenFor agentId s = true ↔ s.agentId = agentId ∧ s.status = .opened := by
  cases h : s.status <;> simp [isOpenFor, h, SessionStatus.value]

variable {workspace : Workspace} {sessions : List WorkspaceSession} {agentId : String}

theorem mem_openIds_iff :
    agentId ∈ (openSessions sessions).map WorkspaceSession.agentId ↔
      sessions.any (isOpenFor agentId) = true := by
  simp only [openSessions, List.mem_map, List.mem_filter, decide_eq_true_eq, List.any_eq_true,
    isOpenFor_iff]
  exact exists_congr fun s => ⟨fun ⟨⟨hs, hopen⟩, hid⟩ => ⟨hs, hid, hopen⟩,
    fun ⟨hs, hid, hopen⟩ => ⟨⟨hs, hopen⟩, hid⟩⟩

/-- Joining is refused, or it opens a session of a listed agent that has none. -/
theorem join_cases (now : String) (workspace : Workspace) (agentId : String) (role : AgentRole)
    (sessions : List WorkspaceSession) :
    (∃ e, MultiAgentService.join now workspace agentId role sessions = .error e) ∧
        ¬ (agentId ∈ workspace.agentIds ∧
          agentId ∉ (openSessions sessions).map WorkspaceSession.agentId) ∨
      ∃ session payload,
        MultiAgentService.join now workspace agentId role sessions = .ok (session, payload) ∧
        session.agentId = agentId ∧ session.status = .opened ∧ agentId ∈ workspace.agentIds ∧
        agentId ∉ (openSessions sessions).map WorkspaceSession.agentId := by
  rw [MultiAgentService.join, mem_openIds_iff]
  split_ifs with hopen hlisted
  · exact Or.inl ⟨⟨_, rfl⟩, fun h => h.2 hopen⟩
  · exact Or.inr ⟨_, _, rfl, rfl, rfl, hlisted, hopen⟩
  · exact Or.inl ⟨⟨_, rfl⟩, fun h => hlisted h.1⟩

theorem exclusive_nil (workspace : Workspace) : Exclusive workspace [] :=
  ⟨List.nodup_nil, fun s hs => by cases hs⟩

/-- Closing a session leaves a part of the open ones. -/
theorem openSessions_set_sublist (sessions : List WorkspaceSession) (position : Nat)
    {session : WorkspaceSession} (hclosed : session.status ≠ .opened) :
    (openSessions (sessions.set position session)).Sublist (openSessions sessions) := by
  induction sessions generalizing position with
  | nil => exact List.Sublist.refl _
  | cons s rest ih =>
      cases position with
      | zero =>
          rw [List.set_cons_zero, openSessions, List.filter_cons_of_neg (by simpa using hclosed)]
          exact (List.sublist_cons_self s rest).filter _
      | succ position =>
          rw [List.set_cons_succ, openSessions, openSessions, List.filter_cons, List.filter_cons]
          split_ifs
          · exact (ih position).cons_cons s
          · exact ih position

theorem Exclusive.run (h : Exclusive workspace sessions) (step : SessionStep) :
    Exclusive workspace (step.run workspace sessions) := by
  cases step with
  | join now agentId role =>
      rw [SessionStep.run]
      obtain ⟨⟨e, hjoin⟩, -⟩ | ⟨session, payload, hjoin, hid, hopen, hlisted, hnew⟩ :=
        join_cases now workspace agentId role sessions
      · rw [hjoin]
        exact h
      · rw [hjoin]
        constructor
        · have hopened :
              openSessions (sessions ++ [session]) = openSessions sessions ++ [session] := by
            simp [openSessions, hopen]
          rw [hopened, List.map_append, List.map_singleton, hid]
          exact List.nodup_append_comm.mp (List.nodup_cons.mpr ⟨hnew, h.nodup⟩)
        · intro s hs
          rcases List.mem_append.mp hs with hs | hs
          · exact h.listed s hs
          · rw [List.mem_singleton.mp hs, hid]
            exact hlisted
  | leave now position =>
      rw [SessionStep.run]
      cases hget : sessions[position]? with
      | none => exact h
      | some session =>
          refine ⟨h.nodup.sublist ((openSessions_set_sublist sessions position
            (by simp [MultiAgentService.leave])).map _), fun s hs => ?_⟩
          rcases List.mem_or_eq_of_mem_set hs with hs | rfl
          · exact h.listed s hs
          · exact h.listed session (List.mem_of_getElem? hget)

theorem exclusive_foldl (workspace : Workspace) (steps : List SessionStep) :
    Exclusive workspace (steps.foldl (SessionStep.run workspace) []) := by
  induction steps using List.reverseRecOn with
  | nil => exact exclusive_nil workspace
  | append_singleton rest step ih =>
      rw [List.foldl_append]
      exact ih.run step

end SessionStep

/-! ## The roster of a run -/

namespace MultiAgentService

/-- The active agents of a roster are those of the open sessions. -/
theorem activeAgents_roster_perm (now : String) (workspace : Workspace)
    (sessions : List WorkspaceSession) :
    ((roster now workspace sessions).activeAgents.map AgentRosterEntry.agentId).Perm
      ((SessionStep.openSessions sessions).map WorkspaceSession.agentId) := by
  have hstatus : ∀ s : WorkspaceSession,
      decide (s.status.value = SessionStatus.opened.value) = decide (s.status = .opened) := by
    intro s
    cases s.status <;> decide
  have hperm := ((List.perm_insertionSort (fun a b : AgentRosterEntry => a.joinedAt ≤ b.joinedAt)
    (sessions.map rosterEntry)).filter
      fun a => decide (a.status = SessionStatus.opened.value)).map AgentRosterEntry.agentId
  refine hperm.trans (.of_eq ?_)
  rw [List.filter_map, List.map_map, SessionStep.openSessions]
  congr 1
  exact List.filter_congr fun s _ => hstatus s

/-- After every run of joining and leaving, the roster shows each agent as active at most once and
only if the workspace lists it, in the order in which the sessions were started, and an agent may
join exactly if it is listed and not active. -/
theorem roster_of_run (workspace : Workspace) (steps : List SessionStep)
    (now now' agentId : String) (role : AgentRole) :
    let sessions := steps.foldl (SessionStep.run workspace) []
    let r := roster now workspace sessions
    (r.activeAgents.map AgentRosterEntry.agentId).Nodup ∧
      (∀ a ∈ r.activeAgents, a.agentId ∈ workspace.agentIds) ∧
      r.agents.Pairwise (fun a b => a.joinedAt ≤ b.joinedAt) ∧
      ((∃ result, join now' workspace agentId role sessions = .ok result) ↔
        agentId ∈ workspace.agentIds ∧
          agentId ∉ r.activeAgents.map AgentRosterEntry.agentId) := by
  intro sessions r
  have hexclusive := SessionStep.exclusive_foldl workspace steps
  have hperm := activeAgents_roster_perm now workspace sessions
  refine ⟨hperm.nodup_iff.mpr hexclusive.nodup, fun a ha => ?_, ?_, ?_⟩
  · obtain ⟨s, hs, hid⟩ := List.mem_map.mp (hperm.mem_iff.mp (List.mem_map_of_mem ha))
    exact hid ▸ hexclusive.listed s (List.mem_of_mem_filter hs)
  · have : IsTrans AgentRosterEntry fun a b => a.joinedAt ≤ b.joinedAt :=
      ⟨fun _ _ _ => le_trans⟩
    have : Std.Total fun a b : AgentRosterEntry => a.joinedAt ≤ b.joinedAt :=
      ⟨fun _ _ => le_total _ _⟩
    exact List.pairwise_insertionSort _ _
  · rw [hperm.mem_iff]
    obtain ⟨⟨e, hjoin⟩, hrefused⟩ | ⟨session, payload, hjoin, -, -, hlisted, hnew⟩ :=
      SessionStep.join_cases now' workspace agentId role sessions
    · refine iff_of_false (fun hok => ?_) hrefused
      obtain ⟨_, hok⟩ := hok
      rw [hjoin] at hok
      cases hok
    · exact ⟨fun _ => ⟨hlisted, hnew⟩, fun _ => ⟨_, hjoin⟩⟩

end MultiAgentService

end RationaleVault.Workspaces
