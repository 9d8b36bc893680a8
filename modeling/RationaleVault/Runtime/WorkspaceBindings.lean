import RationaleVault.Library.OrdDict
import RationaleVault.Runtime.SessionRegistry

/-!
# The bindings of sessions over runs

A binding is returned when a session is created, when it is attached and when it
is detached. The three share no place that would end an older one: attaching
leaves the binding of the creation active, and closing returns no binding at all.
-/

namespace RationaleVault.Runtime

/-- A session of a run with the binding that a detach of it is given: the one that attach
returned, or that of the creation if it was never attached. -/
structure TrackedSession where
  session : AgentSession
  binding : WorkspaceBinding

/-- The operations on a tracked session. -/
inductive BindingOperation
  | attach (workspace : Workspace) (capabilities : AgentCapabilities)
  | pause
  | resume
  | streamPackage (contextId : String)
  | detach
  | close (packagesStreamed eventsEmitted : Int)

/-- The session and the binding that a successful operation returns. -/
def BindingOperation.run (clock : Clock) (t : TrackedSession) :
    BindingOperation → Except String (AgentSession × Option WorkspaceBinding)
  | attach workspace capabilities =>
      (AgentRuntime.attach clock t.session workspace capabilities).map fun r => (r.1, some r.2.1)
  | pause => (AgentRuntime.pause clock t.session).map fun r => (r.1, none)
  | resume => (AgentRuntime.resume clock t.session).map fun r => (r.1, none)
  | streamPackage contextId =>
      (AgentRuntime.streamPackage clock t.session contextId).map fun s => (s, none)
  | detach => (AgentRuntime.detach clock t.session t.binding).map fun r => (r.1, some r.2.1)
  | close packagesStreamed eventsEmitted =>
      (AgentRuntime.close clock t.session packagesStreamed eventsEmitted).map fun r => (r.1, none)

namespace BindingOperation

/-- Only attaching and detaching return a binding. -/
theorem run_eq_ok_some {clock : Clock} {t : TrackedSession} {op : BindingOperation}
    {session : AgentSession} {binding : WorkspaceBinding}
    (h : op.run clock t = .ok (session, some binding)) :
    (∃ workspace capabilities, op = .attach workspace capabilities ∧
      t.session.status = .created ∧
      (session, binding) = WorkspaceBinder.attach clock t.session workspace.workspaceId) ∨
    (op = .detach ∧ (session, binding) = WorkspaceBinder.detach clock t.session t.binding) := by
  cases op with
  | attach workspace capabilities =>
      rw [run, AgentRuntime.attach] at h
      split_ifs at h with hstatus
      · cases h
      · cases h
        exact Or.inl ⟨workspace, capabilities, rfl, not_not.mp hstatus, rfl⟩
  | detach =>
      rw [run, AgentRuntime.detach] at h
      split_ifs at h
      · cases h
      · cases h
        exact Or.inr ⟨rfl, rfl⟩
  | pause | resume | streamPackage | close =>
      rw [run, Except.map_eq_ok_iff] at h
      obtain ⟨_, _, heq⟩ := h
      cases heq

/-- An operation that returns no binding keeps how its session is bound. It is a close, or it
moves a session that has not ended. -/
theorem run_eq_ok_none {clock : Clock} {t : TrackedSession} {op : BindingOperation}
    {session : AgentSession} (h : op.run clock t = .ok (session, none)) :
    session.sessionId = t.session.sessionId ∧ session.bindingId = t.session.bindingId ∧
      session.workspaceId = t.session.workspaceId ∧
      ((∃ packages events, op = .close packages events ∧ t.session.status ≠ .closed ∧
          session.status = .closed) ∨
        (op ∈ [.pause, .resume] ∨ ∃ contextId, op = .streamPackage contextId) ∧
          session.status ∉ [.detached, .closed]) := by
  cases op with
  | attach | detach =>
      rw [run, Except.map_eq_ok_iff] at h
      obtain ⟨_, _, heq⟩ := h
      cases heq
  | pause =>
      rw [run, AgentRuntime.pause] at h
      split_ifs at h
      · cases h
        exact ⟨rfl, rfl, rfl, Or.inr ⟨by simp, by simp⟩⟩
      · cases h
  | resume =>
      rw [run, AgentRuntime.resume] at h
      split_ifs at h
      · cases h
      · cases h
        exact ⟨rfl, rfl, rfl, Or.inr ⟨by simp, by simp⟩⟩
  | streamPackage contextId =>
      rw [run, AgentRuntime.streamPackage] at h
      split_ifs at h
      · cases h
        exact ⟨rfl, rfl, rfl, Or.inr ⟨by simp, by simp⟩⟩
      · cases h
  | close packagesStreamed eventsEmitted =>
      rw [run, AgentRuntime.close] at h
      split_ifs at h with hstatus
      · cases h
      · cases h
        exact ⟨rfl, rfl, rfl, Or.inl ⟨_, _, rfl, hstatus, rfl⟩⟩

/-- A created session can be attached, and one that is not closed can be closed. -/
theorem run_eq_error {clock : Clock} {t : TrackedSession} {op : BindingOperation} {e : String}
    (h : op.run clock t = .error e) :
    (∀ workspace capabilities, op = .attach workspace capabilities →
      t.session.status ≠ .created) ∧
    ∀ packages events, op = .close packages events → t.session.status = .closed := by
  constructor
  · rintro workspace capabilities rfl hstatus
    rw [run, AgentRuntime.attach, if_neg (not_not.mpr hstatus)] at h
    cases h
  · rintro packages events rfl
    by_contra hstatus
    rw [run, AgentRuntime.close, if_neg hstatus] at h
    cases h

end BindingOperation

/-- A step of a run: a session is created, or an operation is applied to the session at a
position. -/
inductive BindingStep
  | create (clock : Clock) (profile : AgentProfile) (workspace : Workspace)
      (protocolVersion : String) (denied : Option (Finset Capability))
  | operate (clock : Clock) (position : Nat) (op : BindingOperation)

/-- The sessions of a run, and the last value of every binding that was returned. -/
structure BindingLog where
  sessions : List TrackedSession
  bindings : OrdDict String WorkspaceBinding

namespace BindingLog

def empty : BindingLog := ⟨[], .empty⟩

/-- A binding is returned. -/
def put (l : BindingLog) (sessions : List TrackedSession) (binding : WorkspaceBinding) :
    BindingLog :=
  ⟨sessions, l.bindings.set binding.bindingId binding⟩

/-- The effect of a step; a step that fails does nothing. -/
def step (l : BindingLog) : BindingStep → BindingLog
  | .create clock profile workspace protocolVersion denied =>
      match AgentRuntime.createSession clock profile workspace protocolVersion denied with
      | .ok (.ok (session, binding, _)) => l.put (l.sessions ++ [⟨session, binding⟩]) binding
      | _ => l
  | .operate clock position op =>
      match l.sessions[position]? with
      | none => l
      | some t =>
          match op.run clock t with
          | .error _ => l
          | .ok (session, none) =>
              { l with sessions := l.sessions.set position { t with session := session } }
          | .ok (session, some binding) =>
              l.put (l.sessions.set position ⟨session, binding⟩) binding

/-- The active bindings of the session with an id. -/
def active (l : BindingLog) (sessionId : String) : List WorkspaceBinding :=
  l.bindings.values.filter fun b => b.sessionId = sessionId ∧ b.detachedAt = none

/-- One active binding per session. -/
def OneActive (l : BindingLog) : Prop :=
  ∀ t ∈ l.sessions,
    (l.active t.session.sessionId).length ≤ 1 ∧
    (∀ b ∈ l.active t.session.sessionId,
      b.bindingId = t.session.bindingId ∧ b.workspaceId = t.session.workspaceId) ∧
    (t.session.status ∈ [.detached, .closed] → l.active t.session.sessionId = [])

end BindingLog

/-- The session is bound by the binding of that id to the workspace, and has not ended. -/
def AgentSession.BoundBy (s : AgentSession) (bindingId workspaceId : String) : Prop :=
  bindingId = s.bindingId ∧ workspaceId = s.workspaceId ∧ s.status ∉ [.detached, .closed]

namespace BindingLog

/-- What the steps have to meet. A creation, or an attachment, whose session id other sessions
have as well binds those in the same way; an attachment finds no active binding with another id;
a closed session has no active binding. -/
def Admits (l : BindingLog) : BindingStep → Prop
  | .create clock profile workspace protocolVersion _ =>
      AgentRuntime.creates profile protocolVersion = true →
        ∀ u ∈ l.sessions,
          u.session.sessionId = AgentSession.generateSessionId profile.profileId
            workspace.workspaceId (clock.iso 1) →
          u.session.BoundBy (WorkspaceBinding.generateBindingId ("pending-" ++ profile.profileId)
            workspace.workspaceId) workspace.workspaceId
  | .operate _ position (.attach workspace _) =>
      ∀ t, l.sessions[position]? = some t → t.session.status = .created →
        (∀ b ∈ l.active t.session.sessionId, b.bindingId =
          WorkspaceBinding.generateBindingId t.session.sessionId workspace.workspaceId) ∧
        ∀ u ∈ l.sessions.eraseIdx position, u.session.sessionId = t.session.sessionId →
          u.session.BoundBy (WorkspaceBinding.generateBindingId t.session.sessionId
            workspace.workspaceId) workspace.workspaceId
  | .operate _ position (.close _ _) =>
      ∀ t, l.sessions[position]? = some t → t.session.status ≠ .closed →
        l.active t.session.sessionId = []
  | .operate _ _ _ => True

/-! ## What every run keeps -/

/-- Bindings are stored under their ids, belong to sessions of the run, and the tracked binding
is the one its session names. -/
structure Filed (l : BindingLog) : Prop where
  keyed : ∀ k b, l.bindings.get? k = some b → b.bindingId = k
  owned : ∀ b ∈ l.bindings.values, ∃ t ∈ l.sessions, t.session.sessionId = b.sessionId
  tracked : ∀ t ∈ l.sessions,
    t.binding.bindingId = t.session.bindingId ∧ t.binding.sessionId = t.session.sessionId

theorem filed_empty : empty.Filed := by
  refine ⟨fun k b h => ?_, fun b hb => ?_, fun t ht => ?_⟩
  · cases h
  · cases hb
  · cases ht

theorem Filed.mem_values_put {l : BindingLog} (h : l.Filed) (sessions : List TrackedSession)
    (binding b : WorkspaceBinding) :
    b ∈ (l.put sessions binding).bindings.values ↔
      b = binding ∨ (b ∈ l.bindings.values ∧ b.bindingId ≠ binding.bindingId) := by
  simp only [put, OrdDict.mem_values_iff, OrdDict.get?_set, DictKey.norm_string]
  constructor
  · rintro ⟨k, hk⟩
    split_ifs at hk with heq
    · exact Or.inl (Option.some.inj hk).symm
    · exact Or.inr ⟨⟨k, hk⟩, fun hid => heq (hid.symm.trans (h.keyed k b hk))⟩
  · rintro (rfl | ⟨⟨k, hk⟩, hne⟩)
    · exact ⟨b.bindingId, if_pos rfl⟩
    · refine ⟨k, ?_⟩
      rw [if_neg fun heq => hne ((h.keyed k b hk).trans heq.symm)]
      exact hk

theorem mem_active {l : BindingLog} {sessionId : String} {b : WorkspaceBinding} :
    b ∈ l.active sessionId ↔
      b ∈ l.bindings.values ∧ b.sessionId = sessionId ∧ b.detachedAt = none := by
  simp [active]

/-- Returning a binding ends the active one with its id. -/
theorem Filed.mem_active_put {l : BindingLog} (h : l.Filed) {sessions : List TrackedSession}
    {binding b : WorkspaceBinding} {sessionId : String} :
    b ∈ (l.put sessions binding).active sessionId ↔
      (b = binding ∧ binding.sessionId = sessionId ∧ binding.detachedAt = none) ∨
      (b ∈ l.active sessionId ∧ b.bindingId ≠ binding.bindingId) := by
  rw [mem_active, mem_active, h.mem_values_put]
  constructor
  · rintro ⟨rfl | ⟨hb, hne⟩, hactive⟩
    · exact Or.inl ⟨rfl, hactive⟩
    · exact Or.inr ⟨⟨hb, hactive⟩, hne⟩
  · rintro (⟨rfl, hactive⟩ | ⟨⟨hb, hactive⟩, hne⟩)
    · exact ⟨Or.inl rfl, hactive⟩
    · exact ⟨Or.inr ⟨hb, hne⟩, hactive⟩

/-- A returned binding that its session names. -/
theorem Filed.put {l : BindingLog} (h : l.Filed) {sessions : List TrackedSession}
    {binding : WorkspaceBinding}
    (hkept : ∀ t ∈ l.sessions, ∃ t' ∈ sessions, t'.session.sessionId = t.session.sessionId)
    (howned : ∃ t ∈ sessions, t.session.sessionId = binding.sessionId)
    (htracked : ∀ t ∈ sessions,
      t.binding.bindingId = t.session.bindingId ∧ t.binding.sessionId = t.session.sessionId) :
    (l.put sessions binding).Filed := by
  refine ⟨fun k b hb => ?_, fun b hb => ?_, htracked⟩
  · rw [BindingLog.put, OrdDict.get?_set] at hb
    split_ifs at hb with heq
    · exact Option.some.inj hb ▸ heq
    · exact h.keyed k b hb
  · rcases (h.mem_values_put sessions binding b).mp hb with rfl | ⟨hb, _⟩
    · exact howned
    · obtain ⟨t, ht, hid⟩ := h.owned b hb
      obtain ⟨t', ht', hid'⟩ := hkept t ht
      exact ⟨t', ht', hid'.trans hid⟩

/-- The law, binding by binding: bindings are stored under their ids, so two active ones that a
session names are one. -/
theorem Filed.oneActive_iff_bound {l : BindingLog} (h : l.Filed) :
    l.OneActive ↔ ∀ t ∈ l.sessions, ∀ b ∈ l.active t.session.sessionId,
      t.session.BoundBy b.bindingId b.workspaceId := by
  constructor
  · intro hone t ht b hb
    obtain ⟨_, hnames, hended⟩ := hone t ht
    refine ⟨(hnames b hb).1, (hnames b hb).2, fun hstatus => ?_⟩
    rw [hended hstatus] at hb
    cases hb
  · intro hall t ht
    refine ⟨?_, fun b hb => ⟨(hall t ht b hb).1, (hall t ht b hb).2.1⟩, fun hstatus => ?_⟩
    · have hids : (l.bindings.values.map WorkspaceBinding.bindingId).Nodup := by
        have hkeys : l.bindings.values.map WorkspaceBinding.bindingId = l.bindings.normKeys := by
          rw [OrdDict.values, List.map_map, OrdDict.normKeys]
          exact List.map_congr_left fun e he => h.keyed e.1 e.2 (OrdDict.get?_of_mem he)
        exact hkeys ▸ l.bindings.normKeys_nodup
      have hactive := hids.sublist ((List.filter_sublist
        (p := fun b => b.sessionId = t.session.sessionId ∧ b.detachedAt = none)).map
          WorkspaceBinding.bindingId)
      have hsame : (l.active t.session.sessionId).map WorkspaceBinding.bindingId =
          List.replicate (l.active t.session.sessionId).length t.session.bindingId := by
        rw [List.eq_replicate_iff, List.length_map]
        refine ⟨rfl, fun id hid => ?_⟩
        obtain ⟨b, hb, rfl⟩ := List.mem_map.mp hid
        exact (hall t ht b hb).1
      exact List.nodup_replicate.mp (hsame ▸ hactive)
    · exact List.eq_nil_iff_forall_not_mem.mpr fun b hb => (hall t ht b hb).2.2 hstatus

/-! ## What one step does -/

/-- A session is replaced by one that is bound in the same way. -/
theorem Filed.replace {l : BindingLog} (h : l.Filed) {position : Nat} {t : TrackedSession}
    (ht : l.sessions[position]? = some t) {session : AgentSession}
    (hsession : session.sessionId = t.session.sessionId)
    (hbinding : session.bindingId = t.session.bindingId) :
    { l with sessions := l.sessions.set position { t with session := session } }.Filed := by
  refine ⟨h.keyed, fun b hb => ?_, fun u hu => ?_⟩
  · obtain ⟨u, hu, hid⟩ := h.owned b hb
    rcases (List.mem_iff_eraseIdx ht u).mp hu with hu | rfl
    · exact ⟨u, (List.mem_set_iff_eraseIdx ht _ u).mpr (Or.inl hu), hid⟩
    · exact ⟨_, (List.mem_set_iff_eraseIdx ht _ _).mpr (Or.inr rfl), hsession.trans hid⟩
  · rcases (List.mem_set_iff_eraseIdx ht _ u).mp hu with hu | rfl
    · exact h.tracked u ((List.mem_iff_eraseIdx ht u).mpr (Or.inl hu))
    · obtain ⟨hid, hsid⟩ := h.tracked t (List.mem_of_getElem? ht)
      exact ⟨hid.trans hbinding.symm, hsid.trans hsession.symm⟩

/-- A session is replaced, and a binding with its id is returned. -/
theorem Filed.putAt {l : BindingLog} (h : l.Filed) {position : Nat} {t : TrackedSession}
    (ht : l.sessions[position]? = some t) (session : AgentSession) (binding : WorkspaceBinding)
    (hsession : session.sessionId = t.session.sessionId)
    (hid : binding.bindingId = session.bindingId) (hsid : binding.sessionId = session.sessionId) :
    (l.put (l.sessions.set position ⟨session, binding⟩) binding).Filed := by
  refine h.put (fun u hu => ?_)
    ⟨_, (List.mem_set_iff_eraseIdx ht _ _).mpr (Or.inr rfl), hsid.symm⟩ fun u hu => ?_
  · rcases (List.mem_iff_eraseIdx ht u).mp hu with hu | rfl
    · exact ⟨u, (List.mem_set_iff_eraseIdx ht _ u).mpr (Or.inl hu), rfl⟩
    · exact ⟨_, (List.mem_set_iff_eraseIdx ht _ _).mpr (Or.inr rfl), hsession⟩
  · rcases (List.mem_set_iff_eraseIdx ht _ u).mp hu with hu | rfl
    · exact h.tracked u ((List.mem_iff_eraseIdx ht u).mpr (Or.inl hu))
    · exact ⟨hid, hsid⟩

/-- A new session comes with its binding. -/
theorem Filed.putNew {l : BindingLog} (h : l.Filed) {session : AgentSession}
    {binding : WorkspaceBinding} (hid : binding.bindingId = session.bindingId)
    (hsid : binding.sessionId = session.sessionId) :
    (l.put (l.sessions ++ [⟨session, binding⟩]) binding).Filed := by
  refine h.put (fun t ht => ⟨t, List.mem_append_left _ ht, rfl⟩)
    ⟨_, List.mem_append_right _ (List.mem_singleton_self _), hsid.symm⟩ fun t ht => ?_
  rcases List.mem_append.mp ht with ht | ht
  · exact h.tracked t ht
  · rw [List.mem_singleton.mp ht]
    exact ⟨hid, hsid⟩

/-- The law after a binding is returned for the session `x` next to the others. -/
theorem Filed.oneActive_put {l : BindingLog} (h : l.Filed) {others sessions : List TrackedSession}
    {binding : WorkspaceBinding} {x : TrackedSession} (hput : (l.put sessions binding).Filed)
    (hothers : ∀ u ∈ others, ∀ b ∈ l.active u.session.sessionId,
      u.session.BoundBy b.bindingId b.workspaceId)
    (hmem : ∀ t, t ∈ sessions ↔ t ∈ others ∨ t = x) :
    (l.put sessions binding).OneActive ↔
      (binding.detachedAt = none → ∀ u ∈ others, u.session.sessionId = binding.sessionId →
        u.session.BoundBy binding.bindingId binding.workspaceId) ∧
      ∀ b ∈ (l.put sessions binding).active x.session.sessionId,
        x.session.BoundBy b.bindingId b.workspaceId := by
  rw [hput.oneActive_iff_bound]
  constructor
  · intro hall
    refine ⟨fun hactive u hu hsid => hall u ((hmem u).mpr (Or.inl hu)) binding ?_,
      hall x ((hmem x).mpr (Or.inr rfl))⟩
    exact h.mem_active_put.mpr (Or.inl ⟨rfl, hsid.symm, hactive⟩)
  · rintro ⟨hnew, hx⟩ t ht b hb
    rcases (hmem t).mp ht with hu | rfl
    · rcases h.mem_active_put.mp hb with ⟨rfl, hsid, hactive⟩ | ⟨hb, _⟩
      · exact hnew hactive t hu hsid.symm
      · exact hothers t hu b hb
    · exact hx b hb

theorem Filed.step {l : BindingLog} (h : l.Filed) (a : BindingStep) : (l.step a).Filed := by
  cases a with
  | create clock profile workspace protocolVersion denied =>
      rw [BindingLog.step]
      split
      · rename_i session binding rest hcreate
        obtain ⟨-, -, -, -, -, hid, hsid, -⟩ := AgentRuntime.createSession_eq_ok hcreate
        exact h.putNew hid.symm hsid
      · exact h
  | operate clock position op =>
      rw [BindingLog.step]
      split
      · exact h
      · rename_i t ht
        split
        · exact h
        · rename_i session hrun
          obtain ⟨hsession, hbinding, -⟩ := BindingOperation.run_eq_ok_none hrun
          exact h.replace ht hsession hbinding
        · rename_i session binding hrun
          rcases BindingOperation.run_eq_ok_some hrun with ⟨_, _, rfl, _, heq⟩ | ⟨rfl, heq⟩
          · cases heq
            exact h.putAt ht _ _ rfl rfl rfl
          · cases heq
            obtain ⟨hid, hsid⟩ := h.tracked t (List.mem_of_getElem? ht)
            exact h.putAt ht _ _ rfl hid hsid

/-! ## The law along a run -/

/-- An operation that returns no binding keeps the law exactly if its session stays bound by its
active bindings. -/
theorem Filed.oneActive_replace {l : BindingLog} (h : l.Filed) (hone : l.OneActive)
    {position : Nat} {t : TrackedSession} (ht : l.sessions[position]? = some t)
    {session : AgentSession} (hsession : session.sessionId = t.session.sessionId)
    (hbinding : session.bindingId = t.session.bindingId) :
    ({ l with sessions :=
      l.sessions.set position { t with session := session } } : BindingLog).OneActive ↔
      ∀ b ∈ l.active t.session.sessionId, session.BoundBy b.bindingId b.workspaceId := by
  rw [(h.replace ht hsession hbinding).oneActive_iff_bound]
  constructor
  · intro hall b hb
    have hx := hall _ ((List.mem_set_iff_eraseIdx ht _ _).mpr (Or.inr rfl))
    exact hx b (hsession.symm ▸ hb)
  · intro hself u hu b hb
    rcases (List.mem_set_iff_eraseIdx ht _ u).mp hu with hu | rfl
    · exact h.oneActive_iff_bound.mp hone u ((List.mem_iff_eraseIdx ht u).mpr (Or.inl hu)) b hb
    · exact hself b (hsession ▸ hb)

/-- An attachment keeps the law exactly if it is admitted. -/
theorem Filed.oneActive_attach {l : BindingLog} (h : l.Filed) (hone : l.OneActive) (clock : Clock)
    {position : Nat} {t : TrackedSession} (ht : l.sessions[position]? = some t)
    (workspaceId : String) :
    (l.put (l.sessions.set position ⟨(WorkspaceBinder.attach clock t.session workspaceId).1,
      (WorkspaceBinder.attach clock t.session workspaceId).2⟩)
      (WorkspaceBinder.attach clock t.session workspaceId).2).OneActive ↔
      (∀ b ∈ l.active t.session.sessionId,
        b.bindingId = WorkspaceBinding.generateBindingId t.session.sessionId workspaceId) ∧
      ∀ u ∈ l.sessions.eraseIdx position, u.session.sessionId = t.session.sessionId →
        u.session.BoundBy (WorkspaceBinding.generateBindingId t.session.sessionId workspaceId)
          workspaceId := by
  have hlaw := h.oneActive_iff_bound.mp hone
  have hput := h.putAt ht (WorkspaceBinder.attach clock t.session workspaceId).1
    (WorkspaceBinder.attach clock t.session workspaceId).2 rfl rfl rfl
  rw [h.oneActive_put hput
    (fun u hu => hlaw u ((List.mem_iff_eraseIdx ht u).mpr (Or.inl hu)))
    (List.mem_set_iff_eraseIdx ht _)]
  constructor
  · rintro ⟨hothers, hself⟩
    refine ⟨fun b hb => ?_, hothers rfl⟩
    by_contra hne
    exact hne (hself b (h.mem_active_put.mpr (Or.inr ⟨hb, hne⟩))).1
  · rintro ⟨hself, hothers⟩
    refine ⟨fun _ => hothers, fun b hb => ?_⟩
    rcases h.mem_active_put.mp hb with ⟨rfl, -, -⟩ | ⟨hb, hne⟩
    · exact ⟨rfl, rfl, by simp [WorkspaceBinder.attach]⟩
    · exact absurd (hself b hb) hne

/-- A detachment keeps the law: it is given the only binding that can be active. -/
theorem Filed.oneActive_detach {l : BindingLog} (h : l.Filed) (hone : l.OneActive) (clock : Clock)
    {position : Nat} {t : TrackedSession} (ht : l.sessions[position]? = some t) :
    (l.put (l.sessions.set position ⟨(WorkspaceBinder.detach clock t.session t.binding).1,
      (WorkspaceBinder.detach clock t.session t.binding).2⟩)
      (WorkspaceBinder.detach clock t.session t.binding).2).OneActive := by
  have hlaw := h.oneActive_iff_bound.mp hone
  obtain ⟨hid, hsid⟩ := h.tracked t (List.mem_of_getElem? ht)
  have hput := h.putAt ht (WorkspaceBinder.detach clock t.session t.binding).1
    (WorkspaceBinder.detach clock t.session t.binding).2 rfl hid hsid
  rw [h.oneActive_put hput
    (fun u hu => hlaw u ((List.mem_iff_eraseIdx ht u).mpr (Or.inl hu)))
    (List.mem_set_iff_eraseIdx ht _)]
  refine ⟨fun hactive => ?_, fun b hb => ?_⟩
  · cases hactive
  rcases h.mem_active_put.mp hb with ⟨-, -, hactive⟩ | ⟨hb, hne⟩
  · cases hactive
  · exact absurd ((hlaw t (List.mem_of_getElem? ht) b hb).1.trans hid.symm) hne

/-- A creation keeps the law exactly if it is admitted. An active binding under the id of the
new session belongs to an earlier session with that id, which is bound as the new one is. -/
theorem Filed.oneActive_create {l : BindingLog} (h : l.Filed) (hone : l.OneActive) {clock : Clock}
    {profile : AgentProfile} {workspace : Workspace} {protocolVersion : String}
    {denied : Option (Finset Capability)} {session : AgentSession} {binding : WorkspaceBinding}
    {capabilities : AgentCapabilities} {event : SessionCreatedPayload}
    (hcreate : AgentRuntime.createSession clock profile workspace protocolVersion denied =
      .ok (.ok (session, binding, capabilities, event))) :
    (l.put (l.sessions ++ [⟨session, binding⟩]) binding).OneActive ↔
      ∀ u ∈ l.sessions, u.session.sessionId = session.sessionId →
        u.session.BoundBy binding.bindingId binding.workspaceId := by
  obtain ⟨-, hworkspace, hstatus, -, -, hid, hsid, hbound, hactive⟩ :=
    AgentRuntime.createSession_eq_ok hcreate
  have hlaw := h.oneActive_iff_bound.mp hone
  rw [h.oneActive_put (x := ⟨session, binding⟩) (h.putNew hid.symm hsid) hlaw (fun t => by simp)]
  constructor
  · rintro ⟨hothers, -⟩ u hu hsame
    exact hothers hactive u hu (hsame.trans hsid.symm)
  · intro hothers
    refine ⟨fun _ u hu hsame => hothers u hu (hsame.trans hsid), fun b hb => ?_⟩
    rcases h.mem_active_put.mp hb with ⟨rfl, -, -⟩ | ⟨hb, hne⟩
    · exact ⟨hid.symm, hbound.trans hworkspace.symm, by simp [hstatus]⟩
    · obtain ⟨u, hu, hsame⟩ := h.owned b (mem_active.mp hb).1
      have husid : u.session.sessionId = session.sessionId :=
        hsame.trans (mem_active.mp hb).2.1
      have hold := hlaw u hu b (husid ▸ hb)
      exact absurd (hold.1.trans (hothers u hu husid).1.symm) hne

/-- An operation keeps the law exactly if it is admitted. -/
theorem Filed.oneActive_operate {l : BindingLog} (h : l.Filed) (hone : l.OneActive) (clock : Clock)
    (position : Nat) (op : BindingOperation) :
    (l.step (.operate clock position op)).OneActive ↔ l.Admits (.operate clock position op) := by
  rw [BindingLog.step]
  split
  · rename_i hnone
    apply iff_of_true hone
    cases op <;> simp [Admits, hnone]
  · rename_i t ht
    split
    · rename_i e hrun
      obtain ⟨hattach, hclose⟩ := BindingOperation.run_eq_error hrun
      apply iff_of_true hone
      cases op with
      | attach workspace capabilities =>
          intro u hu hstatus
          cases ht.symm.trans hu
          exact absurd hstatus (hattach _ _ rfl)
      | close packages events =>
          intro u hu hstatus
          cases ht.symm.trans hu
          exact absurd (hclose _ _ rfl) hstatus
      | pause | resume | streamPackage | detach => trivial
    · rename_i session hrun
      obtain ⟨hsession, hbinding, hworkspace, hcase⟩ := BindingOperation.run_eq_ok_none hrun
      rw [h.oneActive_replace hone ht hsession hbinding]
      rcases hcase with ⟨packages, events, rfl, hstatus, hclosed⟩ | ⟨hop, hopen⟩
      · constructor
        · intro hall u hu _
          cases ht.symm.trans hu
          refine List.eq_nil_iff_forall_not_mem.mpr fun b hb => ?_
          exact (hall b hb).2.2 (by simp [hclosed])
        · intro hnil b hb
          rw [hnil t ht hstatus] at hb
          cases hb
      · have hadmits : l.Admits (.operate clock position op) := by
          rcases hop with hop | ⟨contextId, rfl⟩
          · rcases List.mem_pair.mp hop with rfl | rfl <;> trivial
          · trivial
        refine iff_of_true (fun b hb => ?_) hadmits
        have hold := h.oneActive_iff_bound.mp hone t (List.mem_of_getElem? ht) b hb
        exact ⟨hold.1.trans hbinding.symm, hold.2.1.trans hworkspace.symm, hopen⟩
    · rename_i session binding hrun
      rcases BindingOperation.run_eq_ok_some hrun with
        ⟨workspace, capabilities, rfl, hstatus, heq⟩ | ⟨rfl, heq⟩
      · cases heq
        apply (h.oneActive_attach hone clock ht workspace.workspaceId).trans
        rw [Admits]
        constructor
        · intro hall u hu _
          cases ht.symm.trans hu
          exact hall
        · intro hall
          exact hall t ht hstatus
      · cases heq
        exact iff_of_true (h.oneActive_detach hone clock ht) trivial

/-- A step keeps the law exactly if it is admitted. -/
theorem Filed.oneActive_step {l : BindingLog} (h : l.Filed) (hone : l.OneActive)
    (a : BindingStep) : (l.step a).OneActive ↔ l.Admits a := by
  cases a with
  | create clock profile workspace protocolVersion denied =>
      rw [Admits, BindingLog.step,
        AgentRuntime.createSession_isOk_iff clock profile workspace protocolVersion denied]
      split
      · rename_i session binding rest hcreate
        obtain ⟨-, -, -, hsid, hid, -, -, hbound, -⟩ := AgentRuntime.createSession_eq_ok hcreate
        rw [h.oneActive_create hone hcreate, hsid, hid, hbound]
        exact ⟨fun hall _ => hall, fun hall => hall ⟨_, hcreate⟩⟩
      · rename_i hfail
        apply iff_of_true hone
        rintro ⟨⟨session, binding, rest⟩, hr⟩
        exact (hfail session binding rest hr).elim
  | operate clock position op => exact h.oneActive_operate hone clock position op

theorem oneActive_empty : empty.OneActive := fun _ ht => by cases ht

/-- Every state of a run has one active binding per session exactly if each step of the run is
admitted where it happens. -/
theorem oneActive_iff (steps : List BindingStep) :
    (∀ pre, pre <+: steps → (pre.foldl step empty).OneActive) ↔
      ∀ pre a post, steps = pre ++ a :: post → (pre.foldl step empty).Admits a :=
  Fold.always_iff_of_invariant (fun _ a h => h.step a) (fun _ a h hone => h.oneActive_step hone a)
    filed_empty oneActive_empty steps

end BindingLog

/-- A session is created and attached to its workspace. -/
def attachedSteps : List BindingStep :=
  [.create (.at "1") sampleProfile ⟨"WS-1"⟩ "1.0.0" none,
    .operate (.at "2") 0 (.attach ⟨"WS-1"⟩ ⟨"AGNT-1", ∅, ∅, "2"⟩)]

/-- The binding of the creation and that of the attachment are both active. -/
theorem not_oneActive_attached : ¬ (attachedSteps.foldl BindingLog.step .empty).OneActive := by
  intro h
  have hlen : ∀ t ∈ (attachedSteps.foldl BindingLog.step .empty).sessions,
      ((attachedSteps.foldl BindingLog.step .empty).active t.session.sessionId).length ≤ 1 :=
    fun t ht => (h t ht).1
  revert hlen
  decide +kernel

end RationaleVault.Runtime
