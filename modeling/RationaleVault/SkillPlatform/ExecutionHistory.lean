import RationaleVault.Library.Tally
import RationaleVault.SkillPlatform.ExecutionState

/-!
# What the execution state says of a history

The lists of a state hold the reported executions by class, and its counts and durations are
those of the executions of each skill.
-/

namespace RationaleVault.SkillPlatform

/-- The executions that a history reports. -/
def executionEntries (events : List EventRecord) : List ExecutionEntry :=
  (events.filter fun event => event.eventType = .skillExecuted).map fun event =>
    .ofPayload event.payload

/-- The skill id as a key. -/
def ExecutionEntry.skill? (e : ExecutionEntry) : Option AtomNorm :=
  match e.skillId with
  | .atom a => some (DictKey.norm a)
  | .arr _ => none
  | .obj _ => none

/-- `e.skill_id == skill_id` for a key. -/
def ExecutionEntry.hasSkill (e : ExecutionEntry) (skillId : Atom) : Bool :=
  e.skill? = some (DictKey.norm skillId)

/-- The skill of a completed execution. -/
def ExecutionEntry.success? (e : ExecutionEntry) : Option AtomNorm :=
  if e.state = .str "COMPLETED" then e.skill? else none

namespace ExecutionState

/-- The lists of executions one after another. -/
def allExecutions (s : ExecutionState) : List ExecutionEntry :=
  s.completedExecutions ++ s.failedExecutions ++ s.timeoutExecutions ++ s.deniedExecutions

/-- The state is that of the executions. -/
structure Tracks (s : ExecutionState) (es : List ExecutionEntry) : Prop where
  classes : ∀ c, s.executions c = es.filter fun e => ExecutionClass.ofState e.state = c
  skills : ∀ e ∈ es, ∃ skillId, e.skillId = .atom skillId
  counts : Tally.Counts ExecutionEntry.skill? es s.executionCounts
  successes : Tally.Counts ExecutionEntry.success? es s.successCounts
  durations : ∀ skillId, (s.durations.get? skillId).getD [] =
    (es.filter fun e => e.hasSkill skillId && decide (e.durationMs ≠ .null)).map
      ExecutionEntry.durationMs

/-- The four lists have every execution once. -/
theorem Tracks.perm {s : ExecutionState} {es : List ExecutionEntry} (h : s.Tracks es) :
    s.allExecutions.Perm es := by
  have hclasses : ∀ e ∈ es, ExecutionClass.ofState e.state ∈
      [ExecutionClass.completed, .failed, .timeout, .denied] := by
    intro e _
    cases ExecutionClass.ofState e.state <;> decide
  have hperm := Tally.perm_fibers (by decide) hclasses
  have hall : s.allExecutions = [ExecutionClass.completed, .failed, .timeout, .denied].flatMap
      fun c => es.filter fun e => ExecutionClass.ofState e.state = c := by
    simp only [← h.classes]
    simp [allExecutions, executions]
  exact hall ▸ hperm

end ExecutionState

namespace ExecutionFold

theorem successCounts_classify (f : ExecutionFold) (skillId : Atom) (entry : ExecutionEntry) :
    (f.classify skillId entry).successCounts =
      if entry.state = .str "COMPLETED" then Tally.bump f.successCounts skillId
      else f.successCounts := by
  rw [classify]
  split_ifs <;> rfl

theorem executionCounts_classify (f : ExecutionFold) (skillId : Atom) (entry : ExecutionEntry) :
    (f.classify skillId entry).executionCounts = f.executionCounts := by
  rw [classify]
  split_ifs <;> rfl

theorem durations_classify (f : ExecutionFold) (skillId : Atom) (entry : ExecutionEntry) :
    (f.classify skillId entry).durations = f.durations := by
  rw [classify]
  split_ifs <;> rfl

/-- The fold of a state with one more execution of a skill, before it is classified. -/
def note (f : ExecutionFold) (decisionId skillId : Atom) (entry : ExecutionEntry) :
    ExecutionFold :=
  { f with
    executedDecisionIds := f.executedDecisionIds.set decisionId ()
    executionCounts := Tally.bump f.executionCounts skillId
    durations :=
      if entry.durationMs = .null then f.durations
      else f.durations.set skillId ((f.durations.get? skillId).getD [] ++ [entry.durationMs]) }

/-- What one event does. -/
theorem step_cases {f f' : ExecutionFold} {event : EventRecord} (h : f.step event = .ok f') :
    event.eventType ≠ .skillExecuted ∧ f' = f ∨
      event.eventType = .skillExecuted ∧ ∃ decisionId skillId : Atom,
        (ExecutionEntry.ofPayload event.payload).skillId = .atom skillId ∧
          f' = (f.note decisionId skillId (.ofPayload event.payload)).classify skillId
            (.ofPayload event.payload) := by
  rw [step] at h
  by_cases htype : event.eventType = .skillExecuted
  · rw [if_neg (not_not.mpr htype)] at h
    obtain ⟨decisionId, -, h⟩ := Except.bind_eq_ok_iff.mp h
    obtain ⟨skillId, hskill, h⟩ := Except.bind_eq_ok_iff.mp h
    obtain rfl := Except.pure_eq_ok_iff.mp h
    refine .inr ⟨htype, decisionId, skillId, ?_, rfl⟩
    cases hid : (ExecutionEntry.ofPayload event.payload).skillId with
    | atom a =>
        rw [hid] at hskill
        exact congrArg Json.atom (Except.ok.inj hskill)
    | arr items =>
        rw [hid] at hskill
        cases hskill
    | obj members =>
        rw [hid] at hskill
        cases hskill
  · rw [if_pos htype] at h
    exact .inl ⟨htype, (Except.ok.inj h).symm⟩

theorem tracks_classify {f : ExecutionFold} {known : Option (List String)}
    {es : List ExecutionEntry} (h : (f.toState known).Tracks es) {entry : ExecutionEntry}
    {decisionId skillId : Atom} (hskill : entry.skillId = .atom skillId) :
    (((f.note decisionId skillId entry).classify skillId entry).toState known).Tracks
      (es ++ [entry]) := by
  have hkey : entry.skill? = some (DictKey.norm skillId) := by rw [ExecutionEntry.skill?, hskill]
  refine ⟨fun c => ?_, fun e he => ?_, ?_, ?_, fun k => ?_⟩
  · have hnote : ((f.note decisionId skillId entry).toState known).executions c =
        (f.toState known).executions c := by cases c <;> rfl
    rw [adds_classify, hnote, h.classes, List.filter_append, List.filter_cons, List.filter_nil]
    simp only [decide_eq_true_eq, @eq_comm _ c]
  · rcases List.mem_append.mp he with he | he
    · exact h.skills e he
    · rw [List.mem_singleton.mp he]
      exact ⟨skillId, hskill⟩
  · change Tally.Counts _ _ ((f.note decisionId skillId entry).classify skillId entry).executionCounts
    rw [executionCounts_classify]
    exact Tally.Counts.concat_bump h.counts hkey
  · change Tally.Counts _ _ ((f.note decisionId skillId entry).classify skillId entry).successCounts
    rw [successCounts_classify]
    split_ifs with hcompleted
    · refine Tally.Counts.concat_bump h.successes ?_
      rw [ExecutionEntry.success?, if_pos hcompleted, hkey]
    · refine Tally.Counts.concat_of_none h.successes ?_
      rw [ExecutionEntry.success?, if_neg hcompleted]
  · change (((f.note decisionId skillId entry).classify skillId entry).durations.get? k).getD [] = _
    have hold := h.durations k
    change (f.durations.get? k).getD [] = _ at hold
    rw [durations_classify, List.filter_append, List.map_append, ← hold, List.filter_cons,
      List.filter_nil, ExecutionEntry.hasSkill, hkey, note]
    by_cases hnull : entry.durationMs = .null
    · simp [hnull]
    · by_cases hk : DictKey.norm skillId = DictKey.norm k
      · simp [hnull, OrdDict.get?_set, hk, OrdDict.get?_congr hk]
      · simp [hnull, OrdDict.get?_set, hk]

/-- What the events of a history do. -/
theorem tracks_foldlM {events : List EventRecord} {known : Option (List String)}
    {f f' : ExecutionFold} {es : List ExecutionEntry} (hf : (f.toState known).Tracks es)
    (h : events.foldlM step f = .ok f') :
    (f'.toState known).Tracks (es ++ executionEntries events) := by
  induction events generalizing f es with
  | nil =>
      rw [List.foldlM_nil, Except.pure_eq_ok_iff] at h
      rw [← h, executionEntries, List.filter_nil, List.map_nil, List.append_nil]
      exact hf
  | cons event rest ih =>
      rw [List.foldlM_cons, Except.bind_eq_ok_iff] at h
      obtain ⟨f₁, hstep, hrest⟩ := h
      obtain ⟨htype, rfl⟩ | ⟨htype, decisionId, skillId, hskill, rfl⟩ := step_cases hstep
      · rw [executionEntries, List.filter_cons_of_neg (by simpa using htype)]
        exact ih hf hrest
      · rw [executionEntries, List.filter_cons_of_pos (by simpa using htype), List.map_cons,
          ← List.singleton_append, ← List.append_assoc]
        exact ih (tracks_classify hf hskill) hrest

end ExecutionFold

/-- The state of a history is that of the executions it reports. -/
theorem ExecutionStateProjection.reduce_tracks {events : List EventRecord}
    {known : Option (List String)} {s : ExecutionState} (h : reduce events known = .ok s) :
    s.Tracks (executionEntries events) := by
  obtain ⟨f, hf, hs⟩ := Except.bind_eq_ok_iff.mp h
  obtain rfl := Except.pure_eq_ok_iff.mp hs
  have hempty : ((({} : ExecutionFold).toState known).Tracks []) :=
    ⟨fun c => by cases c <;> rfl, fun _ he => absurd he List.not_mem_nil, .nil, .nil, fun _ => rfl⟩
  exact ExecutionFold.tracks_foldlM hempty hf

end RationaleVault.SkillPlatform
