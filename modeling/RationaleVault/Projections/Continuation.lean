import RationaleVault.CognitiveHead.Blockers
import RationaleVault.Library.Grouping
import RationaleVault.PythonText

/-!
# The continuation projection

A second reader of the same stream, for an agent that resumes work. It shows the
tasks that are in progress and those that are open, where the cognitive head
shows every task that is not completed. So a task with another status is lost to
the continuation, and with it the questions the task says it waits for.
-/

namespace RationaleVault

/-! ## Sessions -/

structure SessionSummary where
  sessionId : String
  actor : String
  eventCount : Nat
  firstEventAt : Json
  lastEventAt : Json
  eventTypesSeen : List String
  sourceEventSeqs : List Nat
  deriving DecidableEq

namespace SessionProjection

/-- `sorted(events, key=lambda e: e.event_sequence)`. -/
def bySequence (events : List EventRecord) : List EventRecord :=
  events.insertionSort fun e e' => e.eventSequence ≤ e'.eventSequence

/-- The summary of one session. -/
def summary (sessionId : String) (events : List EventRecord) : Option SessionSummary :=
  let sorted := bySequence events
  match sorted.head?, sorted.getLast? with
  | some first, some last => some {
      sessionId := sessionId
      actor := first.metadata.actor
      eventCount := sorted.length
      firstEventAt := first.recordedIso
      lastEventAt := last.recordedIso
      eventTypesSeen := sorted.foldl (fun seen e =>
        if e.eventType.value ∈ seen then seen else seen ++ [e.eventType.value]) []
      sourceEventSeqs := sorted.map EventRecord.eventSequence }
  | _, _ => none

/-- `(s.last_event_at or "", max(s.source_event_seqs))`. -/
def sortKey (s : SessionSummary) : String × Nat :=
  (match s.lastEventAt with
    | .str at_ => at_
    | _ => "", s.sourceEventSeqs.max?.getD 0)

/-- `project(events)`: the session with the latest event first. -/
def project (events : List EventRecord) : List SessionSummary :=
  let sessions : OrdDict String (List EventRecord) :=
    Grouping.group (fun e : EventRecord => e.metadata.sessionId) (fun _ => [])
      (fun group e => group ++ [e]) (events.filter fun e => e.metadata.sessionId ≠ "")
  let summaries := sessions.entries.filterMap fun e => summary e.1 e.2
  summaries.insertionSort fun s s' =>
    (sortKey s').1 < (sortKey s).1 ∨
      ((sortKey s').1 = (sortKey s).1 ∧ (sortKey s').2 ≤ (sortKey s).2)

/-- `last_session(events)`. -/
def lastSession (events : List EventRecord) : Option SessionSummary := (project events).head?

end SessionProjection

/-! ## The continuation -/

/-- A `CONTEXT_SNAPSHOT_RECORDED` event as the continuation shows it. -/
structure ContextSnapshot where
  summary : Json
  nextAction : Json
  blockedOn : Json
  eventSequence : Nat
  recordedAt : Json
  actor : String
  deriving DecidableEq

structure RecentEvent where
  eventSequence : Nat
  eventType : String
  recordedAt : Json
  actor : String
  deriving DecidableEq

/-- The event sequences behind each part of the continuation. -/
structure ContinuationProvenance where
  inProgressTasks : List Nat
  openQuestions : List Nat
  recentDecisions : List Nat
  contextSnapshots : List Nat
  recentEvents : List Nat
  lastSession : List Nat
  deriving DecidableEq

structure ContinuationState where
  projectId : String
  projectName : Json
  projectGoal : Json
  currentFocus : Json
  compiledAt : String
  lastSession : Option SessionSummary
  inProgressTasks : List TaskState
  openTasks : List TaskState
  recentDecisions : List DecisionState
  openQuestions : List QuestionState
  blockers : List Blocker
  recentEvents : List RecentEvent
  contextSnapshots : List ContextSnapshot
  nextActions : List Json
  provenance : ContinuationProvenance
  deriving DecidableEq

namespace ContinuationProjection

/-- `[t for t in tasks.values() if t.status == status]`. -/
def tasksWith (status : String) (tasks : TaskDict) : List TaskState :=
  tasks.values.filter fun t => t.status = .str status

/-- The sequence of the last proposal or acceptance of each decision. -/
def decisionLastSeq (events : List EventRecord) : Except Exc (OrdDict Atom Nat) :=
  events.foldlM (fun seqs e => do
    if e.eventType = .decisionProposed ∨ e.eventType = .decisionAccepted then
      match e.payload.lookup "decision_id" with
      | some id => return seqs.set (← id.hash) e.eventSequence
      | none => return seqs
    else return seqs) .empty

/-- The last five accepted decisions, the latest one last. -/
def recentDecisions (events : List EventRecord) (decisions : DecisionDict) :
    Except Exc (List DecisionState) := do
  let lastSeq ← decisionLastSeq events
  let ranked ← (activeDecisionsOf decisions).mapM fun d => do
    return (d, (lastSeq.get? (← d.decisionId.hash)).getD 0)
  let sorted := ranked.insertionSort fun d d' => d'.2 ≤ d.2
  return ((sorted.take 5).map Prod.fst).reverse

/-- `xs[-n:]`. -/
def lastOf {α : Type} (n : Nat) (xs : List α) : List α := xs.drop (xs.length - n)

def contextSnapshot (e : EventRecord) : ContextSnapshot where
  summary := e.payload.getD "summary" (.str "")
  nextAction := e.payload.get "next_action"
  blockedOn := e.payload.get "blocked_on"
  eventSequence := e.eventSequence
  recordedAt := e.recordedIso
  actor := e.metadata.actor

def recentEvent (e : EventRecord) : RecentEvent where
  eventSequence := e.eventSequence
  eventType := e.eventType.value
  recordedAt := e.recordedIso
  actor := e.metadata.actor

/-- The actions to resume with, in the order they should be taken. -/
def nextActions (f : FormatText) (latest : Option ContextSnapshot)
    (openQuestions : List QuestionState) (inProgressTasks openTasks : List TaskState) :
    List Json :=
  let unblock := match latest with
    | some c => if c.blockedOn.truthy then [Json.str ("Unblock: " ++ f.format c.blockedOn)] else []
    | none => []
  let resolve := openQuestions.map fun q => Json.str ("Resolve: " ++ f.format q.title)
  let next := match latest with
    | some c => if c.nextAction.truthy then [c.nextAction] else []
    | none => []
  let continued := inProgressTasks.map fun t => Json.str ("Continue: " ++ f.format t.title)
  let start := openTasks.map fun t => Json.str ("Start: " ++ f.format t.title)
  let actions := unblock ++ resolve ++ next ++ continued ++ start
  if actions = [] then [.str "Review project state and propose the next sprint."] else actions

/-- `{x.id for x in items}`. -/
def idSet {α : Type} (id : α → Json) (items : List α) : Except Exc (OrdDict Atom Unit) :=
  items.foldlM (fun ids x => do return ids.set (← (id x).hash) ()) .empty

/-- The sequences of the events that name one of the items. -/
def sequencesOf (id : EventRecord → Json) (ids : OrdDict Atom Unit) (events : List EventRecord) :
    Except Exc (List Nat) := do
  let seqs ← events.foldlM (fun seqs e => do
    if (id e).truthy then
      if ids.contains (← (id e).hash) then return seqs ++ [e.eventSequence] else return seqs
    else return seqs) []
  return seqs.insertionSort (· ≤ ·)

/-- `project(project_id, store, reference_time)`; `events` is the stream of the project and `now`
what the clock says. -/
def project (f : FormatText) (p : UUID) (events : List EventRecord)
    (referenceTime : Option DateTime) (now : String) : Except Exc ContinuationState := do
  checkBootstrap (bootstrapMessage p) events
  let s ← ReducerState.initial.reduce events
  let inProgressTasks ← sortByPriority TaskState.priority (tasksWith "in_progress" s.tasks)
  let openTasks ← sortByPriority TaskState.priority (tasksWith "open" s.tasks)
  let openQuestions ← sortByPriority QuestionState.priority (openQuestionsOf s.questions)
  let decisions ← recentDecisions events s.decisions
  let m ← blockerMap s.tasks (inProgressTasks ++ openTasks) openQuestions
  let blockers ← blockerEntries s.tasks m.entries
  let lastSession := SessionProjection.lastSession events
  let records := SessionProjection.bySequence
    (events.filter fun e => e.eventType = .contextSnapshotRecorded)
  let contextSnapshots := (lastOf 10 records).map contextSnapshot
  let recentEvents := (lastOf 10 (SessionProjection.bySequence events)).map recentEvent
  let taskSeqs ← sequencesOf taskIdOf (← idSet TaskState.taskId inProgressTasks) events
  let questionSeqs ← sequencesOf questionIdOf (← idSet QuestionState.questionId openQuestions)
    events
  let decisionSeqs ← sequencesOf decisionIdOf (← idSet DecisionState.decisionId decisions) events
  return {
    projectId := p.str
    projectName := s.project.name
    projectGoal := s.project.goal
    currentFocus := s.project.currentFocus
    compiledAt := (referenceTime.map DateTime.isoformat).getD now
    lastSession := lastSession
    inProgressTasks := inProgressTasks
    openTasks := openTasks
    recentDecisions := decisions
    openQuestions := openQuestions
    blockers := blockers
    recentEvents := recentEvents
    contextSnapshots := contextSnapshots
    nextActions :=
      nextActions f contextSnapshots.getLast? openQuestions inProgressTasks openTasks
    provenance := {
      inProgressTasks := taskSeqs
      openQuestions := questionSeqs
      recentDecisions := decisionSeqs
      contextSnapshots := (contextSnapshots.map ContextSnapshot.eventSequence).insertionSort (· ≤ ·)
      recentEvents := (recentEvents.map RecentEvent.eventSequence).insertionSort (· ≤ ·)
      lastSession := (lastSession.map SessionSummary.sourceEventSeqs).getD [] } }

/-! ## Continuation and head -/

/-- The two views list the same unfinished tasks, open questions and blockers. -/
structure SameStory (c : ContinuationState) (head : CognitiveHead) : Prop where
  once : (c.inProgressTasks ++ c.openTasks).Pairwise fun t t' =>
    ∀ k, HasKey t.taskId k → ¬ HasKey t'.taskId k
  tasks : ∀ k, (∃ t ∈ c.inProgressTasks ++ c.openTasks, HasKey t.taskId k) ↔
    ∃ t ∈ head.activeTasks, HasKey t.taskId k
  questions : c.openQuestions = head.openQuestions
  blockersOnce : Once c.blockers ∧ Once head.blockers
  blockedTasks : ∀ k, (∃ b ∈ c.blockers, HasKey b.taskId k) ↔
    ∃ b ∈ head.blockers, HasKey b.taskId k
  blockers : ∀ k q,
    (∃ b ∈ c.blockers, HasKey b.taskId k ∧ ∃ v ∈ b.blockedByQuestions, HasKey v q) ↔
      ∃ b ∈ head.blockers, HasKey b.taskId k ∧ ∃ v ∈ b.blockedByQuestions, HasKey v q

/-- What a continuation consists of. -/
theorem project_eq_ok {f : FormatText} {p : UUID} {events : List EventRecord}
    {referenceTime : Option DateTime} {now : String} {c : ContinuationState}
    (h : project f p events referenceTime now = .ok c) :
    ∃ s, ReducerState.initial.reduce events = .ok s ∧
      c.inProgressTasks.Perm (tasksWith "in_progress" s.tasks) ∧
      c.openTasks.Perm (tasksWith "open" s.tasks) ∧
      sortByPriority QuestionState.priority (openQuestionsOf s.questions) = .ok c.openQuestions ∧
      ∃ m, blockerMap s.tasks (c.inProgressTasks ++ c.openTasks) c.openQuestions = .ok m ∧
        blockerEntries s.tasks m.entries = .ok c.blockers := by
  simp only [project, Except.bind_eq_ok_iff, Except.pure_eq_ok_iff] at h
  obtain ⟨_, _, s, hs, ps, hps, os, hos, qs, hqs, _, _, m, hm, bs, hbs, _, _, _, _, _, _, _, _, _,
    _, _, _, rfl⟩ := h
  have hperm : ∀ {items sorted : List TaskState},
      sortByPriority TaskState.priority items = .ok sorted → sorted.Perm items := by
    intro items sorted h
    rw [← (sortByPriority_eq_ok_iff.mp h).2]
    exact List.perm_insertionSort _ _
  exact ⟨s, hs, hperm hps, hperm hos, hqs, m, hm, hbs⟩

/-- The same items in another order, with the same keys. -/
theorem pairwise_keys_of_perm {d : TaskDict} (h : Filed TaskState.taskId d) {l : List TaskState}
    (hl : l.Nodup) (hsub : ∀ t ∈ l, t ∈ d.values) :
    l.Pairwise fun t t' => ∀ k, HasKey t.taskId k → ¬ HasKey t'.taskId k := by
  refine hl.imp_of_mem fun {t t'} ht ht' hne k hk hk' => hne ?_
  obtain ⟨a, _, rfl⟩ := id hk
  have hget := h.get?_eq_some_iff.mpr ⟨hsub t ht, hk⟩
  rw [h.get?_eq_some_iff.mpr ⟨hsub t' ht', hk'⟩] at hget
  exact (Option.some.inj hget).symm

/-- A task that is not completed is in progress or open if it never gets another status. -/
theorem mem_work_iff {s : ReducerState} {c : ContinuationState}
    (hprogress : c.inProgressTasks.Perm (tasksWith "in_progress" s.tasks))
    (hopen : c.openTasks.Perm (tasksWith "open" s.tasks))
    (t : TaskState) : t ∈ c.inProgressTasks ++ c.openTasks ↔
      t ∈ s.tasks.values ∧ (t.status = .str "in_progress" ∨ t.status = .str "open") := by
  rw [List.mem_append, hprogress.mem_iff, hopen.mem_iff]
  simp [tasksWith, ← and_or_left]

/-- No task is in progress and open at once. -/
theorem nodup_work {s : ReducerState} {c : ContinuationState}
    (hfiled : Filed TaskState.taskId s.tasks)
    (hprogress : c.inProgressTasks.Perm (tasksWith "in_progress" s.tasks))
    (hopen : c.openTasks.Perm (tasksWith "open" s.tasks)) :
    (c.inProgressTasks ++ c.openTasks).Nodup := by
  have hvalues := hfiled.nodup_values
  refine List.nodup_append.mpr ⟨?_, ?_, ?_⟩
  · exact hprogress.nodup_iff.mpr (hvalues.filter _)
  · exact hopen.nodup_iff.mpr (hvalues.filter _)
  · rintro t ht t' ht' rfl
    have h₁ := of_decide_eq_true (List.mem_filter.mp (hprogress.mem_iff.mp ht)).2
    have h₂ := of_decide_eq_true (List.mem_filter.mp (hopen.mem_iff.mp ht')).2
    simp [h₁] at h₂

/-- The continuation of a stream tells the story of its cognitive head if and only if the last
status of every task is open, in progress or completed. -/
theorem sameStory_iff {f : FormatText} {p : UUID} {events : List EventRecord}
    {referenceTime : Option DateTime} {now now' : String} {c : ContinuationState}
    {head : CognitiveHead} (hc : project f p events referenceTime now = .ok c)
    (hhead : ReplayEngine.fullReplay p events now' = .ok head) :
    SameStory c head ↔ ∀ k status, LastStatus events k status →
      status = .str "open" ∨ status = .str "in_progress" ∨ status = .str "completed" := by
  obtain ⟨s, hs, hprogress, hopen, hquestions, m, hm, hblockers⟩ := project_eq_ok hc
  simp only [ReplayEngine.fullReplay, Except.bind_eq_ok_iff] at hhead
  obtain ⟨_, _, s', hs', hhead⟩ := hhead
  obtain rfl := Except.ok.inj (hs.symm.trans hs')
  obtain ⟨-, htasks, -, -⟩ := ReducerState.reduce_eq_ok_iff.mp hs
  have hfiled := TaskReducer.filed (filed_empty _) htasks
  have hwork := mem_work_iff hprogress hopen
  obtain ⟨hheadQuestions, hheadTasks, -⟩ := buildHead_lists hhead
  have hactive : ∀ t, t ∈ head.activeTasks ↔ t ∈ s.tasks.values ∧ t.status ≠ .str "completed" := by
    intro t
    rw [hheadTasks, List.mem_insertionSort, mem_activeTasksOf]
  constructor
  · intro hsame k status hlast
    obtain ⟨a, rfl⟩ := hlast.exists_atom
    obtain ⟨t, hget, rfl⟩ := (lastStatus_iff htasks a status).mp hlast
    obtain ⟨ht, hkey⟩ := hfiled.get?_eq_some_iff.mp hget
    by_cases hcompleted : t.status = .str "completed"
    · exact Or.inr (Or.inr hcompleted)
    · obtain ⟨t', ht', hkey'⟩ := (hsame.tasks _).mpr ⟨t, (hactive t).mpr ⟨ht, hcompleted⟩, hkey⟩
      obtain ⟨hvalue, hstatus⟩ := (hwork t').mp ht'
      rw [hfiled.get?_eq_some_iff.mpr ⟨hvalue, hkey'⟩] at hget
      rw [← Option.some.inj hget]
      exact hstatus.elim (fun h => Or.inr (Or.inl h)) Or.inl
  · intro hlast
    have hall : ∀ t, t ∈ c.inProgressTasks ++ c.openTasks ↔ t ∈ activeTasksOf s.tasks := by
      intro t
      rw [hwork, mem_activeTasksOf]
      refine and_congr_right fun ht => ⟨?_, fun hne => ?_⟩
      · rintro (h | h) <;> simp [h]
      · obtain ⟨k, hget⟩ := OrdDict.mem_values_iff.mp ht
        rcases hlast _ _ ((lastStatus_iff htasks k _).mpr ⟨t, hget, rfl⟩) with h | h | h
        · exact Or.inr h
        · exact Or.inl h
        · exact absurd h hne
    have hopenQuestions := (sortByPriority_eq_ok_iff.mp hquestions).2
    obtain ⟨mh, hentries, hinhabited, hrelHead⟩ := buildHead_blockers hhead
    -- both maps are filled from the same tasks and questions
    have hrel : ∀ k q, m.Rel k q ↔ mh.Rel k q := by
      intro k q
      rw [rel_blockerMap hm, hrelHead, ← hopenQuestions]
      simp only [List.mem_insertionSort, hall]
    have hkeys : ∀ t, t ∈ head.activeTasks ↔ t ∈ c.inProgressTasks ++ c.openTasks := by
      intro t
      rw [hactive, hall, mem_activeTasksOf]
    have hblocked :=
      sameBlockers_of_rel (inhabited_blockerMap hm) hinhabited hblockers hentries hrel
    refine ⟨?_, fun k => ?_, ?_, ⟨once_blockerEntries hblockers, once_blockerEntries hentries⟩,
      fun k => (hblocked k).1, fun k => (hblocked k).2⟩
    · exact pairwise_keys_of_perm hfiled (nodup_work hfiled hprogress hopen)
        fun t ht => ((hwork t).mp ht).1
    · simp only [hkeys]
    · rw [hheadQuestions, hopenQuestions]

/-- A task is blocked: neither open nor in progress. -/
def blockedTaskEvents : List EventRecord :=
  (sampleDb [sampleTask (.str "t1") "write" "normal",
    (.taskMutated, [("task_id", .str "t1"), ("status", .str "blocked")])]).getProjectStream
      .zero 0

/-- The head shows the blocked task and the continuation does not. -/
theorem not_sameStory : ∃ c head,
    project .textsOnly .zero blockedTaskEvents none "now" = .ok c ∧
      ReplayEngine.fullReplay .zero blockedTaskEvents "now" = .ok head ∧
      ¬ SameStory c head := by
  refine ⟨_, _, rfl, rfl, fun h => ?_⟩
  obtain ⟨t, ht, _⟩ := (h.tasks (.str "t1")).mpr ⟨_, List.mem_cons_self, _, rfl, rfl⟩
  cases ht

theorem sameStory_blockedTask : ∃ c head,
    project .textsOnly .zero blockedTaskEvents none "now" = .ok c ∧
      ReplayEngine.fullReplay .zero blockedTaskEvents "now" = .ok head ∧
      (SameStory c head ↔ ∀ k status, LastStatus blockedTaskEvents k status →
        status = .str "open" ∨ status = .str "in_progress" ∨ status = .str "completed") :=
  ⟨_, _, rfl, rfl, sameStory_iff (f := .textsOnly) rfl
    (show ReplayEngine.fullReplay .zero blockedTaskEvents "now" = .ok _ from rfl)⟩

end ContinuationProjection

end RationaleVault
