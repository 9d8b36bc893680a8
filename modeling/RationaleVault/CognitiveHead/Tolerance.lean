import RationaleVault.CognitiveHead.Lifecycles
import RationaleVault.CognitiveHead.Readability

/-!
# Streams that stay readable

Payloads are stored as they come and read by four reducers, the assembly of the head
and the snapshot. For every event type this module says which payloads the readers
tolerate in a given state; a project whose events are tolerated can be compiled after
every one of them.
-/

namespace RationaleVault

/-- An id that is missing or empty is skipped; another one must be a scalar with the property. -/
def WithId (id : Json) (C : Atom → Prop) : Prop := id.truthy = true → ∃ k, id = .atom k ∧ C k

/-- The key is of the kind of the keys present. -/
def FitsKeys (keys : List AtomNorm) (k : Atom) : Prop :=
  ∀ k' ∈ keys, k'.IsText ↔ (DictKey.norm k).IsText

/-- A `TASK_CREATED` payload that can be read. -/
structure ReadableCreation (s : ReducerState) (p : JsonObj) (k : Atom) : Prop where
  kind : FitsKeys s.tasks.normKeys k
  details : ∃ members, p.lookup "details" = some (.obj members) ∧
    (members.lookup "summary").isSome = true ∧ (members.lookup "body").isSome = true
  tags : ∃ items, (p.getD "tags" (.arr [])).toList = .ok items
  priority : (p.getD "priority" (.str "normal")).hashable = true
  blockedBy : (p.getD "blocked_by" (.arr [])).ListsKeys

/-- Attributes of every object that reject the assignment of a value. -/
def reservedNames : List String := ["__class__", "__weakref__", "__dict__"]

/-- A `TASK_MUTATED` payload that can be assigned to a task and leaves it readable. -/
structure ReadableMutation (p : JsonObj) (t : TaskState) : Prop where
  names : ∀ kv ∈ p, kv.1 ∉ reservedNames
  readable : p.getD "status" t.status ≠ .str "completed" →
    (p.getD "priority" t.priority).hashable = true ∧ (p.getD "blocked_by" t.blockedBy).ListsKeys

/-- An `OPEN_QUESTION_RAISED` payload that can be read. -/
structure ReadableQuestion (s : ReducerState) (p : JsonObj) (k : Atom) : Prop where
  kind : FitsKeys s.questions.normKeys k
  priority : (p.getD "priority" (.str "normal")).hashable = true
  blocks : (p.getD "blocks_task_ids" (.arr [])).ListsKeys

/-- The readers tolerate the event in the state before it. -/
def EventRecord.Tolerated (s : ReducerState) (event : EventRecord) : Prop :=
  match event.eventType with
  | .taskCreated => WithId (taskIdOf event) (ReadableCreation s event.payload)
  | .taskMutated => WithId (taskIdOf event) fun k =>
      ∀ t, s.tasks.get? k = some t → ReadableMutation event.payload t
  | .taskCompleted => WithId (taskIdOf event) fun _ => True
  | .taskProgressNoted => WithId (taskIdOf event) fun k =>
      ∀ t, s.tasks.get? k = some t → t.progressNotes.isArr = true
  | .decisionProposed => WithId (decisionIdOf event) (FitsKeys s.decisions.normKeys)
  | .decisionAccepted => WithId (decisionIdOf event) fun _ => True
  | .decisionSuperseded => WithId (decisionIdOf event) fun _ => True
  | .openQuestionRaised => WithId (questionIdOf event) (ReadableQuestion s event.payload)
  | .openQuestionResolved => WithId (questionIdOf event) fun _ => True
  | _ => True

/-! ## The keyed loop -/

theorem WithId.imp {id : Json} {C D : Atom → Prop} (h : WithId id C) (hCD : ∀ k, C k → D k) :
    WithId id D := by
  intro htruthy
  obtain ⟨k, hk, hC⟩ := h htruthy
  exact ⟨k, hk, hCD k hC⟩

/-- What one iteration needs to return, and to keep a property of the items and the kind of
their keys. -/
structure KeepsItems {ν : Type} (P : ν → Prop) (items : OrdDict Atom ν) (id : Json)
    (action : KeyedAction ν) : Prop where
  create : ∀ item, action = .create item → WithId id fun k =>
    FitsKeys items.normKeys k ∧ ∃ x, item = .ok x ∧ P x
  update : ∀ change, action = .update change → WithId id fun k =>
    ∀ x, items.get? k = some x → ∃ x', change x = .ok x' ∧ (P x → P x')

theorem KeepsItems.skip {ν : Type} {P : ν → Prop} {items : OrdDict Atom ν} {id : Json}
    {action : KeyedAction ν} (h : action = .skip) : KeepsItems P items id action where
  create item hitem := by rw [h] at hitem; cases hitem
  update change hchange := by rw [h] at hchange; cases hchange

theorem oneKind_set {ν : Type} {items : OrdDict Atom ν} (hkind : AtomNorm.OneKind items.normKeys)
    {k : Atom} (hfits : FitsKeys items.normKeys k) (x : ν) :
    AtomNorm.OneKind (items.set k x).normKeys := by
  have hsub : (items.set k x).normKeys ⊆ DictKey.norm k :: items.normKeys := by
    intro k' hk'
    rw [OrdDict.normKeys_set] at hk'
    split at hk'
    · exact List.mem_cons_of_mem _ hk'
    · rcases List.mem_append.mp hk' with h | h
      · exact List.mem_cons_of_mem _ h
      · rw [List.mem_singleton.mp h]
        exact List.mem_cons_self
  refine AtomNorm.OneKind.mono ?_ hsub
  intro a ha b hb
  rcases List.mem_cons.mp ha with rfl | ha
  · rcases List.mem_cons.mp hb with rfl | hb
    · exact Iff.rfl
    · exact (hfits b hb).symm
  · rcases List.mem_cons.mp hb with rfl | hb
    · exact hfits a ha
    · exact hkind a ha b hb

theorem KeepsItems.step {ν : Type} {P : ν → Prop} {items : OrdDict Atom ν} {id : Json}
    {action : KeyedAction ν} (h : KeepsItems P items id action)
    (hitems : ∀ e ∈ items.entries, P e.2) (hkind : AtomNorm.OneKind items.normKeys) :
    ∃ items', keyedStep items id action = .ok items' ∧ (∀ e ∈ items'.entries, P e.2) ∧
      AtomNorm.OneKind items'.normKeys := by
  cases action with
  | skip => exact ⟨items, rfl, hitems, hkind⟩
  | create item =>
      rw [keyedStep]
      split_ifs with htruthy
      · obtain ⟨k, rfl, hfits, x, rfl, hx⟩ := h.create item rfl htruthy
        exact ⟨items.set k x, rfl, OrdDict.forall_entries_set (p := fun _ x => P x) hitems hx,
          oneKind_set hkind hfits x⟩
      · exact ⟨items, rfl, hitems, hkind⟩
  | update change =>
      rw [keyedStep]
      split_ifs with htruthy
      · obtain ⟨k, rfl, hchange⟩ := h.update change rfl htruthy
        rw [Json.hash_atom, Except.ok_bind_eq]
        cases hget : items.get? k with
        | none => exact ⟨items, rfl, hitems, hkind⟩
        | some x =>
            obtain ⟨e, he, hkey, rfl⟩ := OrdDict.lookupIn_mem hget
            obtain ⟨x', hx', hP⟩ := hchange e.2 hget
            have hknown : DictKey.norm k ∈ items.normKeys := hkey ▸ List.mem_map_of_mem he
            simp only [hx']
            exact ⟨items.set k x', rfl,
              OrdDict.forall_entries_set (p := fun _ x => P x) hitems (hP (hitems e he)),
              oneKind_set hkind (fun k' hk' => hkind k' hk' _ hknown) x'⟩
      · exact ⟨items, rfl, hitems, hkind⟩

/-! ## Tasks -/

namespace TaskState

theorem exists_setattrs {p : JsonObj} (hp : ∀ kv ∈ p, kv.1 ∉ reservedNames) (t : TaskState) :
    ∃ t', t.setattrs p = .ok t' := by
  obtain ⟨t', ht', _⟩ := Fold.exists_ok (P := fun _ : TaskState => True) (l := p)
    (f := fun t kv => if kv.1 = "task_id" then .ok t else t.setattr kv.1 kv.2) (s := t)
    (fun t kv hkv _ => by
      have hname := hp kv hkv
      simp only [reservedNames, List.mem_cons, List.not_mem_nil, or_false, not_or] at hname
      split_ifs
      · exact ⟨t, rfl, trivial⟩
      · unfold setattr
        split
        · exact ⟨_, rfl, trivial⟩
        · rw [if_neg hname.1, if_neg hname.2.1, if_neg hname.2.2]
          exact ⟨t, rfl, trivial⟩) trivial
  exact ⟨t', ht'⟩

/-- After the loop a field holds the member that names it, or what it held before. -/
theorem getField_setattrs_of_nodup {p : JsonObj} (hkeys : (p.map Prod.fst).Nodup)
    {t t' : TaskState} (h : t.setattrs p = .ok t') (f : TaskField) :
    t'.getField f = p.getD f.name (t.getField f) := by
  induction p generalizing t with
  | nil =>
      obtain rfl := Except.ok.inj h
      rfl
  | cons kv rest ih =>
      rw [List.map_cons, List.nodup_cons] at hkeys
      rw [setattrs, List.foldlM_cons, Except.bind_eq_ok_iff] at h
      obtain ⟨t₁, ht₁, hrest⟩ := h
      have hfirst : t₁.getField f = if kv.1 = f.name then kv.2 else t.getField f := by
        split_ifs at ht₁ with htask
        · rw [← Except.ok.inj ht₁, if_neg (htask ▸ f.name_ne_taskId.symm)]
        · exact getField_setattr ht₁
      rw [ih hkeys.2 hrest, hfirst, JsonObj.getD, JsonObj.getD, List.lookup_cons]
      by_cases hname : f.name = kv.1
      · -- no later member names the field
        have hnone : rest.lookup f.name = none := by
          rw [List.lookup_eq_none_iff]
          intro m hm
          have hne : f.name ≠ m.1 := fun heq =>
            hkeys.1 (hname ▸ heq ▸ List.mem_map_of_mem hm)
          simpa using hne
        rw [hnone, if_pos hname.symm, hname, beq_self_eq_true]
        rfl
      · rw [if_neg (Ne.symm hname), beq_eq_false_iff_ne.mpr hname]

end TaskState

namespace TaskReducer

theorem exists_created {s : ReducerState} {event : EventRecord} {k : Atom}
    (h : ReadableCreation s event.payload k) : ∃ t, created event = .ok t ∧ t.Readable := by
  obtain ⟨members, hdetails, hsummary, hbody⟩ := h.details
  obtain ⟨title, htitle⟩ := Option.isSome_iff_exists.mp hsummary
  obtain ⟨body, hbody⟩ := Option.isSome_iff_exists.mp hbody
  obtain ⟨tags, htags⟩ := h.tags
  obtain ⟨blockedBy, hblockedBy, hhash⟩ := h.blockedBy
  simp only [created, JsonObj.getItem, hdetails, Json.getItem, htitle, hbody, htags, hblockedBy,
    Except.ok_bind_eq]
  exact ⟨_, rfl, fun _ => ⟨h.priority, blockedBy, rfl, hhash⟩⟩

theorem exists_mutate {event : EventRecord} (hkeys : (event.payload.map Prod.fst).Nodup)
    {t : TaskState} (h : ReadableMutation event.payload t) :
    ∃ t', mutate event t = .ok t' ∧ t'.Readable := by
  obtain ⟨t', ht'⟩ := TaskState.exists_setattrs h.names t
  have hfield := TaskState.getField_setattrs_of_nodup hkeys ht'
  refine ⟨{ t' with updatedAt := event.recordedIso }, by rw [mutate, ht']; rfl, ?_⟩
  have hstatus : t'.status = _ := hfield .status
  have hpriority : t'.priority = _ := hfield .priority
  have hblockedBy : t'.blockedBy = _ := hfield .blockedBy
  intro hactive
  change t'.status ≠ _ at hactive
  change t'.priority.hashable = true ∧ t'.blockedBy.ListsKeys
  rw [hpriority, hblockedBy]
  rw [hstatus] at hactive
  exact h.readable hactive

theorem keepsItems {s : ReducerState} {event : EventRecord}
    (hkeys : (event.payload.map Prod.fst).Nodup) (h : event.Tolerated s) :
    KeepsItems TaskState.Readable s.tasks (taskIdOf event) (action event) := by
  unfold action
  unfold EventRecord.Tolerated at h
  split
  · rename_i htype
    simp only [htype] at h
    refine ⟨?_, fun change hchange => by cases hchange⟩
    rintro item hitem
    cases hitem
    exact h.imp fun k hk => ⟨hk.kind, exists_created hk⟩
  · rename_i htype
    simp only [htype] at h
    refine ⟨fun item hitem => (by cases hitem), ?_⟩
    rintro change hchange
    cases hchange
    refine h.imp fun k hk t ht => ?_
    obtain ⟨t', ht', hreadable⟩ := exists_mutate hkeys (hk t ht)
    exact ⟨t', ht', fun _ => hreadable⟩
  · rename_i htype
    simp only [htype] at h
    refine ⟨fun item hitem => (by cases hitem), ?_⟩
    rintro change hchange
    cases hchange
    exact h.imp fun k _ t _ => ⟨complete event t, rfl, fun _ hactive => absurd rfl hactive⟩
  · rename_i htype
    simp only [htype] at h
    refine ⟨fun item hitem => (by cases hitem), ?_⟩
    rintro change hchange
    cases hchange
    refine h.imp fun k hk t ht => ?_
    have hnotes := hk t ht
    unfold noteProgress
    cases hvalue : t.progressNotes with
    | arr notes => exact ⟨_, rfl, fun hreadable => hreadable⟩
    | atom a => rw [hvalue] at hnotes; cases hnotes
    | obj members => rw [hvalue] at hnotes; cases hnotes
  · exact .skip rfl

end TaskReducer

/-! ## Decisions and questions -/

theorem DecisionReducer.keepsItems {s : ReducerState} {event : EventRecord}
    (h : event.Tolerated s) :
    KeepsItems (fun _ => True) s.decisions (decisionIdOf event) (action event) := by
  unfold action
  unfold EventRecord.Tolerated at h
  split
  · rename_i htype
    simp only [htype] at h
    refine ⟨?_, fun change hchange => by cases hchange⟩
    rintro item hitem
    cases hitem
    exact h.imp fun k hk => ⟨hk, _, rfl, trivial⟩
  · rename_i htype
    simp only [htype] at h
    refine ⟨fun item hitem => (by cases hitem), ?_⟩
    rintro change hchange
    cases hchange
    exact h.imp fun k _ d _ => ⟨accept event d, rfl, fun _ => trivial⟩
  · rename_i htype
    simp only [htype] at h
    refine ⟨fun item hitem => (by cases hitem), ?_⟩
    rintro change hchange
    cases hchange
    exact h.imp fun k _ d _ => ⟨supersede event d, rfl, fun _ => trivial⟩
  · exact .skip rfl

namespace QuestionReducer

theorem exists_raised {s : ReducerState} {event : EventRecord} {k : Atom}
    (h : ReadableQuestion s event.payload k) : ∃ q, raised event = .ok q ∧ q.Readable := by
  obtain ⟨blocks, hblocks, hhash⟩ := h.blocks
  simp only [raised, hblocks, Except.ok_bind_eq]
  exact ⟨_, rfl, fun _ => ⟨h.priority, blocks, rfl, hhash⟩⟩

theorem keepsItems {s : ReducerState} {event : EventRecord} (h : event.Tolerated s) :
    KeepsItems QuestionState.Readable s.questions (questionIdOf event) (action event) := by
  unfold action
  unfold EventRecord.Tolerated at h
  split
  · rename_i htype
    simp only [htype] at h
    refine ⟨?_, fun change hchange => by cases hchange⟩
    rintro item hitem
    cases hitem
    exact h.imp fun k hk => ⟨hk.kind, exists_raised hk⟩
  · rename_i htype
    simp only [htype] at h
    refine ⟨fun item hitem => (by cases hitem), ?_⟩
    rintro change hchange
    cases hchange
    refine h.imp fun k _ q _ => ⟨resolve event q, rfl, fun _ hopen => ?_⟩
    -- a resolved question is not looked at
    exact absurd hopen (by simp [resolve])
  · exact .skip rfl

end QuestionReducer

/-! ## Streams -/

theorem keyedReduce_singleton {ν : Type} (id : EventRecord → Json)
    (action : EventRecord → KeyedAction ν) (d : OrdDict Atom ν) (event : EventRecord) :
    keyedReduce id action d [event] = keyedStep d (id event) (action event) := by
  rw [keyedReduce, List.foldlM_cons]
  cases keyedStep d (id event) (action event) <;> rfl

/-- A tolerated event is reduced, and the state stays readable. -/
theorem ReducerState.Readable.step {s : ReducerState} (hs : s.Readable) {event : EventRecord}
    (hkeys : (event.payload.map Prod.fst).Nodup) (h : event.Tolerated s) :
    ∃ s', s.reduce [event] = .ok s' ∧ s'.Readable := by
  obtain ⟨tasks, htasks, hreadableTasks, htaskKind⟩ :=
    (TaskReducer.keepsItems hkeys h).step hs.tasks hs.taskKind
  obtain ⟨decisions, hdecisions, _, hdecisionKind⟩ :=
    (DecisionReducer.keepsItems h).step (fun _ _ => trivial) hs.decisionKind
  obtain ⟨questions, hquestions, hreadableQuestions, hquestionKind⟩ :=
    (QuestionReducer.keepsItems h).step hs.questions hs.questionKind
  have htasks' : TaskReducer.reduce s.tasks [event] = .ok tasks := by
    rw [TaskReducer.reduce_eq_keyed, keyedReduce_singleton, htasks]
  have hdecisions' : DecisionReducer.reduce s.decisions [event] = .ok decisions := by
    rw [DecisionReducer.reduce_eq_keyed, keyedReduce_singleton, hdecisions]
  have hquestions' : QuestionReducer.reduce s.questions [event] = .ok questions := by
    rw [QuestionReducer.reduce_eq_keyed, keyedReduce_singleton, hquestions]
  refine ⟨⟨ProjectReducer.reduce s.project [event], tasks, decisions, questions⟩,
    ReducerState.reduce_eq_ok_iff.mpr ⟨rfl, htasks', hdecisions', hquestions'⟩, ?_⟩
  exact {
    filedTasks := TaskReducer.filed hs.filedTasks htasks'
    filedDecisions := DecisionReducer.filed hs.filedDecisions hdecisions'
    filedQuestions := QuestionReducer.filed hs.filedQuestions hquestions'
    tasks := hreadableTasks
    questions := hreadableQuestions
    taskKind := htaskKind
    decisionKind := hdecisionKind
    questionKind := hquestionKind }

/-- Every event is tolerated in the state the events before it have led to. -/
def ToleratedFrom (s : ReducerState) (events : List EventRecord) : Prop :=
  ∀ pre event post, events = pre ++ event :: post → ∀ s', s.reduce pre = .ok s' →
    event.Tolerated s'

theorem ToleratedFrom.ofPrefix {s : ReducerState} {events pre : List EventRecord}
    (h : ToleratedFrom s events) (hpre : pre <+: events) : ToleratedFrom s pre := by
  obtain ⟨rest, rfl⟩ := hpre
  rintro front event post rfl s' hs'
  exact h front event (post ++ rest) (by simp) s' hs'

/-- A stream of tolerated events is reduced to a readable state. -/
theorem ReducerState.Readable.run {s : ReducerState} (hs : s.Readable) {events : List EventRecord}
    (hkeys : ∀ event ∈ events, (event.payload.map Prod.fst).Nodup)
    (h : ToleratedFrom s events) : ∃ s', s.reduce events = .ok s' ∧ s'.Readable := by
  induction events using List.reverseRecOn with
  | nil => exact ⟨s, rfl, hs⟩
  | append_singleton pre event ih =>
      obtain ⟨t, ht, hreadable⟩ := ih
        (fun event hevent => hkeys event (List.mem_append_left _ hevent))
        (h.ofPrefix (List.prefix_append pre [event]))
      obtain ⟨s', hs', hreadable'⟩ := hreadable.step (hkeys event (by simp))
        (h pre event [] rfl t ht)
      exact ⟨s', by rw [ReducerState.reduce_append [event] ht, hs'], hreadable'⟩

/-- `compile_cognitive_head(project_id, store)` with the `NullSnapshotManager`: no snapshot is
found, and the one that is built is not kept. -/
def compileCognitiveHeadNull (db : EventDb) (p : UUID) (now : String) :
    Except Exc CognitiveHead :=
  (compileReads (.rejected .notFound) (.quiet db) p now).map Prod.fst

theorem exists_compileCognitiveHeadNull {db : EventDb} {p : UUID} {s : ReducerState}
    (hboot : HasBootstrap (db.getProjectStream p 0))
    (hreduce : ReducerState.initial.reduce (db.getProjectStream p 0) = .ok s) (hs : s.Readable)
    (now : String) : ∃ head, compileCognitiveHeadNull db p now = .ok head := by
  obtain ⟨head, hhead⟩ := exists_buildHead_of_readable hs p now (db.getProjectStream p 0)
  obtain ⟨P, hP⟩ := exists_compileSnapshot hreduce hs head (db.getLatestSequence p)
  have hreplay : ReplayEngine.fullReplay p (db.getProjectStream p 0) now = .ok head := by
    rw [ReplayEngine.fullReplay_eq now hboot, hreduce]
    exact hhead
  refine ⟨head, ?_⟩
  simp only [compileCognitiveHeadNull, compileReads, CompileReads.quiet,
    ReplayEngine.buildProjection, ReplayEngine.usablePayload, SnapshotValidationResult.rejected,
    hreplay, Bool.false_eq_true, if_false, Except.ok_bind_eq, pure_bind, hP]
  rfl

/-- A project whose stream starts with the bootstrap events and goes on with tolerated events
can be compiled after every event. -/
theorem compileCognitiveHeadNull_of_tolerated (p : UUID) (now : String)
    {bootstrap events : List EventRecord}
    (hboot : bootstrap.map EventRecord.eventType = bootstrapTypes)
    (hkeys : ∀ event ∈ bootstrap ++ events, (event.payload.map Prod.fst).Nodup)
    (htolerated : ∀ pre event post, events = pre ++ event :: post →
      ∀ s, ReducerState.initial.reduce (bootstrap ++ pre) = .ok s → event.Tolerated s)
    {db : EventDb} {pre : List EventRecord} (hpre : pre <+: events)
    (hstream : db.getProjectStream p 0 = bootstrap ++ pre) :
    ∃ head, compileCognitiveHeadNull db p now = .ok head := by
  have hboot' : ToleratedFrom .initial bootstrap := by
    rintro front event post rfl s _
    have hmem : event.eventType ∈ bootstrapTypes := by
      rw [← hboot]
      exact List.mem_map_of_mem (by simp)
    simp only [bootstrapTypes, List.mem_cons, List.not_mem_nil, or_false] at hmem
    rcases hmem with h | h | h <;> simp [EventRecord.Tolerated, h]
  obtain ⟨s₀, hs₀, hreadable₀⟩ := ReducerState.readable_initial.run
    (fun event hevent => hkeys event (List.mem_append_left _ hevent)) hboot'
  have hevents : ToleratedFrom s₀ events := fun front event post heq s hs =>
    htolerated front event post heq s (by rw [ReducerState.reduce_append front hs₀, hs])
  obtain ⟨s, hs, hreadable⟩ := hreadable₀.run
    (fun event hevent => hkeys event (List.mem_append_right _ (hpre.subset hevent)))
    (hevents.ofPrefix hpre)
  refine exists_compileCognitiveHeadNull ?_ ?_ hreadable now
  · rw [hstream]
    intro t ht
    rw [List.map_append, hboot]
    exact List.mem_append_left _ ht
  · rw [hstream, ReducerState.reduce_append pre hs₀, hs]

/-- A task without details: the event is stored, and the project cannot be compiled any more. -/
theorem compileCognitiveHeadNull_without_details :
    ((sampleDb [(.taskCreated, [("task_id", .str "t1")])]).getProjectStream .zero 0).map
        EventRecord.eventType = bootstrapTypes ++ [.taskCreated] ∧
      (∃ head, compileCognitiveHeadNull (sampleDb []) .zero "now" = .ok head) ∧
      ¬ ∃ head, compileCognitiveHeadNull (sampleDb [(.taskCreated, [("task_id", .str "t1")])])
        .zero "now" = .ok head := by
  refine ⟨by decide, ?_, ?_⟩
  · exact ⟨_, rfl⟩
  · rintro ⟨head, h⟩
    cases h

theorem compileCognitiveHeadNull_openTask :
    ∃ head, compileCognitiveHeadNull ReplayEngine.openTaskDb .zero "now" = .ok head := by
  refine @compileCognitiveHeadNull_of_tolerated .zero "now"
    ((ReplayEngine.openTaskDb.getProjectStream .zero 0).take 3)
    ((ReplayEngine.openTaskDb.getProjectStream .zero 0).drop 3)
    (by decide) (by decide) ?_ ReplayEngine.openTaskDb _ (List.prefix_refl _)
    (List.take_append_drop 3 _).symm
  intro pre event post hsplit s hs
  obtain ⟨rfl, rfl⟩ : pre = [] ∧ (ReplayEngine.openTaskDb.getProjectStream .zero 0)[3] = event := by
    cases pre with
    | nil => exact ⟨rfl, (List.cons.inj hsplit).1⟩
    | cons a rest => exact absurd (List.cons.inj hsplit).2 (by simp)
  obtain ⟨_, htasks, _⟩ := ReducerState.reduce_eq_ok_iff.mp hs
  have hempty : (Except.ok OrdDict.empty : Except Exc TaskDict) = .ok s.tasks := htasks
  intro _
  refine ⟨.str "t", rfl, ?_, ⟨_, rfl, rfl, rfl⟩, ⟨[], rfl⟩, rfl, ⟨[], rfl, by simp⟩⟩
  intro k hk
  rw [← Except.ok.inj hempty] at hk
  cases hk

end RationaleVault
