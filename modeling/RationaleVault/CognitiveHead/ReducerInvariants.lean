import RationaleVault.CognitiveHead.Head

/-!
# What the reducers preserve

One inversion lemma says what a loop iteration of a keyed reducer can do; the
invariants of the three keyed states follow from it. An item is stored under
the id it carries, ids are truthy, and list fields stay lists as long as
`TASK_MUTATED` assigns lists to them.
-/

namespace RationaleVault

/-! ## The keyed loop -/

section Keyed

variable {ν : Type}

/-- A successful iteration leaves the dictionary alone, stores a new item under its id, or
replaces the item found under the id. -/
theorem keyedStep_cases {items items' : OrdDict Atom ν} {id : Json} {action : KeyedAction ν}
    (h : keyedStep items id action = .ok items') :
    items' = items ∨
    (∃ x k, action = .create (.ok x) ∧ id = .atom k ∧ id.truthy = true ∧
      items' = items.set k x) ∨
    (∃ change x x' k, action = .update change ∧ id = .atom k ∧ items.get? k = some x ∧
      change x = .ok x' ∧ items' = items.set k x') := by
  cases action with
  | skip => exact Or.inl (by simpa [keyedStep] using h.symm)
  | create item =>
      simp only [keyedStep] at h
      split at h
      · rename_i htruthy
        cases item with
        | error e => simp at h
        | ok x =>
            cases id with
            | atom k =>
                simp only [Except.ok_bind_eq, Json.hash_atom, Except.pure_eq_ok_iff] at h
                exact Or.inr (Or.inl ⟨x, k, rfl, rfl, htruthy, h.symm⟩)
            | arr items => simp [Json.hash] at h
            | obj members => simp [Json.hash] at h
      · exact Or.inl (by simpa using h.symm)
  | update change =>
      simp only [keyedStep] at h
      split at h
      · cases id with
        | atom k =>
            simp only [Json.hash_atom, Except.ok_bind_eq] at h
            cases hget : items.get? k with
            | none =>
                simp only [hget, Except.pure_eq_ok_iff] at h
                exact Or.inl h.symm
            | some x =>
                simp only [hget, Except.bind_eq_ok_iff, Except.pure_eq_ok_iff] at h
                obtain ⟨x', hx', h⟩ := h
                exact Or.inr (Or.inr ⟨change, x, x', k, rfl, rfl, hget, hx', h.symm⟩)
        | arr items => simp [Json.hash] at h
        | obj members => simp [Json.hash] at h
      · exact Or.inl (by simpa using h.symm)

/-- The loop of a keyed reducer. -/
def keyedReduce (id : EventRecord → Json) (action : EventRecord → KeyedAction ν)
    (items : OrdDict Atom ν) (events : List EventRecord) : Except Exc (OrdDict Atom ν) :=
  events.foldlM (fun d e => keyedStep d (id e) (action e)) items

theorem keyedReduce_append {id : EventRecord → Json} {action : EventRecord → KeyedAction ν}
    {d d' : OrdDict Atom ν} {A : List EventRecord} (B : List EventRecord)
    (h : keyedReduce id action d A = .ok d') :
    keyedReduce id action d (A ++ B) = keyedReduce id action d' B :=
  Fold.append_of_ok h

/-- A property of stored items that creation establishes and updates keep. -/
theorem keyedReduce_forall {id : EventRecord → Json} {action : EventRecord → KeyedAction ν}
    {p : AtomNorm → ν → Prop} {events : List EventRecord}
    (hcreate : ∀ e ∈ events, ∀ x k, action e = .create (.ok x) → id e = .atom k →
      (id e).truthy = true → p (DictKey.norm k) x)
    (hupdate : ∀ e ∈ events, ∀ change, action e = .update change → ∀ k x x', p k x →
      change x = .ok x' → p k x')
    {d d' : OrdDict Atom ν} (hd : ∀ e ∈ d.entries, p (DictKey.norm e.1) e.2)
    (h : keyedReduce id action d events = .ok d') :
    ∀ e ∈ d'.entries, p (DictKey.norm e.1) e.2 := by
  refine Fold.invariant (P := fun d => ∀ e ∈ d.entries, p (DictKey.norm e.1) e.2) ?_ hd h
  intro d event d' hmem hd hstep
  rcases keyedStep_cases hstep with rfl | ⟨x, k, hact, hid, ht, rfl⟩ |
    ⟨change, x, x', k, hact, hid, hget, hx, rfl⟩
  · exact hd
  · exact OrdDict.forall_entries_set hd (hcreate event hmem x k hact hid ht)
  · obtain ⟨e, he, hn, hv⟩ := OrdDict.lookupIn_mem hget
    have hp : p (DictKey.norm k) x := by
      rw [← hn, ← hv]
      exact hd e he
    exact OrdDict.forall_entries_set hd (hupdate event hmem change hact _ x x' hp hx)

/-- An iteration does not see how the keys are spelled. -/
theorem keyedStep_normEntries {d d' : OrdDict Atom ν} (h : d.normEntries = d'.normEntries)
    (id : Json) (action : KeyedAction ν) :
    (keyedStep d id action).map OrdDict.normEntries =
      (keyedStep d' id action).map OrdDict.normEntries := by
  cases action with
  | skip => exact congrArg Except.ok h
  | create item =>
      simp only [keyedStep]
      split_ifs
      · cases item with
        | error e => rfl
        | ok x =>
            cases id.hash with
            | error e => rfl
            | ok k => exact congrArg Except.ok (OrdDict.normEntries_set_eq h rfl x)
      · exact congrArg Except.ok h
  | update change =>
      simp only [keyedStep]
      split_ifs
      · cases id.hash with
        | error e => rfl
        | ok k =>
            simp only [Except.ok_bind_eq, OrdDict.get?_eq_of_normEntries h]
            cases d'.get? k with
            | none => exact congrArg Except.ok h
            | some x =>
                cases hx : change x with
                | error e => simp only [hx]; rfl
                | ok x' =>
                    simp only [hx]
                    exact congrArg Except.ok (OrdDict.normEntries_set_eq h rfl x')
      · exact congrArg Except.ok h

/-- A replay does not see how the keys are spelled. -/
theorem keyedReduce_normEntries {id : EventRecord → Json} {action : EventRecord → KeyedAction ν}
    {d d' : OrdDict Atom ν} (h : d.normEntries = d'.normEntries) (events : List EventRecord) :
    (keyedReduce id action d events).map OrdDict.normEntries =
      (keyedReduce id action d' events).map OrdDict.normEntries :=
  Fold.map_eq_of_step (fun _ _ e h => keyedStep_normEntries h (id e) (action e)) h events

end Keyed

/-! ## The three keyed reducers as one loop -/

def taskIdOf (event : EventRecord) : Json := event.payload.get "task_id"
def decisionIdOf (event : EventRecord) : Json := event.payload.get "decision_id"
def questionIdOf (event : EventRecord) : Json := event.payload.get "question_id"

theorem TaskReducer.reduce_eq_keyed (d : TaskDict) (events : List EventRecord) :
    TaskReducer.reduce d events = keyedReduce taskIdOf TaskReducer.action d events := rfl

theorem DecisionReducer.reduce_eq_keyed (d : DecisionDict) (events : List EventRecord) :
    DecisionReducer.reduce d events =
      keyedReduce decisionIdOf DecisionReducer.action d events := rfl

theorem QuestionReducer.reduce_eq_keyed (d : QuestionDict) (events : List EventRecord) :
    QuestionReducer.reduce d events =
      keyedReduce questionIdOf QuestionReducer.action d events := rfl

theorem ProjectReducer.reduce_append (s : ProjectState) (A B : List EventRecord) :
    ProjectReducer.reduce s (A ++ B) = ProjectReducer.reduce (ProjectReducer.reduce s A) B :=
  List.foldl_append ..

namespace ReducerState

/-- What a successful reduction of the four states consists of. -/
theorem reduce_eq_ok_iff {s s' : ReducerState} {events : List EventRecord} :
    s.reduce events = .ok s' ↔
      ProjectReducer.reduce s.project events = s'.project ∧
      TaskReducer.reduce s.tasks events = .ok s'.tasks ∧
      DecisionReducer.reduce s.decisions events = .ok s'.decisions ∧
      QuestionReducer.reduce s.questions events = .ok s'.questions := by
  simp only [reduce, Except.bind_eq_ok_iff, Except.pure_eq_ok_iff]
  constructor
  · rintro ⟨tasks, ht, decisions, hd, questions, hq, rfl⟩
    exact ⟨rfl, ht, hd, hq⟩
  · rintro ⟨hp, ht, hd, hq⟩
    exact ⟨_, ht, _, hd, _, hq, by cases s'; simp_all⟩

/-- Reducing a stream in two parts. -/
theorem reduce_append {s s' : ReducerState} {A : List EventRecord} (B : List EventRecord)
    (h : s.reduce A = .ok s') : s.reduce (A ++ B) = s'.reduce B := by
  obtain ⟨hp, ht, hd, hq⟩ := reduce_eq_ok_iff.mp h
  simp only [reduce, TaskReducer.reduce_eq_keyed, DecisionReducer.reduce_eq_keyed,
    QuestionReducer.reduce_eq_keyed] at *
  rw [keyedReduce_append B ht, keyedReduce_append B hd, keyedReduce_append B hq,
    ProjectReducer.reduce_append, hp]

/-- From alike states a replay builds the same head. -/
theorem Alike.replay {s s' : ReducerState} (h : s.Alike s') (p : UUID) (now : String)
    (added : List EventRecord) {events events' : List EventRecord}
    (hversion : maxVersion events = maxVersion events') :
    (do let t ← s.reduce added; buildHead p now t events) =
      (do let t ← s'.reduce added; buildHead p now t events') := by
  simp only [reduce, bind_assoc, pure_bind]
  refine Except.bind_congr_of_map (keyedReduce_normEntries h.tasks added) fun ts ts' ht => ?_
  refine Except.bind_congr_of_map (keyedReduce_normEntries h.decisions added) fun ds ds' hd => ?_
  refine Except.bind_congr_of_map (keyedReduce_normEntries h.questions added) fun qs qs' hq => ?_
  exact buildHead_congr ⟨ProjectReducer.shown_reduce added h.project, ht, hd, hq⟩ hversion

end ReducerState

/-! ## Ids -/

/-- The value is a scalar with the given normal form. -/
def HasKey (v : Json) (k : AtomNorm) : Prop := ∃ a, v = .atom a ∧ DictKey.norm a = k

/-- An item is stored under the id it carries, and the id is truthy. -/
def Filed {ν : Type} (id : ν → Json) (d : OrdDict Atom ν) : Prop :=
  ∀ e ∈ d.entries, HasKey (id e.2) (DictKey.norm e.1) ∧
    Json.truthyKey (DictKey.norm e.1) = true

theorem filed_empty {ν : Type} (id : ν → Json) : Filed id OrdDict.empty := by
  simp [Filed]

/-- Items stored under their ids are distinct. -/
theorem Filed.nodup_values {ν : Type} {id : ν → Json} {d : OrdDict Atom ν} (h : Filed id d) :
    d.values.Nodup := by
  have hinj : d.entries.Pairwise fun e e' => e.2 ≠ e'.2 := by
    have hkeys := List.pairwise_map.mp d.nodup
    apply hkeys.imp_of_mem
    intro e e' he he' hne heq
    obtain ⟨⟨a, ha, hna⟩, _⟩ := h e he
    obtain ⟨⟨a', ha', hna'⟩, _⟩ := h e' he'
    rw [heq, ha'] at ha
    cases ha
    exact hne (hna.symm.trans hna')
  exact List.pairwise_map.mpr hinj

theorem TaskReducer.taskId_created {event : EventRecord} {t : TaskState}
    (h : created event = .ok t) : t.taskId = taskIdOf event := by
  simp only [created, Except.bind_eq_ok_iff, Except.pure_eq_ok_iff] at h
  obtain ⟨_, _, _, _, _, _, _, _, _, _, rfl⟩ := h
  rfl

theorem TaskState.taskId_setattr {t t' : TaskState} {k : String} {v : Json}
    (h : t.setattr k v = .ok t') : t'.taskId = t.taskId := by
  unfold setattr at h
  split at h
  · simp only [Except.ok.injEq] at h
    rw [← h, taskId_setField]
  · split_ifs at h
    simp only [Except.ok.injEq] at h
    rw [h]

theorem TaskState.taskId_setattrs {t t' : TaskState} {p : JsonObj}
    (h : t.setattrs p = .ok t') : t'.taskId = t.taskId := by
  refine Fold.invariant (P := fun x : TaskState => x.taskId = t.taskId) ?_ rfl h
  intro s kv s' _ hs hstep
  split_ifs at hstep
  · simp only [Except.ok.injEq] at hstep
    rw [← hstep, hs]
  · rw [taskId_setattr hstep, hs]

/-- No update changes the id of a task. -/
theorem TaskReducer.taskId_update {event : EventRecord} {change : TaskState → Except Exc TaskState}
    {t t' : TaskState} (hact : action event = .update change) (h : change t = .ok t') :
    t'.taskId = t.taskId := by
  unfold action at hact
  split at hact <;> simp only [KeyedAction.update.injEq, reduceCtorEq] at hact
  · subst hact
    simp only [mutate, Except.bind_eq_ok_iff, Except.pure_eq_ok_iff] at h
    obtain ⟨t₁, ht₁, rfl⟩ := h
    exact (TaskState.taskId_setattrs ht₁ : t₁.taskId = t.taskId)
  · subst hact
    simp only [Except.ok.injEq] at h
    rw [← h]
    rfl
  · subst hact
    unfold noteProgress at h
    split at h
    · simp only [Except.ok.injEq] at h
      rw [← h]
    · simp at h

/-- Only `TASK_CREATED` creates. -/
theorem TaskReducer.action_create {event : EventRecord} {item : Except Exc TaskState}
    (h : action event = .create item) : item = created event := by
  unfold action at h
  split at h <;> simp_all

theorem DecisionReducer.action_create {event : EventRecord} {item : Except Exc DecisionState}
    (h : action event = .create item) : item = .ok (proposed event) := by
  unfold action at h
  split at h <;> simp_all

theorem QuestionReducer.action_create {event : EventRecord} {item : Except Exc QuestionState}
    (h : action event = .create item) : item = raised event := by
  unfold action at h
  split at h <;> simp_all

/-- Decisions change status and the fields that explain it. -/
theorem DecisionReducer.action_update {event : EventRecord}
    {change : DecisionState → Except Exc DecisionState} (h : action event = .update change) :
    change = (fun d => .ok (accept event d)) ∨ change = fun d => .ok (supersede event d) := by
  unfold action at h
  split at h <;> simp_all

theorem QuestionReducer.action_update {event : EventRecord}
    {change : QuestionState → Except Exc QuestionState} (h : action event = .update change) :
    change = fun q => .ok (resolve event q) := by
  unfold action at h
  split at h <;> simp_all

theorem QuestionReducer.questionId_raised {event : EventRecord} {q : QuestionState}
    (h : raised event = .ok q) : q.questionId = questionIdOf event := by
  simp only [raised, Except.bind_eq_ok_iff, Except.pure_eq_ok_iff] at h
  obtain ⟨_, _, rfl⟩ := h
  rfl

theorem filed_reduce {ν : Type} {idOf : EventRecord → Json}
    {action : EventRecord → KeyedAction ν} {id : ν → Json} {events : List EventRecord}
    (hcreate : ∀ e x, action e = .create (.ok x) → id x = idOf e)
    (hupdate : ∀ e change x x', action e = .update change → change x = .ok x' → id x' = id x)
    {d d' : OrdDict Atom ν} (hd : Filed id d) (h : keyedReduce idOf action d events = .ok d') :
    Filed id d' := by
  refine keyedReduce_forall (p := fun k x => HasKey (id x) k ∧ Json.truthyKey k = true) ?_ ?_ hd h
  · intro e _ x k hact hid ht
    exact ⟨⟨k, by rw [hcreate e x hact, hid], rfl⟩, by rw [← Json.truthy_atom, ← hid]; exact ht⟩
  · intro e _ change hact k x x' hx hchange
    rw [hupdate e change x x' hact hchange]
    exact hx

theorem TaskReducer.filed {d d' : TaskDict} {events : List EventRecord}
    (hd : Filed TaskState.taskId d) (h : reduce d events = .ok d') :
    Filed TaskState.taskId d' :=
  filed_reduce (fun _ _ hact => taskId_created (action_create hact).symm)
    (fun _ _ _ _ hact hc => taskId_update hact hc) hd h

theorem DecisionReducer.filed {d d' : DecisionDict} {events : List EventRecord}
    (hd : Filed DecisionState.decisionId d) (h : reduce d events = .ok d') :
    Filed DecisionState.decisionId d' := by
  refine filed_reduce ?_ ?_ hd h
  · intro e x hact
    have := action_create hact
    simp only [Except.ok.injEq] at this
    rw [this]
    rfl
  · intro e change x x' hact hc
    rcases action_update hact with rfl | rfl <;> simp only [Except.ok.injEq] at hc <;>
      rw [← hc] <;> rfl

theorem QuestionReducer.filed {d d' : QuestionDict} {events : List EventRecord}
    (hd : Filed QuestionState.questionId d) (h : reduce d events = .ok d') :
    Filed QuestionState.questionId d' := by
  refine filed_reduce (fun _ _ hact => questionId_raised (action_create hact).symm) ?_ hd h
  intro e change x x' hact hc
  rw [action_update hact] at hc
  simp only [Except.ok.injEq] at hc
  rw [← hc]
  rfl

/-! ## List fields -/

/-- The fields that decoders copy with `list` hold lists. -/
def TaskState.HasLists (t : TaskState) : Prop :=
  ∀ f : TaskField, f.isList = true → (t.getField f).isArr = true

theorem TaskState.hasLists_iff (t : TaskState) :
    t.HasLists ↔ t.tags.isArr = true ∧ t.blockedBy.isArr = true ∧
      t.progressNotes.isArr = true ∧ t.relatedKnowledgeIds.isArr = true := by
  constructor
  · intro h
    exact ⟨h .tags rfl, h .blockedBy rfl, h .progressNotes rfl, h .relatedKnowledgeIds rfl⟩
  · rintro ⟨h₁, h₂, h₃, h₄⟩ f hf
    cases f <;> first | contradiction | assumption

def QuestionState.HasLists (q : QuestionState) : Prop := q.blocksTaskIds.isArr = true

/-- A `TASK_MUTATED` event assigns lists to the fields declared as lists. -/
def EventRecord.Typed (event : EventRecord) : Prop :=
  event.eventType = .taskMutated →
    ∀ kv ∈ event.payload, ∀ f, TaskField.ofName? kv.1 = some f → f.isList = true →
      kv.2.isArr = true

theorem TaskState.hasLists_setattr {t t' : TaskState} {k : String} {v : Json}
    (hv : ∀ f, TaskField.ofName? k = some f → f.isList = true → v.isArr = true)
    (ht : t.HasLists) (h : t.setattr k v = .ok t') : t'.HasLists := by
  unfold setattr at h
  split at h
  · rename_i f hf
    simp only [Except.ok.injEq] at h
    subst h
    intro g hg
    rw [getField_setField]
    split_ifs with hfg
    · exact hv f hf (hfg ▸ hg)
    · exact ht g hg
  · split_ifs at h
    simp only [Except.ok.injEq] at h
    exact h ▸ ht

theorem TaskState.hasLists_setattrs {t t' : TaskState} {p : JsonObj}
    (hp : ∀ kv ∈ p, ∀ f, TaskField.ofName? kv.1 = some f → f.isList = true → kv.2.isArr = true)
    (ht : t.HasLists) (h : t.setattrs p = .ok t') : t'.HasLists := by
  refine Fold.invariant (P := TaskState.HasLists) ?_ ht h
  intro s kv s' hkv hs hstep
  split_ifs at hstep
  · simp only [Except.ok.injEq] at hstep
    exact hstep ▸ hs
  · exact hasLists_setattr (hp kv hkv) hs hstep

theorem TaskReducer.hasLists_created {event : EventRecord} {t : TaskState}
    (h : created event = .ok t) : t.HasLists := by
  simp only [created, Except.bind_eq_ok_iff, Except.pure_eq_ok_iff] at h
  obtain ⟨_, _, _, _, _, _, _, _, _, _, rfl⟩ := h
  exact (TaskState.hasLists_iff _).mpr ⟨rfl, rfl, rfl, rfl⟩

theorem TaskReducer.hasLists_update {event : EventRecord} (htyped : event.Typed)
    {change : TaskState → Except Exc TaskState} {t t' : TaskState}
    (hact : action event = .update change) (ht : t.HasLists) (h : change t = .ok t') :
    t'.HasLists := by
  unfold action at hact
  split at hact <;> simp only [KeyedAction.update.injEq, reduceCtorEq] at hact
  · rename_i htype
    subst hact
    simp only [mutate, Except.bind_eq_ok_iff, Except.pure_eq_ok_iff] at h
    obtain ⟨t₁, ht₁, rfl⟩ := h
    have h₁ := TaskState.hasLists_setattrs (htyped htype) ht ht₁
    exact (TaskState.hasLists_iff _).mpr ((TaskState.hasLists_iff t₁).mp h₁)
  · subst hact
    simp only [Except.ok.injEq] at h
    subst h
    exact (TaskState.hasLists_iff _).mpr ((TaskState.hasLists_iff t).mp ht)
  · subst hact
    unfold noteProgress at h
    split at h
    · simp only [Except.ok.injEq] at h
      subst h
      obtain ⟨h₁, h₂, _, h₄⟩ := (TaskState.hasLists_iff _).mp ht
      exact (TaskState.hasLists_iff _).mpr ⟨h₁, h₂, rfl, h₄⟩
    · simp at h

/-- Typed mutations keep the list fields of every task lists. -/
theorem TaskReducer.hasLists_reduce {d d' : TaskDict} {events : List EventRecord}
    (htyped : ∀ e ∈ events, e.Typed) (hd : ∀ e ∈ d.entries, e.2.HasLists)
    (h : reduce d events = .ok d') : ∀ e ∈ d'.entries, e.2.HasLists := by
  refine keyedReduce_forall (p := fun _ t => t.HasLists) ?_ ?_ hd h
  · intro e _ x k hact _ _
    exact hasLists_created (action_create hact).symm
  · intro e he change hact k x x' hx hc
    exact hasLists_update (htyped e he) hact hx hc

/-- The blocked tasks of a question are always a list. -/
theorem QuestionReducer.hasLists_reduce {d d' : QuestionDict} {events : List EventRecord}
    (hd : ∀ e ∈ d.entries, e.2.HasLists) (h : reduce d events = .ok d') :
    ∀ e ∈ d'.entries, e.2.HasLists := by
  refine keyedReduce_forall (p := fun _ q => q.HasLists) ?_ ?_ hd h
  · intro e _ x k hact _ _
    have hr : raised e = .ok x := (action_create hact).symm
    simp only [raised, Except.bind_eq_ok_iff, Except.pure_eq_ok_iff] at hr
    obtain ⟨_, _, rfl⟩ := hr
    rfl
  · intro e _ change hact k x x' hx hc
    rw [action_update hact] at hc
    simp only [Except.ok.injEq] at hc
    exact hc ▸ hx

end RationaleVault
