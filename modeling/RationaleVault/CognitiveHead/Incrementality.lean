import RationaleVault.CognitiveHead.Continuation
import RationaleVault.CognitiveHead.DeltaReplay
import RationaleVault.CognitiveHead.Projection

/-!
# Incrementality of the projection

Replaying `B` on the head of `A` should give what replaying `A ++ B` gives.
The head keeps the active items only, sorted by priority, so the law holds for
every continuation exactly when the state after `A` is displayed as it is
stored; through serialization the list fields of tasks have to be lists too.
-/

namespace RationaleVault

/-! ## Items and their keys -/

/-- The scalar an id consists of. -/
def idAtom : Json → Atom
  | .atom a => a
  | _ => .null

/-- An item with the normal form of its id. -/
def keyed {ν : Type} (id : ν → Json) (x : ν) : AtomNorm × ν := (DictKey.norm (idAtom (id x)), x)

section Items

variable {ν : Type} {id : ν → Json} {d : OrdDict Atom ν}

/-- In a filed dictionary the items determine the entries. -/
theorem Filed.normEntries_eq (h : Filed id d) : d.normEntries = d.values.map (keyed id) := by
  simp only [OrdDict.normEntries, OrdDict.values, List.map_map]
  apply List.map_congr_left
  intro e he
  obtain ⟨a, ha, hn⟩ := (h e he).1
  simp [keyed, ha, idAtom, hn]

theorem Filed.normKeys_eq (h : Filed id d) :
    d.normKeys = d.values.map fun x => DictKey.norm (idAtom (id x)) := by
  rw [OrdDict.normKeys_eq_map_normEntries, h.normEntries_eq, List.map_map]
  rfl

/-- Every item of a filed dictionary has its id as key. -/
theorem Filed.exists_key (h : Filed id d) {x : ν} (hx : x ∈ d.values) :
    ∃ k ∈ d.keys, d.get? k = some x ∧ id x = .atom (idAtom (id x)) ∧
      DictKey.norm (idAtom (id x)) = DictKey.norm k := by
  obtain ⟨e, he, rfl⟩ := List.mem_map.mp hx
  obtain ⟨a, ha, hn⟩ := (h e he).1
  refine ⟨e.1, List.mem_map.mpr ⟨e, he, rfl⟩, OrdDict.get?_of_mem he, ?_⟩
  rw [ha]
  exact ⟨rfl, hn⟩

namespace CognitiveHeadProjection

theorem itemsById_eq_ok {items : List ν} (h : ∀ x ∈ items, id x = .atom (idAtom (id x))) :
    itemsById id items = .ok (OrdDict.ofList (items.map fun x => (idAtom (id x), x))) := by
  rw [itemsById, OrdDict.ofList]
  generalize (OrdDict.empty : OrdDict Atom ν) = d
  induction items generalizing d with
  | nil => rfl
  | cons x rest ih =>
      have hx := h x List.mem_cons_self
      rw [List.foldlM_cons, List.map_cons, List.foldl_cons,
        ← ih (fun y hy => h y (List.mem_cons_of_mem _ hy))]
      rw [hx]
      rfl

theorem mem_of_itemsById {items : List ν} {d : OrdDict Atom ν} (h : itemsById id items = .ok d) :
    ∀ x ∈ d.values, x ∈ items := by
  refine Fold.invariant (P := fun d : OrdDict Atom ν => ∀ x ∈ d.values, x ∈ items) ?_ (by simp) h
  intro d x d' hx hd hstep y hy
  simp only [Except.bind_eq_ok_iff, Except.pure_eq_ok_iff] at hstep
  obtain ⟨k, _, rfl⟩ := hstep
  obtain ⟨e, he, rfl⟩ := List.mem_map.mp hy
  rcases OrdDict.mem_setIn he with ⟨_, hv⟩ | hmem
  · rw [hv]
    exact hx
  · exact hd _ (List.mem_map.mpr ⟨e, hmem, rfl⟩)

/-- Filing some of the items of a dictionary again keeps them in the given order. -/
theorem itemsById_of_perm (hd : Filed id d) {p : ν → Bool} {items : List ν}
    (hperm : items.Perm (d.values.filter p)) :
    ∃ d₀, itemsById id items = .ok d₀ ∧ d₀.normEntries = items.map (keyed id) := by
  have hmem : ∀ x ∈ items, x ∈ d.values := fun x hx =>
    List.mem_of_mem_filter (hperm.subset hx)
  have hnodup : ((items.map fun x => (idAtom (id x), x)).map
      fun e => DictKey.norm e.1).Nodup := by
    rw [List.map_map]
    apply (hperm.map _).nodup_iff.mpr
    have hkeys := d.normKeys_nodup
    rw [hd.normKeys_eq] at hkeys
    exact hkeys.sublist (List.filter_sublist.map _)
  refine ⟨_, itemsById_eq_ok fun x hx => ?_, ?_⟩
  · obtain ⟨_, _, _, hatom, _⟩ := hd.exists_key (hmem x hx)
    exact hatom
  · rw [OrdDict.normEntries, OrdDict.entries_ofList hnodup, List.map_map]
    rfl

/-- An item that is left out has no key in the new dictionary. -/
theorem not_mem_normKeys (hd : Filed id d) {p : ν → Bool} {items : List ν}
    (hperm : items.Perm (d.values.filter p)) {d₀ : OrdDict Atom ν}
    (hd₀ : d₀.normEntries = items.map (keyed id)) {x : ν} (hx : x ∈ d.values)
    (hp : p x = false) : ∃ k ∈ d.keys, DictKey.norm k ∉ d₀.normKeys := by
  obtain ⟨k, hk, hget, _, _⟩ := hd.exists_key hx
  refine ⟨k, hk, fun hmem => ?_⟩
  rw [OrdDict.normKeys_eq_map_normEntries, hd₀, List.map_map] at hmem
  obtain ⟨y, hy, hkey⟩ := List.mem_map.mp hmem
  obtain ⟨hyd, hpy⟩ := List.mem_filter.mp (hperm.subset hy)
  obtain ⟨k', _, hget', _, hn⟩ := hd.exists_key hyd
  have hsame : DictKey.norm k' = DictKey.norm k := hn.symm.trans hkey
  rw [OrdDict.get?_congr hsame, hget] at hget'
  rw [Option.some.inj hget', hpy] at hp
  cases hp

/-- Items out of priority order change places. -/
theorem exists_swapped (hd : Filed id d) (rank : ν → Nat) {d₀ : OrdDict Atom ν}
    (hd₀ : d₀.normEntries =
      (d.values.insertionSort fun x y => rank x ≤ rank y).map (keyed id))
    (h : ¬ d.values.Pairwise fun x y => rank x ≤ rank y) :
    ∃ a ∈ d.keys, ∃ b ∈ d.keys, DictKey.norm b ≠ DictKey.norm a ∧
      [DictKey.norm b, DictKey.norm a].Sublist d.normKeys ∧
      [DictKey.norm a, DictKey.norm b].Sublist d₀.normKeys := by
  rw [List.pairwise_iff_forall_sublist] at h
  push Not at h
  obtain ⟨x, y, hsub, hlt⟩ := h
  have hx : x ∈ d.values := hsub.subset (by simp)
  have hy : y ∈ d.values := hsub.subset (by simp)
  obtain ⟨b, hb, _, _, hbx⟩ := hd.exists_key hx
  obtain ⟨a, ha, _, _, hay⟩ := hd.exists_key hy
  have hkeys := hsub.map fun x => DictKey.norm (idAtom (id x))
  rw [← hd.normKeys_eq, List.map_cons, List.map_cons, List.map_nil, hbx, hay] at hkeys
  have hne := (hkeys.nodup d.normKeys_nodup)
  have hkeys₀ := (pair_sublist_insertionSort_of_lt rank hx hy hlt).map
    fun x => DictKey.norm (idAtom (id x))
  rw [List.map_cons, List.map_cons, List.map_nil, hbx, hay] at hkeys₀
  refine ⟨a, ha, b, hb, ?_, hkeys, ?_⟩
  · simpa using hne
  · rw [OrdDict.normKeys_eq_map_normEntries, hd₀, List.map_map]
    exact hkeys₀

end CognitiveHeadProjection

end Items

namespace CognitiveHeadProjection

/-! ## The state of a head -/

section StateOfHead

variable {p : UUID} {now : String} {s : ReducerState} {events : List EventRecord}
  {head : CognitiveHead}

/-- The lists of a head, as permutations of the active items. -/
theorem perm_of_buildHead (h : buildHead p now s events = .ok head) :
    head.activeTasks.Perm (activeTasksOf s.tasks) ∧
      head.activeDecisions.Perm (activeDecisionsOf s.decisions) ∧
      head.openQuestions.Perm (openQuestionsOf s.questions) := by
  obtain ⟨hq, ht, hd⟩ := buildHead_lists h
  rw [hq, ht, hd]
  exact ⟨List.perm_insertionSort _ _, List.Perm.refl _, List.perm_insertionSort _ _⟩

/-- The restored state holds the items the head shows, in the order it shows them. -/
structure Restored (head : CognitiveHead) (s₀ : ReducerState) : Prop where
  state : stateOfHead head = .ok s₀
  project : s₀.project.shown = (head.projectName, head.projectGoal, head.currentFocus)
  tasks : s₀.tasks.normEntries = head.activeTasks.map (keyed TaskState.taskId)
  decisions : s₀.decisions.normEntries = head.activeDecisions.map (keyed DecisionState.decisionId)
  questions : s₀.questions.normEntries = head.openQuestions.map (keyed QuestionState.questionId)

theorem exists_restored (hs : s.Filed) (h : buildHead p now s events = .ok head) :
    ∃ s₀, Restored head s₀ := by
  obtain ⟨ht, hd, hq⟩ := perm_of_buildHead h
  obtain ⟨ts, hts, htasks⟩ := itemsById_of_perm hs.tasks ht
  obtain ⟨ds, hds, hdecisions⟩ := itemsById_of_perm hs.decisions hd
  obtain ⟨qs, hqs, hquestions⟩ := itemsById_of_perm hs.questions hq
  refine ⟨⟨headToProjectState head, ts, ds, qs⟩, ?_, rfl, htasks, hdecisions, hquestions⟩
  rw [stateOfHead, headToTasksDict, hts, headToDecisionsDict, hds, headToQuestionsDict, hqs]
  rfl

/-- A displayed state is restored, up to the spelling of its keys. -/
theorem Restored.alike {s₀ : ReducerState} (h₀ : Restored head s₀) (hs : s.Filed)
    (h : buildHead p now s events = .ok head) (hdisp : s.Displayed) : s₀.Alike s := by
  obtain ⟨ht, hd, hq⟩ := (ReducerState.displayed_iff h).mp hdisp
  constructor
  · exact h₀.project.trans (buildHead_fields h).2.1
  · rw [h₀.tasks, ht, hs.tasks.normEntries_eq]
  · rw [h₀.decisions, hd, hs.decisions.normEntries_eq]
  · rw [h₀.questions, hq, hs.questions.normEntries_eq]

/-- A state that no continuation tells apart from the restored one is displayed. -/
theorem Restored.displayed {s₀ : ReducerState} (h₀ : Restored head s₀) (hs : s.Filed)
    (h : buildHead p now s events = .ok head) (hsep : ¬ Separable s s₀) : s.Displayed := by
  obtain ⟨htp, hdp, hqp⟩ := perm_of_buildHead h
  obtain ⟨hql, htl, _⟩ := buildHead_lists h
  have htasks : ∀ t ∈ s.tasks.values, t.status ≠ .str "completed" := by
    intro t ht hstatus
    obtain ⟨k, hk, hk₀⟩ := not_mem_normKeys hs.tasks htp h₀.tasks ht (by simp [hstatus])
    exact hsep (separable_of_missing_task hs hk hk₀)
  have hdecisions : ∀ d ∈ s.decisions.values, d.status = .str "accepted" := by
    intro d hd
    by_contra hstatus
    obtain ⟨k, hk, hk₀⟩ := not_mem_normKeys hs.decisions hdp h₀.decisions hd (by simp [hstatus])
    exact hsep (separable_of_missing_decision hs hk hk₀)
  have hquestions : ∀ q ∈ s.questions.values, q.status = .str "open" := by
    intro q hq
    by_contra hstatus
    obtain ⟨k, hk, hk₀⟩ := not_mem_normKeys hs.questions hqp h₀.questions hq (by simp [hstatus])
    exact hsep (separable_of_missing_question hs hk hk₀)
  refine ⟨htasks, hdecisions, hquestions, ?_, ?_⟩
  · by_contra hsorted
    have hall : activeTasksOf s.tasks = s.tasks.values :=
      List.filter_eq_self.mpr fun t ht => by simpa using htasks t ht
    obtain ⟨a, ha, b, hb, hne, hab, hab₀⟩ := exists_swapped hs.tasks
      (fun t => priorityRank t.priority) (by rw [h₀.tasks, htl, hall]) hsorted
    exact hsep (separable_of_swapped_tasks hs ha hb hne hab hab₀)
  · by_contra hsorted
    have hall : openQuestionsOf s.questions = s.questions.values :=
      List.filter_eq_self.mpr fun q hq => by simpa using hquestions q hq
    obtain ⟨a, ha, b, hb, hne, hab, hab₀⟩ := exists_swapped hs.questions
      (fun q => priorityRank q.priority) (by rw [h₀.questions, hql, hall]) hsorted
    exact hsep (separable_of_swapped_questions hs ha hb hne hab hab₀)

end StateOfHead

/-! ## Serialized heads -/

/-- Every rebuilt task has lists in its list fields. -/
theorem hasLists_taskOfDict {taskId : Json} {d : JsonObj} {t : TaskState}
    (h : taskOfDict taskId d = .ok t) : t.HasLists := by
  have harr : ∀ {v v' : Json}, v.copyList = .ok v' → v'.isArr = true := by
    intro v v' hv
    unfold Json.copyList at hv
    split at hv
    · exact (Except.ok.inj hv) ▸ rfl
    · cases hv
  simp only [taskOfDict, TaskState.ofDict, Except.bind_eq_ok_iff, Except.pure_eq_ok_iff] at h
  obtain ⟨_, _, _, _, _, h₁, _, h₂, _, h₃, _, h₄, rfl⟩ := h
  exact (TaskState.hasLists_iff _).mpr ⟨harr h₁, harr h₂, harr h₃, harr h₄⟩

theorem taskOfDict_toDict {t : TaskState} (h : t.HasLists) (taskId : Json) :
    taskOfDict taskId t.toDict = .ok t := TaskState.dictToTaskState_toDict h

theorem questionOfDict_toDict {q : QuestionState} (h : q.HasLists) (questionId : Json) :
    questionOfDict questionId q.toDict = .ok q := QuestionState.dictToQuestionState_toDict h

/-- A head whose list fields are lists survives serialization. -/
theorem deserialize_serialize {head : CognitiveHead} (ht : ∀ t ∈ head.activeTasks, t.HasLists)
    (hq : ∀ q ∈ head.openQuestions, q.HasLists) : deserialize (serialize head) = .ok head := by
  have htasks : (head.activeTasks.map TaskState.toDict).mapM (taskOfDict (.str "")) =
      .ok head.activeTasks := by
    apply Fold.mapM_map_of_inverse
    exact fun t hmem => taskOfDict_toDict (ht t hmem) _
  have hdecisions : (head.activeDecisions.map DecisionState.toDict).mapM
      (decisionOfDict (.str "")) = .ok head.activeDecisions := by
    apply Fold.mapM_map_of_inverse
    exact fun d _ => DecisionState.ofDict_toDict d
  have hquestions : (head.openQuestions.map QuestionState.toDict).mapM
      (questionOfDict (.str "")) = .ok head.openQuestions := by
    apply Fold.mapM_map_of_inverse
    exact fun q hmem => questionOfDict_toDict (hq q hmem) _
  simp only [deserialize, serialize, serializedDictToHead, headOfDict, Option.getD_some, htasks,
    hdecisions, hquestions, Except.ok_bind_eq, UUID.parse_str]
  rfl

theorem hasLists_of_deserialize {head head' : CognitiveHead}
    (h : deserialize (serialize head) = .ok head') : ∀ t ∈ head'.activeTasks, t.HasLists := by
  simp only [deserialize, serialize, serializedDictToHead, headOfDict, Except.bind_eq_ok_iff,
    Except.pure_eq_ok_iff] at h
  obtain ⟨tasks, htasks, _, _, _, _, _, _, rfl⟩ := h
  intro t ht
  obtain ⟨_, _, htask⟩ := Fold.mem_of_mapM htasks t ht
  exact hasLists_taskOfDict htask

/-! ## The law -/

/-- All events belong to the project of the first one. -/
def OneProject (events : List EventRecord) : Prop :=
  ∀ e ∈ events, e.projectId = projectIdOf events

/-- Replaying `B` on the head of `A`, as it is or after serialization, gives the head of
`A ++ B`, up to `compiled_at`. -/
structure Incremental (A B : List EventRecord) : Prop where
  direct : (do
      let head ← reduce A none
      reduce B (some head)).map CognitiveHead.content =
    (reduce (A ++ B) none).map CognitiveHead.content
  serialized : (do
      let head ← reduce A none
      let head ← deserialize (serialize head)
      reduce B (some head)).map CognitiveHead.content =
    (reduce (A ++ B) none).map CognitiveHead.content

section Law

variable {A B : List EventRecord} {head : CognitiveHead}

theorem reduce_none_eq_ok (h : reduce A none = .ok head) :
    HasBootstrap A ∧ ∃ s, ReducerState.initial.reduce A = .ok s ∧ s.Filed ∧
      buildHead (projectIdOf A) "" s A = .ok head := by
  simp only [reduce, Except.bind_eq_ok_iff] at h
  obtain ⟨_, hboot, s, hs, hhead⟩ := h
  exact ⟨checkBootstrap_eq_ok_iff.mp hboot, s, hs, ReducerState.filed_initial.reduce hs, hhead⟩

/-- The full replay continues from the state after `A`. -/
theorem reduce_append {s : ReducerState} (hboot : HasBootstrap A)
    (hs : ReducerState.initial.reduce A = .ok s) (B : List EventRecord) :
    reduce (A ++ B) none = (do
      let t ← s.reduce B
      buildHead (projectIdOf A) "" t (A ++ B)) := by
  have hp : projectIdOf (A ++ B) = projectIdOf A := by
    rw [projectIdOf, projectIdOf, List.head?_append_of_ne_nil _ hboot.ne_nil]
  rw [reduce, checkBootstrap_eq_ok_iff.mpr (hboot.append B), ReducerState.reduce_append B hs, hp]
  rfl

/-- The delta replay continues from the state the head stands for. -/
theorem reduce_some {s₀ : ReducerState} (h₀ : stateOfHead head = .ok s₀) (hne : B ≠ []) :
    reduce B (some head) = (do
      let t ← s₀.reduce B
      buildHead (projectIdOf B) "" t B) := by
  rw [reduce, if_neg hne, h₀]
  rfl

theorem OneProject.projectIdOf_eq (h : OneProject (A ++ B)) (hA : A ≠ []) (hB : B ≠ []) :
    projectIdOf B = projectIdOf A := by
  obtain ⟨a, rest, rfl⟩ := List.exists_cons_of_ne_nil hA
  obtain ⟨b, rest', rfl⟩ := List.exists_cons_of_ne_nil hB
  exact h b (by simp)

theorem maxVersion_append_eq_iff (hA : A ≠ []) (hB : B ≠ []) :
    maxVersion (A ++ B) = maxVersion B ↔ maxVersion A ≤ maxVersion B := by
  simp only [maxVersion, List.map_append]
  exact Table.maxD_append_eq_iff (by simpa using hA) (by simpa using hB)

/-- Displayed states with lists in their list fields make the law hold. -/
theorem incremental_of_displayed {s : ReducerState} (hA : reduce A none = .ok head)
    (hs : ReducerState.initial.reduce A = .ok s) (hdisp : s.Displayed)
    (hlists : ∀ t ∈ s.tasks.values, t.HasLists) (hone : OneProject (A ++ B)) (hB : B ≠ [])
    (hversion : maxVersion A ≤ maxVersion B) : Incremental A B := by
  obtain ⟨hboot, s', hs', hfiled, hhead⟩ := reduce_none_eq_ok hA
  obtain rfl : s' = s := Except.ok.inj (hs'.symm.trans hs)
  obtain ⟨s₀, h₀⟩ := exists_restored hfiled hhead
  have hdelta : reduce B (some head) = reduce (A ++ B) none := by
    rw [reduce_some h₀.state hB, reduce_append hboot hs B,
      hone.projectIdOf_eq hboot.ne_nil hB]
    apply (h₀.alike hfiled hhead hdisp).replay
    exact ((maxVersion_append_eq_iff hboot.ne_nil hB).mpr hversion).symm
  have hround : deserialize (serialize head) = .ok head := by
    obtain ⟨ht, _, hq⟩ := (ReducerState.displayed_iff hhead).mp hdisp
    apply deserialize_serialize
    · exact ht ▸ hlists
    · intro q hmem
      rw [hq] at hmem
      obtain ⟨e, he, rfl⟩ := List.mem_map.mp hmem
      exact QuestionReducer.hasLists_reduce (by simp [ReducerState.initial])
        (ReducerState.reduce_eq_ok_iff.mp hs).2.2.2 e he
  constructor
  · rw [hA, Except.ok_bind_eq, hdelta]
  · rw [hA, Except.ok_bind_eq, hround, Except.ok_bind_eq, hdelta]

/-- The ledger version of a delta replay is that of the new events alone. -/
theorem maxVersion_le_of_incremental (hA : reduce A none = .ok head) (hB : B ≠ [])
    {H : CognitiveHead} (hfull : reduce (A ++ B) none = .ok H) (h : Incremental A B) :
    maxVersion A ≤ maxVersion B := by
  obtain ⟨hboot, s, hs, hfiled, hhead⟩ := reduce_none_eq_ok hA
  obtain ⟨s₀, h₀⟩ := exists_restored hfiled hhead
  have hdirect := h.direct
  rw [hA, Except.ok_bind_eq, hfull] at hdirect
  obtain ⟨H', hdelta, hcontent⟩ := Except.map_eq_ok_iff.mp hdirect
  rw [reduce_some h₀.state hB, Except.bind_eq_ok_iff] at hdelta
  obtain ⟨_, _, hH'⟩ := hdelta
  rw [reduce_append hboot hs, Except.bind_eq_ok_iff] at hfull
  obtain ⟨_, _, hH⟩ := hfull
  have hversion : H'.ledgerVersion = H.ledgerVersion := congrArg (·.ledgerVersion) hcontent
  rw [(buildHead_fields hH').2.2.2, (buildHead_fields hH).2.2.2] at hversion
  rw [← maxVersion_append_eq_iff hboot.ne_nil hB]
  exact_mod_cast hversion.symm

/-- An event of the given content. -/
def eventFor (p : UUID) (version : Nat) (content : EventType × JsonObj) : EventRecord where
  eventSequence := 0
  id := .zero
  projectId := p
  streamId := "main"
  version := version
  eventType := content.1
  metadata := ⟨"agent", "cli", "", ""⟩
  payload := content.2
  parentId := none
  recordedAt := none
  schemaVersion := .int 1

/-- Events of given contents that continue `A` in its project. -/
def continuation (A : List EventRecord) (contents : List (EventType × JsonObj)) :
    List EventRecord :=
  contents.map (eventFor (projectIdOf A) (maxVersion A))

theorem content_continuation (A : List EventRecord) (contents : List (EventType × JsonObj)) :
    (continuation A contents).map EventRecord.content = contents := by
  rw [continuation, List.map_map]
  exact List.map_id contents

theorem le_maxVersion_continuation (A : List EventRecord) {contents : List (EventType × JsonObj)}
    (hne : contents ≠ []) : maxVersion A ≤ maxVersion (continuation A contents) := by
  obtain ⟨c, rest, rfl⟩ := List.exists_cons_of_ne_nil hne
  exact Table.le_maxD (x := maxVersion A) (by simp [continuation, eventFor])

theorem OneProject.append_continuation (h : OneProject A) (hne : A ≠ [])
    (contents : List (EventType × JsonObj)) : OneProject (A ++ continuation A contents) := by
  have hp : projectIdOf (A ++ continuation A contents) = projectIdOf A := by
    rw [projectIdOf, projectIdOf, List.head?_append_of_ne_nil _ hne]
  intro e he
  rw [hp]
  rcases List.mem_append.mp he with he | he
  · exact h e he
  · obtain ⟨c, _, rfl⟩ := List.mem_map.mp he
    rfl

/-- No continuation tells the state after `A` from the restored one when the law holds. -/
theorem not_separable_of_incremental {s s₀ : ReducerState} (hA : reduce A none = .ok head)
    (hs : ReducerState.initial.reduce A = .ok s) (h₀ : stateOfHead head = .ok s₀)
    (h : ∀ contents ≠ [], Incremental A (continuation A contents)) : ¬ Separable s s₀ := by
  rintro ⟨contents, hne, _, hdist⟩
  obtain ⟨hboot, _⟩ := reduce_none_eq_ok hA
  obtain ⟨s₁, hs₁, hok, hdiff⟩ := hdist _ (content_continuation A contents)
  obtain ⟨H, hH⟩ := hok (projectIdOf A) "" (A ++ continuation A contents)
  have hdirect := (h contents hne).direct
  rw [hA, Except.ok_bind_eq, reduce_append hboot hs, hs₁, Except.ok_bind_eq, hH] at hdirect
  obtain ⟨H', hdelta, hcontent⟩ := Except.map_eq_ok_iff.mp hdirect
  rw [reduce_some h₀ (by simpa [continuation] using hne), Except.bind_eq_ok_iff] at hdelta
  obtain ⟨s₂, hs₂, hH'⟩ := hdelta
  exact hdiff s₂ hs₂ (sameLists_of_content hH' hH hcontent)

/-- The law for one unrelated event already needs lists in the list fields of shown tasks. -/
theorem hasLists_of_incremental {s : ReducerState} (hA : reduce A none = .ok head)
    (hs : ReducerState.initial.reduce A = .ok s)
    (h : Incremental A (continuation A [(.factRecorded, [])])) :
    ∀ t ∈ activeTasksOf s.tasks, t.HasLists := by
  obtain ⟨hboot, s', hs', _, hhead⟩ := reduce_none_eq_ok hA
  obtain rfl : s' = s := Except.ok.inj (hs'.symm.trans hs)
  have hserialized := h.serialized
  have hskip : s'.reduce (continuation A [(.factRecorded, [])]) = .ok s' := rfl
  rw [hA, Except.ok_bind_eq, reduce_append hboot hs, hskip, Except.ok_bind_eq,
    buildHead_of_ok hhead] at hserialized
  obtain ⟨H', hdelta, hcontent⟩ := Except.map_eq_ok_iff.mp hserialized
  rw [Except.bind_eq_ok_iff] at hdelta
  obtain ⟨head', hhead', hdelta⟩ := hdelta
  simp only [reduce, continuation, List.map_cons, List.map_nil, reduceCtorEq, if_false,
    Except.bind_eq_ok_iff] at hdelta
  obtain ⟨s₀, hs₀, s₁, hs₁, hH'⟩ := hdelta
  obtain rfl : s₀ = s₁ := Except.ok.inj hs₁
  have htasks : H'.activeTasks = head.activeTasks := congrArg (·.activeTasks) hcontent
  intro t ht
  have hmem : t ∈ H'.activeTasks := by
    rw [htasks]
    exact (perm_of_buildHead hhead).1.symm.subset ht
  have hvalue := List.mem_of_mem_filter ((perm_of_buildHead hH').1.subset hmem)
  simp only [stateOfHead, Except.bind_eq_ok_iff, Except.pure_eq_ok_iff] at hs₀
  obtain ⟨ts, hts, _, _, _, _, rfl⟩ := hs₀
  exact hasLists_of_deserialize hhead' t (mem_of_itemsById hts t hvalue)

/-- Incrementality holds for every continuation of `A` that reaches its version exactly when
everything `A` leads to is displayed as it is stored and tasks have lists in their list fields;
where the whole list has a head, a continuation below the version of `A` never satisfies it. -/
theorem incremental_iff_displayed (hA : reduce A none = .ok head) (hone : OneProject A) :
    ((∀ B, B ≠ [] → OneProject (A ++ B) → maxVersion A ≤ maxVersion B → Incremental A B) ↔
      ∃ s, ReducerState.initial.reduce A = .ok s ∧ s.Displayed ∧
        ∀ t ∈ s.tasks.values, t.HasLists) ∧
    ∀ B H, B ≠ [] → reduce (A ++ B) none = .ok H → Incremental A B →
      maxVersion A ≤ maxVersion B := by
  obtain ⟨hboot, s, hs, hfiled, hhead⟩ := reduce_none_eq_ok hA
  obtain ⟨s₀, h₀⟩ := exists_restored hfiled hhead
  refine ⟨⟨fun h => ?_, ?_⟩, fun B H hB hfull h => maxVersion_le_of_incremental hA hB hfull h⟩
  · have hlaw : ∀ contents ≠ [], Incremental A (continuation A contents) := by
      intro contents hne
      apply h
      · simpa [continuation] using hne
      · exact hone.append_continuation hboot.ne_nil contents
      · exact le_maxVersion_continuation A hne
    have hdisp := h₀.displayed hfiled hhead (not_separable_of_incremental hA hs h₀.state hlaw)
    have hlists := hasLists_of_incremental hA hs (hlaw _ (by simp))
    refine ⟨s, hs, hdisp, fun t ht => hlists t ?_⟩
    exact List.mem_filter.mpr ⟨ht, by simpa using hdisp.tasks t ht⟩
  · rintro ⟨s', hs', hdisp, hlists⟩ B hB hone hversion
    exact incremental_of_displayed hA hs' hdisp hlists hone hB hversion

end Law

/-- A project with one open task. -/
def openTaskEvents : List EventRecord := ReplayEngine.openTaskDb.projectRows .zero

/-- One open task is displayed as it is stored, so every continuation is incremental. -/
theorem incremental_openTask :
    ∃ head, reduce openTaskEvents none = .ok head ∧ OneProject openTaskEvents ∧
      ∀ B, B ≠ [] → OneProject (openTaskEvents ++ B) →
        maxVersion openTaskEvents ≤ maxVersion B → Incremental openTaskEvents B := by
  have hone : OneProject openTaskEvents := by
    unfold OneProject
    decide
  refine ⟨_, rfl, hone, ?_⟩
  refine (incremental_iff_displayed rfl hone).1.mpr ⟨_, rfl, ?_, ?_⟩
  · constructor <;> decide
  · intro t ht
    apply (TaskState.hasLists_iff t).mpr
    revert t
    decide

/-- A project with a proposed decision. -/
def proposedEvents : List EventRecord :=
  (sampleDb [proposeDecision (.str "d")]).projectRows .zero

/-- The event that accepts the decision. -/
def acceptedEvents : List EventRecord :=
  ((sampleDb [proposeDecision (.str "d"), acceptDecision (.str "d")]).projectRows .zero).drop 4

/-- The head drops proposed decisions, so an acceptance after it is lost. -/
theorem incremental_loses_acceptance :
    (∃ head, reduce proposedEvents none = .ok head) ∧ HasBootstrap proposedEvents ∧
      acceptedEvents ≠ [] ∧ OneProject (proposedEvents ++ acceptedEvents) ∧
      maxVersion proposedEvents ≤ maxVersion acceptedEvents ∧
      ¬ Incremental proposedEvents acceptedEvents := by
  refine ⟨⟨_, rfl⟩, by decide, by decide, ?_, by decide, ?_⟩
  · unfold OneProject
    decide
  · rintro ⟨hdirect, _⟩
    revert hdirect
    decide

end CognitiveHeadProjection

end RationaleVault
