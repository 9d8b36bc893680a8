import RationaleVault.CognitiveHead.FastPath

/-!
# States that can be compiled

The assembly of the head hashes priorities and ids, walks the lists of blockers
and sorts question ids; the snapshot then sorts the ids of all items. On a readable
state none of this raises: what is looked at is hashable, what is walked can be
walked, and the ids of the tasks, of the decisions and of the questions are of one
kind each.
-/

namespace AtomNorm

def IsText (k : AtomNorm) : Prop := ∃ s, k = .str s

/-- The keys are all texts, or none is. -/
def OneKind (keys : List AtomNorm) : Prop := ∀ k ∈ keys, ∀ k' ∈ keys, k.IsText ↔ k'.IsText

theorem OneKind.mono {keys keys' : List AtomNorm} (h : OneKind keys) (hsub : keys' ⊆ keys) :
    OneKind keys' :=
  fun k hk k' hk' => h k (hsub hk) k' (hsub hk')

end AtomNorm

/-- Ids of one kind, none of them null, can be sorted. -/
theorem Atom.exists_sorted {keys : List Atom} (hkind : AtomNorm.OneKind (keys.map DictKey.norm))
    (htruthy : ∀ a ∈ keys, Json.truthyKey (DictKey.norm a) = true) :
    ∃ l, Atom.sorted keys = .ok l := by
  by_cases htext : ∃ a ∈ keys, a.isStr = true
  · obtain ⟨a, ha, hstr⟩ := htext
    apply Atom.sorted_of_isStr
    intro b hb
    have hsame := hkind _ (List.mem_map_of_mem ha) _ (List.mem_map_of_mem hb)
    exact (Atom.isStr_iff_norm b).mpr (hsame.mp ((Atom.isStr_iff_norm a).mp hstr))
  · have hnumber : keys.all (fun a => a.number?.isSome) = true := by
      apply List.all_eq_true.mpr
      intro a ha
      have hkey := htruthy a ha
      cases a with
      | null => cases hkey
      | str x => exact absurd ⟨_, ha, rfl⟩ htext
      | bool b => rfl
      | int n => rfl
      | float x => rfl
    unfold Atom.sorted
    split_ifs with h
    · exact ⟨_, rfl⟩
    · exact ⟨_, rfl⟩

/-- The value can be iterated over, and what it yields can be hashed. -/
def Json.ListsKeys (v : Json) : Prop :=
  ∃ items, v.toList = .ok items ∧ ∀ x ∈ items, x.hashable = true

/-- Copying with `list` keeps what is listed. -/
theorem Json.ListsKeys.arr {v : Json} {items : List Json} (h : v.ListsKeys)
    (hitems : v.toList = .ok items) : (Json.arr items).ListsKeys := by
  obtain ⟨items', hitems', hall⟩ := h
  obtain rfl := Except.ok.inj (hitems.symm.trans hitems')
  exact ⟨items, rfl, hall⟩

namespace RationaleVault

def TaskState.Readable (t : TaskState) : Prop :=
  t.status ≠ .str "completed" → t.priority.hashable = true ∧ t.blockedBy.ListsKeys

def QuestionState.Readable (q : QuestionState) : Prop :=
  q.status = .str "open" → q.priority.hashable = true ∧ q.blocksTaskIds.ListsKeys

/-- Nothing in the state keeps it from being compiled. -/
structure ReducerState.Readable (s : ReducerState) : Prop where
  filedTasks : RationaleVault.Filed TaskState.taskId s.tasks
  filedDecisions : RationaleVault.Filed DecisionState.decisionId s.decisions
  filedQuestions : RationaleVault.Filed QuestionState.questionId s.questions
  tasks : ∀ e ∈ s.tasks.entries, e.2.Readable
  questions : ∀ e ∈ s.questions.entries, e.2.Readable
  taskKind : AtomNorm.OneKind s.tasks.normKeys
  decisionKind : AtomNorm.OneKind s.decisions.normKeys
  questionKind : AtomNorm.OneKind s.questions.normKeys

theorem ReducerState.readable_initial : ReducerState.initial.Readable where
  filedTasks := filed_empty _
  filedDecisions := filed_empty _
  filedQuestions := filed_empty _
  tasks := by simp [initial]
  questions := by simp [initial]
  taskKind := by simp [initial, AtomNorm.OneKind, OrdDict.normKeys]
  decisionKind := by simp [initial, AtomNorm.OneKind, OrdDict.normKeys]
  questionKind := by simp [initial, AtomNorm.OneKind, OrdDict.normKeys]

/-! ## The blocker map -/

/-- The map holds known questions only. -/
def HoldsQuestions (s : ReducerState) (m : BlockerMap) : Prop :=
  ∀ entry ∈ m.entries, ∀ q ∈ entry.2.entries, DictKey.norm q.1 ∈ s.questions.normKeys

theorem HoldsQuestions.add {s : ReducerState} {m : BlockerMap} (hm : HoldsQuestions s m)
    (tid : Atom) {qid : Atom} (hqid : DictKey.norm qid ∈ s.questions.normKeys) :
    HoldsQuestions s (m.add tid qid) := by
  refine OrdDict.forall_entries_set (p := fun _ (ids : OrdDict Atom Unit) =>
    ∀ q ∈ ids.entries, DictKey.norm q.1 ∈ s.questions.normKeys) hm ?_
  refine OrdDict.forall_entries_set (p := fun k _ => k ∈ s.questions.normKeys) ?_ hqid
  intro q hq
  cases hget : m.get? tid with
  | none =>
      rw [hget] at hq
      cases hq
  | some ids =>
      rw [hget, Option.getD_some] at hq
      obtain ⟨entry, hentry, _, rfl⟩ := OrdDict.lookupIn_mem hget
      exact hm entry hentry q hq

section Maps

variable {s : ReducerState}

/-- An active task is filed under its id. -/
theorem exists_entry_of_active (hs : s.Readable) {t : TaskState} (ht : t ∈ activeTasksOf s.tasks) :
    (t.priority.hashable = true ∧ t.blockedBy.ListsKeys) ∧ ∃ a, t.taskId = .atom a := by
  obtain ⟨hvalue, hstatus⟩ := List.mem_filter.mp ht
  obtain ⟨e, he, rfl⟩ := List.mem_map.mp hvalue
  obtain ⟨a, ha, _⟩ := (hs.filedTasks e he).1
  exact ⟨hs.tasks e he (by simpa using hstatus), a, ha⟩

/-- An open question is filed under its id. -/
theorem exists_entry_of_open (hs : s.Readable) {q : QuestionState}
    (hq : q ∈ openQuestionsOf s.questions) :
    (q.priority.hashable = true ∧ q.blocksTaskIds.ListsKeys) ∧
      ∃ a, q.questionId = .atom a ∧ DictKey.norm a ∈ s.questions.normKeys := by
  obtain ⟨hvalue, hstatus⟩ := List.mem_filter.mp hq
  obtain ⟨e, he, rfl⟩ := List.mem_map.mp hvalue
  obtain ⟨a, ha, hkey⟩ := (hs.filedQuestions e he).1
  exact ⟨hs.questions e he (by simpa using hstatus), a, ha, hkey ▸ List.mem_map_of_mem he⟩

theorem exists_questionIds {questions : List QuestionState}
    (h : ∀ q ∈ questions, ∃ a, q.questionId = .atom a ∧ DictKey.norm a ∈ s.questions.normKeys) :
    ∃ ids, questionIds questions = .ok ids ∧ ∀ k ∈ ids.normKeys, k ∈ s.questions.normKeys := by
  apply Fold.exists_ok (P := fun ids : OrdDict Atom Unit =>
    ∀ k ∈ ids.normKeys, k ∈ s.questions.normKeys)
  · intro ids q hq hids
    obtain ⟨a, ha, hkey⟩ := h q hq
    refine ⟨ids.set a (), by rw [ha]; rfl, fun k hk => ?_⟩
    rw [OrdDict.normKeys_set] at hk
    split at hk
    · exact hids k hk
    · rcases List.mem_append.mp hk with hk | hk
      · exact hids k hk
      · exact List.mem_singleton.mp hk ▸ hkey
  · simp [OrdDict.normKeys]

theorem exists_blockersOfTask (hs : s.Readable) {openIds : OrdDict Atom Unit}
    (hopen : ∀ k ∈ openIds.normKeys, k ∈ s.questions.normKeys) {m : BlockerMap}
    (hm : HoldsQuestions s m) {t : TaskState} (ht : t ∈ activeTasksOf s.tasks) :
    ∃ m', blockersOfTask openIds m t = .ok m' ∧ HoldsQuestions s m' := by
  obtain ⟨⟨_, items, hitems, hhash⟩, a, ha⟩ := exists_entry_of_active hs ht
  rw [blockersOfTask, hitems, Except.ok_bind_eq]
  refine Fold.exists_ok (P := HoldsQuestions s) ?_ hm
  intro m qid hqid hm
  cases qid with
  | arr l => cases hhash _ hqid
  | obj l => cases hhash _ hqid
  | atom q =>
      rw [Json.hash_atom, Except.ok_bind_eq]
      by_cases hcontains : openIds.contains q = true
      · rw [if_pos hcontains, ha, Json.hash_atom]
        exact ⟨m.add a q, rfl, hm.add a (hopen _ ((OrdDict.contains_iff _ _).mp hcontains))⟩
      · rw [if_neg hcontains]
        exact ⟨m, rfl, hm⟩

theorem exists_blockersOfQuestion (hs : s.Readable) {m : BlockerMap} (hm : HoldsQuestions s m)
    {q : QuestionState} (hq : q ∈ openQuestionsOf s.questions) :
    ∃ m', blockersOfQuestion s.tasks m q = .ok m' ∧ HoldsQuestions s m' := by
  obtain ⟨⟨_, items, hitems, hhash⟩, a, ha, hkey⟩ := exists_entry_of_open hs hq
  rw [blockersOfQuestion, hitems, Except.ok_bind_eq]
  refine Fold.exists_ok (P := HoldsQuestions s) ?_ hm
  intro m tid htid hm
  cases tid with
  | arr l => cases hhash _ htid
  | obj l => cases hhash _ htid
  | atom t =>
      rw [Json.hash_atom, Except.ok_bind_eq]
      by_cases hcontains : s.tasks.contains t = true
      · rw [if_pos hcontains, ha, Json.hash_atom]
        exact ⟨m.add t a, rfl, hm.add t hkey⟩
      · rw [if_neg hcontains]
        exact ⟨m, rfl, hm⟩

theorem exists_blockerMap (hs : s.Readable) {tasks : List TaskState}
    {questions : List QuestionState} (htasks : ∀ t ∈ tasks, t ∈ activeTasksOf s.tasks)
    (hquestions : ∀ q ∈ questions, q ∈ openQuestionsOf s.questions) :
    ∃ m, blockerMap s.tasks tasks questions = .ok m ∧ HoldsQuestions s m := by
  obtain ⟨openIds, hids, hopen⟩ := exists_questionIds fun q hq =>
    (exists_entry_of_open hs (hquestions q hq)).2
  obtain ⟨m, hm, hholds⟩ := Fold.exists_ok (l := tasks) (f := blockersOfTask openIds)
    (P := HoldsQuestions s) (s := .empty)
    (fun m t ht hm => exists_blockersOfTask hs hopen hm (htasks t ht)) (by simp [HoldsQuestions])
  rw [blockerMap, hids, Except.ok_bind_eq, hm, Except.ok_bind_eq]
  exact Fold.exists_ok (P := HoldsQuestions s)
    (fun m q hq hm => exists_blockersOfQuestion hs hm (hquestions q hq)) hholds

theorem exists_blockerEntries (hs : s.Readable) {entries : List (Atom × OrdDict Atom Unit)}
    (h : ∀ entry ∈ entries, ∀ q ∈ entry.2.entries, DictKey.norm q.1 ∈ s.questions.normKeys) :
    ∃ blockers, blockerEntries s.tasks entries = .ok blockers := by
  induction entries with
  | nil => exact ⟨[], rfl⟩
  | cons entry rest ih =>
      obtain ⟨blockers, hrest⟩ := ih fun x hx => h x (List.mem_cons_of_mem _ hx)
      have hkeys : ∀ a ∈ entry.2.keys, DictKey.norm a ∈ s.questions.normKeys := by
        intro a ha
        obtain ⟨q, hq, rfl⟩ := List.mem_map.mp ha
        exact h entry List.mem_cons_self q hq
      have hkind : AtomNorm.OneKind (entry.2.keys.map DictKey.norm) := by
        apply hs.questionKind.mono
        intro k hk
        obtain ⟨a, ha, rfl⟩ := List.mem_map.mp hk
        exact hkeys a ha
      have htruthy : ∀ a ∈ entry.2.keys, Json.truthyKey (DictKey.norm a) = true := by
        intro a ha
        obtain ⟨e, he, hkey⟩ := List.mem_map.mp (hkeys a ha)
        exact hkey ▸ (hs.filedQuestions e he).2
      obtain ⟨ids, hids⟩ := Atom.exists_sorted hkind htruthy
      rw [blockerEntries]
      cases s.tasks.get? entry.1 with
      | none => exact ⟨blockers, hrest⟩
      | some t =>
          simp only [hids, hrest]
          exact ⟨_, rfl⟩

/-! ## The head and its snapshot -/

/-- A readable state has a head. -/
theorem exists_buildHead_of_readable (hs : s.Readable) (p : UUID) (now : String)
    (events : List EventRecord) : ∃ head, buildHead p now s events = .ok head := by
  have hquestions := sortByPriority_eq_ok_iff.mpr
    ⟨fun q hq => (exists_entry_of_open hs hq).1.1, rfl⟩
  have htasks := sortByPriority_eq_ok_iff.mpr
    ⟨fun t ht => (exists_entry_of_active hs ht).1.1, rfl⟩
  rw [buildHead, hquestions, Except.ok_bind_eq, htasks, Except.ok_bind_eq]
  obtain ⟨m, hm, hholds⟩ : ∃ m, blockerMap s.tasks
      ((activeTasksOf s.tasks).insertionSort fun x y =>
        priorityRank x.priority ≤ priorityRank y.priority)
      ((openQuestionsOf s.questions).insertionSort fun x y =>
        priorityRank x.priority ≤ priorityRank y.priority) = .ok m ∧ HoldsQuestions s m :=
    exists_blockerMap hs (fun t ht => (List.mem_insertionSort _).mp ht)
      (fun q hq => (List.mem_insertionSort _).mp hq)
  obtain ⟨blockers, hblockers⟩ := exists_blockerEntries hs hholds
  rw [hm, Except.ok_bind_eq, hblockers]
  exact ⟨_, rfl⟩

end Maps

/-- Items filed under ids of one kind can be written with sorted keys. -/
theorem exists_sortedJson {ν : Type} {id : ν → Json} {d : OrdDict Atom ν} (toDict : ν → JsonObj)
    (hfiled : Filed id d) (hkind : AtomNorm.OneKind d.normKeys) :
    ∃ json, ItemDicts.sortedJson (d.mapVals toDict) = .ok json := by
  have hnorm : (d.mapVals toDict).keys.map DictKey.norm = d.normKeys := by
    rw [OrdDict.keys_mapVals, OrdDict.keys, List.map_map]
    rfl
  have htruthy : ∀ a ∈ (d.mapVals toDict).keys, Json.truthyKey (DictKey.norm a) = true := by
    intro a ha
    rw [OrdDict.keys_mapVals] at ha
    obtain ⟨e, he, rfl⟩ := List.mem_map.mp ha
    exact (hfiled e he).2
  obtain ⟨keys, hkeys⟩ := Atom.exists_sorted (hnorm ▸ hkind) htruthy
  rw [ItemDicts.sortedJson, hkeys]
  exact ⟨_, rfl⟩

/-- The snapshot of a readable state can be hashed. -/
theorem exists_compileSnapshot {events : List EventRecord} {s : ReducerState}
    (hreduce : ReducerState.initial.reduce events = .ok s) (hs : s.Readable)
    (head : CognitiveHead) (seq : Nat) : ∃ P, compileSnapshot head events seq = .ok P := by
  obtain ⟨_, htasks, hdecisions, hquestions⟩ := ReducerState.reduce_eq_ok_iff.mp hreduce
  obtain ⟨tasks, hsortedTasks⟩ := exists_sortedJson TaskState.toDict hs.filedTasks hs.taskKind
  obtain ⟨decisions, hsortedDecisions⟩ :=
    exists_sortedJson DecisionState.toDict hs.filedDecisions hs.decisionKind
  obtain ⟨questions, hsortedQuestions⟩ :=
    exists_sortedJson QuestionState.toDict hs.filedQuestions hs.questionKind
  change TaskReducer.reduce .empty events = _ at htasks
  change DecisionReducer.reduce .empty events = _ at hdecisions
  change QuestionReducer.reduce .empty events = _ at hquestions
  rw [compileSnapshot, htasks, Except.ok_bind_eq, hdecisions, Except.ok_bind_eq, hquestions,
    Except.ok_bind_eq]
  simp only [SnapshotPayload.fromCognitiveHead, pure_bind, SnapshotPayload.withHash,
    SnapshotPayload.computeHash, SnapshotPayload.hashText, hsortedTasks, hsortedDecisions,
    hsortedQuestions]
  exact ⟨_, rfl⟩

end RationaleVault
