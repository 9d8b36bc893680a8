import RationaleVault.CognitiveHead.ReplayEngine
import RationaleVault.CognitiveHead.ReducerInvariants

/-!
# Telling reducer states apart

Two reducer states that hold different items, or the same items in another
order, can be told apart by events alone. The continuation built here retires
every item and then creates two items of one kind. An item that is already
stored keeps its place, an item that is not stored is appended, so the two
states show the two items in different orders.
-/

namespace RationaleVault

/-! ## Events with a given content -/

/-- Event type and payload. -/
def EventRecord.content (event : EventRecord) : EventType × JsonObj :=
  (event.eventType, event.payload)

/-- An append of an event with the given content to project `p`. -/
def requestFor (p : UUID) (content : EventType × JsonObj) : AppendRequest :=
  { sampleRequest content with projectId := p }

/-- Appending events of given content adds records with that content. -/
theorem extends_requestFor (db : EventDb) (p : UUID) (contents : List (EventType × JsonObj)) :
    ∃ added, EventDb.Extends db (db.appendAll (contents.map (requestFor p))) p added ∧
      added.map EventRecord.content = contents := by
  induction contents generalizing db with
  | nil => exact ⟨[], .refl db p, rfl⟩
  | cons c rest ih =>
      obtain ⟨added, hext, hmap⟩ := ih (db.appendEvent (requestFor p c))
      have hfirst := EventDb.extends_appendEvent db (requestFor p c) p
      rw [if_pos (show (requestFor p c).projectId = p from rfl)] at hfirst
      exact ⟨_, hfirst.trans hext, by rw [List.singleton_append, List.map_cons, hmap]; rfl⟩

/-! ## Retiring every item -/

section Keyed

variable {ν : Type} {id : EventRecord → Json} {action : EventRecord → KeyedAction ν}

/-- An update that always succeeds changes the item under its id, if there is one. -/
theorem keyedStep_update {d : OrdDict Atom ν} {k : Atom} (hk : (Json.atom k).truthy = true)
    (f : ν → ν) : keyedStep d (.atom k) (.update fun x => .ok (f x)) = .ok (d.modify k f) := by
  rw [keyedStep, if_pos hk, Json.hash_atom, Except.ok_bind_eq, OrdDict.modify]
  cases d.get? k <;> rfl

/-- A creation that succeeds stores its item. -/
theorem keyedStep_create {d : OrdDict Atom ν} {k : Atom} (hk : (Json.atom k).truthy = true)
    (x : ν) : keyedStep d (.atom k) (.create (.ok x)) = .ok (d.set k x) := by
  rw [keyedStep, if_pos hk, Json.hash_atom]
  rfl

/-- The event is skipped or retires the item under its id. -/
def Retires (id : EventRecord → Json) (action : EventRecord → KeyedAction ν)
    (f : EventRecord → ν → ν) (e : EventRecord) : Prop :=
  action e = .skip ∨ ∃ k, id e = .atom k ∧ (Json.atom k).truthy = true ∧
    action e = .update fun x => .ok (f e x)

/-- After a run of retiring events an item is retired, or none of the events addressed it. -/
theorem keyedReduce_retire {f : EventRecord → ν → ν} (retired : ν → Prop)
    (hf : ∀ e x, retired (f e x)) {events : List EventRecord}
    (hevents : ∀ e ∈ events, Retires id action f e) (d : OrdDict Atom ν) :
    ∃ d', keyedReduce id action d events = .ok d' ∧ d'.normKeys = d.normKeys ∧
      ∀ k x, d'.get? k = some x → retired x ∨ (d.get? k = some x ∧
        ∀ e ∈ events, action e = .skip ∨ ¬ HasKey (id e) (DictKey.norm k)) := by
  induction events generalizing d with
  | nil => exact ⟨d, rfl, rfl, fun k x hx => Or.inr ⟨hx, by simp⟩⟩
  | cons e rest ih =>
      have hrest : ∀ e ∈ rest, Retires id action f e :=
        fun e he => hevents e (List.mem_cons_of_mem _ he)
      rcases hevents e List.mem_cons_self with hskip | ⟨k, hid, htruthy, hact⟩
      · obtain ⟨d', hd', hkeys, hget⟩ := ih hrest d
        refine ⟨d', by rw [keyedReduce, List.foldlM_cons, hskip]; exact hd', hkeys, ?_⟩
        intro k x hx
        refine (hget k x hx).imp_right fun ⟨hold, hno⟩ => ⟨hold, ?_⟩
        exact List.forall_mem_cons.mpr ⟨Or.inl hskip, hno⟩
      · obtain ⟨d', hd', hkeys, hget⟩ := ih hrest (d.modify k (f e))
        have hstep : keyedStep d (id e) (action e) = .ok (d.modify k (f e)) := by
          rw [hid, hact, keyedStep_update htruthy]
        refine ⟨d', by rw [keyedReduce, List.foldlM_cons, hstep]; exact hd',
          hkeys.trans (OrdDict.normKeys_modify d k (f e)), ?_⟩
        intro k' x hx
        rcases hget k' x hx with hret | ⟨hold, hno⟩
        · exact Or.inl hret
        · rw [OrdDict.get?_modify] at hold
          split_ifs at hold with hn
          · obtain ⟨y, _, rfl⟩ := Option.map_eq_some_iff.mp hold
            exact Or.inl (hf e y)
          · refine Or.inr ⟨hold, List.forall_mem_cons.mpr ⟨Or.inr ?_, hno⟩⟩
            rintro ⟨a, ha, hna⟩
            rw [hid] at ha
            cases ha
            exact hn hna

/-- Retiring events for every key retire every item. -/
theorem keyedReduce_retire_all {f : EventRecord → ν → ν} (retired : ν → Prop)
    (hf : ∀ e x, retired (f e x)) {events : List EventRecord}
    (hevents : ∀ e ∈ events, Retires id action f e) {d : OrdDict Atom ν}
    (hall : ∀ k ∈ d.keys, ∃ e ∈ events, action e ≠ .skip ∧ id e = .atom k) :
    ∃ d', keyedReduce id action d events = .ok d' ∧ d'.normKeys = d.normKeys ∧
      ∀ e ∈ d'.entries, retired e.2 := by
  obtain ⟨d', hd', hkeys, hget⟩ := keyedReduce_retire retired hf hevents d
  refine ⟨d', hd', hkeys, fun entry hentry => ?_⟩
  rcases hget entry.1 entry.2 (OrdDict.get?_of_mem hentry) with hret | ⟨hold, hno⟩
  · exact hret
  · obtain ⟨old, hmem, hnorm, _⟩ := OrdDict.lookupIn_mem hold
    obtain ⟨e, he, hact, hid⟩ := hall old.1 (List.mem_map.mpr ⟨old, hmem, rfl⟩)
    rcases hno e he with hskip | hkey
    · exact absurd hskip hact
    · exact absurd ⟨old.1, hid, hnorm⟩ hkey

/-- Two creations store their items. -/
theorem keyedReduce_create_pair {ea eb : EventRecord} {a b : Atom} {x y : ν}
    (ha : (Json.atom a).truthy = true) (hb : (Json.atom b).truthy = true)
    (hida : id ea = .atom a) (hidb : id eb = .atom b) (hacta : action ea = .create (.ok x))
    (hactb : action eb = .create (.ok y)) (d : OrdDict Atom ν) :
    keyedReduce id action d [ea, eb] = .ok ((d.set a x).set b y) := by
  simp only [keyedReduce, List.foldlM_cons, List.foldlM_nil, hida, hidb, hacta, hactb,
    keyedStep_create ha, keyedStep_create hb, Except.ok_bind_eq]
  rfl

end Keyed

/-! ## The order of two items -/

/-- The keys after one more item was stored. -/
def addKey (keys : List AtomNorm) (n : AtomNorm) : List AtomNorm :=
  if n ∈ keys then keys else keys ++ [n]

/-- Where a stored key stands before a new one. -/
theorem pair_sublist_addKey {keys : List AtomNorm} {a b : AtomNorm} (hb : b ∈ keys) (ha : a ∉ keys) :
    [b, a].Sublist (addKey (addKey keys a) b) := by
  have hadd : addKey keys a = keys ++ [a] := if_neg ha
  rw [hadd, addKey, if_pos (List.mem_append_left _ hb)]
  exact (List.singleton_sublist.mpr hb).append (List.Sublist.refl [a])

/-- Two new keys stand in the order they were added. -/
theorem pair_sublist_addKey_new {keys : List AtomNorm} {a b : AtomNorm} (hb : b ∉ keys)
    (ha : a ∉ keys) (hne : b ≠ a) : [a, b].Sublist (addKey (addKey keys a) b) := by
  have hadd : addKey keys a = keys ++ [a] := if_neg ha
  rw [hadd, addKey, if_neg (by simp [hb, hne]), List.append_assoc]
  exact List.sublist_append_right keys [a, b]

/-- Stored keys keep their order. -/
theorem pair_sublist_addKey_old {keys : List AtomNorm} {a b c d : AtomNorm}
    (h : [c, d].Sublist keys) (ha : a ∈ keys) (hb : b ∈ keys) :
    [c, d].Sublist (addKey (addKey keys a) b) := by
  rw [addKey, addKey, if_pos ha, if_pos hb]
  exact h

/-- The length of a text, nothing for other keys. -/
def AtomNorm.length : AtomNorm → Nat
  | .str s => s.length
  | _ => 0

/-- There is always a fresh nonempty string key. -/
theorem exists_fresh_key (keys : List AtomNorm) :
    ∃ z : String, (Json.str z).truthy = true ∧ AtomNorm.str z ∉ keys := by
  let longest := Table.maxD 0 (keys.map AtomNorm.length)
  refine ⟨String.ofList (List.replicate (longest + 1) 'z'), ?_, ?_⟩
  · have hne : String.ofList (List.replicate (longest + 1) 'z') ≠ "" := by
      intro h
      have := congrArg String.length h
      simp at this
    simp [Json.truthy, hne]
  · intro hmem
    have hle : AtomNorm.length _ ≤ longest := Table.le_maxD (List.mem_map_of_mem hmem)
    simp only [AtomNorm.length, String.length_ofList, List.length_replicate] at hle
    exact absurd hle (Nat.not_succ_le_self _)

section Order

variable {ν : Type}

theorem normKeys_set_set (d : OrdDict Atom ν) (a b : Atom) (x y : ν) :
    ((d.set a x).set b y).normKeys =
      addKey (addKey d.normKeys (DictKey.norm a)) (DictKey.norm b) := by
  rw [OrdDict.normKeys_set, OrdDict.normKeys_set]
  rfl

/-- Values stand in the order of their keys. -/
theorem pair_sublist_values {d : OrdDict Atom ν} {a b : Atom} {x y : ν}
    (h : [DictKey.norm a, DictKey.norm b].Sublist d.normKeys) (ha : d.get? a = some x)
    (hb : d.get? b = some y) : [x, y].Sublist d.values := by
  obtain ⟨entries, hsub, hmap⟩ := List.sublist_map_iff.mp h
  obtain ⟨e, rest, rfl, he, hrest⟩ := List.map_eq_cons_iff.mp hmap.symm
  obtain ⟨e', rest', rfl, he', hnil⟩ := List.map_eq_cons_iff.mp hrest
  obtain rfl := List.map_eq_nil_iff.mp hnil
  have hx : e.2 = x := by
    have hget := OrdDict.get?_of_mem (hsub.subset List.mem_cons_self)
    rw [OrdDict.get?_congr he] at hget
    exact Option.some.inj (hget.symm.trans ha)
  have hy : e'.2 = y := by
    have hget := OrdDict.get?_of_mem (hsub.subset (List.mem_cons_of_mem _ List.mem_cons_self))
    rw [OrdDict.get?_congr he'] at hget
    exact Option.some.inj (hget.symm.trans hb)
  have := hsub.map Prod.snd
  rwa [List.map_cons, List.map_cons, List.map_nil, hx, hy] at this

/-- The two items written last, in the order of their keys. -/
theorem pair_sublist_filter (active : ν → Bool) {d : OrdDict Atom ν} {a b : Atom} {x y : ν}
    (hx : active x = true) (hy : active y = true) (hne : DictKey.norm b ≠ DictKey.norm a) :
    ([DictKey.norm b, DictKey.norm a].Sublist
        (addKey (addKey d.normKeys (DictKey.norm a)) (DictKey.norm b)) →
      [y, x].Sublist (((d.set a x).set b y).values.filter active)) ∧
    ([DictKey.norm a, DictKey.norm b].Sublist
        (addKey (addKey d.normKeys (DictKey.norm a)) (DictKey.norm b)) →
      [x, y].Sublist (((d.set a x).set b y).values.filter active)) := by
  have hgetb : ((d.set a x).set b y).get? b = some y := OrdDict.get?_set_self _ _ _
  have hgeta : ((d.set a x).set b y).get? a = some x := by
    rw [OrdDict.get?_set_of_ne _ _ hne, OrdDict.get?_set_self]
  constructor
  · intro h
    rw [← normKeys_set_set d a b x y] at h
    have := (pair_sublist_values h hgetb hgeta).filter active
    simpa [hx, hy] using this
  · intro h
    rw [← normKeys_set_set d a b x y] at h
    have := (pair_sublist_values h hgeta hgetb).filter active
    simpa [hx, hy] using this

/-- Items written after a retiring run are shown in the order of their keys. -/
theorem keyedReduce_pair_sublist {id : EventRecord → Json} {action : EventRecord → KeyedAction ν}
    {f : EventRecord → ν → ν} {C T : List EventRecord} (hC : ∀ e ∈ C, Retires id action f e)
    {a b : Atom} {x y : ν}
    (hT : ∀ d, keyedReduce id action d T = .ok ((d.set a x).set b y)) (active : ν → Bool)
    (hx : active x = true) (hy : active y = true) (hne : DictKey.norm b ≠ DictKey.norm a)
    {d d' : OrdDict Atom ν} (h : keyedReduce id action d (C ++ T) = .ok d') :
    ([DictKey.norm b, DictKey.norm a].Sublist
        (addKey (addKey d.normKeys (DictKey.norm a)) (DictKey.norm b)) →
      [y, x].Sublist (d'.values.filter active)) ∧
    ([DictKey.norm a, DictKey.norm b].Sublist
        (addKey (addKey d.normKeys (DictKey.norm a)) (DictKey.norm b)) →
      [x, y].Sublist (d'.values.filter active)) := by
  obtain ⟨d₁, hd₁, hkeys, _⟩ := keyedReduce_retire (fun _ => True) (fun _ _ => trivial) hC d
  rw [keyedReduce_append _ hd₁, hT] at h
  obtain rfl := Except.ok.inj h
  rw [← hkeys]
  exact pair_sublist_filter active hx hy hne

/-- A key that one dictionary lacks stands before a fresh key in the other one, and after it
here. -/
theorem exists_fresh_pair {d d₀ : OrdDict Atom ν} {k : Atom} (hk : k ∈ d.keys)
    (hk₀ : DictKey.norm k ∉ d₀.normKeys) :
    ∃ z : Atom, (Json.atom z).truthy = true ∧ DictKey.norm k ≠ DictKey.norm z ∧
      [DictKey.norm k, DictKey.norm z].Sublist
        (addKey (addKey d.normKeys (DictKey.norm z)) (DictKey.norm k)) ∧
      [DictKey.norm z, DictKey.norm k].Sublist
        (addKey (addKey d₀.normKeys (DictKey.norm z)) (DictKey.norm k)) := by
  obtain ⟨z, hz, hfresh⟩ := exists_fresh_key (d.normKeys ++ d₀.normKeys)
  rw [List.mem_append, not_or] at hfresh
  have hmem := OrdDict.norm_mem_normKeys hk
  have hne : DictKey.norm k ≠ DictKey.norm (Atom.str z) := by
    intro heq
    exact hfresh.1 (heq.subst (motive := (· ∈ _)) hmem)
  exact ⟨.str z, hz, hne, pair_sublist_addKey hmem hfresh.1,
    pair_sublist_addKey_new hk₀ hfresh.2 hne⟩

end Order

/-- Sorting puts the smaller of two items first. -/
theorem pair_sublist_insertionSort_of_lt {α : Type} (rank : α → Nat) {a b : α} {l : List α}
    (ha : a ∈ l) (hb : b ∈ l) (hlt : rank b < rank a) :
    [b, a].Sublist (l.insertionSort fun x y => rank x ≤ rank y) := by
  have : Std.Total fun x y : α => rank x ≤ rank y := ⟨fun x y => Nat.le_total _ _⟩
  have : IsTrans α fun x y : α => rank x ≤ rank y := ⟨fun _ _ _ => Nat.le_trans⟩
  have hsorted := List.pairwise_insertionSort (fun x y : α => rank x ≤ rank y) l
  have hne : b ≠ a := by
    rintro rfl
    exact lt_irrefl _ hlt
  have hmem : ∀ x ∈ l, x ∈ l.insertionSort fun x y => rank x ≤ rank y :=
    fun x hx => (List.mem_insertionSort _).mpr hx
  rcases Table.pair_sublist_or (hmem b hb) (hmem a ha) hne with h | h
  · exact h
  · exact absurd (hsorted.forall_sublist h) (Nat.not_le.mpr hlt)

/-- Two items of equal rank stay in order when sorted, so their order tells two lists apart. -/
theorem insertionSort_ne_of_swap {α : Type} (rank : α → Nat) {a b : α} {l l' : List α}
    (hrank : rank a = rank b) (hl : l.Nodup) (h : [a, b].Sublist l) (h' : [b, a].Sublist l') :
    l'.insertionSort (fun x y => rank x ≤ rank y) ≠ l.insertionSort (fun x y => rank x ≤ rank y) := by
  have : Std.Total fun x y : α => rank x ≤ rank y := ⟨fun x y => Nat.le_total _ _⟩
  have : IsTrans α fun x y : α => rank x ≤ rank y := ⟨fun _ _ _ => Nat.le_trans⟩
  intro heq
  have h₁ := List.pair_sublist_insertionSort (r := fun x y => rank x ≤ rank y) hrank.le h
  have h₂ := List.pair_sublist_insertionSort (r := fun x y => rank x ≤ rank y) hrank.ge h'
  rw [heq] at h₂
  exact Table.not_pair_sublist_swap ((List.perm_insertionSort _ l).nodup_iff.mpr hl) h₁ h₂

/-! ## Heads without links -/

/-- Items that name no blockers give an empty blocker map. -/
theorem blockerMap_of_no_links (allTasks : TaskDict) {tasks : List TaskState}
    {questions : List QuestionState} (ht : ∀ t ∈ tasks, t.blockedBy = .arr [])
    (hq : ∀ q ∈ questions, q.blocksTaskIds = .arr [] ∧ q.questionId.hashable = true) :
    blockerMap allTasks tasks questions = .ok .empty := by
  have hids : ∃ ids, questionIds questions = .ok ids := by
    obtain ⟨ids, h, _⟩ := Fold.exists_ok (P := fun _ => True) (l := questions)
      (f := fun ids q => do return OrdDict.set ids (← q.questionId.hash) ())
      (s := (OrdDict.empty : OrdDict Atom Unit)) (fun ids q hmem _ => by
        have hh := (hq q hmem).2
        cases hid : q.questionId with
        | atom a => exact ⟨ids.set a (), rfl, trivial⟩
        | arr items => simp [hid, Json.hashable] at hh
        | obj members => simp [hid, Json.hashable] at hh) trivial
    exact ⟨ids, h⟩
  obtain ⟨ids, hids⟩ := hids
  have htasks : ∀ m t, t ∈ tasks → blockersOfTask ids m t = .ok m := by
    intro m t hmem
    simp only [blockersOfTask, ht t hmem]
    rfl
  have hquestions : ∀ m q, q ∈ questions → blockersOfQuestion allTasks m q = .ok m := by
    intro m q hmem
    simp only [blockersOfQuestion, (hq q hmem).1]
    rfl
  rw [blockerMap, hids, Except.ok_bind_eq, Fold.eq_ok_of_const htasks, Except.ok_bind_eq,
    Fold.eq_ok_of_const hquestions]

/-- A head of items without links and with ordinary priorities can be built. -/
theorem exists_buildHead (p : UUID) (now : String) {s : ReducerState} (events : List EventRecord)
    (ht : ∀ t ∈ activeTasksOf s.tasks, t.blockedBy = .arr [] ∧ t.priority.hashable = true)
    (hq : ∀ q ∈ openQuestionsOf s.questions, q.blocksTaskIds = .arr [] ∧
      q.questionId.hashable = true ∧ q.priority.hashable = true) :
    ∃ head, buildHead p now s events = .ok head := by
  have hqs := sortByPriority_eq_ok_iff.mpr ⟨fun q h => (hq q h).2.2, rfl⟩
  have hts := sortByPriority_eq_ok_iff.mpr ⟨fun t h => (ht t h).2, rfl⟩
  rw [buildHead, hqs, Except.ok_bind_eq, hts, Except.ok_bind_eq, blockerMap_of_no_links]
  · exact ⟨_, rfl⟩
  · intro t hmem
    exact (ht t ((List.mem_insertionSort _).mp hmem)).1
  · intro q hmem
    have := hq q ((List.mem_insertionSort _).mp hmem)
    exact ⟨this.1, this.2.1⟩

/-! ## The continuation -/

/-- Events that retire every item. -/
def retireTask (k : Atom) : EventType × JsonObj := (.taskCompleted, [("task_id", .atom k)])
def retireDecision (k : Atom) : EventType × JsonObj :=
  (.decisionSuperseded, [("decision_id", .atom k)])
def retireQuestion (k : Atom) : EventType × JsonObj :=
  (.openQuestionResolved, [("question_id", .atom k)])

def retireAll (s : ReducerState) : List (EventType × JsonObj) :=
  s.tasks.keys.map retireTask ++ s.decisions.keys.map retireDecision ++
    s.questions.keys.map retireQuestion

/-- Events that create two items of one kind. -/
def createTask (k : Atom) : EventType × JsonObj := sampleTask (.atom k) "" "normal"
def proposeDecision (k : Atom) : EventType × JsonObj :=
  (.decisionProposed, [("decision_id", .atom k)])
def acceptDecision (k : Atom) : EventType × JsonObj :=
  (.decisionAccepted, [("decision_id", .atom k)])
def raiseQuestion (k : Atom) : EventType × JsonObj :=
  (.openQuestionRaised, [("question_id", .atom k)])

theorem mem_retireAll {s : ReducerState} {c : EventType × JsonObj} (h : c ∈ retireAll s) :
    (∃ k ∈ s.tasks.keys, c = retireTask k) ∨ (∃ k ∈ s.decisions.keys, c = retireDecision k) ∨
      ∃ k ∈ s.questions.keys, c = retireQuestion k := by
  simp only [retireAll, List.mem_append, List.mem_map] at h
  rcases h with (⟨k, hk, rfl⟩ | ⟨k, hk, rfl⟩) | ⟨k, hk, rfl⟩
  · exact Or.inl ⟨k, hk, rfl⟩
  · exact Or.inr (Or.inl ⟨k, hk, rfl⟩)
  · exact Or.inr (Or.inr ⟨k, hk, rfl⟩)

section Content

variable {e : EventRecord} {k : Atom}

theorem EventRecord.content_eq {t : EventType} {p : JsonObj} (h : e.content = (t, p)) :
    e.eventType = t ∧ e.payload = p := by
  simpa [EventRecord.content] using h

theorem content_mem {events : List EventRecord} {contents : List (EventType × JsonObj)}
    (h : events.map EventRecord.content = contents) (he : e ∈ events) : e.content ∈ contents :=
  h ▸ List.mem_map_of_mem he

theorem task_of_retireTask (h : e.content = retireTask k) :
    TaskReducer.action e = .update (fun t => .ok (TaskReducer.complete e t)) ∧
      taskIdOf e = .atom k := by
  obtain ⟨ht, hp⟩ := EventRecord.content_eq h
  exact ⟨by rw [TaskReducer.action, ht], by rw [taskIdOf, hp]; rfl⟩

theorem decision_of_retireDecision (h : e.content = retireDecision k) :
    DecisionReducer.action e = .update (fun d => .ok (DecisionReducer.supersede e d)) ∧
      decisionIdOf e = .atom k := by
  obtain ⟨ht, hp⟩ := EventRecord.content_eq h
  exact ⟨by rw [DecisionReducer.action, ht], by rw [decisionIdOf, hp]; rfl⟩

theorem question_of_retireQuestion (h : e.content = retireQuestion k) :
    QuestionReducer.action e = .update (fun q => .ok (QuestionReducer.resolve e q)) ∧
      questionIdOf e = .atom k := by
  obtain ⟨ht, hp⟩ := EventRecord.content_eq h
  exact ⟨by rw [QuestionReducer.action, ht], by rw [questionIdOf, hp]; rfl⟩

/-- The types that the task reducer reads. -/
def EventType.isTask : EventType → Bool
  | .taskCreated | .taskMutated | .taskCompleted | .taskProgressNoted => true
  | _ => false

def EventType.isDecision : EventType → Bool
  | .decisionProposed | .decisionAccepted | .decisionSuperseded => true
  | _ => false

def EventType.isQuestion : EventType → Bool
  | .openQuestionRaised | .openQuestionResolved => true
  | _ => false

theorem TaskReducer.action_skip (h : e.content.1.isTask = false) : action e = .skip := by
  unfold action
  simp only [EventRecord.content] at h
  split <;> simp_all [EventType.isTask]

theorem DecisionReducer.action_skip (h : e.content.1.isDecision = false) : action e = .skip := by
  unfold action
  simp only [EventRecord.content] at h
  split <;> simp_all [EventType.isDecision]

theorem QuestionReducer.action_skip (h : e.content.1.isQuestion = false) : action e = .skip := by
  unfold action
  simp only [EventRecord.content] at h
  split <;> simp_all [EventType.isQuestion]

/-- The task that `createTask` describes. -/
theorem created_of_createTask (h : e.content = createTask k) :
    taskIdOf e = .atom k ∧ ∃ t, TaskReducer.action e = .create (.ok t) ∧ t.taskId = .atom k ∧
      t.status = .str "open" ∧ t.priority = .str "normal" ∧ t.blockedBy = .arr [] := by
  obtain ⟨ht, hp⟩ := EventRecord.content_eq h
  refine ⟨by rw [taskIdOf, hp]; rfl, ?_⟩
  simp only [TaskReducer.action, ht, TaskReducer.created, hp]
  exact ⟨_, rfl, rfl, rfl, rfl, rfl⟩

theorem action_of_proposeDecision (h : e.content = proposeDecision k) :
    decisionIdOf e = .atom k ∧
      DecisionReducer.action e = .create (.ok (DecisionReducer.proposed e)) ∧
      (DecisionReducer.proposed e).decisionId = .atom k := by
  obtain ⟨ht, hp⟩ := EventRecord.content_eq h
  exact ⟨by rw [decisionIdOf, hp]; rfl, by rw [DecisionReducer.action, ht],
    by rw [DecisionReducer.proposed, hp]; rfl⟩

theorem action_of_acceptDecision (h : e.content = acceptDecision k) :
    decisionIdOf e = .atom k ∧
      DecisionReducer.action e = .update fun d => .ok (DecisionReducer.accept e d) := by
  obtain ⟨ht, hp⟩ := EventRecord.content_eq h
  exact ⟨by rw [decisionIdOf, hp]; rfl, by rw [DecisionReducer.action, ht]⟩

theorem raised_of_raiseQuestion (h : e.content = raiseQuestion k) :
    questionIdOf e = .atom k ∧ ∃ q, QuestionReducer.action e = .create (.ok q) ∧
      q.questionId = .atom k ∧ q.status = .str "open" ∧ q.priority = .str "normal" ∧
      q.blocksTaskIds = .arr [] := by
  obtain ⟨ht, hp⟩ := EventRecord.content_eq h
  refine ⟨by rw [questionIdOf, hp]; rfl, ?_⟩
  simp only [QuestionReducer.action, ht, QuestionReducer.raised, hp]
  exact ⟨_, rfl, rfl, rfl, rfl, rfl⟩

end Content

/-! ## Retired states -/

theorem truthy_of_filed {ν : Type} {id : ν → Json} {d : OrdDict Atom ν} (h : Filed id d)
    {k : Atom} (hk : k ∈ d.keys) : (Json.atom k).truthy = true := by
  obtain ⟨e, he, rfl⟩ := List.mem_map.mp hk
  rw [Json.truthy_atom]
  exact (h e he).2

/-- Every item is stored under its id. -/
structure ReducerState.Filed (s : ReducerState) : Prop where
  tasks : RationaleVault.Filed TaskState.taskId s.tasks
  decisions : RationaleVault.Filed DecisionState.decisionId s.decisions
  questions : RationaleVault.Filed QuestionState.questionId s.questions

theorem ReducerState.filed_initial : ReducerState.initial.Filed :=
  ⟨filed_empty _, filed_empty _, filed_empty _⟩

/-- Replaying events keeps every item under its id. -/
theorem ReducerState.Filed.reduce {s s' : ReducerState} {events : List EventRecord}
    (hs : s.Filed) (h : s.reduce events = .ok s') : s'.Filed := by
  obtain ⟨_, ht, hd, hq⟩ := ReducerState.reduce_eq_ok_iff.mp h
  exact ⟨TaskReducer.filed hs.tasks ht, DecisionReducer.filed hs.decisions hd,
    QuestionReducer.filed hs.questions hq⟩

section Continuation

variable {s s₀ : ReducerState} {C : List EventRecord}

theorem retires_tasks (hs : s.Filed) (hC : C.map EventRecord.content = retireAll s) :
    ∀ e ∈ C, Retires taskIdOf TaskReducer.action TaskReducer.complete e := by
  intro e he
  rcases mem_retireAll (content_mem hC he) with ⟨k, hk, h⟩ | ⟨k, _, h⟩ | ⟨k, _, h⟩
  · obtain ⟨hact, hid⟩ := task_of_retireTask h
    exact Or.inr ⟨k, hid, truthy_of_filed hs.tasks hk, hact⟩
  · exact Or.inl (TaskReducer.action_skip (by rw [h]; rfl))
  · exact Or.inl (TaskReducer.action_skip (by rw [h]; rfl))

theorem retires_decisions (hs : s.Filed) (hC : C.map EventRecord.content = retireAll s) :
    ∀ e ∈ C, Retires decisionIdOf DecisionReducer.action DecisionReducer.supersede e := by
  intro e he
  rcases mem_retireAll (content_mem hC he) with ⟨k, _, h⟩ | ⟨k, hk, h⟩ | ⟨k, _, h⟩
  · exact Or.inl (DecisionReducer.action_skip (by rw [h]; rfl))
  · obtain ⟨hact, hid⟩ := decision_of_retireDecision h
    exact Or.inr ⟨k, hid, truthy_of_filed hs.decisions hk, hact⟩
  · exact Or.inl (DecisionReducer.action_skip (by rw [h]; rfl))

theorem retires_questions (hs : s.Filed) (hC : C.map EventRecord.content = retireAll s) :
    ∀ e ∈ C, Retires questionIdOf QuestionReducer.action QuestionReducer.resolve e := by
  intro e he
  rcases mem_retireAll (content_mem hC he) with ⟨k, _, h⟩ | ⟨k, _, h⟩ | ⟨k, hk, h⟩
  · exact Or.inl (QuestionReducer.action_skip (by rw [h]; rfl))
  · exact Or.inl (QuestionReducer.action_skip (by rw [h]; rfl))
  · obtain ⟨hact, hid⟩ := question_of_retireQuestion h
    exact Or.inr ⟨k, hid, truthy_of_filed hs.questions hk, hact⟩

theorem exists_content (hC : C.map EventRecord.content = retireAll s) {c : EventType × JsonObj}
    (hc : c ∈ retireAll s) : ∃ e ∈ C, e.content = c := by
  rw [← hC] at hc
  exact List.mem_map.mp hc

theorem retired_tasks (hC : C.map EventRecord.content = retireAll s) :
    ∀ k ∈ s.tasks.keys, ∃ e ∈ C, TaskReducer.action e ≠ .skip ∧ taskIdOf e = .atom k := by
  intro k hk
  obtain ⟨e, he, hc⟩ := exists_content hC
    (List.mem_append_left _ (List.mem_append_left _ (List.mem_map_of_mem hk)))
  obtain ⟨hact, hid⟩ := task_of_retireTask hc
  exact ⟨e, he, by simp [hact], hid⟩

theorem retired_decisions (hC : C.map EventRecord.content = retireAll s) :
    ∀ k ∈ s.decisions.keys, ∃ e ∈ C, DecisionReducer.action e ≠ .skip ∧
      decisionIdOf e = .atom k := by
  intro k hk
  obtain ⟨e, he, hc⟩ := exists_content hC
    (List.mem_append_left _ (List.mem_append_right _ (List.mem_map_of_mem hk)))
  obtain ⟨hact, hid⟩ := decision_of_retireDecision hc
  exact ⟨e, he, by simp [hact], hid⟩

theorem retired_questions (hC : C.map EventRecord.content = retireAll s) :
    ∀ k ∈ s.questions.keys, ∃ e ∈ C, QuestionReducer.action e ≠ .skip ∧
      questionIdOf e = .atom k := by
  intro k hk
  obtain ⟨e, he, hc⟩ := exists_content hC (List.mem_append_right _ (List.mem_map_of_mem hk))
  obtain ⟨hact, hid⟩ := question_of_retireQuestion hc
  exact ⟨e, he, by simp [hact], hid⟩

/-- Events that a keyed reducer skips leave its retired state as it is. -/
theorem keyedReduce_retired {ν : Type} {id : EventRecord → Json}
    {action : EventRecord → KeyedAction ν} {f : EventRecord → ν → ν} (retired : ν → Prop)
    (hf : ∀ e x, retired (f e x)) (hC : ∀ e ∈ C, Retires id action f e) {T : List EventRecord}
    (hT : ∀ e ∈ T, action e = .skip) {d : OrdDict Atom ν}
    (hall : ∀ k ∈ d.keys, ∃ e ∈ C, action e ≠ .skip ∧ id e = .atom k) :
    ∃ d', keyedReduce id action d (C ++ T) = .ok d' ∧ ∀ x ∈ d'.values, retired x := by
  have hevents : ∀ e ∈ C ++ T, Retires id action f e := fun e he =>
    (List.mem_append.mp he).elim (hC e) fun h => Or.inl (hT e h)
  obtain ⟨d', hd', _, hret⟩ := keyedReduce_retire_all retired hf hevents fun k hk => by
    obtain ⟨e, he, h⟩ := hall k hk
    exact ⟨e, List.mem_append_left _ he, h⟩
  refine ⟨d', hd', fun x hx => ?_⟩
  obtain ⟨e, he, rfl⟩ := List.mem_map.mp hx
  exact hret e he

/-- Behind the retiring events, events that do not concern tasks leave no active task. -/
theorem reduce_retired_tasks (hs : s.Filed) (hC : C.map EventRecord.content = retireAll s)
    {T : List EventRecord} (hT : ∀ e ∈ T, TaskReducer.action e = .skip) :
    ∃ ts, keyedReduce taskIdOf TaskReducer.action s.tasks (C ++ T) = .ok ts ∧
      activeTasksOf ts = [] := by
  obtain ⟨ts, hts, hcompleted⟩ := keyedReduce_retired
    (fun t : TaskState => t.status = .str "completed") (fun _ _ => rfl)
    (retires_tasks hs hC) hT (retired_tasks hC)
  refine ⟨ts, hts, List.filter_eq_nil_iff.mpr fun t ht => ?_⟩
  simp [hcompleted t ht]

theorem reduce_retired_questions (hs : s.Filed) (hC : C.map EventRecord.content = retireAll s)
    {T : List EventRecord} (hT : ∀ e ∈ T, QuestionReducer.action e = .skip) :
    ∃ qs, keyedReduce questionIdOf QuestionReducer.action s.questions (C ++ T) = .ok qs ∧
      openQuestionsOf qs = [] := by
  obtain ⟨qs, hqs, hresolved⟩ := keyedReduce_retired
    (fun q : QuestionState => q.status = .str "resolved") (fun _ _ => rfl)
    (retires_questions hs hC) hT (retired_questions hC)
  refine ⟨qs, hqs, List.filter_eq_nil_iff.mpr fun q hq => ?_⟩
  simp [hresolved q hq]

theorem reduce_retired_decisions (hs : s.Filed) (hC : C.map EventRecord.content = retireAll s)
    {T : List EventRecord} (hT : ∀ e ∈ T, DecisionReducer.action e = .skip) :
    ∃ ds, keyedReduce decisionIdOf DecisionReducer.action s.decisions (C ++ T) = .ok ds := by
  obtain ⟨ds, hds, -⟩ := keyedReduce_retired (fun _ => True) (fun _ _ => trivial)
    (retires_decisions hs hC) hT (retired_decisions hC)
  exact ⟨ds, hds⟩

/-- Two items written over a retired state are the only ones that are not retired. -/
theorem keyedReduce_retired_pair {ν : Type} {id : EventRecord → Json}
    {action : EventRecord → KeyedAction ν} {f : EventRecord → ν → ν} (retired : ν → Prop)
    (hf : ∀ e x, retired (f e x)) (hC : ∀ e ∈ C, Retires id action f e) {T : List EventRecord}
    {a b : Atom} {x y : ν}
    (hT : ∀ d, keyedReduce id action d T = .ok ((d.set a x).set b y)) {d : OrdDict Atom ν}
    (hall : ∀ k ∈ d.keys, ∃ e ∈ C, action e ≠ .skip ∧ id e = .atom k) :
    ∃ d', keyedReduce id action d (C ++ T) = .ok d' ∧
      ∀ v ∈ d'.values, v = x ∨ v = y ∨ retired v := by
  obtain ⟨d₁, hd₁, _, hret⟩ := keyedReduce_retire_all retired hf hC hall
  refine ⟨_, by rw [keyedReduce_append _ hd₁, hT], ?_⟩
  intro v hv
  obtain ⟨e, he, rfl⟩ := List.mem_map.mp hv
  rcases OrdDict.mem_setIn he with ⟨_, hy⟩ | he
  · exact Or.inr (Or.inl hy)
  · rcases OrdDict.mem_setIn he with ⟨_, hx⟩ | he
    · exact Or.inl hx
    · exact Or.inr (Or.inr (hret e he))

/-- The events of a continuation: those that retire every item, then two more. -/
theorem exists_pair_of_content {added : List EventRecord} {c c' : EventType × JsonObj}
    (h : added.map EventRecord.content = retireAll s ++ [c, c']) :
    ∃ C e e', added = C ++ [e, e'] ∧ C.map EventRecord.content = retireAll s ∧
      e.content = c ∧ e'.content = c' := by
  obtain ⟨C, T, rfl, hC, hT⟩ := List.map_eq_append_iff.mp h
  obtain ⟨e, T', rfl, he, hT'⟩ := List.map_eq_cons_iff.mp hT
  obtain ⟨e', T'', rfl, he', hnil⟩ := List.map_eq_cons_iff.mp hT'
  obtain rfl := List.map_eq_nil_iff.mp hnil
  exact ⟨C, e, e', rfl, hC, he, he'⟩

theorem retireAll_not_mutation {c : EventType × JsonObj} (h : c ∈ retireAll s) :
    c.1 ≠ .taskMutated := by
  rcases mem_retireAll h with ⟨_, _, rfl⟩ | ⟨_, _, rfl⟩ | ⟨_, _, rfl⟩ <;> exact nofun

/-! ## Telling states apart -/

/-- The two states show the same items in the same order. -/
def ReducerState.SameLists (s s' : ReducerState) : Prop :=
  (activeTasksOf s.tasks).insertionSort (fun t t' =>
      priorityRank t.priority ≤ priorityRank t'.priority) =
    (activeTasksOf s'.tasks).insertionSort (fun t t' =>
      priorityRank t.priority ≤ priorityRank t'.priority) ∧
  activeDecisionsOf s.decisions = activeDecisionsOf s'.decisions ∧
  (openQuestionsOf s.questions).insertionSort (fun q q' =>
      priorityRank q.priority ≤ priorityRank q'.priority) =
    (openQuestionsOf s'.questions).insertionSort (fun q q' =>
      priorityRank q.priority ≤ priorityRank q'.priority)

/-- Heads with the same content come from states that show the same lists. -/
theorem sameLists_of_content {p p' : UUID} {now now' : String} {s s' : ReducerState}
    {events events' : List EventRecord} {H H' : CognitiveHead}
    (h : buildHead p now s events = .ok H) (h' : buildHead p' now' s' events' = .ok H')
    (hcontent : H.content = H'.content) : s.SameLists s' := by
  obtain ⟨hq, ht, hd⟩ := buildHead_lists h
  obtain ⟨hq', ht', hd'⟩ := buildHead_lists h'
  simp only [CognitiveHead.content, CognitiveHead.mk.injEq] at hcontent
  obtain ⟨_, _, _, _, _, _, htasks, hdecisions, hquestions, _⟩ := hcontent
  unfold ReducerState.SameLists
  rw [← ht, ← ht', ← hd, ← hd', ← hq, ← hq']
  exact ⟨htasks, hdecisions, hquestions⟩

/-- Replaying events of the given content from `s` gives a head, and no replay from `s₀` shows
the same lists. -/
def Distinguishes (contents : List (EventType × JsonObj)) (s s₀ : ReducerState) : Prop :=
  ∀ added : List EventRecord, added.map EventRecord.content = contents →
    ∃ s₁, s.reduce added = .ok s₁ ∧
      (∀ p now events, ∃ head, buildHead p now s₁ events = .ok head) ∧
      ∀ s₂, s₀.reduce added = .ok s₂ → ¬ s₂.SameLists s₁

/-- Creating tasks `a` and `b` tells apart states that then store them in different orders. -/
theorem distinguishes_tasks (hs : s.Filed) {a b : Atom} (ha : (Json.atom a).truthy = true)
    (hb : (Json.atom b).truthy = true) (hne : DictKey.norm b ≠ DictKey.norm a)
    (h : [DictKey.norm b, DictKey.norm a].Sublist
      (addKey (addKey s.tasks.normKeys (DictKey.norm a)) (DictKey.norm b)))
    (h₀ : [DictKey.norm a, DictKey.norm b].Sublist
      (addKey (addKey s₀.tasks.normKeys (DictKey.norm a)) (DictKey.norm b))) :
    Distinguishes (retireAll s ++ [createTask a, createTask b]) s s₀ := by
  intro added hadded
  obtain ⟨C, ea, eb, rfl, hC, hea, heb⟩ := exists_pair_of_content hadded
  have hdecision : ∀ e ∈ [ea, eb], DecisionReducer.action e = .skip := by
    refine List.forall_mem_cons.mpr ⟨?_, List.forall_mem_singleton.mpr ?_⟩
    · exact DecisionReducer.action_skip (by rw [hea]; rfl)
    · exact DecisionReducer.action_skip (by rw [heb]; rfl)
  have hquestion : ∀ e ∈ [ea, eb], QuestionReducer.action e = .skip := by
    refine List.forall_mem_cons.mpr ⟨?_, List.forall_mem_singleton.mpr ?_⟩
    · exact QuestionReducer.action_skip (by rw [hea]; rfl)
    · exact QuestionReducer.action_skip (by rw [heb]; rfl)
  obtain ⟨hida, ta, hacta, _, ha₂, ha₃, ha₄⟩ := created_of_createTask hea
  obtain ⟨hidb, tb, hactb, _, hb₂, hb₃, hb₄⟩ := created_of_createTask heb
  have htail := keyedReduce_create_pair ha hb hida hidb hacta hactb
  obtain ⟨ts, hts, hshown⟩ := keyedReduce_retired_pair
    (fun t : TaskState => t.status = .str "completed") (fun _ _ => rfl) (retires_tasks hs hC)
    htail (retired_tasks hC)
  obtain ⟨ds, hds⟩ := reduce_retired_decisions hs hC hdecision
  obtain ⟨qs, hqs, hclosed⟩ := reduce_retired_questions hs hC hquestion
  have hs₁ : s.reduce (C ++ [ea, eb]) = .ok ⟨_, ts, ds, qs⟩ :=
    ReducerState.reduce_eq_ok_iff.mpr ⟨rfl, hts, hds, hqs⟩
  refine ⟨_, hs₁, fun p now events => exists_buildHead p now events ?_ ?_, ?_⟩
  · intro t ht
    obtain ⟨hmem, hactive⟩ := List.mem_filter.mp ht
    rcases hshown t hmem with rfl | rfl | hcompleted
    · exact ⟨ha₄, by rw [ha₃]; rfl⟩
    · exact ⟨hb₄, by rw [hb₃]; rfl⟩
    · simp [hcompleted] at hactive
  · intro q hq
    rw [hclosed] at hq
    cases hq
  · rintro s₂ hs₂ ⟨hlists, _⟩
    have hpair := fun {d d' : TaskDict} => @keyedReduce_pair_sublist _ _ _ _ _ _
      (retires_tasks hs hC) _ _ _ _ htail (fun t : TaskState => t.status ≠ .str "completed")
      (by simp [ha₂]) (by simp [hb₂]) hne d d'
    have hshows := (hpair hts).1 h
    have hshows₂ := (hpair (ReducerState.reduce_eq_ok_iff.mp hs₂).2.1).2 h₀
    refine insertionSort_ne_of_swap (fun t : TaskState => priorityRank t.priority) ?_ ?_
      hshows hshows₂ hlists
    · rw [hb₃, ha₃]
    · exact ((hs.reduce hs₁).tasks.nodup_values).filter _

/-- The same for questions. -/
theorem distinguishes_questions (hs : s.Filed) {a b : Atom} (ha : (Json.atom a).truthy = true)
    (hb : (Json.atom b).truthy = true) (hne : DictKey.norm b ≠ DictKey.norm a)
    (h : [DictKey.norm b, DictKey.norm a].Sublist
      (addKey (addKey s.questions.normKeys (DictKey.norm a)) (DictKey.norm b)))
    (h₀ : [DictKey.norm a, DictKey.norm b].Sublist
      (addKey (addKey s₀.questions.normKeys (DictKey.norm a)) (DictKey.norm b))) :
    Distinguishes (retireAll s ++ [raiseQuestion a, raiseQuestion b]) s s₀ := by
  intro added hadded
  obtain ⟨C, ea, eb, rfl, hC, hea, heb⟩ := exists_pair_of_content hadded
  have htask : ∀ e ∈ [ea, eb], TaskReducer.action e = .skip := by
    refine List.forall_mem_cons.mpr ⟨?_, List.forall_mem_singleton.mpr ?_⟩
    · exact TaskReducer.action_skip (by rw [hea]; rfl)
    · exact TaskReducer.action_skip (by rw [heb]; rfl)
  have hdecision : ∀ e ∈ [ea, eb], DecisionReducer.action e = .skip := by
    refine List.forall_mem_cons.mpr ⟨?_, List.forall_mem_singleton.mpr ?_⟩
    · exact DecisionReducer.action_skip (by rw [hea]; rfl)
    · exact DecisionReducer.action_skip (by rw [heb]; rfl)
  obtain ⟨hida, qa, hacta, ha₁, ha₂, ha₃, ha₄⟩ := raised_of_raiseQuestion hea
  obtain ⟨hidb, qb, hactb, hb₁, hb₂, hb₃, hb₄⟩ := raised_of_raiseQuestion heb
  have htail := keyedReduce_create_pair ha hb hida hidb hacta hactb
  obtain ⟨qs, hqs, hshown⟩ := keyedReduce_retired_pair
    (fun q : QuestionState => q.status = .str "resolved") (fun _ _ => rfl)
    (retires_questions hs hC) htail (retired_questions hC)
  obtain ⟨ts, hts, hclosed⟩ := reduce_retired_tasks hs hC htask
  obtain ⟨ds, hds⟩ := reduce_retired_decisions hs hC hdecision
  have hs₁ : s.reduce (C ++ [ea, eb]) = .ok ⟨_, ts, ds, qs⟩ :=
    ReducerState.reduce_eq_ok_iff.mpr ⟨rfl, hts, hds, hqs⟩
  refine ⟨_, hs₁, fun p now events => exists_buildHead p now events ?_ ?_, ?_⟩
  · intro t ht
    rw [hclosed] at ht
    cases ht
  · intro q hq
    obtain ⟨hmem, hopen⟩ := List.mem_filter.mp hq
    rcases hshown q hmem with rfl | rfl | hresolved
    · exact ⟨ha₄, by rw [ha₁]; rfl, by rw [ha₃]; rfl⟩
    · exact ⟨hb₄, by rw [hb₁]; rfl, by rw [hb₃]; rfl⟩
    · simp [hresolved] at hopen
  · rintro s₂ hs₂ ⟨_, _, hlists⟩
    have hpair := fun {d d' : QuestionDict} => @keyedReduce_pair_sublist _ _ _ _ _ _
      (retires_questions hs hC) _ _ _ _ htail (fun q : QuestionState => q.status = .str "open")
      (by simp [ha₂]) (by simp [hb₂]) hne d d'
    have hshows := (hpair hqs).1 h
    have hshows₂ := (hpair (ReducerState.reduce_eq_ok_iff.mp hs₂).2.2.2).2 h₀
    refine insertionSort_ne_of_swap (fun q : QuestionState => priorityRank q.priority) ?_ ?_
      hshows hshows₂ hlists
    · rw [hb₃, ha₃]
    · exact ((hs.reduce hs₁).questions.nodup_values).filter _

/-- The same for decisions, which are shown in stored order. -/
theorem distinguishes_decisions (hs : s.Filed) {a b : Atom} (ha : (Json.atom a).truthy = true)
    (hb : (Json.atom b).truthy = true) (hne : DictKey.norm b ≠ DictKey.norm a)
    (h : [DictKey.norm b, DictKey.norm a].Sublist
      (addKey (addKey s.decisions.normKeys (DictKey.norm a)) (DictKey.norm b)))
    (h₀ : [DictKey.norm a, DictKey.norm b].Sublist
      (addKey (addKey s₀.decisions.normKeys (DictKey.norm a)) (DictKey.norm b))) :
    Distinguishes (retireAll s ++ [proposeDecision a, acceptDecision a, proposeDecision b,
      acceptDecision b]) s s₀ := by
  intro added hadded
  obtain ⟨C, T, rfl, hC, hT⟩ := List.map_eq_append_iff.mp hadded
  obtain ⟨pa, T₁, rfl, hpa, hT₁⟩ := List.map_eq_cons_iff.mp hT
  obtain ⟨aa, T₂, rfl, haa, hT₂⟩ := List.map_eq_cons_iff.mp hT₁
  obtain ⟨pb, T₃, rfl, hpb, hT₃⟩ := List.map_eq_cons_iff.mp hT₂
  obtain ⟨ab, T₄, rfl, hab, hnil⟩ := List.map_eq_cons_iff.mp hT₃
  obtain rfl := List.map_eq_nil_iff.mp hnil
  have hother : ∀ e ∈ [pa, aa, pb, ab], TaskReducer.action e = .skip ∧
      QuestionReducer.action e = .skip := by
    intro e he
    have hc : e.content ∈ [proposeDecision a, acceptDecision a, proposeDecision b,
      acceptDecision b] := hT ▸ List.mem_map_of_mem he
    simp only [List.mem_cons, List.not_mem_nil, or_false] at hc
    constructor
    · apply TaskReducer.action_skip
      rcases hc with hc | hc | hc | hc <;> rw [hc] <;> rfl
    · apply QuestionReducer.action_skip
      rcases hc with hc | hc | hc | hc <;> rw [hc] <;> rfl
  obtain ⟨hidpa, hactpa, _⟩ := action_of_proposeDecision hpa
  obtain ⟨hidaa, hactaa⟩ := action_of_acceptDecision haa
  obtain ⟨hidpb, hactpb, _⟩ := action_of_proposeDecision hpb
  obtain ⟨hidab, hactab⟩ := action_of_acceptDecision hab
  have htail : ∀ d, keyedReduce decisionIdOf DecisionReducer.action d [pa, aa, pb, ab] =
      .ok ((d.set a (DecisionReducer.accept aa (DecisionReducer.proposed pa))).set b
        (DecisionReducer.accept ab (DecisionReducer.proposed pb))) := by
    intro d
    simp only [keyedReduce, List.foldlM_cons, List.foldlM_nil, hidpa, hidaa, hidpb, hidab, hactpa,
      hactaa, hactpb, hactab, keyedStep_create ha, keyedStep_update ha, keyedStep_create hb,
      keyedStep_update hb, Except.ok_bind_eq, OrdDict.modify_set]
    rfl
  obtain ⟨ds, hds, _⟩ := keyedReduce_retired_pair (fun _ => True) (fun _ _ => trivial)
    (retires_decisions hs hC) htail (retired_decisions hC)
  obtain ⟨ts, hts, htclosed⟩ := reduce_retired_tasks hs hC fun e he => (hother e he).1
  obtain ⟨qs, hqs, hqclosed⟩ := reduce_retired_questions hs hC fun e he => (hother e he).2
  have hs₁ : s.reduce (C ++ [pa, aa, pb, ab]) = .ok ⟨_, ts, ds, qs⟩ :=
    ReducerState.reduce_eq_ok_iff.mpr ⟨rfl, hts, hds, hqs⟩
  refine ⟨_, hs₁, fun p now events => exists_buildHead p now events ?_ ?_, ?_⟩
  · intro t ht
    rw [htclosed] at ht
    cases ht
  · intro q hq
    rw [hqclosed] at hq
    cases hq
  · rintro s₂ hs₂ ⟨_, hlists, _⟩
    have hpair := fun {d d' : DecisionDict} => @keyedReduce_pair_sublist _ _ _ _ _ _
      (retires_decisions hs hC) _ _ _ _ htail (fun d : DecisionState => d.status = .str "accepted")
      (by simp [DecisionReducer.accept]) (by simp [DecisionReducer.accept]) hne d d'
    have hshows := (hpair hds).1 h
    have hshows₂ := (hpair (ReducerState.reduce_eq_ok_iff.mp hs₂).2.2.1).2 h₀
    rw [show s₂.decisions.values.filter _ = activeDecisionsOf s₂.decisions from rfl, hlists]
      at hshows₂
    exact Table.not_pair_sublist_swap (((hs.reduce hs₁).decisions.nodup_values).filter _)
      hshows hshows₂

/-- Some continuation without `TASK_MUTATED` events tells the states apart. -/
def Separable (s s₀ : ReducerState) : Prop :=
  ∃ contents, contents ≠ [] ∧ (∀ c ∈ contents, c.1 ≠ EventType.taskMutated) ∧
    Distinguishes contents s s₀

theorem separable_of_tail {tail : List (EventType × JsonObj)} (hne : tail ≠ [])
    (htail : ∀ c ∈ tail, c.1 ≠ EventType.taskMutated)
    (h : Distinguishes (retireAll s ++ tail) s s₀) : Separable s s₀ := by
  refine ⟨_, by simp [hne], ?_, h⟩
  intro c hc
  rcases List.mem_append.mp hc with hc | hc
  · exact retireAll_not_mutation hc
  · exact htail c hc

/-- A task that one state lacks. -/
theorem separable_of_missing_task (hs : s.Filed) {k : Atom} (hk : k ∈ s.tasks.keys)
    (hk₀ : DictKey.norm k ∉ s₀.tasks.normKeys) : Separable s s₀ := by
  obtain ⟨z, hz, hne, h, h₀⟩ := exists_fresh_pair hk hk₀
  apply separable_of_tail (by simp) _
    (distinguishes_tasks hs hz (truthy_of_filed hs.tasks hk) hne h h₀)
  simp [createTask, sampleTask]

theorem separable_of_missing_decision (hs : s.Filed) {k : Atom} (hk : k ∈ s.decisions.keys)
    (hk₀ : DictKey.norm k ∉ s₀.decisions.normKeys) : Separable s s₀ := by
  obtain ⟨z, hz, hne, h, h₀⟩ := exists_fresh_pair hk hk₀
  apply separable_of_tail (by simp) _
    (distinguishes_decisions hs hz (truthy_of_filed hs.decisions hk) hne h h₀)
  simp [proposeDecision, acceptDecision]

theorem separable_of_missing_question (hs : s.Filed) {k : Atom} (hk : k ∈ s.questions.keys)
    (hk₀ : DictKey.norm k ∉ s₀.questions.normKeys) : Separable s s₀ := by
  obtain ⟨z, hz, hne, h, h₀⟩ := exists_fresh_pair hk hk₀
  apply separable_of_tail (by simp) _
    (distinguishes_questions hs hz (truthy_of_filed hs.questions hk) hne h h₀)
  simp [raiseQuestion]

/-- Two tasks that the states store in opposite orders. -/
theorem separable_of_swapped_tasks (hs : s.Filed) {a b : Atom} (ha : a ∈ s.tasks.keys)
    (hb : b ∈ s.tasks.keys) (hne : DictKey.norm b ≠ DictKey.norm a)
    (h : [DictKey.norm b, DictKey.norm a].Sublist s.tasks.normKeys)
    (h₀ : [DictKey.norm a, DictKey.norm b].Sublist s₀.tasks.normKeys) : Separable s s₀ := by
  apply separable_of_tail (by simp) _
    (distinguishes_tasks hs (truthy_of_filed hs.tasks ha) (truthy_of_filed hs.tasks hb) hne
      (pair_sublist_addKey_old h (OrdDict.norm_mem_normKeys ha) (OrdDict.norm_mem_normKeys hb))
      (pair_sublist_addKey_old h₀ (h₀.subset (by simp)) (h₀.subset (by simp))))
  simp [createTask, sampleTask]

theorem separable_of_swapped_questions (hs : s.Filed) {a b : Atom} (ha : a ∈ s.questions.keys)
    (hb : b ∈ s.questions.keys) (hne : DictKey.norm b ≠ DictKey.norm a)
    (h : [DictKey.norm b, DictKey.norm a].Sublist s.questions.normKeys)
    (h₀ : [DictKey.norm a, DictKey.norm b].Sublist s₀.questions.normKeys) : Separable s s₀ := by
  apply separable_of_tail (by simp) _
    (distinguishes_questions hs (truthy_of_filed hs.questions ha) (truthy_of_filed hs.questions hb)
      hne
      (pair_sublist_addKey_old h (OrdDict.norm_mem_normKeys ha) (OrdDict.norm_mem_normKeys hb))
      (pair_sublist_addKey_old h₀ (h₀.subset (by simp)) (h₀.subset (by simp))))
  simp [raiseQuestion]

end Continuation

end RationaleVault
