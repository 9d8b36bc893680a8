import Mathlib.Data.List.Induction
import RationaleVault.CognitiveHead.ReducerInvariants
import RationaleVault.Db.EventStore
import RationaleVault.Library.LastWrite

/-!
# Lifecycles of tasks, decisions and questions

A reducer applies every event to the item it addresses, whatever state the item
is in. So a field holds what the last event that writes it has written, and the
fields of one item agree as far as the same events write them: a decision keeps
its successor when it is accepted again, and a task keeps its completion time
when it is given another status.
-/

namespace RationaleVault

open LastWrite (Write Holds Created)

/-! ## Events of one item -/

theorem hasKey_atom_iff {a : Atom} {k : AtomNorm} : HasKey (.atom a) k ↔ DictKey.norm a = k := by
  constructor
  · rintro ⟨b, hb, hk⟩
    cases hb
    exact hk
  · exact fun h => ⟨a, rfl, h⟩

instance (v : Json) (k : AtomNorm) : Decidable (HasKey v k) :=
  match v with
  | .atom _ => decidable_of_iff' _ hasKey_atom_iff
  | .arr _ => isFalse fun ⟨_, h, _⟩ => Json.noConfusion h
  | .obj _ => isFalse fun ⟨_, h, _⟩ => Json.noConfusion h

/-- The event names the item with key `k`. -/
def EventRecord.Addresses (id : EventRecord → Json) (k : AtomNorm) (event : EventRecord) : Prop :=
  HasKey (id event) k ∧ (id event).truthy = true

instance (id : EventRecord → Json) (k : AtomNorm) (event : EventRecord) :
    Decidable (event.Addresses id k) := inferInstanceAs (Decidable (_ ∧ _))

/-- An event of type `t` for the item with key `k`. -/
def EventRecord.IsFor (t : EventType) (id : EventRecord → Json) (k : AtomNorm)
    (event : EventRecord) : Prop := event.eventType = t ∧ event.Addresses id k

instance (t : EventType) (id : EventRecord → Json) (k : AtomNorm) (event : EventRecord) :
    Decidable (event.IsFor t id k) := inferInstanceAs (Decidable (_ ∧ _))

section Keyed

variable {ν α : Type} {id : EventRecord → Json} {action : EventRecord → KeyedAction ν}
  {read : ν → α} {write : EventRecord → Option (Write α)} {k : AtomNorm} {event : EventRecord}

/-- `w` is what the action writes into a field of the item it is applied to. -/
def KeyedAction.Writes (read : ν → α) (action : KeyedAction ν) (w : Option (Write α)) : Prop :=
  match action with
  | .skip => w = none
  | .create item => ∀ x, item = .ok x → w = some (.create (read x))
  | .update change => (∃ v, w = some (.update v) ∧ ∀ x x', change x = .ok x' → read x' = v) ∨
      (w = none ∧ ∀ x x', change x = .ok x' → read x' = read x)

/-- `write` says what an event writes into a field of the item it addresses. -/
def Writes (action : EventRecord → KeyedAction ν) (read : ν → α)
    (write : EventRecord → Option (Write α)) : Prop :=
  ∀ event, (action event).Writes read (write event)

/-- What an event writes into the item with key `k`. -/
def writeAt (id : EventRecord → Json) (write : EventRecord → Option (Write α)) (k : AtomNorm)
    (event : EventRecord) : Option (Write α) :=
  if event.Addresses id k then write event else none

theorem writeAt_eq_some_iff {w : Write α} :
    writeAt id write k event = some w ↔ event.Addresses id k ∧ write event = some w := by
  unfold writeAt
  split_ifs with h <;> simp [h]

/-- Events of a type that writes are no events for the item if nothing is written there. -/
theorem not_isFor_of_writeAt {t : EventType} (hwrite : ∀ e, e.eventType = t → write e ≠ none)
    (h : writeAt id write k event = none) : ¬ event.IsFor t id k := by
  rintro ⟨ht, haddr⟩
  rw [writeAt, if_pos haddr] at h
  exact hwrite event ht h

/-- An item is created by the events of one type. -/
theorem created_writeAt_iff {t : EventType} (hcreate : ∀ e v, write e = some (.create v) →
    e.eventType = t) (htype : ∀ e, e.eventType = t → ∃ v, write e = some (.create v))
    (k : AtomNorm) (events : List EventRecord) :
    Created (writeAt id write k) events ↔ ∃ e ∈ events, e.IsFor t id k := by
  constructor
  · rintro ⟨e, he, v, hv⟩
    obtain ⟨haddr, hv⟩ := writeAt_eq_some_iff.mp hv
    exact ⟨e, he, hcreate e v hv, haddr⟩
  · rintro ⟨e, he, ht, haddr⟩
    obtain ⟨v, hv⟩ := htype e ht
    exact ⟨e, he, v, writeAt_eq_some_iff.mpr ⟨haddr, hv⟩⟩

theorem keyedStep_read (hwrites : Writes action read write) {d d' : OrdDict Atom ν}
    (h : keyedStep d (id event) (action event) = .ok d') (k : Atom) :
    (d'.get? k).map read = ((writeAt id write (DictKey.norm k) event).map fun w =>
      w.apply ((d.get? k).map read)).getD ((d.get? k).map read) := by
  have hw := hwrites event
  by_cases haddr : event.Addresses id (DictKey.norm k)
  · obtain ⟨⟨a, hid, hnorm⟩, htruthy⟩ := haddr
    rw [writeAt, if_pos ⟨⟨a, hid, hnorm⟩, htruthy⟩]
    rw [hid] at h htruthy
    have hcongr : ∀ d : OrdDict Atom ν, d.get? k = d.get? a := fun d =>
      OrdDict.get?_congr hnorm.symm
    rw [hcongr, hcongr]
    cases hact : action event with
    | skip =>
        rw [hact] at h hw
        rw [hw, ← Except.ok.inj h]
        rfl
    | create item =>
        rw [hact, keyedStep, if_pos htruthy, Except.bind_eq_ok_iff] at h
        obtain ⟨x, hx, h⟩ := h
        rw [hact] at hw
        rw [hw x hx, ← Except.ok.inj h, OrdDict.get?_set_self]
        rfl
    | update change =>
        rw [hact, keyedStep, if_pos htruthy, Json.hash_atom, Except.ok_bind_eq] at h
        rw [hact] at hw
        cases hget : d.get? a with
        | none =>
            rw [hget] at h
            rw [← Except.ok.inj h, hget]
            rcases hw with ⟨v, hv, _⟩ | ⟨hv, _⟩ <;> simp [hv, Write.apply]
        | some x =>
            simp only [hget, Except.bind_eq_ok_iff] at h
            obtain ⟨x', hx', h⟩ := h
            rw [← Except.ok.inj h, OrdDict.get?_set_self]
            rcases hw with ⟨v, hv, hread⟩ | ⟨hv, hread⟩ <;>
              simp [hv, Write.apply, hread x x' hx']
  · rw [writeAt, if_neg haddr]
    by_cases htruthy : (id event).truthy = true
    · have hne : ∀ a, id event = .atom a → DictKey.norm a ≠ DictKey.norm k := fun a hid heq =>
        haddr ⟨⟨a, hid, heq⟩, htruthy⟩
      rcases keyedStep_cases h with rfl | ⟨x, a, _, hid, _, rfl⟩ |
        ⟨_, _, x', a, _, hid, _, _, rfl⟩
      · rfl
      · rw [OrdDict.get?_set_of_ne _ _ (hne a hid)]
        rfl
      · rw [OrdDict.get?_set_of_ne _ _ (hne a hid)]
        rfl
    · -- an item without an id is skipped, whatever the event asks for
      have hskip : keyedStep d (id event) (action event) = .ok d := by
        cases action event <;> simp [keyedStep, htruthy]
      rw [← Except.ok.inj (hskip.symm.trans h)]
      rfl

/-- After a replay a field holds what the last write to it has left, and an item exists once it
was created. -/
theorem keyedReduce_read (hwrites : Writes action read write) {d : OrdDict Atom ν}
    {events : List EventRecord} (h : keyedReduce id action .empty events = .ok d) (k : Atom)
    (v : α) :
    ((d.get? k).map read = some v ↔ Holds (writeAt id write (DictKey.norm k)) events v) ∧
      (d.get? k = none ↔ ¬ Created (writeAt id write (DictKey.norm k)) events) := by
  have hstep : ∀ d e d', keyedStep d (id e) (action e) = .ok d' →
      (d'.get? k).map read = ((writeAt id write (DictKey.norm k) e).map fun w =>
        w.apply ((d.get? k).map read)).getD ((d.get? k).map read) :=
    fun _ _ _ hstep => keyedStep_read hwrites hstep k
  have hread := LastWrite.read_eq_some_iff (v := v)
    (fun d : OrdDict Atom ν => (d.get? k).map read) hstep rfl h
  rwa [Option.map_eq_none_iff] at hread

end Keyed

/-! ## What the reducers write -/

namespace TaskField

theorem ofName?_name (f : TaskField) : ofName? f.name = some f := by cases f <;> decide

theorem name_of_ofName? {k : String} {f : TaskField} (h : ofName? k = some f) : k = f.name := by
  have hname := List.find?_some h
  exact (beq_iff_eq.mp hname).symm

theorem name_ne_taskId (f : TaskField) : f.name ≠ "task_id" := by cases f <;> decide

/-- The value that a loop over `p.items()` leaves in the field, if it assigns one. -/
def assigned (f : TaskField) (p : JsonObj) : Option Json := List.lookup f.name p.reverse

end TaskField

theorem TaskState.getField_setattr {t t' : TaskState} {k : String} {v : Json} {f : TaskField}
    (h : t.setattr k v = .ok t') : t'.getField f = if k = f.name then v else t.getField f := by
  unfold setattr at h
  split at h
  · rename_i g hg
    obtain rfl := TaskField.name_of_ofName? hg
    rw [← Except.ok.inj h, getField_setField]
    by_cases hgf : g = f
    · rw [if_pos hgf, if_pos (congrArg _ hgf)]
    · rw [if_neg hgf, if_neg fun hname => hgf ?_]
      rw [← Option.some_inj, ← TaskField.ofName?_name g, hname, TaskField.ofName?_name f]
  · rename_i hnone
    have hne : k ≠ f.name := by
      rintro rfl
      rw [TaskField.ofName?_name] at hnone
      cases hnone
    split_ifs at h
    rw [← Except.ok.inj h, if_neg hne]

theorem TaskState.getField_setattrs {t t' : TaskState} {p : JsonObj} (f : TaskField)
    (h : t.setattrs p = .ok t') : t'.getField f = (f.assigned p).getD (t.getField f) := by
  induction p using List.reverseRecOn generalizing t' with
  | nil => rw [← Except.ok.inj h]; rfl
  | append_singleton p m ih =>
      obtain ⟨k, v⟩ := m
      rw [setattrs, List.foldlM_append, Except.bind_eq_ok_iff] at h
      obtain ⟨t₁, ht₁, h⟩ := h
      simp only [List.foldlM_cons, List.foldlM_nil, bind_pure] at h
      rw [TaskField.assigned, List.reverse_append, List.reverse_singleton, List.singleton_append,
        List.lookup_cons]
      split_ifs at h with hk
      · have hne : (f.name == k) = false := by
          rw [hk]
          exact beq_eq_false_iff_ne.mpr f.name_ne_taskId
        rw [hne, ← Except.ok.inj h]
        exact ih ht₁
      · rw [getField_setattr (f := f) h]
        by_cases hf : k = f.name
        · rw [if_pos hf, hf, beq_self_eq_true]
          rfl
        · rw [if_neg hf, beq_eq_false_iff_ne.mpr (Ne.symm hf)]
          exact ih ht₁

namespace TaskReducer

/-- The status an event gives to the task it addresses. -/
def statusWrite (event : EventRecord) : Option (Write Json) :=
  match event.eventType with
  | .taskCreated => some (.create (.str "open"))
  | .taskMutated => (TaskField.status.assigned event.payload).map .update
  | .taskCompleted => some (.update (.str "completed"))
  | _ => none

/-- The completion time an event gives to the task it addresses. -/
def completedAtWrite (event : EventRecord) : Option (Write Json) :=
  match event.eventType with
  | .taskCreated => some (.create .null)
  | .taskMutated => (TaskField.completedAt.assigned event.payload).map .update
  | .taskCompleted => some (.update event.recordedIso)
  | _ => none

/-- The write into a field that creation and completion set and a mutation may assign. -/
def lifecycleWrite (f : TaskField) (start : Json) (finish : EventRecord → Json)
    (event : EventRecord) : Option (Write Json) :=
  match event.eventType with
  | .taskCreated => some (.create start)
  | .taskMutated => (f.assigned event.payload).map .update
  | .taskCompleted => some (.update (finish event))
  | _ => none

theorem lifecycleWrite_eq_some (f : TaskField) (start : Json) (finish : EventRecord → Json)
    {event : EventRecord} {w : Write Json} (h : lifecycleWrite f start finish event = some w) :
    (event.eventType = .taskCreated ∧ w = .create start) ∨
    (event.eventType = .taskCompleted ∧ w = .update (finish event)) ∨
    (event.eventType = .taskMutated ∧ ∃ v, f.assigned event.payload = some v ∧ w = .update v) := by
  unfold lifecycleWrite at h
  split at h <;> rename_i htype
  · exact Or.inl ⟨htype, (Option.some.inj h).symm⟩
  · obtain ⟨v, hv, rfl⟩ := Option.map_eq_some_iff.mp h
    exact Or.inr (Or.inr ⟨htype, v, hv, rfl⟩)
  · exact Or.inr (Or.inl ⟨htype, (Option.some.inj h).symm⟩)
  · cases h

theorem created_lifecycleWrite (f : TaskField) (start : Json) (finish : EventRecord → Json)
    (k : AtomNorm) (events : List EventRecord) :
    Created (writeAt taskIdOf (lifecycleWrite f start finish) k) events ↔
      ∃ e ∈ events, e.IsFor .taskCreated taskIdOf k := by
  refine created_writeAt_iff (fun e v h => ?_) (fun e h => ?_) k events
  · rcases lifecycleWrite_eq_some f start finish h with ⟨htype, _⟩ | ⟨_, h⟩ | ⟨_, _, _, h⟩
    · exact htype
    · cases h
    · cases h
  · exact ⟨start, by simp [lifecycleWrite, h]⟩

theorem writeAt_lifecycleWrite_eq_none_iff (f : TaskField) (start : Json)
    (finish : EventRecord → Json) (k : AtomNorm) (event : EventRecord) :
    writeAt taskIdOf (lifecycleWrite f start finish) k event = none ↔
      ¬ event.IsFor .taskCreated taskIdOf k ∧ ¬ event.IsFor .taskCompleted taskIdOf k ∧
        (event.IsFor .taskMutated taskIdOf k → f.assigned event.payload = none) := by
  by_cases haddr : event.Addresses taskIdOf k
  · rw [writeAt, if_pos haddr]
    simp only [EventRecord.IsFor, haddr, and_true]
    unfold lifecycleWrite
    split <;> simp_all
  · rw [writeAt, if_neg haddr]
    simp [EventRecord.IsFor, haddr]

theorem writeAt_statusWrite_eq_none_iff (k : AtomNorm) (event : EventRecord) :
    writeAt taskIdOf statusWrite k event = none ↔
      ¬ event.IsFor .taskCreated taskIdOf k ∧ ¬ event.IsFor .taskCompleted taskIdOf k ∧
        (event.IsFor .taskMutated taskIdOf k → TaskField.status.assigned event.payload = none) :=
  writeAt_lifecycleWrite_eq_none_iff .status _ (fun _ => .str "completed") k event

theorem writeAt_completedAtWrite_eq_none_iff (k : AtomNorm) (event : EventRecord) :
    writeAt taskIdOf completedAtWrite k event = none ↔
      ¬ event.IsFor .taskCreated taskIdOf k ∧ ¬ event.IsFor .taskCompleted taskIdOf k ∧
        (event.IsFor .taskMutated taskIdOf k →
          TaskField.completedAt.assigned event.payload = none) :=
  writeAt_lifecycleWrite_eq_none_iff .completedAt _ EventRecord.recordedIso k event

theorem statusWrite_eq_some {event : EventRecord} {w : Write Json}
    (h : statusWrite event = some w) :
    (event.eventType = .taskCreated ∧ w = .create (.str "open")) ∨
    (event.eventType = .taskCompleted ∧ w = .update (.str "completed")) ∨
    (event.eventType = .taskMutated ∧ ∃ v, TaskField.status.assigned event.payload = some v ∧
      w = .update v) :=
  lifecycleWrite_eq_some .status _ (fun _ => .str "completed") h

theorem completedAtWrite_eq_some {event : EventRecord} {w : Write Json}
    (h : completedAtWrite event = some w) :
    (event.eventType = .taskCreated ∧ w = .create .null) ∨
    (event.eventType = .taskCompleted ∧ w = .update event.recordedIso) ∨
    (event.eventType = .taskMutated ∧ ∃ v, TaskField.completedAt.assigned event.payload = some v ∧
      w = .update v) :=
  lifecycleWrite_eq_some .completedAt _ EventRecord.recordedIso h

theorem created_status (k : AtomNorm) (events : List EventRecord) :
    Created (writeAt taskIdOf statusWrite k) events ↔
      ∃ e ∈ events, e.IsFor .taskCreated taskIdOf k :=
  created_lifecycleWrite .status _ (fun _ => .str "completed") k events

theorem created_completedAt (k : AtomNorm) (events : List EventRecord) :
    Created (writeAt taskIdOf completedAtWrite k) events ↔
      ∃ e ∈ events, e.IsFor .taskCreated taskIdOf k :=
  created_lifecycleWrite .completedAt _ EventRecord.recordedIso k events

/-- The fields that creation and completion set are written by nothing but these and mutations. -/
theorem writes_lifecycle {f : TaskField} {start : Json} {finish : EventRecord → Json}
    (hf : f ≠ .updatedAt) (hnotes : f ≠ .progressNotes)
    (hstart : ∀ e t, created e = .ok t → t.getField f = start)
    (hfinish : ∀ e t, (complete e t).getField f = finish e) :
    Writes action (fun t => t.getField f) (lifecycleWrite f start finish) := by
  intro e
  unfold action
  split <;> rename_i htype
  · exact fun t ht => by simp [lifecycleWrite, htype, hstart e t ht]
  · have hwrite : lifecycleWrite f start finish e = (f.assigned e.payload).map .update := by
      simp [lifecycleWrite, htype]
    have hfield : ∀ t t', mutate e t = .ok t' →
        t'.getField f = (f.assigned e.payload).getD (t.getField f) := by
      intro t t' ht
      simp only [mutate, Except.bind_eq_ok_iff, Except.pure_eq_ok_iff] at ht
      obtain ⟨t₁, ht₁, rfl⟩ := ht
      rw [← TaskState.getField_setattrs f ht₁]
      exact (TaskState.getField_setField t₁ .updatedAt f _).trans (if_neg (Ne.symm hf))
    rw [hwrite]
    cases hassigned : f.assigned e.payload with
    | none => exact Or.inr ⟨rfl, fun t t' ht => by simp [hfield t t' ht, hassigned]⟩
    | some v => exact Or.inl ⟨v, rfl, fun t t' ht => by simp [hfield t t' ht, hassigned]⟩
  · exact Or.inl ⟨finish e, by simp [lifecycleWrite, htype],
      fun t t' ht => Except.ok.inj ht ▸ hfinish e t⟩
  · refine Or.inr ⟨by simp [lifecycleWrite, htype], fun t t' ht => ?_⟩
    unfold noteProgress at ht
    split at ht
    · rw [← Except.ok.inj ht]
      exact (TaskState.getField_setField t .progressNotes f _).trans (if_neg (Ne.symm hnotes))
    · cases ht
  · show lifecycleWrite f start finish e = none
    unfold lifecycleWrite
    split <;> simp_all

theorem writes_status : Writes action TaskState.status statusWrite := by
  refine writes_lifecycle (f := .status) (by decide) (by decide) (fun e t ht => ?_) fun e t => rfl
  simp only [created, Except.bind_eq_ok_iff, Except.pure_eq_ok_iff] at ht
  obtain ⟨_, _, _, _, _, _, _, _, _, _, rfl⟩ := ht
  rfl

theorem writes_completedAt : Writes action TaskState.completedAt completedAtWrite := by
  refine writes_lifecycle (f := .completedAt) (by decide) (by decide) (fun e t ht => ?_)
    fun e t => rfl
  simp only [created, Except.bind_eq_ok_iff, Except.pure_eq_ok_iff] at ht
  obtain ⟨_, _, _, _, _, _, _, _, _, _, rfl⟩ := ht
  rfl

end TaskReducer

namespace DecisionReducer

/-- The status an event gives to the decision it addresses. -/
def statusWrite (event : EventRecord) : Option (Write Json) :=
  match event.eventType with
  | .decisionProposed => some (.create (.str "proposed"))
  | .decisionAccepted => some (.update (.str "accepted"))
  | .decisionSuperseded => some (.update (.str "superseded"))
  | _ => none

/-- The successor an event gives to the decision it addresses. -/
def supersededByWrite (event : EventRecord) : Option (Write Json) :=
  match event.eventType with
  | .decisionProposed => some (.create .null)
  | .decisionSuperseded => some (.update (event.payload.get "superseded_by"))
  | _ => none

theorem statusWrite_eq_some {event : EventRecord} {w : Write Json}
    (h : statusWrite event = some w) :
    (event.eventType = .decisionProposed ∧ w = .create (.str "proposed")) ∨
    (event.eventType = .decisionAccepted ∧ w = .update (.str "accepted")) ∨
    (event.eventType = .decisionSuperseded ∧ w = .update (.str "superseded")) := by
  unfold statusWrite at h
  split at h <;> rename_i htype
  · exact Or.inl ⟨htype, (Option.some.inj h).symm⟩
  · exact Or.inr (Or.inl ⟨htype, (Option.some.inj h).symm⟩)
  · exact Or.inr (Or.inr ⟨htype, (Option.some.inj h).symm⟩)
  · cases h

theorem supersededByWrite_eq_some {event : EventRecord} {w : Write Json}
    (h : supersededByWrite event = some w) :
    (event.eventType = .decisionProposed ∧ w = .create .null) ∨
    (event.eventType = .decisionSuperseded ∧
      w = .update (event.payload.get "superseded_by")) := by
  unfold supersededByWrite at h
  split at h <;> rename_i htype
  · exact Or.inl ⟨htype, (Option.some.inj h).symm⟩
  · exact Or.inr ⟨htype, (Option.some.inj h).symm⟩
  · cases h

theorem writeAt_statusWrite_eq_none_iff (k : AtomNorm) (event : EventRecord) :
    writeAt decisionIdOf statusWrite k event = none ↔
      ¬ event.IsFor .decisionProposed decisionIdOf k ∧
        ¬ event.IsFor .decisionAccepted decisionIdOf k ∧
        ¬ event.IsFor .decisionSuperseded decisionIdOf k := by
  by_cases haddr : event.Addresses decisionIdOf k
  · rw [writeAt, if_pos haddr]
    simp only [EventRecord.IsFor, haddr, and_true]
    unfold statusWrite
    split <;> simp_all
  · rw [writeAt, if_neg haddr]
    simp [EventRecord.IsFor, haddr]

theorem writeAt_supersededByWrite_eq_none_iff (k : AtomNorm) (event : EventRecord) :
    writeAt decisionIdOf supersededByWrite k event = none ↔
      ¬ event.IsFor .decisionProposed decisionIdOf k ∧
        ¬ event.IsFor .decisionSuperseded decisionIdOf k := by
  by_cases haddr : event.Addresses decisionIdOf k
  · rw [writeAt, if_pos haddr]
    simp only [EventRecord.IsFor, haddr, and_true]
    unfold supersededByWrite
    split <;> simp_all
  · rw [writeAt, if_neg haddr]
    simp [EventRecord.IsFor, haddr]

theorem writes_status : Writes action DecisionState.status statusWrite := by
  intro e
  unfold action
  split <;> rename_i htype
  · rintro d hd
    rw [← Except.ok.inj hd]
    simp [statusWrite, htype, proposed]
  · exact Or.inl ⟨.str "accepted", by simp [statusWrite, htype],
      fun d d' hd => by rw [← Except.ok.inj hd]; rfl⟩
  · exact Or.inl ⟨.str "superseded", by simp [statusWrite, htype],
      fun d d' hd => by rw [← Except.ok.inj hd]; rfl⟩
  · show statusWrite e = none
    unfold statusWrite
    split <;> simp_all

theorem writes_supersededBy : Writes action DecisionState.supersededBy supersededByWrite := by
  intro e
  unfold action
  split <;> rename_i htype
  · rintro d hd
    rw [← Except.ok.inj hd]
    simp [supersededByWrite, htype, proposed]
  · exact Or.inr ⟨by simp [supersededByWrite, htype],
      fun d d' hd => by rw [← Except.ok.inj hd]; rfl⟩
  · exact Or.inl ⟨e.payload.get "superseded_by", by simp [supersededByWrite, htype],
      fun d d' hd => by rw [← Except.ok.inj hd]; rfl⟩
  · show supersededByWrite e = none
    unfold supersededByWrite
    split <;> simp_all

theorem created_status (k : AtomNorm) (events : List EventRecord) :
    Created (writeAt decisionIdOf statusWrite k) events ↔
      ∃ e ∈ events, e.IsFor .decisionProposed decisionIdOf k := by
  refine created_writeAt_iff (fun e v h => ?_) (fun e h => ?_) k events
  · rcases statusWrite_eq_some h with ⟨htype, _⟩ | ⟨_, h⟩ | ⟨_, h⟩
    · exact htype
    · cases h
    · cases h
  · exact ⟨.str "proposed", by simp [statusWrite, h]⟩

theorem created_supersededBy (k : AtomNorm) (events : List EventRecord) :
    Created (writeAt decisionIdOf supersededByWrite k) events ↔
      ∃ e ∈ events, e.IsFor .decisionProposed decisionIdOf k := by
  refine created_writeAt_iff (fun e v h => ?_) (fun e h => ?_) k events
  · rcases supersededByWrite_eq_some h with ⟨htype, _⟩ | ⟨_, h⟩
    · exact htype
    · cases h
  · exact ⟨.null, by simp [supersededByWrite, h]⟩

end DecisionReducer

/-! ## Decisions that are accepted again -/

/-- The last supersession of the decision names a successor, and it is accepted after that. -/
def Reaccepted (events : List EventRecord) (k : AtomNorm) : Prop :=
  ∃ A superseded B, events = A ++ superseded :: B ∧
    (∃ e ∈ A, e.IsFor .decisionProposed decisionIdOf k) ∧
    superseded.IsFor .decisionSuperseded decisionIdOf k ∧
    superseded.payload.get "superseded_by" ≠ .null ∧
    (∀ e ∈ B, ¬ e.IsFor .decisionProposed decisionIdOf k ∧
      ¬ e.IsFor .decisionSuperseded decisionIdOf k) ∧
    ∃ e ∈ B, e.IsFor .decisionAccepted decisionIdOf k

theorem reaccepted_iff {events : List EventRecord} {k : AtomNorm} :
    (Holds (writeAt decisionIdOf DecisionReducer.statusWrite k) events (.str "accepted") ∧
      ∃ v, v ≠ .null ∧
        Holds (writeAt decisionIdOf DecisionReducer.supersededByWrite k) events v) ↔
      Reaccepted events k := by
  constructor
  · rintro ⟨⟨A', y, B', w', hsplit, hy, hw', -, hrest'⟩, v, hv,
      ⟨A, x, B, w, rfl, hx, hw, hcreated, hrest⟩⟩
    obtain ⟨haddrx, hx⟩ := writeAt_eq_some_iff.mp hx
    obtain ⟨haddry, hy⟩ := writeAt_eq_some_iff.mp hy
    have hsup : x.eventType = .decisionSuperseded ∧ v = x.payload.get "superseded_by" := by
      rcases DecisionReducer.supersededByWrite_eq_some hx with ⟨_, rfl⟩ | ⟨htype, rfl⟩
      · exact absurd hw.symm hv
      · exact ⟨htype, hw.symm⟩
    have hacc : y.eventType = .decisionAccepted := by
      rcases DecisionReducer.statusWrite_eq_some hy with ⟨_, rfl⟩ | ⟨htype, _⟩ | ⟨_, rfl⟩
      · simp [Write.value] at hw'
      · exact htype
      · simp [Write.value] at hw'
    have hproposed : ∃ e ∈ A, e.IsFor .decisionProposed decisionIdOf k := by
      obtain ⟨e, he, htype⟩ := (DecisionReducer.created_supersededBy _ _).mp hcreated
      rcases List.mem_append.mp he with he | he
      · exact ⟨e, he, htype⟩
      · rw [List.mem_singleton.mp he, EventRecord.IsFor, hsup.1] at htype
        cases htype.1
    refine ⟨A, x, B, rfl, hproposed, ⟨hsup.1, haddrx⟩, hsup.2 ▸ hv, fun e he => ?_, ?_⟩
    · exact (DecisionReducer.writeAt_supersededByWrite_eq_none_iff _ _).mp (hrest e he)
    · -- the acceptance cannot stand before the supersession, which writes the status too
      rcases LastWrite.split_cases hsplit with ⟨_, rfl, _⟩ | ⟨C, rfl, _⟩ | ⟨C, rfl, _⟩
      · rw [hsup.1] at hacc
        cases hacc
      · exact ⟨y, by simp, hacc, haddry⟩
      · have hnone := (DecisionReducer.writeAt_statusWrite_eq_none_iff _ _).mp (hrest' x (by simp))
        exact absurd ⟨hsup.1, haddrx⟩ hnone.2.2
  · rintro ⟨A, x, B, rfl, hproposed, hsup, hv, hrest, y, hy, hacc⟩
    constructor
    · rw [List.append_cons]
      refine LastWrite.holds_append ?_ ⟨y, hy, ?_⟩ fun e he w hw => ?_
      · apply (DecisionReducer.created_status _ _).mpr
        exact hproposed.imp fun e he => ⟨List.mem_append_left _ he.1, he.2⟩
      · rw [writeAt, if_pos hacc.2]
        simp [DecisionReducer.statusWrite, hacc.1]
      · obtain ⟨haddr, hw⟩ := writeAt_eq_some_iff.mp hw
        rcases DecisionReducer.statusWrite_eq_some hw with ⟨htype, _⟩ | ⟨_, rfl⟩ | ⟨htype, _⟩
        · exact absurd ⟨htype, haddr⟩ (hrest e he).1
        · rfl
        · exact absurd ⟨htype, haddr⟩ (hrest e he).2
    · refine ⟨_, hv, A, x, B, .update (x.payload.get "superseded_by"), rfl, ?_, rfl, ?_, ?_⟩
      · exact writeAt_eq_some_iff.mpr ⟨hsup.2, by simp [DecisionReducer.supersededByWrite, hsup.1]⟩
      · apply (DecisionReducer.created_supersededBy _ _).mpr
        exact hproposed.imp fun e he => ⟨List.mem_append_left _ he.1, he.2⟩
      · intro e he
        apply (DecisionReducer.writeAt_supersededByWrite_eq_none_iff _ _).mpr
        exact hrest e he

/-! ## Tasks that are opened again -/

/-- No `TASK_MUTATED` event assigns the field. -/
def NeverAssigned (f : TaskField) (events : List EventRecord) : Prop :=
  ∀ e ∈ events, e.eventType = .taskMutated → f.assigned e.payload = none

instance (f : TaskField) (events : List EventRecord) : Decidable (NeverAssigned f events) :=
  inferInstanceAs (Decidable (∀ e ∈ events, _))

/-- A `TASK_COMPLETED` follows the last `TASK_CREATED` of the task. -/
def CompletedSinceCreation (events : List EventRecord) (k : AtomNorm) : Prop :=
  ∃ A created B, events = A ++ created :: B ∧ created.IsFor .taskCreated taskIdOf k ∧
    (∀ e ∈ B, ¬ e.IsFor .taskCreated taskIdOf k) ∧
    ∃ e ∈ B, e.IsFor .taskCompleted taskIdOf k

/-- After the last completion of the task a mutation gives it another status, which is the last
one it gets. -/
def Reopened (events : List EventRecord) (k : AtomNorm) : Prop :=
  ∃ A completed B mutated C v, events = A ++ completed :: (B ++ mutated :: C) ∧
    (∃ e ∈ A, e.IsFor .taskCreated taskIdOf k) ∧
    completed.IsFor .taskCompleted taskIdOf k ∧ completed.recordedIso ≠ .null ∧
    (∀ e ∈ B ++ mutated :: C, ¬ e.IsFor .taskCreated taskIdOf k ∧
      ¬ e.IsFor .taskCompleted taskIdOf k) ∧
    mutated.IsFor .taskMutated taskIdOf k ∧
    TaskField.status.assigned mutated.payload = some v ∧ v ≠ .str "completed" ∧
    ∀ e ∈ C, e.IsFor .taskMutated taskIdOf k → TaskField.status.assigned e.payload = none

/-- Without status mutations a task is completed by the completions after its creation. -/
theorem completedSinceCreation_iff {events : List EventRecord} {k : AtomNorm}
    (hstatus : NeverAssigned .status events) :
    Holds (writeAt taskIdOf TaskReducer.statusWrite k) events (.str "completed") ↔
      CompletedSinceCreation events k := by
  constructor
  · rintro ⟨A, x, B, w, rfl, hx, hw, hcreated, hrest⟩
    obtain ⟨haddr, hx⟩ := writeAt_eq_some_iff.mp hx
    have htype : x.eventType = .taskCompleted := by
      rcases TaskReducer.statusWrite_eq_some hx with ⟨_, rfl⟩ | ⟨htype, _⟩ | ⟨htype, v, hv, _⟩
      · simp [Write.value] at hw
      · exact htype
      · rw [hstatus x (by simp) htype] at hv
        cases hv
    obtain ⟨C, c, D, hA, hc, hlast⟩ :=
      LastWrite.exists_last_split ((TaskReducer.created_status _ _).mp hcreated)
    -- the last creation stands before the completion
    rcases LastWrite.split_cases hA with ⟨_, rfl, _⟩ | ⟨E, hE, _⟩ | ⟨E, rfl, rfl⟩
    · rw [hc.1] at htype
      cases htype
    · simp at hE
    · refine ⟨C, c, E ++ x :: B, by simp, hc, fun e he => ?_, x, by simp, htype, haddr⟩
      rcases List.mem_append.mp he with he | he
      · exact hlast e (by simp [he])
      · rcases List.mem_cons.mp he with rfl | he
        · exact hlast e (by simp)
        · exact ((TaskReducer.writeAt_statusWrite_eq_none_iff _ _).mp (hrest e he)).1
  · rintro ⟨A, c, B, rfl, hc, hrest, x, hx, htype⟩
    rw [List.append_cons]
    refine LastWrite.holds_append ?_ ⟨x, hx, ?_⟩ fun e he w hw => ?_
    · exact (TaskReducer.created_status _ _).mpr ⟨c, by simp, hc⟩
    · rw [writeAt, if_pos htype.2]
      simp [TaskReducer.statusWrite, htype.1]
    · obtain ⟨haddr, hw⟩ := writeAt_eq_some_iff.mp hw
      rcases TaskReducer.statusWrite_eq_some hw with ⟨ht, _⟩ | ⟨_, rfl⟩ | ⟨ht, v, hv, _⟩
      · exact absurd ⟨ht, haddr⟩ (hrest e he)
      · rfl
      · rw [hstatus e (by simp [he]) ht] at hv
        cases hv

/-- A task is shown as unfinished with a completion time exactly if it was opened again. -/
theorem reopened_iff {events : List EventRecord} {k : AtomNorm}
    (htimes : NeverAssigned .completedAt events) :
    ((∃ v, v ≠ .str "completed" ∧
        Holds (writeAt taskIdOf TaskReducer.statusWrite k) events v) ∧
      ∃ v, v ≠ .null ∧ Holds (writeAt taskIdOf TaskReducer.completedAtWrite k) events v) ↔
      Reopened events k := by
  constructor
  · rintro ⟨⟨s, hs, A', y, B', w', hsplit, hy, hw', -, hrest'⟩, v, hv,
      ⟨A, x, B, w, rfl, hx, hw, hcreated, hrest⟩⟩
    obtain ⟨haddrx, hx⟩ := writeAt_eq_some_iff.mp hx
    obtain ⟨haddry, hy⟩ := writeAt_eq_some_iff.mp hy
    have hcomp : x.eventType = .taskCompleted ∧ v = x.recordedIso := by
      rcases TaskReducer.completedAtWrite_eq_some hx with ⟨_, rfl⟩ | ⟨htype, rfl⟩ |
        ⟨htype, u, hu, _⟩
      · exact absurd hw.symm hv
      · exact ⟨htype, hw.symm⟩
      · rw [htimes x (by simp) htype] at hu
        cases hu
    have hBrest : ∀ e ∈ B, ¬ e.IsFor .taskCreated taskIdOf k ∧
        ¬ e.IsFor .taskCompleted taskIdOf k := fun e he =>
      have hnone := (TaskReducer.writeAt_completedAtWrite_eq_none_iff _ _).mp (hrest e he)
      ⟨hnone.1, hnone.2.1⟩
    -- the other status is written after the completion, which writes the status too
    rcases LastWrite.split_cases hsplit with ⟨_, rfl, _⟩ | ⟨C, rfl, _⟩ | ⟨C, rfl, _⟩
    · rcases TaskReducer.statusWrite_eq_some hy with ⟨h, _⟩ | ⟨_, rfl⟩ | ⟨h, _⟩
      · rw [hcomp.1] at h
        cases h
      · exact absurd hw'.symm hs
      · rw [hcomp.1] at h
        cases h
    · have hmut : y.eventType = .taskMutated ∧
          TaskField.status.assigned y.payload = some s := by
        rcases TaskReducer.statusWrite_eq_some hy with ⟨h, _⟩ | ⟨h, _⟩ | ⟨h, u, hu, rfl⟩
        · exact absurd ⟨h, haddry⟩ (hBrest y (by simp)).1
        · exact absurd ⟨h, haddry⟩ (hBrest y (by simp)).2
        · exact ⟨h, hu.trans (congrArg some hw')⟩
      have hproposed : ∃ e ∈ A, e.IsFor .taskCreated taskIdOf k := by
        obtain ⟨e, he, htype⟩ := (TaskReducer.created_completedAt _ _).mp hcreated
        rcases List.mem_append.mp he with he | he
        · exact ⟨e, he, htype⟩
        · rw [List.mem_singleton.mp he, EventRecord.IsFor, hcomp.1] at htype
          cases htype.1
      refine ⟨A, x, C, y, B', s, rfl, hproposed, ⟨hcomp.1, haddrx⟩, hcomp.2 ▸ hv, hBrest,
        ⟨hmut.1, haddry⟩, hmut.2, hs, fun e he => ?_⟩
      exact ((TaskReducer.writeAt_statusWrite_eq_none_iff _ _).mp (hrest' e he)).2.2
    · have hnone := (TaskReducer.writeAt_statusWrite_eq_none_iff _ _).mp (hrest' x (by simp))
      exact absurd ⟨hcomp.1, haddrx⟩ hnone.2.1
  · rintro ⟨A, x, B, y, C, s, rfl, hcreated, hx, hv, hrest, hy, hassigned, hs, hlast⟩
    have hstatusNone : ∀ e ∈ C, writeAt taskIdOf TaskReducer.statusWrite k e = none := by
      intro e he
      apply (TaskReducer.writeAt_statusWrite_eq_none_iff _ _).mpr
      exact ⟨(hrest e (by simp [he])).1, (hrest e (by simp [he])).2, hlast e he⟩
    have htimesNone : ∀ e ∈ B ++ y :: C,
        writeAt taskIdOf TaskReducer.completedAtWrite k e = none := by
      intro e he
      apply (TaskReducer.writeAt_completedAtWrite_eq_none_iff _ _).mpr
      have hmem := List.mem_append_right A (List.mem_cons_of_mem x he)
      exact ⟨(hrest e he).1, (hrest e he).2, fun hmutated => htimes e hmem hmutated.1⟩
    refine ⟨⟨s, hs, A ++ x :: B, y, C, .update s, by simp, ?_, rfl, ?_, hstatusNone⟩,
      _, hv, A, x, B ++ y :: C, .update x.recordedIso, rfl, ?_, rfl, ?_, htimesNone⟩
    · exact writeAt_eq_some_iff.mpr ⟨hy.2, by simp [TaskReducer.statusWrite, hy.1, hassigned]⟩
    · apply (TaskReducer.created_status _ _).mpr
      exact hcreated.imp fun e he => ⟨by simp [he.1], he.2⟩
    · exact writeAt_eq_some_iff.mpr ⟨hx.2, by simp [TaskReducer.completedAtWrite, hx.1]⟩
    · apply (TaskReducer.created_completedAt _ _).mpr
      exact hcreated.imp fun e he => ⟨by simp [he.1], he.2⟩

/-! ## The four laws -/

/-- An open question has no answer yet. -/
theorem QuestionReducer.unanswered_reduce {d : QuestionDict} {events : List EventRecord}
    (h : reduce .empty events = .ok d) :
    ∀ q ∈ d.values, q.status = .str "open" → q.resolution = .null ∧ q.resolvedAt = .null := by
  have hall := keyedReduce_forall
    (p := fun _ q => q.status = .str "open" → q.resolution = .null ∧ q.resolvedAt = .null)
    (d := OrdDict.empty) ?_ ?_ (by simp) h
  · intro q hq
    obtain ⟨e, he, rfl⟩ := List.mem_map.mp hq
    exact hall e he
  · intro e _ x k hact _ _ _
    have hr : raised e = .ok x := (action_create hact).symm
    simp only [raised, Except.bind_eq_ok_iff, Except.pure_eq_ok_iff] at hr
    obtain ⟨_, _, rfl⟩ := hr
    exact ⟨rfl, rfl⟩
  · intro e _ change hact k x x' _ hchange hopen
    rw [action_update hact] at hchange
    rw [← Except.ok.inj hchange] at hopen
    simp [resolve] at hopen

/-- Status and the fields that explain it agree in every item. -/
structure LifecyclesConsistent (events : List EventRecord) (s : ReducerState) : Prop where
  decisions : ∀ d ∈ s.decisions.values, ¬ (d.status = .str "accepted" ∧ d.supersededBy ≠ .null)
  tasks : NeverAssigned .status events → ∀ k t, s.tasks.get? k = some t →
    (t.status = .str "completed" ↔ CompletedSinceCreation events (DictKey.norm k))
  questions : ∀ q ∈ s.questions.values, q.status = .str "open" →
    q.resolution = .null ∧ q.resolvedAt = .null
  completedAt : ∀ t ∈ s.tasks.values, t.status ≠ .str "completed" → t.completedAt = .null

/-- Every item a replay has built is consistent exactly if no decision was accepted again after
it was superseded and no task was opened again after it was completed. -/
theorem lifecyclesConsistent_iff {events : List EventRecord} {s : ReducerState}
    (htimes : NeverAssigned .completedAt events) (h : ReducerState.initial.reduce events = .ok s) :
    LifecyclesConsistent events s ↔
      (∀ k, ¬ Reaccepted events k) ∧ ∀ k, ¬ Reopened events k := by
  obtain ⟨-, htasks, hdecisions, hquestions⟩ := ReducerState.reduce_eq_ok_iff.mp h
  rw [TaskReducer.reduce_eq_keyed] at htasks
  rw [DecisionReducer.reduce_eq_keyed] at hdecisions
  have hstatus := fun k v => (keyedReduce_read TaskReducer.writes_status htasks k v).1
  have htime := fun k v => (keyedReduce_read TaskReducer.writes_completedAt htasks k v).1
  have hdstatus := fun k v => (keyedReduce_read DecisionReducer.writes_status hdecisions k v).1
  have hdsup := fun k v => (keyedReduce_read DecisionReducer.writes_supersededBy hdecisions k v).1
  constructor
  · intro hcons
    constructor
    · intro k hk
      obtain ⟨A, superseded, B, rfl, _, hsup, _⟩ := id hk
      obtain ⟨⟨a, _, rfl⟩, _⟩ := hsup.2
      obtain ⟨hacc, v, hv, hsup⟩ := reaccepted_iff.mpr hk
      obtain ⟨d, hd, hs⟩ := Option.map_eq_some_iff.mp ((hdstatus a _).mpr hacc)
      have hby := (hdsup a v).mpr hsup
      rw [hd] at hby
      exact hcons.decisions d (OrdDict.mem_values_iff.mpr ⟨a, hd⟩)
        ⟨hs, by rw [Option.some.inj hby]; exact hv⟩
    · intro k hk
      obtain ⟨A, completed, B, mutated, C, v, rfl, _, hcomp, _⟩ := id hk
      obtain ⟨⟨a, _, rfl⟩, _⟩ := hcomp.2
      obtain ⟨⟨v, hv, hst⟩, u, hu, hat⟩ := (reopened_iff htimes).mpr hk
      obtain ⟨t, ht, hs⟩ := Option.map_eq_some_iff.mp ((hstatus a _).mpr hst)
      have hat := (htime a u).mpr hat
      rw [ht] at hat
      apply hu
      rw [← Option.some.inj hat]
      exact hcons.completedAt t (OrdDict.mem_values_iff.mpr ⟨a, ht⟩) (hs ▸ hv)
  · rintro ⟨hreaccepted, hreopened⟩
    refine ⟨?_, ?_, QuestionReducer.unanswered_reduce hquestions, ?_⟩
    · rintro d hd ⟨hacc, hsup⟩
      obtain ⟨k, hget⟩ := OrdDict.mem_values_iff.mp hd
      apply hreaccepted (DictKey.norm k)
      refine reaccepted_iff.mp ⟨(hdstatus k _).mp ?_, d.supersededBy, hsup, (hdsup k _).mp ?_⟩
      · rw [hget, Option.map_some, hacc]
      · rw [hget, Option.map_some]
    · intro hnever k t hget
      rw [← completedSinceCreation_iff hnever, ← hstatus, hget, Option.map_some, Option.some_inj]
    · intro t ht hopen
      by_contra hat
      obtain ⟨k, hget⟩ := OrdDict.mem_values_iff.mp ht
      apply hreopened (DictKey.norm k)
      refine (reopened_iff htimes).mp ⟨⟨t.status, hopen, (hstatus k _).mp ?_⟩,
        t.completedAt, hat, (htime k _).mp ?_⟩
      · rw [hget, Option.map_some]
      · rw [hget, Option.map_some]

/-- A decision is proposed, superseded by another one and accepted again. -/
def reacceptedEvents : List EventRecord :=
  (sampleDb [(.decisionProposed, [("decision_id", .str "d1")]),
    (.decisionSuperseded, [("decision_id", .str "d1"), ("superseded_by", .str "d2")]),
    (.decisionAccepted, [("decision_id", .str "d1")])]).getProjectStream .zero 0

/-- A completed task is given the status `in_progress`. -/
def reopenedEvents : List EventRecord :=
  (sampleDb [sampleTask (.str "t1") "write" "normal", sampleCompletion (.str "t1"),
    (.taskMutated, [("task_id", .str "t1"), ("status", .str "in_progress")])]).getProjectStream
      .zero 0

/-- The decision is active and superseded at once, and the task is unfinished with a completion
time. -/
theorem not_lifecyclesConsistent :
    (NeverAssigned .status reacceptedEvents ∧ NeverAssigned .completedAt reacceptedEvents ∧
      ∃ s, ReducerState.initial.reduce reacceptedEvents = .ok s ∧
        ¬ LifecyclesConsistent reacceptedEvents s) ∧
    NeverAssigned .completedAt reopenedEvents ∧
      ∃ s, ReducerState.initial.reduce reopenedEvents = .ok s ∧
        ¬ LifecyclesConsistent reopenedEvents s := by
  refine ⟨⟨by decide, by decide, _, rfl, fun h => ?_⟩, by decide, _, rfl, fun h => ?_⟩
  · exact h.decisions _ List.mem_cons_self ⟨rfl, by decide⟩
  · have hat := h.completedAt _ List.mem_cons_self (by decide)
    cases hat

theorem lifecyclesConsistent_reaccepted :
    ∃ s, ReducerState.initial.reduce reacceptedEvents = .ok s ∧
      (LifecyclesConsistent reacceptedEvents s ↔
        (∀ k, ¬ Reaccepted reacceptedEvents k) ∧ ∀ k, ¬ Reopened reacceptedEvents k) :=
  ⟨_, rfl, lifecyclesConsistent_iff (by decide) rfl⟩

end RationaleVault
