import RationaleVault.CognitiveHead.DeltaReplay

/-!
# Copied list fields

A delta replay starts from tasks whose list fields were copied with `list`,
which turns a string or a dict that a `TASK_MUTATED` event stored there into a
list of its characters or keys. Iterating over the copy visits what iterating
over the original visits, so the blockers of a head do not see the difference.
-/

/-- `list(v)` where that does not raise. -/
def Json.listed (v : Json) : Json :=
  match v.toList with
  | .ok items => .arr items
  | .error _ => v

@[simp] theorem Json.toList_listed (v : Json) : v.listed.toList = v.toList := by
  cases h : v.toList <;> simp [listed, h]

@[simp] theorem Json.listed_listed (v : Json) : v.listed.listed = v.listed := by
  cases h : v.toList <;> simp [listed, h]

theorem Json.copyList_eq_ok {v v' : Json} (h : v.copyList = .ok v') : v' = v.listed := by
  cases hl : v.toList <;> simp_all [copyList, listed]

@[simp] theorem Json.listed_arr (items : List Json) : (Json.arr items).listed = .arr items := rfl

namespace RationaleVault

/-- The task with its list fields copied. -/
def TaskState.copied (t : TaskState) : TaskState :=
  { t with
    tags := t.tags.listed
    blockedBy := t.blockedBy.listed
    progressNotes := t.progressNotes.listed
    relatedKnowledgeIds := t.relatedKnowledgeIds.listed }

@[simp] theorem TaskState.copied_copied (t : TaskState) : t.copied.copied = t.copied := by
  simp [copied]

/-- A decoded task is the copy of the encoded one. -/
theorem TaskState.dictToTaskState_eq_ok {t t' : TaskState}
    (h : ReplayEngine.dictToTaskState t.toDict = .ok t') : t' = t.copied := by
  have h := (TaskState.ofDict_toDict t Json.copyList).symm.trans h
  simp only [Except.bind_eq_ok_iff, Except.pure_eq_ok_iff] at h
  obtain ⟨tags, h₁, blockedBy, h₂, notes, h₃, related, h₄, rfl⟩ := h
  rw [copied, Json.copyList_eq_ok h₁, Json.copyList_eq_ok h₂, Json.copyList_eq_ok h₃,
    Json.copyList_eq_ok h₄]

/-! ## Steps on copies -/

/-- Copying before or after an assignment makes no difference after copying again. -/
theorem TaskState.copied_setField {t t' : TaskState} (h : t.copied = t'.copied) (f : TaskField)
    (v : Json) : (t.setField f v).copied = (t'.setField f v).copied := by
  simp only [copied, TaskState.mk.injEq] at h
  cases f <;> simp_all [setField, copied]

theorem TaskState.copied_setattr {t t' u u' : TaskState} {k : String} {v : Json}
    (h : t.copied = t'.copied) (hu : t.setattr k v = .ok u) (hu' : t'.setattr k v = .ok u') :
    u.copied = u'.copied := by
  unfold setattr at hu hu'
  cases hname : TaskField.ofName? k with
  | some f =>
      simp only [hname, Except.ok.injEq] at hu hu'
      rw [← hu, ← hu']
      exact copied_setField h f v
  | none =>
      simp only [hname] at hu hu'
      split_ifs at hu hu'
      simp only [Except.ok.injEq] at hu hu'
      rw [← hu, ← hu', h]

theorem TaskState.copied_setattrs {t t' u u' : TaskState} {p : JsonObj}
    (h : t.copied = t'.copied) (hu : t.setattrs p = .ok u) (hu' : t'.setattrs p = .ok u') :
    u.copied = u'.copied := by
  refine Fold.simulation (R := fun t t' : TaskState => t.copied = t'.copied) ?_ h hu hu'
  intro s s' kv t t' _ hs ht ht'
  split_ifs at ht ht'
  · simp only [Except.ok.injEq] at ht ht'
    rw [← ht, ← ht', hs]
  · exact copied_setattr hs ht ht'

theorem TaskReducer.copied_update {event : EventRecord}
    {change : TaskState → Except Exc TaskState} {t t' u u' : TaskState}
    (hact : action event = .update change) (h : t.copied = t'.copied) (hu : change t = .ok u)
    (hu' : change t' = .ok u') : u.copied = u'.copied := by
  unfold action at hact
  split at hact <;> simp only [KeyedAction.update.injEq, reduceCtorEq] at hact
  · subst hact
    simp only [mutate, Except.bind_eq_ok_iff, Except.pure_eq_ok_iff] at hu hu'
    obtain ⟨t₁, ht₁, rfl⟩ := hu
    obtain ⟨t₁', ht₁', rfl⟩ := hu'
    exact TaskState.copied_setField (TaskState.copied_setattrs h ht₁ ht₁') .updatedAt _
  · subst hact
    simp only [Except.ok.injEq] at hu hu'
    rw [← hu, ← hu']
    have hstatus := TaskState.copied_setField h .status (.str "completed")
    exact TaskState.copied_setField hstatus .completedAt event.recordedIso
  · subst hact
    unfold noteProgress at hu hu'
    split at hu
    · rename_i notes hnotes
      split at hu'
      · rename_i notes' hnotes'
        simp only [TaskState.copied, TaskState.mk.injEq] at h
        have heq : notes = notes' := by
          have := h.2.2.2.2.2.2.2.2.2.2.2.2.1
          simpa [hnotes, hnotes'] using this
        simp only [Except.ok.injEq] at hu hu'
        rw [← hu, ← hu', heq]
        simp_all [TaskState.copied]
      · cases hu'
    · cases hu

section Keyed

variable {ν μ : Type} {g : ν → μ}

/-- Two successful iterations on dictionaries with the same image have the same image. -/
theorem keyedStep_mapVals {d d' e e' : OrdDict Atom ν} {id : Json} {action : KeyedAction ν}
    (hupdate : ∀ change, action = .update change → ∀ x x' y y', g x = g x' →
      change x = .ok y → change x' = .ok y' → g y = g y')
    (h : d.mapVals g = d'.mapVals g) (he : keyedStep d id action = .ok e)
    (he' : keyedStep d' id action = .ok e') : e.mapVals g = e'.mapVals g := by
  cases action with
  | skip =>
      simp only [keyedStep, Except.ok.injEq] at he he'
      rw [← he, ← he', h]
  | create item =>
      simp only [keyedStep] at he he'
      split_ifs at he he'
      · simp only [Except.bind_eq_ok_iff, Except.pure_eq_ok_iff] at he he'
        obtain ⟨x, hx, k, hk, rfl⟩ := he
        obtain ⟨x', hx', k', hk', rfl⟩ := he'
        obtain rfl : x = x' := Except.ok.inj (hx.symm.trans hx')
        obtain rfl : k = k' := Except.ok.inj (hk.symm.trans hk')
        rw [OrdDict.mapVals_set, OrdDict.mapVals_set, h]
      · simp only [Except.ok.injEq] at he he'
        rw [← he, ← he', h]
  | update change =>
      simp only [keyedStep] at he he'
      split_ifs at he he'
      · simp only [Except.bind_eq_ok_iff] at he he'
        obtain ⟨k, hk, he⟩ := he
        obtain ⟨k', hk', he'⟩ := he'
        obtain rfl : k = k' := Except.ok.inj (hk.symm.trans hk')
        have hget : (d.get? k).map g = (d'.get? k).map g := by
          rw [← OrdDict.get?_mapVals, ← OrdDict.get?_mapVals, h]
        cases hx : d.get? k with
        | none =>
            rw [hx] at hget he
            obtain hx' : d'.get? k = none := by simpa using hget.symm
            rw [hx'] at he'
            simp only [Except.pure_eq_ok_iff] at he he'
            rw [← he, ← he', h]
        | some x =>
            rw [hx] at hget he
            obtain ⟨x', hx', hxx'⟩ := Option.map_eq_some_iff.mp hget.symm
            rw [hx'] at he'
            simp only [Except.bind_eq_ok_iff, Except.pure_eq_ok_iff] at he he'
            obtain ⟨y, hy, rfl⟩ := he
            obtain ⟨y', hy', rfl⟩ := he'
            rw [OrdDict.mapVals_set, OrdDict.mapVals_set, h,
              hupdate change rfl x x' y y' hxx'.symm hy hy']
      · simp only [Except.ok.injEq] at he he'
        rw [← he, ← he', h]

end Keyed

/-- Two successful replays of the same events from tasks with equal copies end in tasks with
equal copies. -/
theorem TaskReducer.copied_reduce {d d' e e' : TaskDict} {events : List EventRecord}
    (h : d.mapVals TaskState.copied = d'.mapVals TaskState.copied)
    (he : reduce d events = .ok e) (he' : reduce d' events = .ok e') :
    e.mapVals TaskState.copied = e'.mapVals TaskState.copied := by
  refine Fold.simulation
    (R := fun d d' : TaskDict => d.mapVals TaskState.copied = d'.mapVals TaskState.copied)
    ?_ h he he'
  intro s s' event t t' _ hs ht ht'
  refine keyedStep_mapVals ?_ hs ht ht'
  intro change hact x x' y y' hx hy hy'
  exact copied_update hact hx hy hy'

/-! ## Blockers -/

theorem blockersOfTask_copied (ids : OrdDict Atom Unit) (m : BlockerMap) (t : TaskState) :
    blockersOfTask ids m t.copied = blockersOfTask ids m t := by
  simp only [blockersOfTask, TaskState.copied, Json.toList_listed]

theorem contains_mapVals (d : TaskDict) (k : Atom) :
    OrdDict.contains (d.mapVals TaskState.copied) k = d.contains k := by
  simp [OrdDict.contains, OrdDict.get?_mapVals]

theorem blockerMap_copied (d : TaskDict) (tasks : List TaskState)
    (questions : List QuestionState) :
    blockerMap (d.mapVals TaskState.copied) (tasks.map TaskState.copied) questions =
      blockerMap d tasks questions := by
  have hquestion : blockersOfQuestion (d.mapVals TaskState.copied) = blockersOfQuestion d := by
    funext m q
    simp only [blockersOfQuestion, contains_mapVals]
  simp only [blockerMap, List.foldlM_map, blockersOfTask_copied, hquestion]

theorem blockerEntries_copied (d : TaskDict) (entries : List (Atom × OrdDict Atom Unit)) :
    blockerEntries (d.mapVals TaskState.copied) entries = blockerEntries d entries := by
  induction entries with
  | nil => rfl
  | cons e rest ih =>
      simp only [blockerEntries, OrdDict.get?_mapVals, ih]
      cases d.get? e.1 <;> rfl

theorem activeTasksOf_copied (d : TaskDict) :
    activeTasksOf (d.mapVals TaskState.copied) = (activeTasksOf d).map TaskState.copied := by
  simp only [activeTasksOf, OrdDict.values_mapVals, List.filter_map]
  rfl

theorem sortByPriority_copied (tasks : List TaskState) :
    sortByPriority TaskState.priority (tasks.map TaskState.copied) =
      (sortByPriority TaskState.priority tasks).map (List.map TaskState.copied) := by
  simp only [sortByPriority, List.all_map]
  split_ifs with h₁ h₂ h₂
  · have := List.map_insertionSort (f := TaskState.copied)
      (r := fun t t' : TaskState => priorityRank t.priority ≤ priorityRank t'.priority)
      (s := fun t t' : TaskState => priorityRank t.priority ≤ priorityRank t'.priority)
      tasks (fun _ _ _ _ => Iff.rfl)
    simp [Except.map, this]
  · exact absurd h₁ h₂
  · exact absurd h₂ h₁
  · rfl

/-- The blockers of a head are those of the copied tasks. -/
theorem buildHead_copied (p : UUID) (now : String) (s : ReducerState) (events : List EventRecord) :
    (buildHead p now { s with tasks := s.tasks.mapVals TaskState.copied } events).map
        CognitiveHead.blockers =
      (buildHead p now s events).map CognitiveHead.blockers := by
  simp only [buildHead, activeTasksOf_copied, sortByPriority_copied, blockerEntries_copied]
  cases sortByPriority QuestionState.priority (openQuestionsOf s.questions) with
  | error e => rfl
  | ok qs =>
      cases sortByPriority TaskState.priority (activeTasksOf s.tasks) with
      | error e => rfl
      | ok ts =>
          simp only [Except.map, Except.ok_bind_eq, blockerMap_copied]
          cases blockerMap s.tasks ts qs with
          | error e => rfl
          | ok m =>
              simp only [Except.ok_bind_eq]
              cases blockerEntries s.tasks m.entries <;> rfl

end RationaleVault
