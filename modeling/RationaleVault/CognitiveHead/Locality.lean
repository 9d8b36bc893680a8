import RationaleVault.CognitiveHead.Lifecycles

/-!
# Items do not see each other

A loop iteration of a keyed reducer reads and writes the item that its event names.
The state of an item is therefore the state after the events that name it alone, and
two events that name different items can be exchanged.
-/

namespace RationaleVault

section Keyed

variable {ν : Type} {id : EventRecord → Json} {action : EventRecord → KeyedAction ν}

/-! ## One event -/

/-- An iteration leaves the items alone that are not named. -/
theorem get?_keyedStep {d d' : OrdDict Atom ν} {v : Json} {act : KeyedAction ν}
    (h : keyedStep d v act = .ok d') {k : Atom} (hk : ¬HasKey v (DictKey.norm k)) :
    d'.get? k = d.get? k := by
  have hne : ∀ a, v = .atom a → DictKey.norm a ≠ DictKey.norm k := fun a ha heq => hk ⟨a, ha, heq⟩
  rcases keyedStep_cases h with rfl | ⟨x, a, _, ha, _, rfl⟩ | ⟨_, _, x', a, _, ha, _, _, rfl⟩
  · rfl
  · exact OrdDict.get?_set_of_ne d x (hne a ha)
  · exact OrdDict.get?_set_of_ne d x' (hne a ha)

/-- Two dictionaries with the same item under the named key. -/
def AgreeAt (v : Json) (d e : OrdDict Atom ν) : Prop := ∀ a, v = .atom a → e.get? a = d.get? a

/-- An iteration depends on the named item only. -/
theorem keyedStep_agree {d d' e : OrdDict Atom ν} {v : Json} {act : KeyedAction ν}
    (h : keyedStep d v act = .ok d') (hagree : AgreeAt v d e) :
    ∃ e', keyedStep e v act = .ok e' ∧ AgreeAt v d' e' := by
  by_cases htruthy : v.truthy = true
  · cases act with
    | skip =>
        obtain rfl := Except.ok.inj h
        exact ⟨e, rfl, hagree⟩
    | create item =>
        rw [keyedStep, if_pos htruthy] at h
        rw [keyedStep, if_pos htruthy]
        obtain ⟨x, hx, h⟩ := Except.bind_eq_ok_iff.mp h
        obtain ⟨k, hk, h⟩ := Except.bind_eq_ok_iff.mp h
        obtain rfl := Except.pure_eq_ok_iff.mp h
        refine ⟨e.set k x, by rw [hx, hk]; rfl, ?_⟩
        rintro a rfl
        obtain rfl := Except.ok.inj hk
        rw [OrdDict.get?_set_self, OrdDict.get?_set_self]
    | update change =>
        rw [keyedStep, if_pos htruthy] at h
        rw [keyedStep, if_pos htruthy]
        obtain ⟨k, hk, h⟩ := Except.bind_eq_ok_iff.mp h
        cases v with
        | arr items => cases hk
        | obj members => cases hk
        | atom a =>
            obtain rfl := Except.ok.inj hk
            rw [Json.hash_atom, Except.ok_bind_eq, hagree a rfl]
            cases hget : d.get? a with
            | none =>
                rw [hget] at h
                obtain rfl := Except.pure_eq_ok_iff.mp h
                exact ⟨e, rfl, hagree⟩
            | some x =>
                rw [hget] at h
                obtain ⟨x', hx', h⟩ := Except.bind_eq_ok_iff.mp h
                obtain rfl := Except.pure_eq_ok_iff.mp h
                refine ⟨e.set a x', by rw [Except.bind_eq_ok_iff]; exact ⟨x', hx', rfl⟩, ?_⟩
                rintro b hb
                cases hb
                rw [OrdDict.get?_set_self, OrdDict.get?_set_self]
  · -- an event without an id is skipped
    have hskip : ∀ d : OrdDict Atom ν, keyedStep d v act = .ok d := by
      intro d
      cases act with
      | skip => rfl
      | create item => exact if_neg htruthy
      | update change => exact if_neg htruthy
    obtain rfl := Except.ok.inj ((hskip d).symm.trans h)
    exact ⟨e, hskip e, hagree⟩

/-- Dictionaries that hold the same items, in whatever order. -/
def SameItems (d e : OrdDict Atom ν) : Prop := ∀ k, e.get? k = d.get? k

theorem keyedStep_same {d d' e : OrdDict Atom ν} {v : Json} {act : KeyedAction ν}
    (h : keyedStep d v act = .ok d') (hsame : SameItems d e) :
    ∃ e', keyedStep e v act = .ok e' ∧ SameItems d' e' := by
  obtain ⟨e', he', hagree⟩ := keyedStep_agree h fun a _ => hsame a
  refine ⟨e', he', fun k => ?_⟩
  by_cases hk : HasKey v (DictKey.norm k)
  · obtain ⟨a, ha, hnorm⟩ := hk
    rw [OrdDict.get?_congr hnorm.symm, OrdDict.get?_congr (d := d') hnorm.symm, hagree a ha]
  · rw [get?_keyedStep he' hk, get?_keyedStep h hk, hsame k]

/-- Iterations for different items commute. -/
theorem keyedStep_comm {d d₁ d₂ : OrdDict Atom ν} {v v' : Json} {act act' : KeyedAction ν}
    (hapart : ∀ k, HasKey v k → ¬HasKey v' k) (h : keyedStep d v act = .ok d₁)
    (h' : keyedStep d₁ v' act' = .ok d₂) :
    ∃ e₁ e₂, keyedStep d v' act' = .ok e₁ ∧ keyedStep e₁ v act = .ok e₂ ∧ SameItems d₂ e₂ := by
  have hother : AgreeAt v' d₁ d := by
    intro a ha
    have hnot : ¬HasKey v (DictKey.norm a) := fun hv => hapart _ hv ⟨a, ha, rfl⟩
    exact (get?_keyedStep h hnot).symm
  obtain ⟨e₁, he₁, hagree₁⟩ := keyedStep_agree h' hother
  have hkept : AgreeAt v d e₁ := by
    intro a ha
    exact get?_keyedStep he₁ fun hv' => hapart _ ⟨a, ha, rfl⟩ hv'
  obtain ⟨e₂, he₂, hagree₂⟩ := keyedStep_agree h hkept
  refine ⟨e₁, e₂, he₁, he₂, fun k => ?_⟩
  by_cases hv : HasKey v (DictKey.norm k)
  · obtain ⟨a, ha, hnorm⟩ := hv
    have hnot : ¬HasKey v' (DictKey.norm a) := fun hv' => hapart _ ⟨a, ha, rfl⟩ hv'
    rw [OrdDict.get?_congr hnorm.symm, OrdDict.get?_congr (d := d₂) hnorm.symm, hagree₂ a ha,
      get?_keyedStep h' hnot]
  · rw [get?_keyedStep he₂ hv]
    by_cases hv' : HasKey v' (DictKey.norm k)
    · obtain ⟨a, ha, hnorm⟩ := hv'
      rw [OrdDict.get?_congr hnorm.symm, OrdDict.get?_congr (d := d₂) hnorm.symm, hagree₁ a ha]
    · rw [get?_keyedStep he₁ hv', get?_keyedStep h' hv', get?_keyedStep h hv]

/-! ## Event lists -/

/-- The events that do not name an item can be left out. -/
theorem keyedReduce_filter {d d' e : OrdDict Atom ν} {events : List EventRecord}
    (h : keyedReduce id action d events = .ok d') {k : Atom} (hk : e.get? k = d.get? k) :
    ∃ e', keyedReduce id action e (events.filter fun event =>
        HasKey (id event) (DictKey.norm k)) = .ok e' ∧ e'.get? k = d'.get? k := by
  induction events generalizing d e with
  | nil =>
      obtain rfl := Except.pure_eq_ok_iff.mp h
      exact ⟨e, rfl, hk⟩
  | cons event rest ih =>
      obtain ⟨d₁, hstep, hrest⟩ := Except.bind_eq_ok_iff.mp h
      by_cases hnames : HasKey (id event) (DictKey.norm k)
      · have hkept := hnames
        obtain ⟨a, ha, hnorm⟩ := hnames
        have hagree : AgreeAt (id event) d e := by
          intro b hb
          obtain rfl : a = b := by simpa [ha] using hb
          rw [OrdDict.get?_congr hnorm, OrdDict.get?_congr (d := d) hnorm, hk]
        obtain ⟨e₁, he₁, hagree₁⟩ := keyedStep_agree hstep hagree
        have hk₁ : e₁.get? k = d₁.get? k := by
          rw [OrdDict.get?_congr hnorm.symm, OrdDict.get?_congr (d := d₁) hnorm.symm, hagree₁ a ha]
        obtain ⟨e', he', hget⟩ := ih hrest hk₁
        refine ⟨e', ?_, hget⟩
        rw [List.filter_cons_of_pos (by simpa using hkept)]
        exact Except.bind_eq_ok_iff.mpr ⟨e₁, he₁, he'⟩
      · rw [List.filter_cons_of_neg (by simpa using hnames)]
        exact ih hrest (hk.trans (get?_keyedStep hstep hnames).symm)

theorem keyedReduce_same {d d' e : OrdDict Atom ν} {events : List EventRecord}
    (h : keyedReduce id action d events = .ok d') (hsame : SameItems d e) :
    ∃ e', keyedReduce id action e events = .ok e' ∧ SameItems d' e' := by
  induction events generalizing d e with
  | nil =>
      obtain rfl := Except.pure_eq_ok_iff.mp h
      exact ⟨e, rfl, hsame⟩
  | cons event rest ih =>
      obtain ⟨d₁, hstep, hrest⟩ := Except.bind_eq_ok_iff.mp h
      obtain ⟨e₁, he₁, hsame₁⟩ := keyedStep_same hstep hsame
      obtain ⟨e', he', hsame'⟩ := ih hrest hsame₁
      exact ⟨e', Except.bind_eq_ok_iff.mpr ⟨e₁, he₁, he'⟩, hsame'⟩

/-- Adjacent events that name different items can be exchanged. -/
theorem keyedReduce_swap {d d' : OrdDict Atom ν} {A B : List EventRecord} {a b : EventRecord}
    (hapart : ∀ k, HasKey (id a) k → ¬HasKey (id b) k)
    (h : keyedReduce id action d (A ++ a :: b :: B) = .ok d') :
    ∃ e', keyedReduce id action d (A ++ b :: a :: B) = .ok e' ∧ SameItems d' e' := by
  induction A generalizing d with
  | nil =>
      obtain ⟨d₁, ha, h⟩ := Except.bind_eq_ok_iff.mp h
      obtain ⟨d₂, hb, hB⟩ := Except.bind_eq_ok_iff.mp h
      obtain ⟨e₁, e₂, he₁, he₂, hsame⟩ := keyedStep_comm hapart ha hb
      obtain ⟨e', he', hsame'⟩ := keyedReduce_same hB hsame
      refine ⟨e', ?_, hsame'⟩
      exact Except.bind_eq_ok_iff.mpr ⟨e₁, he₁, Except.bind_eq_ok_iff.mpr ⟨e₂, he₂, he'⟩⟩
  | cons event rest ih =>
      obtain ⟨d₁, hstep, hrest⟩ := Except.bind_eq_ok_iff.mp h
      obtain ⟨e', he', hsame⟩ := ih hrest
      exact ⟨e', Except.bind_eq_ok_iff.mpr ⟨d₁, hstep, he'⟩, hsame⟩

end Keyed

/-! ## The three reducers -/

/-- Every item is reduced from the events that name it, and events that name different items can
be exchanged. -/
structure ReducesLocally {ν : Type} (id : EventRecord → Json)
    (reduce : List EventRecord → Except Exc (OrdDict Atom ν)) : Prop where
  own : ∀ events d, reduce events = .ok d → ∀ i, ∃ d',
    reduce (events.filter fun event => HasKey (id event) (DictKey.norm i)) = .ok d' ∧
      d'.get? i = d.get? i
  swap : ∀ before a b after d, (∀ k, HasKey (id a) k → ¬HasKey (id b) k) →
    reduce (before ++ a :: b :: after) = .ok d →
      ∃ d', reduce (before ++ b :: a :: after) = .ok d' ∧ ∀ i, d'.get? i = d.get? i

theorem reducesLocally_keyed {ν : Type} (id : EventRecord → Json)
    (action : EventRecord → KeyedAction ν) (start : OrdDict Atom ν) :
    ReducesLocally id (keyedReduce id action start) where
  own := fun _ _ h _ => keyedReduce_filter h rfl
  swap := fun _ _ _ _ _ hapart h => keyedReduce_swap hapart h

/-- The reducers of tasks, decisions and questions keep the items apart, from whatever state they
start. -/
theorem reducers_reduceLocally (tasks : TaskDict) (decisions : DecisionDict)
    (questions : QuestionDict) :
    ReducesLocally taskIdOf (TaskReducer.reduce tasks) ∧
      ReducesLocally decisionIdOf (DecisionReducer.reduce decisions) ∧
      ReducesLocally questionIdOf (QuestionReducer.reduce questions) :=
  ⟨reducesLocally_keyed taskIdOf TaskReducer.action tasks,
    reducesLocally_keyed decisionIdOf DecisionReducer.action decisions,
    reducesLocally_keyed questionIdOf QuestionReducer.action questions⟩

end RationaleVault
