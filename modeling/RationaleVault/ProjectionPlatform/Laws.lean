import RationaleVault.CognitiveHead.Incrementality
import RationaleVault.Embedding.Snapshots
import RationaleVault.Embedding.Updates
import RationaleVault.Governance.Projection
import RationaleVault.Recommendation.Projection
import RationaleVault.Timeline.Projection

/-!
# Laws of the projection platform

For each of four projections, reducing the later events from a snapshot of the
earlier ones replays the whole history. Sorting is the only step of a snapshot
that raises: the embedding projection sorts its node ids when it serializes, the
governance projection its rule keys at the end of every reduction.

Every projection declares the types of the events it consumes. Events of other
types may stand anywhere in the stream without a trace in the state, except that
most projections remember the last sequence they have passed.
-/

/-! ## Going on from snapshots -/

namespace RationaleVault

open Governance

/-- For events in strictly increasing order, going on from a snapshot gives what a replay of all
events gives: always for the timeline and the recommendations, up to the order of the nodes for
the embeddings when their snapshot can be made, and for the governance rules when the earlier
events can be reduced. -/
theorem projections_resume (fmt : FormatText) (registry : RecommendationRuleRegistry)
    (categoryOrder : SetOrder RecommendationCategory) (severityOrder : SetOrder GovernanceSeverity)
    (A B : List EventRecord)
    (hincreasing : ((A ++ B).map EventRecord.eventSequence).Pairwise (· < ·))
    (hstamps : RecommendationProjection.StampsValid registry A) :
    ((TimelineProjection.reduce A none >>= fun s =>
        TimelineProjection.deserialize (TimelineProjection.serialize s) >>= fun s =>
          TimelineProjection.reduce B (some s)) =
      TimelineProjection.reduce (A ++ B) none) ∧
    ((RecommendationProjection.reduce registry A none >>= fun s =>
        RecommendationProjection.deserialize (RecommendationProjection.serialize s) >>= fun s =>
          RecommendationProjection.reduce registry B (some s)) =
      RecommendationProjection.reduce registry (A ++ B) none) ∧
    (∀ state snapshot, EmbeddingProjection.reduce fmt A none = .ok state →
      EmbeddingProjection.serialize state = .ok snapshot →
      (EmbeddingProjection.reduce fmt B (some (EmbeddingProjection.deserialize snapshot))).map
          EmbeddingState.upToOrder =
        (EmbeddingProjection.reduce fmt (A ++ B) none).map EmbeddingState.upToOrder) ∧
    ∀ state, GovernanceProjection.reduce A none = .ok state →
      (GovernanceProjection.deserialize
          (GovernanceProjection.serialize categoryOrder severityOrder state) >>= fun s =>
        GovernanceProjection.reduce B (some s)) =
      GovernanceProjection.reduce (A ++ B) none := by
  have hA : (A.map EventRecord.eventSequence).Pairwise (· < ·) := by
    rw [List.map_append] at hincreasing
    exact (List.pairwise_append.mp hincreasing).1
  refine ⟨TimelineProjection.resume hA B, RecommendationProjection.resume hstamps B, ?_, ?_⟩
  · intro state snapshot hstate hsnapshot
    exact EmbeddingProjection.resume hstate hsnapshot B
  · intro state hstate
    exact GovernanceProjection.resume categoryOrder severityOrder hstate B

/-! ### Keys that do not compare -/

/-- A set listed in the order of the declaration. -/
def declaredSeverities : SetOrder GovernanceSeverity where
  listed s := [GovernanceSeverity.info, .warning, .critical].filter (· ∈ s)
  toFinset_listed s := by
    ext severity
    cases severity <;> simp

/-- A set listed in the order of the declaration. -/
def declaredCategories : SetOrder RecommendationCategory where
  listed s := [RecommendationCategory.nextAction, .knowledgeGap, .risk, .optimization,
    .followUp].filter (· ∈ s)
  toFinset_listed s := by
    ext category
    cases category <;> simp

/-- The nodes `"k1"` and `5`. -/
def mixedNodes : List EventRecord :=
  [nodeEvent 1 .knowledgeCreated [("knowledge_id", .str "k1")],
    nodeEvent 2 .knowledgeCreated [("knowledge_id", .int 5)]]

def mixedNodeDeleted : EventRecord := nodeEvent 3 .knowledgeDeleted [("knowledge_id", .int 5)]

/-- The versions `1` and `"x"` of a rule. -/
def mixedRules : List EventRecord :=
  [nodeEvent 1 .governanceRuleCreated [("metadata", .obj [("id", .str "a")])],
    nodeEvent 2 .governanceRuleCreated
      [("metadata", .obj [("id", .str "a"), ("version", .str "x")])]]

def mixedRuleDeleted : EventRecord :=
  nodeEvent 3 .governanceRuleDeleted [("rule_id", .str "a"), ("version", .str "x")]

theorem projections_resume_created :
    (RecommendationProjection.reduce (.createDefault .textsOnly) mixedNodes none >>= fun s =>
        RecommendationProjection.deserialize (RecommendationProjection.serialize s) >>= fun s =>
          RecommendationProjection.reduce (.createDefault .textsOnly) [mixedNodeDeleted] (some s)) =
      RecommendationProjection.reduce (.createDefault .textsOnly)
        (mixedNodes ++ [mixedNodeDeleted]) none :=
  (projections_resume .textsOnly (.createDefault .textsOnly) declaredCategories declaredSeverities
    mixedNodes [mixedNodeDeleted] (by decide)
    (RecommendationProjection.stampsValid_createDefault _ (by decide))).2.1

/-- Nodes and rules with keys of two kinds are reduced and deleted again, but there is no snapshot
in between. -/
theorem projections_resume_mixed :
    (¬ ∀ A B : List EventRecord, ((A ++ B).map EventRecord.eventSequence).Pairwise (· < ·) →
      (EmbeddingProjection.reduce .textsOnly A none >>= fun s =>
          EmbeddingProjection.serialize s >>= fun snapshot =>
            EmbeddingProjection.reduce .textsOnly B
              (some (EmbeddingProjection.deserialize snapshot))).map EmbeddingState.upToOrder =
        (EmbeddingProjection.reduce .textsOnly (A ++ B) none).map EmbeddingState.upToOrder) ∧
    ¬ ∀ A B : List EventRecord, ((A ++ B).map EventRecord.eventSequence).Pairwise (· < ·) →
      (GovernanceProjection.reduce A none >>= fun s =>
          GovernanceProjection.deserialize
              (GovernanceProjection.serialize declaredCategories declaredSeverities s) >>= fun s =>
            GovernanceProjection.reduce B (some s)) =
        GovernanceProjection.reduce (A ++ B) none := by
  have hbool : ∀ {α β : Type} (x : Except Exc α) (f : α → β), (x.map f).toBool = x.toBool := by
    intro α β x f
    cases x <;> rfl
  constructor
  · intro h
    have hmixed := congrArg Except.toBool (h mixedNodes [mixedNodeDeleted] (by decide))
    rw [hbool, hbool] at hmixed
    exact absurd hmixed (by decide +kernel)
  · intro h
    have hmixed := congrArg Except.toBool (h mixedRules [mixedRuleDeleted] (by decide))
    exact absurd hmixed (by decide +kernel)

end RationaleVault

/-! ## Reading declared events only -/

namespace RationaleVault

/-- What a projection declares to consume. -/
structure EventSelector where
  types : List EventType

/-- The events of the declared types. -/
def EventSelector.select (selector : EventSelector) (events : List EventRecord) :
    List EventRecord := events.filter fun event => event.eventType ∈ selector.types

/-- The law of isolation for a projection whose states are compared by `view`: from every initial
state, the events of other types make no difference. -/
def EventSelector.Isolates {σ γ : Type} (selector : EventSelector)
    (reduce : List EventRecord → Option σ → Except Exc σ) (view : σ → γ) : Prop :=
  ∀ events initialState,
    (reduce events initialState).map view = (reduce (selector.select events) initialState).map view

/-- `_interleave(a, b)`. -/
def interleave {α : Type} : List α → List α → List α
  | [], b => b
  | a, [] => a
  | x :: a, y :: b => x :: y :: interleave a b

theorem filter_interleave {α : Type} {p : α → Bool} {a b : List α} (ha : ∀ x ∈ a, p x = true)
    (hb : ∀ x ∈ b, p x = false) : (interleave a b).filter p = a := by
  fun_induction interleave a b with
  | case1 b => exact List.filter_eq_nil_iff.mpr fun x hx => by simp [hb x hx]
  | case2 a _ => exact List.filter_eq_self.mpr ha
  | case3 x a y b ih =>
      obtain ⟨hx, ha⟩ := List.forall_mem_cons.mp ha
      obtain ⟨hy, hb⟩ := List.forall_mem_cons.mp hb
      rw [List.filter_cons_of_pos hx, List.filter_cons_of_neg (by simp [hy]), ih ha hb]

/-- What `verify_isolation` compares is equal for an isolated projection. -/
theorem EventSelector.Isolates.interleave {σ γ : Type} {selector : EventSelector}
    {reduce : List EventRecord → Option σ → Except Exc σ} {view : σ → γ}
    (h : selector.Isolates reduce view) {supported unsupported : List EventRecord}
    (hsupported : ∀ event ∈ supported, event.eventType ∈ selector.types)
    (hunsupported : ∀ event ∈ unsupported, event.eventType ∉ selector.types) :
    (reduce (RationaleVault.interleave supported unsupported) none).map view =
      (reduce supported none).map view := by
  have hselect : selector.select (RationaleVault.interleave supported unsupported) = supported :=
    filter_interleave (by simpa using hsupported) (by simpa using hunsupported)
  rw [h, hselect]

/-! ## Timeline -/

namespace TimelineProjection

/-- `frozenset(MAPPINGS.keys())`. -/
def consumedEvents : EventSelector :=
  ⟨EventType.all.filter fun t => (TimelineMapping.mappings t).isSome⟩

theorem isolated : consumedEvents.Isolates reduce TimelineState.entries := by
  intro events initialState
  refine Fold.map_filter (fun s s' event h => ?_) (fun s event hevent => ?_) events _
  · rw [applyEvent, applyEvent, Except.map_bind_eq, Except.map_bind_eq]
    exact bind_congr fun entry => congrArg (fun entries => Except.ok (entries ++ entry.toList)) h
  · have hnone : TimelineMapping.mappings event.eventType = none := by
      simpa [consumedEvents, EventType.mem_all] using hevent
    rw [applyEvent, normalizeEvent, hnone]
    exact congrArg Except.ok (List.append_nil _)

end TimelineProjection

/-! ## Embeddings -/

/-- The state apart from the last sequence. -/
def EmbeddingState.unsequenced (s : EmbeddingState) : EmbeddingState := { s with sequence := 0 }

namespace EmbeddingProjection

variable (fmt : FormatText)

def consumedEvents : EventSelector :=
  ⟨[.knowledgeCreated, .knowledgeUpdated, .knowledgeDeleted, .knowledgeSynthesized,
    .knowledgeSuperseded]⟩

theorem unsequenced_applyEvent (s : EmbeddingState) (event : EventRecord) :
    (applyEvent fmt s event).map EmbeddingState.unsequenced =
      (nodesAfter fmt event s.unsequenced.nodes).map fun nodes =>
        { s.unsequenced with nodes := nodes } := by
  rw [applyEvent_eq, Except.map_map_eq]
  rfl

theorem isolated : consumedEvents.Isolates (reduce fmt) EmbeddingState.unsequenced := by
  intro events initialState
  have hread : ∀ s s' event, s.unsequenced = s'.unsequenced →
      (applyEvent fmt s event).map EmbeddingState.unsequenced =
        (applyEvent fmt s' event).map EmbeddingState.unsequenced := by
    intro s s' event h
    rw [unsequenced_applyEvent, unsequenced_applyEvent, h]
  have hskip : ∀ (s : EmbeddingState) (event : EventRecord),
      decide (event.eventType ∈ consumedEvents.types) = false →
        (applyEvent fmt s event).map EmbeddingState.unsequenced = .ok s.unsequenced := by
    intro s event hevent
    rw [applyEvent]
    split
    all_goals first
      | rfl
      | rename_i h
        rw [h] at hevent
        exact absurd hevent (by decide)
  have hfold := Fold.map_filter hread hskip events (initialState.getD {})
  rw [reduce_eq, reduce_eq, Except.map_map_eq, Except.map_map_eq]
  exact hfold

end EmbeddingProjection

/-! ## Recommendations -/

namespace RecommendationProjection

def consumedEvents : EventSelector :=
  ⟨[.knowledgeCreated, .knowledgeUpdated, .knowledgeDeleted, .decisionAccepted, .taskCompleted,
    .openQuestionResolved]⟩

variable (fmt : FormatText)

/-- The default rules draw nothing from an event of another type. -/
theorem apply_of_not_consumed {rule : RecommendationRule}
    (hrule : rule ∈ (RecommendationRuleRegistry.createDefault fmt).rules) {event : EventRecord}
    (hevent : event.eventType ∉ consumedEvents.types) (version : Int) :
    rule.apply event version = .ok none := by
  rw [RecommendationRuleRegistry.rules, Table.mem_orderBy] at hrule
  have hne : ∀ t ∈ consumedEvents.types, event.eventType ≠ t := fun t ht heq =>
    hevent (heq ▸ ht)
  simp only [RecommendationRuleRegistry.createDefault, List.mem_cons, List.not_mem_nil,
    or_false] at hrule
  rcases hrule with rfl | rfl | rfl | rfl | rfl
  all_goals exact if_pos (hne _ (by decide))

theorem isolated : consumedEvents.Isolates (reduce (.createDefault fmt))
    RecommendationState.recommendations := by
  intro events initialState
  have hfold : ∀ start : Progress,
      (events.foldlM (applyEvent (.createDefault fmt)) start).map Progress.recsById =
        ((consumedEvents.select events).foldlM (applyEvent (.createDefault fmt)) start).map
          Progress.recsById := by
    refine fun start => Fold.map_filter (fun p p' event h => ?_) (fun p event hevent => ?_) events _
    · rw [applyEvent, applyEvent, h, Except.map_bind_eq, Except.map_bind_eq]
      rfl
    · have hrules : (RecommendationRuleRegistry.createDefault fmt).rules.foldlM (applyRule event)
          p.recsById = .ok p.recsById := Fold.eq_ok_of_const fun d rule hrule => by
        rw [applyRule, apply_of_not_consumed fmt hrule (by simpa using hevent)]
        rfl
      rw [applyEvent, hrules]
      rfl
  have hfinish : ∀ l, (reduce (.createDefault fmt) l initialState).map
      RecommendationState.recommendations =
        ((l.foldlM (applyEvent (.createDefault fmt)) (start (initialState.getD {}))).map
          Progress.recsById).map fun d => Table.orderBy Recommendation.id d.values := by
    intro l
    rw [reduce, Except.map_bind_eq, Except.map_map_eq]
    rfl
  rw [hfinish, hfinish, hfold]

end RecommendationProjection

/-! ## Governance rules -/

namespace Governance.GovernanceProjection

def consumedEvents : EventSelector :=
  ⟨[.governanceRuleCreated, .governanceRuleUpdated, .governanceRuleDeleted]⟩

theorem isolated : consumedEvents.Isolates reduce GovernanceState.rules := by
  intro events initialState
  have hfold : ∀ start : Progress, (events.foldlM applyEvent start).map Progress.rulesByKey =
      ((consumedEvents.select events).foldlM applyEvent start).map Progress.rulesByKey := by
    refine fun start => Fold.map_filter (fun p p' event h => ?_) (fun p event hevent => ?_) events _
    · rw [applyEvent, applyEvent, h, Except.map_bind_eq, Except.map_bind_eq]
      rfl
    · rw [applyEvent, applyRules]
      split
      all_goals first
        | rfl
        | rename_i h
          rw [h] at hevent
          exact absurd hevent (by decide)
  have hfinish : ∀ l, (reduce l initialState).map GovernanceState.rules =
      ((l.foldlM applyEvent (start (initialState.getD {}))).map Progress.rulesByKey) >>= fun d =>
        sortRules d.values := by
    intro l
    rw [reduce]
    cases l.foldlM applyEvent (start (initialState.getD {})) with
    | error e => rfl
    | ok p =>
        change (finish p).map GovernanceState.rules = sortRules p.rulesByKey.values
        rw [finish]
        cases sortRules p.rulesByKey.values <;> rfl
  rw [hfinish, hfinish, hfold]

end Governance.GovernanceProjection

/-- The law of isolation for the timeline, the embeddings, the recommendations of the default rules
and the governance rules: whatever events of undeclared types stand between the others, and from
whatever initial state, the same entries, nodes, recommendations and rules are reduced, or the same
exception is raised. -/
theorem projections_isolated (fmt : FormatText) :
    TimelineProjection.consumedEvents.Isolates TimelineProjection.reduce TimelineState.entries ∧
    EmbeddingProjection.consumedEvents.Isolates (EmbeddingProjection.reduce fmt)
      EmbeddingState.unsequenced ∧
    RecommendationProjection.consumedEvents.Isolates
      (RecommendationProjection.reduce (.createDefault fmt)) RecommendationState.recommendations ∧
    Governance.GovernanceProjection.consumedEvents.Isolates Governance.GovernanceProjection.reduce
      Governance.GovernanceState.rules :=
  ⟨TimelineProjection.isolated, EmbeddingProjection.isolated fmt,
    RecommendationProjection.isolated fmt, Governance.GovernanceProjection.isolated⟩

/-! ## The cognitive head -/

/-- What `state_equal` compares of a head: all but the clock and the ledger version. -/
def CognitiveHead.unversioned (head : CognitiveHead) : CognitiveHead :=
  { head with compiledAt := "", ledgerVersion := 0 }

namespace CognitiveHeadProjection

def consumedEvents : EventSelector :=
  ⟨[.projectCreated, .projectGoalSet, .projectFocusChanged, .taskCreated, .taskMutated,
    .taskCompleted, .taskProgressNoted, .decisionProposed, .decisionAccepted, .decisionSuperseded,
    .openQuestionRaised, .openQuestionResolved, .factRecorded]⟩

theorem hasBootstrap_select {events : List EventRecord} :
    HasBootstrap (consumedEvents.select events) ↔ HasBootstrap events := by
  refine forall₂_congr fun t ht => ?_
  have hconsumed : t ∈ consumedEvents.types := by
    revert t
    decide
  simp only [EventSelector.select, List.mem_map, List.mem_filter, decide_eq_true_eq]
  exact exists_congr fun event => ⟨fun h => ⟨h.1.1, h.2⟩, fun h => ⟨⟨h.1, h.2 ▸ hconsumed⟩, h.2⟩⟩

/-- A keyed reducer skips what is not consumed. -/
theorem keyedReduce_select {ν : Type} {id : EventRecord → Json} {action : EventRecord → KeyedAction ν}
    (h : ∀ event, event.eventType ∉ consumedEvents.types → action event = .skip)
    (items : OrdDict Atom ν) (events : List EventRecord) :
    keyedReduce id action items (consumedEvents.select events) =
      keyedReduce id action items events := by
  refine Fold.foldlM_filter (fun d event hevent => ?_) events items
  rw [h event (by simpa using hevent)]
  rfl

/-- The four reducers skip what is not consumed. -/
theorem reduce_select (s : ReducerState) (events : List EventRecord) :
    s.reduce (consumedEvents.select events) = s.reduce events := by
  have hproject : ProjectReducer.reduce s.project (consumedEvents.select events) =
      ProjectReducer.reduce s.project events := by
    rw [ProjectReducer.reduce, EventSelector.select, List.foldl_filter]
    congr 1
    funext state event
    rw [ite_eq_left_iff, decide_eq_true_eq, ProjectReducer.step]
    intro hevent
    split
    all_goals first
      | rfl
      | rename_i h
        exact absurd (h ▸ hevent) (by decide)
  have htasks : ∀ event : EventRecord, event.eventType ∉ consumedEvents.types →
      TaskReducer.action event = .skip := by
    intro event hevent
    rw [TaskReducer.action]
    split
    all_goals first
      | rfl
      | rename_i h
        exact absurd (h ▸ hevent) (by decide)
  have hdecisions : ∀ event : EventRecord, event.eventType ∉ consumedEvents.types →
      DecisionReducer.action event = .skip := by
    intro event hevent
    rw [DecisionReducer.action]
    split
    all_goals first
      | rfl
      | rename_i h
        exact absurd (h ▸ hevent) (by decide)
  have hquestions : ∀ event : EventRecord, event.eventType ∉ consumedEvents.types →
      QuestionReducer.action event = .skip := by
    intro event hevent
    rw [QuestionReducer.action]
    split
    all_goals first
      | rfl
      | rename_i h
        exact absurd (h ▸ hevent) (by decide)
  simp only [ReducerState.reduce, TaskReducer.reduce_eq_keyed, DecisionReducer.reduce_eq_keyed,
    QuestionReducer.reduce_eq_keyed, hproject, keyedReduce_select htasks,
    keyedReduce_select hdecisions, keyedReduce_select hquestions]

/-- Heads of one state differ in the ledger version only. -/
theorem unversioned_buildHead (p : UUID) (s : ReducerState) (events events' : List EventRecord) :
    (buildHead p "" s events).toOption.map CognitiveHead.unversioned =
      (buildHead p "" s events').toOption.map CognitiveHead.unversioned := by
  cases h : buildHead p "" s events with
  | ok head =>
      obtain ⟨rfl, -, -, -⟩ := buildHead_fields h
      rw [buildHead_of_ok h head.projectId "" events']
      rfl
  | error e =>
      cases h' : buildHead p "" s events' with
      | error e' => rfl
      | ok head =>
          rw [buildHead_of_ok h' p "" events] at h
          cases h

/-- The law of isolation for full replays of the cognitive head: a stream of one project has a
head exactly when its declared events alone have one, and it is the same head up to the ledger
version. -/
theorem reduce_isolated {events : List EventRecord} (hone : OneProject events) :
    (reduce events none).toOption.map CognitiveHead.unversioned =
      (reduce (consumedEvents.select events) none).toOption.map CognitiveHead.unversioned := by
  by_cases hboot : HasBootstrap events
  · have hselected := hasBootstrap_select.mpr hboot
    have hproject : projectIdOf (consumedEvents.select events) = projectIdOf events := by
      obtain ⟨event, rest, heq⟩ := List.exists_cons_of_ne_nil hselected.ne_nil
      have hmem : event ∈ consumedEvents.select events := heq ▸ List.mem_cons_self
      rw [heq]
      exact hone event (List.mem_filter.mp hmem).1
    rw [reduce, reduce, checkBootstrap_eq_ok_iff.mpr hboot, checkBootstrap_eq_ok_iff.mpr hselected,
      reduce_select, hproject]
    cases ReducerState.initial.reduce events with
    | error e => rfl
    | ok s => exact unversioned_buildHead (projectIdOf events) s _ _
  · have hfails : ∀ l, ¬ HasBootstrap l → (reduce l none).toOption = none := by
      intro l hl
      cases hcheck : checkBootstrap bootstrapMessage l with
      | error e => rw [reduce, hcheck]; rfl
      | ok u => exact absurd (checkBootstrap_eq_ok_iff.mp hcheck) hl
    rw [hfails _ hboot, hfails _ (hasBootstrap_select.not.mpr hboot)]

/-- A recorded memory after the events of a project. -/
def remarkedEvents : List EventRecord :=
  openTaskEvents ++ [nodeEvent 9 .memoryRecorded [("content", .str "remark")]]

theorem reduce_isolated_remarked :
    (reduce remarkedEvents none).toOption.map CognitiveHead.unversioned =
      (reduce (consumedEvents.select remarkedEvents) none).toOption.map
        CognitiveHead.unversioned :=
  reduce_isolated (by unfold OneProject; decide)

end CognitiveHeadProjection

end RationaleVault
