import RationaleVault.Library.Fold
import RationaleVault.Library.KeyedDict
import RationaleVault.PythonDateTime
import RationaleVault.Recommendation.Rules

/-!
# Recommendation projection

A recommendation is stored under its id, and a later one with the same id takes
its place. The state lists them in the order of their ids, so it does not depend
on the order in which they were drawn.
-/

namespace RationaleVault

structure RecommendationState where
  recommendations : List Recommendation := []
  sequence : Nat := 0
  deriving DecidableEq

namespace RecommendationProjection

/-- What the loop of `reduce` changes: `recs_by_id` and `state.sequence`. -/
structure Progress where
  recsById : KeyedDict Recommendation.id
  sequence : Nat

variable (registry : RecommendationRuleRegistry)

/-- One round of the inner loop of `reduce`. -/
def applyRule (event : EventRecord) (recsById : KeyedDict Recommendation.id)
    (rule : RecommendationRule) : Except Exc (KeyedDict Recommendation.id) := do
  match ← rule.apply event 1 with
  | none => return recsById
  | some r => return recsById.put r

/-- One round of the loop of `reduce`. -/
def applyEvent (p : Progress) (event : EventRecord) : Except Exc Progress := do
  let recsById ← registry.rules.foldlM (applyRule event) p.recsById
  return { recsById := recsById, sequence := max p.sequence event.eventSequence }

/-- What `reduce` starts from. -/
def start (state : RecommendationState) : Progress where
  recsById := KeyedDict.ofList _ state.recommendations
  sequence := state.sequence

/-- What `reduce` returns after its loop. -/
def finish (p : Progress) : RecommendationState where
  recommendations := Table.orderBy Recommendation.id p.recsById.values
  sequence := p.sequence

/-- `reduce(events, initial_state)`. -/
def reduce (events : List EventRecord) (initialState : Option RecommendationState) :
    Except Exc RecommendationState := do
  let p ← events.foldlM (applyEvent registry) (start (initialState.getD {}))
  return finish p

/-- A recommendation of the snapshot payload. -/
structure RecommendationPayload where
  id : String
  ruleId : String
  ruleVersion : Int
  targetEntity : Json
  category : String
  priority : FloatLit
  rationale : String
  evidence : List EvidenceReference
  createdAt : Option String
  eventType : Option String

/-- The snapshot payload. -/
structure Snapshot where
  recommendations : List RecommendationPayload
  sequence : Nat
  schemaVersion : Int

/-- The payload of a recommendation. -/
def toPayload (r : Recommendation) : RecommendationPayload where
  id := r.id
  ruleId := r.ruleId
  ruleVersion := r.ruleVersion
  targetEntity := r.targetEntity
  category := r.category.value
  priority := r.priority
  rationale := r.rationale
  evidence := r.evidence
  createdAt := r.createdAt.map DateTime.isoformat
  eventType := r.eventType.map EventType.value

/-- `serialize(state)`. -/
def serialize (state : RecommendationState) : Snapshot where
  recommendations := state.recommendations.map toPayload
  sequence := state.sequence
  schemaVersion := 1

/-- `datetime.fromisoformat(created_at)` unless there is no time. -/
def createdAtOf : Option String → Except Exc (Option DateTime)
  | none => .ok none
  -- the code leaves an empty text as it is, but no payload has one
  | some text => (DateTime.fromisoformat text).map some

/-- `EventType(event_type)` unless there is no type. -/
def eventTypeOf : Option String → Except Exc (Option EventType)
  | none => .ok none
  | some text =>
      match EventType.ofValue text with
      | some t => .ok (some t)
      | none => .error (.valueError "is not a valid EventType")

/-- The recommendation of a payload. -/
def ofPayload (r : RecommendationPayload) : Except Exc Recommendation := do
  let createdAt ← createdAtOf r.createdAt
  let eventType ← eventTypeOf r.eventType
  let category ← RecommendationCategory.ofValue (.str r.category)
  return {
    id := r.id
    ruleId := r.ruleId
    ruleVersion := r.ruleVersion
    targetEntity := r.targetEntity
    category := category
    priority := r.priority
    rationale := r.rationale
    evidence := r.evidence
    createdAt := createdAt
    eventType := eventType }

/-- `deserialize(payload)`. -/
def deserialize (payload : Snapshot) : Except Exc RecommendationState := do
  let recs ← payload.recommendations.mapM ofPayload
  return {
    recommendations := Table.orderBy Recommendation.id recs
    sequence := payload.sequence }

/-! ## Snapshots -/

/-- The times of the recommendations are times there are. -/
def Dated (rs : List Recommendation) : Prop := ∀ r ∈ rs, ∀ t, r.createdAt = some t → t.Valid

theorem ofPayload_toPayload {r : Recommendation} (h : ∀ t, r.createdAt = some t → t.Valid) :
    ofPayload (toPayload r) = .ok r := by
  have hcreated : createdAtOf (r.createdAt.map DateTime.isoformat) = .ok r.createdAt := by
    cases ht : r.createdAt with
    | none => rfl
    | some t => rw [Option.map_some, createdAtOf, DateTime.fromisoformat_isoformat (h t ht)]; rfl
  have htype : eventTypeOf (r.eventType.map EventType.value) = .ok r.eventType := by
    cases r.eventType with
    | none => rfl
    | some t => rw [Option.map_some, eventTypeOf, (EventType.ofValue_eq_some_iff _ t).mpr rfl]
  rw [ofPayload, toPayload]
  simp only [hcreated, htype, RecommendationCategory.ofValue_value, pure, Except.pure,
    Except.ok_bind_eq]

/-- A state that `reduce` returns is restored. -/
theorem deserialize_serialize_finish {p : Progress} (h : Dated p.recsById.values) :
    deserialize (serialize (finish p)) = .ok (finish p) := by
  have hrecs : ((finish p).recommendations.map toPayload).mapM ofPayload =
      .ok (finish p).recommendations := by
    apply Fold.mapM_map_of_inverse
    intro r hr
    exact ofPayload_toPayload (h r (Table.mem_orderBy.mp hr))
  rw [deserialize, serialize, hrecs, Except.ok_bind_eq]
  simp only [finish, Table.orderBy_orderBy]
  rfl

/-- Progress as far as lookups can tell. -/
def view (p : Progress) : (String → Option Recommendation) × Nat := (p.recsById.get?, p.sequence)

theorem view_start_finish (p : Progress) : view (start (finish p)) = view p := by
  have hget : (start (finish p)).recsById.get? = p.recsById.get? := by
    funext id
    exact KeyedDict.get?_ofList (Table.orderBy_perm _ _) id
  exact Prod.ext hget rfl

theorem finish_congr {p p' : Progress} (h : view p = view p') : finish p = finish p' := by
  obtain ⟨hget, hsequence⟩ := Prod.mk.inj h
  have hvalues : p.recsById.values.Perm p'.recsById.values :=
    KeyedDict.values_perm (congrFun hget)
  have hsorted : Table.orderBy Recommendation.id p.recsById.values =
      Table.orderBy Recommendation.id p'.recsById.values :=
    Table.orderBy_eq_of_perm hvalues p.recsById.nodup_values
  rw [finish, finish, hsorted, hsequence]

theorem applyRule_congr {event : EventRecord} (d d' : KeyedDict Recommendation.id)
    (rule : RecommendationRule) (h : d.get? = d'.get?) :
    (applyRule event d rule).map KeyedDict.get? = (applyRule event d' rule).map KeyedDict.get? := by
  rw [applyRule, applyRule]
  cases rule.apply event 1 with
  | error e => rfl
  | ok drawn =>
      cases drawn with
      | none => exact congrArg Except.ok h
      | some r =>
          refine congrArg Except.ok (funext fun id => ?_)
          rw [KeyedDict.get?_put, KeyedDict.get?_put, h]

theorem applyEvent_congr (p p' : Progress) (event : EventRecord) (h : view p = view p') :
    (applyEvent registry p event).map view = (applyEvent registry p' event).map view := by
  obtain ⟨hget, hsequence⟩ := Prod.mk.inj h
  have hrules := Fold.map_eq_of_step (f := applyRule event) applyRule_congr hget registry.rules
  rw [applyEvent, applyEvent, Except.map_bind_eq, Except.map_bind_eq]
  apply Except.bind_congr_of_map hrules
  intro d d' hd
  rw [hsequence]
  exact congrArg Except.ok (Prod.ext hd rfl)

/-- The rules draw recommendations with times there are from the events of a list. -/
def StampsValid (events : List EventRecord) : Prop :=
  ∀ rule ∈ registry.rules, ∀ event ∈ events, ∀ r, rule.apply event 1 = .ok (some r) →
    ∀ t, r.createdAt = some t → t.Valid

variable {registry}

theorem dated_applyEvent {events : List EventRecord} (hstamps : StampsValid registry events)
    {p p' : Progress} {event : EventRecord} (hevent : event ∈ events)
    (hp : Dated p.recsById.values) (h : applyEvent registry p event = .ok p') :
    Dated p'.recsById.values := by
  rw [applyEvent, Except.bind_eq_ok_iff] at h
  obtain ⟨recsById, hrules, h⟩ := h
  rw [Except.pure_eq_ok_iff] at h
  subst h
  refine Fold.invariant (P := fun d : KeyedDict Recommendation.id => Dated d.values)
    (fun d rule d' hrule hd hstep => ?_) hp hrules
  rw [applyRule, Except.bind_eq_ok_iff] at hstep
  obtain ⟨drawn, hdrawn, hstep⟩ := hstep
  cases drawn with
  | none => exact Except.pure_eq_ok_iff.mp hstep ▸ hd
  | some r =>
      obtain rfl := Except.pure_eq_ok_iff.mp hstep
      intro r' hr'
      rcases KeyedDict.mem_values_put hr' with rfl | hr'
      · exact hstamps rule hrule event hevent _ hdrawn
      · exact hd r' hr'

/-- Going on from a snapshot replays the whole history. -/
theorem resume {A : List EventRecord} (hstamps : StampsValid registry A) (B : List EventRecord) :
    (reduce registry A none >>= fun s => deserialize (serialize s) >>= fun s =>
        reduce registry B (some s)) =
      reduce registry (A ++ B) none := by
  rw [reduce, Option.getD_none]
  cases hA : A.foldlM (applyEvent registry) (start {}) with
  | error e => rw [reduce, List.foldlM_append, Option.getD_none, hA]; rfl
  | ok p =>
      have hdated : Dated p.recsById.values :=
        Fold.invariant (P := fun p : Progress => Dated p.recsById.values)
          (fun _ _ _ hevent => dated_applyEvent hstamps hevent)
          (fun r hr => by cases hr) hA
      have hresume := Fold.resume (applyEvent_congr registry)
        (fun p p' h => congrArg Except.ok (finish_congr h)) hA (view_start_finish p) B
      change (deserialize (serialize (finish p)) >>= fun s => reduce registry B (some s)) = _
      rw [deserialize_serialize_finish hdated]
      exact hresume

theorem stampsValid_createDefault (fmt : FormatText) {events : List EventRecord}
    (h : ∀ event ∈ events, ∀ t, event.recordedAt = some t → t.Valid) :
    StampsValid (.createDefault fmt) events := by
  intro rule hrule event hevent r hr t ht
  rw [RecommendationRuleRegistry.createdAt_createDefault fmt hrule hr] at ht
  exact h event hevent t ht

end RecommendationProjection

end RationaleVault
