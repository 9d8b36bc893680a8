import RationaleVault.Library.Fold
import RationaleVault.Library.KeyedDict
import RationaleVault.PythonSort
import RationaleVault.Recommendation.Rules

/-!
# Governance rules

The policy that events create, update and delete. A rule is stored under its id
and version. Both are payload values, so they are any hashable scalars, and the
sorting of the rules at the end of a reduction raises if two of them do not
compare.
-/

namespace RationaleVault.Governance

inductive GovernanceSeverity
  | info
  | warning
  | critical
  deriving DecidableEq

namespace GovernanceSeverity

def value : GovernanceSeverity → String
  | info => "info"
  | warning => "warning"
  | critical => "critical"

/-- `GovernanceSeverity(value)`. -/
def ofValue (v : Json) : Except Exc GovernanceSeverity :=
  v.enum [.info, .warning, .critical] value "is not a valid GovernanceSeverity"

theorem ofValue_value (s : GovernanceSeverity) : ofValue (.str s.value) = .ok s :=
  Json.enum_value (by decide) (by cases s <;> decide) _

end GovernanceSeverity

inductive GovernanceAction
  | notify
  | block
  | suggest
  | log
  deriving DecidableEq

namespace GovernanceAction

def value : GovernanceAction → String
  | notify => "notify"
  | block => "block"
  | suggest => "suggest"
  | log => "log"

/-- `GovernanceAction(value)`. -/
def ofValue (v : Json) : Except Exc GovernanceAction :=
  v.enum [.notify, .block, .suggest, .log] value "is not a valid GovernanceAction"

theorem ofValue_value (a : GovernanceAction) : ofValue (.str a.value) = .ok a :=
  Json.enum_value (by decide) (by cases a <;> decide) _

end GovernanceAction

structure GovernanceCondition where
  categories : Option (Finset RecommendationCategory) := none
  minimumPriority : Json := .null
  severities : Option (Finset GovernanceSeverity) := none
  deriving DecidableEq

structure GovernanceRuleMetadata where
  id : Atom
  version : Atom
  description : Json
  severity : GovernanceSeverity
  action : GovernanceAction
  deriving DecidableEq

structure GovernanceRule where
  metadata : GovernanceRuleMetadata
  condition : GovernanceCondition
  enabled : Json := .bool true
  deriving DecidableEq

structure GovernanceState where
  rules : List GovernanceRule := []
  sequence : Nat := 0
  deriving DecidableEq

instance : DictKey (Atom × Atom) (AtomNorm × AtomNorm) :=
  ⟨fun k => (DictKey.norm k.1, DictKey.norm k.2)⟩

/-- `(rule.metadata.id, rule.metadata.version)`. -/
def GovernanceRule.key (rule : GovernanceRule) : Atom × Atom :=
  (rule.metadata.id, rule.metadata.version)

namespace GovernanceProjection

/-- `v.get(key, default)`: only a dict has the method. -/
def getOr (v : Json) (key : String) (default : Json) : Except Exc Json :=
  match v with
  | .obj members => .ok (JsonObj.getD members key default)
  | _ => .error (.attributeError "get")

/-- `{parse(v) for v in values}` unless there are no values. -/
def parseSet {α : Type} [DecidableEq α] (parse : Json → Except Exc α) (values : Json) :
    Except Exc (Option (Finset α)) :=
  if values = .null then .ok none
  else do
    let members ← (← values.toList).mapM parse
    return some members.toFinset

/-- `_parse_rule(payload)` and the hashing of the key that the rule is stored under. -/
def parseRule (payload : JsonObj) : Except Exc GovernanceRule := do
  let metaPayload := payload.getD "metadata" (.obj [])
  let condPayload := payload.getD "condition" (.obj [])
  let categories ← parseSet RecommendationCategory.ofValue (← getOr condPayload "categories" .null)
  let severities ← parseSet GovernanceSeverity.ofValue (← getOr condPayload "severities" .null)
  let id ← metaPayload.getItem "id"
  let version ← getOr metaPayload "version" (.int 1)
  let description ← getOr metaPayload "description" (.str "")
  let severity ← GovernanceSeverity.ofValue (← getOr metaPayload "severity" (.str "warning"))
  let action ← GovernanceAction.ofValue (← getOr metaPayload "action" (.str "notify"))
  let minimumPriority ← getOr condPayload "minimum_priority" .null
  let metadata : GovernanceRuleMetadata :=
    { id := ← id.hash
      version := ← version.hash
      description := description
      severity := severity
      action := action }
  return {
    metadata := metadata
    condition :=
      { categories := categories
        minimumPriority := minimumPriority
        severities := severities }
    enabled := payload.getD "enabled" (.bool true) }

/-- What the loop of `reduce` changes: `rules_by_key` and `state.sequence`. -/
structure Progress where
  rulesByKey : KeyedDict GovernanceRule.key
  sequence : Nat

/-- What an event does to the rules. -/
def applyRules (rulesByKey : KeyedDict GovernanceRule.key) (event : EventRecord) :
    Except Exc (KeyedDict GovernanceRule.key) :=
  match event.eventType with
  | .governanceRuleCreated | .governanceRuleUpdated => do
      let rule ← parseRule event.payload
      return rulesByKey.put rule
  | .governanceRuleDeleted =>
      let ruleId := event.payload.get "rule_id"
      let version := event.payload.getD "version" (.int 1)
      if ruleId.truthy then do
        let key := (← ruleId.hash, ← version.hash)
        return rulesByKey.erase key
      else .ok rulesByKey
  | _ => .ok rulesByKey

/-- One round of the loop of `reduce`. -/
def applyEvent (p : Progress) (event : EventRecord) : Except Exc Progress := do
  let rulesByKey ← applyRules p.rulesByKey event
  return { rulesByKey := rulesByKey, sequence := max p.sequence event.eventSequence }

/-- The rules in the order of their ids and versions. -/
def sortRules (rules : List GovernanceRule) : Except Exc (List GovernanceRule) :=
  sortedBy AtomNorm.pairComparable AtomNorm.pairLe
    (fun rule : GovernanceRule => DictKey.norm rule.key) rules

/-- What `reduce` starts from. -/
def start (state : GovernanceState) : Progress where
  rulesByKey := KeyedDict.ofList _ state.rules
  sequence := state.sequence

/-- What `reduce` does after its loop. -/
def finish (p : Progress) : Except Exc GovernanceState := do
  let rules ← sortRules p.rulesByKey.values
  return { rules := rules, sequence := p.sequence }

/-- `reduce(events, initial_state)`. -/
def reduce (events : List EventRecord) (initialState : Option GovernanceState) :
    Except Exc GovernanceState := do
  let p ← events.foldlM applyEvent (start (initialState.getD {}))
  finish p

/-- A rule of the snapshot payload. -/
structure RulePayload where
  id : Atom
  version : Atom
  description : Json
  severity : String
  action : String
  categories : Option (List String)
  minimumPriority : Json
  severities : Option (List String)
  enabled : Json

/-- The snapshot payload. -/
structure Snapshot where
  rules : List RulePayload
  sequence : Nat
  schemaVersion : Int

variable (categoryOrder : SetOrder RecommendationCategory)
  (severityOrder : SetOrder GovernanceSeverity)

/-- The payload of a rule. -/
def toPayload (rule : GovernanceRule) : RulePayload where
  id := rule.metadata.id
  version := rule.metadata.version
  description := rule.metadata.description
  severity := rule.metadata.severity.value
  action := rule.metadata.action.value
  categories := rule.condition.categories.map fun s =>
    (categoryOrder.listed s).map RecommendationCategory.value
  minimumPriority := rule.condition.minimumPriority
  severities := rule.condition.severities.map fun s =>
    (severityOrder.listed s).map GovernanceSeverity.value
  enabled := rule.enabled

/-- `serialize(state)`. -/
def serialize (state : GovernanceState) : Snapshot where
  rules := state.rules.map (toPayload categoryOrder severityOrder)
  sequence := state.sequence
  schemaVersion := 1

/-- `{parse(v) for v in values}` unless there are no values. -/
def readSet {α : Type} [DecidableEq α] (parse : Json → Except Exc α) :
    Option (List String) → Except Exc (Option (Finset α))
  | none => .ok none
  | some values => do
      let members ← values.mapM fun v => parse (.str v)
      return some members.toFinset

/-- The rule of a payload. -/
def ofPayload (r : RulePayload) : Except Exc GovernanceRule := do
  let categories ← readSet RecommendationCategory.ofValue r.categories
  let severities ← readSet GovernanceSeverity.ofValue r.severities
  let severity ← GovernanceSeverity.ofValue (.str r.severity)
  let action ← GovernanceAction.ofValue (.str r.action)
  return {
    metadata :=
      { id := r.id
        version := r.version
        description := r.description
        severity := severity
        action := action }
    condition :=
      { categories := categories
        minimumPriority := r.minimumPriority
        severities := severities }
    enabled := r.enabled }

/-- `deserialize(payload)`. -/
def deserialize (payload : Snapshot) : Except Exc GovernanceState := do
  let rules ← payload.rules.mapM ofPayload
  let sorted ← sortRules rules
  return { rules := sorted, sequence := payload.sequence }

/-! ## Snapshots -/

theorem readSet_listed {α : Type} [DecidableEq α] (order : SetOrder α) {value : α → String}
    {parse : Json → Except Exc α} (h : ∀ a, parse (.str (value a)) = .ok a)
    (s : Option (Finset α)) :
    readSet parse (s.map fun s => (order.listed s).map value) = .ok s := by
  cases s with
  | none => rfl
  | some s =>
      have hmembers : ((order.listed s).map value).mapM (fun v => parse (.str v)) =
          .ok (order.listed s) := Fold.mapM_map_of_inverse fun a _ => h a
      rw [Option.map_some, readSet, hmembers, Except.ok_bind_eq, order.toFinset_listed]
      rfl

theorem ofPayload_toPayload (rule : GovernanceRule) :
    ofPayload (toPayload categoryOrder severityOrder rule) = .ok rule := by
  have hcategories := readSet_listed categoryOrder RecommendationCategory.ofValue_value
    rule.condition.categories
  have hseverities := readSet_listed severityOrder GovernanceSeverity.ofValue_value
    rule.condition.severities
  rw [ofPayload, toPayload]
  simp only [hcategories, hseverities, GovernanceSeverity.ofValue_value,
    GovernanceAction.ofValue_value, pure, Except.pure, Except.ok_bind_eq]

/-- A state that `reduce` returns is restored. -/
theorem deserialize_serialize {p : Progress} {state : GovernanceState} (h : finish p = .ok state) :
    deserialize (serialize categoryOrder severityOrder state) = .ok state := by
  rw [finish, Except.bind_eq_ok_iff] at h
  obtain ⟨rules, hsort, h⟩ := h
  obtain rfl := Except.pure_eq_ok_iff.mp h
  have hrules : (rules.map (toPayload categoryOrder severityOrder)).mapM ofPayload = .ok rules :=
    Fold.mapM_map_of_inverse fun rule _ => ofPayload_toPayload categoryOrder severityOrder rule
  have hsorted : sortRules rules = .ok rules :=
    AtomNorm.comparison_pair.sortedBy_sorted p.rulesByKey.nodup_values hsort
  rw [deserialize, serialize, hrules, Except.ok_bind_eq, hsorted]
  rfl

/-- Progress as far as lookups can tell. -/
def view (p : Progress) : (Atom × Atom → Option GovernanceRule) × Nat :=
  (p.rulesByKey.get?, p.sequence)

theorem view_start_finish {p : Progress} {state : GovernanceState} (h : finish p = .ok state) :
    view (start state) = view p := by
  rw [finish, Except.bind_eq_ok_iff] at h
  obtain ⟨rules, hsort, h⟩ := h
  obtain rfl := Except.pure_eq_ok_iff.mp h
  have hget : (KeyedDict.ofList GovernanceRule.key rules).get? = p.rulesByKey.get? := by
    funext key
    exact KeyedDict.get?_ofList (sortedBy_perm hsort) key
  exact Prod.ext hget rfl

theorem finish_congr (p p' : Progress) (h : view p = view p') : finish p = finish p' := by
  obtain ⟨hget, hsequence⟩ := Prod.mk.inj h
  have hsort : sortRules p.rulesByKey.values = sortRules p'.rulesByKey.values :=
    AtomNorm.comparison_pair.sortedBy_eq_of_perm (KeyedDict.values_perm (congrFun hget))
      p.rulesByKey.nodup_values
  rw [finish, finish, hsort, hsequence]

theorem applyRules_congr {d d' : KeyedDict GovernanceRule.key} (h : d.get? = d'.get?)
    (event : EventRecord) :
    (applyRules d event).map KeyedDict.get? = (applyRules d' event).map KeyedDict.get? := by
  have hput : ∀ rule, (d.put rule).get? = (d'.put rule).get? := by
    intro rule
    funext key
    rw [KeyedDict.get?_put, KeyedDict.get?_put, h]
  have herase : ∀ key, (d.erase key).get? = (d'.erase key).get? := by
    intro key
    funext key'
    rw [KeyedDict.get?_erase, KeyedDict.get?_erase, h]
  rw [applyRules, applyRules]
  split
  · rw [Except.map_bind_eq, Except.map_bind_eq]
    exact bind_congr fun rule => congrArg Except.ok (hput rule)
  · rw [Except.map_bind_eq, Except.map_bind_eq]
    exact bind_congr fun rule => congrArg Except.ok (hput rule)
  · dsimp only
    split
    · rw [Except.map_bind_eq, Except.map_bind_eq]
      refine bind_congr fun id => ?_
      rw [Except.map_bind_eq, Except.map_bind_eq]
      exact bind_congr fun version => congrArg Except.ok (herase (id, version))
    · exact congrArg Except.ok h
  · exact congrArg Except.ok h

theorem applyEvent_congr (p p' : Progress) (event : EventRecord) (h : view p = view p') :
    (applyEvent p event).map view = (applyEvent p' event).map view := by
  obtain ⟨hget, hsequence⟩ := Prod.mk.inj h
  rw [applyEvent, applyEvent, Except.map_bind_eq, Except.map_bind_eq]
  apply Except.bind_congr_of_map (applyRules_congr hget event)
  intro d d' hd
  rw [hsequence]
  exact congrArg Except.ok (Prod.ext hd rfl)

/-- Going on from a snapshot replays the whole history. -/
theorem resume {A : List EventRecord} {state : GovernanceState} (hA : reduce A none = .ok state)
    (B : List EventRecord) :
    (deserialize (serialize categoryOrder severityOrder state) >>= fun s => reduce B (some s)) =
      reduce (A ++ B) none := by
  rw [reduce, Option.getD_none, Except.bind_eq_ok_iff] at hA
  obtain ⟨p, hp, hfinish⟩ := hA
  rw [deserialize_serialize categoryOrder severityOrder hfinish, Except.ok_bind_eq]
  exact Fold.resume applyEvent_congr finish_congr hp (view_start_finish hfinish) B

end GovernanceProjection

end RationaleVault.Governance
