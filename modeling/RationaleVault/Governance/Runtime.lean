import Mathlib.Data.List.Find
import RationaleVault.Governance.Projection
import RationaleVault.Library.Distinct
import RationaleVault.PythonNumber
import RationaleVault.Recommendation.Projection

/-!
# The governance runtime

A rule is evaluated against all recommendations, and what matches it is pooled: its entities form
a set and its evidence is one sorted list. Every entity of an evaluation gets a warning of its own,
which carries the evidence of the pool.
-/

namespace RationaleVault.Governance

/-- The order in which a set of entities is visited. -/
structure EntityOrder where
  listed : List Atom → List Atom
  perm : ∀ entities, (listed entities).Perm entities

structure RuleEvaluation where
  ruleId : Atom
  ruleVersion : Atom
  matched : Bool
  matchedEntities : List Atom
  evidence : List Nat
  message : String

structure GovernanceWarning where
  id : String
  ruleId : Atom
  ruleVersion : Atom
  targetEntity : Atom
  severity : GovernanceSeverity
  action : GovernanceAction
  message : String
  evidence : List Nat
  createdAt : DateTime

/-- `GovernanceWarning.make_id(projection_version, rule_id, rule_version, target_entity,
triggering_sequence)`. -/
def GovernanceWarning.makeId (fmt : FormatText) (projectionVersion : Int)
    (ruleId ruleVersion targetEntity : Atom) (triggeringSequence : Nat) : String :=
  let raw := toString projectionVersion ++ ":" ++ fmt.format (.atom ruleId) ++ ":" ++
    fmt.format (.atom ruleVersion) ++ ":" ++ fmt.format (.atom targetEntity) ++ ":" ++
    toString triggeringSequence
  String.ofList ((Sha256.hexdigest raw).toList.take 16)

namespace DefaultEvidenceProvider

/-- `priority < minimum` for a minimum that is any value. -/
def below (priority : FloatLit) : Json → Except Exc Bool
  | .atom minimum =>
      match minimum.norm with
      | .num q => .ok (priority.value < q)
      | _ => .error .typeError
  | _ => .error .typeError

/-- A recommendation passes the condition. -/
def passes (condition : GovernanceCondition) (rec : Recommendation) : Except Exc Bool :=
  if ∃ categories ∈ condition.categories, rec.category ∉ categories then .ok false
  else if condition.minimumPriority = .null then .ok true
  else (below rec.priority condition.minimumPriority).map (!·)

/-- `collect(rule)`, of the recommendations of a state. -/
def collect (rule : GovernanceRule) : List Recommendation → Except Exc (List Recommendation)
  | [] => .ok []
  | rec :: rest => do
      let passed ← passes rule.condition rec
      let matched ← collect rule rest
      return if passed then rec :: matched else matched

end DefaultEvidenceProvider

/-- The sequences that recommendations rest on, sorted and without repetitions. -/
def sequences (recs : List Recommendation) : List Nat :=
  (recs.flatMap fun rec => rec.evidence.map EvidenceReference.sequence).dedup.insertionSort
    (· ≤ ·)

namespace GovernanceRuntime

variable (fmt : FormatText) (order : EntityOrder)

/-- What `evaluate_rules` appends for a rule. -/
def evaluateRule (recs : RecommendationState) (rule : GovernanceRule) :
    Except Exc RuleEvaluation := do
  let matched ← DefaultEvidenceProvider.collect rule recs.recommendations
  let targets ← matched.mapM fun rec => rec.targetEntity.hash
  let entities := order.listed (Distinct.firsts Atom.norm targets)
  return {
    ruleId := rule.metadata.id
    ruleVersion := rule.metadata.version
    matched := matched ≠ []
    matchedEntities := entities
    evidence := sequences matched
    message := if matched = [] then "" else
      "Policy rule '" ++ fmt.format (.atom rule.metadata.id) ++ "' matched with " ++
        toString matched.length ++ " recommendations across " ++ toString entities.length ++
        " entities." }

/-- `evaluate_rules(state, provider)`. -/
def evaluateRules (state : GovernanceState) (recs : RecommendationState) :
    Except Exc (List RuleEvaluation) :=
  (state.rules.filter fun rule => rule.enabled.truthy).mapM (evaluateRule fmt order recs)

variable (projectionVersion : Int) (queryTime : DateTime)

/-- The warning of an evaluation about an entity, under the rule of its key. -/
def warningAbout (ev : RuleEvaluation) (rule : GovernanceRule) (entity : Atom) :
    GovernanceWarning where
  id := GovernanceWarning.makeId fmt projectionVersion rule.metadata.id rule.metadata.version entity
    (ev.evidence.headD 0)
  ruleId := rule.metadata.id
  ruleVersion := rule.metadata.version
  targetEntity := entity
  severity := rule.metadata.severity
  action := rule.metadata.action
  message := ev.message
  evidence := ev.evidence
  createdAt := queryTime

/-- The warnings of an evaluation. -/
def warningsOf (state : GovernanceState) (ev : RuleEvaluation) : List GovernanceWarning :=
  match (KeyedDict.ofList GovernanceRule.key state.rules).get? (ev.ruleId, ev.ruleVersion) with
  | some rule =>
      if ev.matched then
        ev.matchedEntities.map (warningAbout fmt projectionVersion queryTime ev rule)
      else []
  | none => []

/-- `generate_warnings(state, evaluations, projection_version, query_time)`. -/
def generateWarnings (state : GovernanceState) (evaluations : List RuleEvaluation) :
    List GovernanceWarning :=
  evaluations.flatMap (warningsOf fmt projectionVersion queryTime state)

/-- The warnings about a state of recommendations. -/
def warnings (state : GovernanceState) (recs : RecommendationState) :
    Except Exc (List GovernanceWarning) :=
  (evaluateRules fmt order state recs).map
    (generateWarnings fmt projectionVersion queryTime state)

/-! ## What a warning rests on -/

/-- The recommendation is about the entity. -/
def targets (entity : Atom) (rec : Recommendation) : Bool :=
  match rec.targetEntity with
  | .atom a => a.norm = entity.norm
  | _ => false

/-- The recommendations that match a rule. -/
def matching (rule : GovernanceRule) (recs : RecommendationState) : List Recommendation :=
  recs.recommendations.filter fun rec =>
    DefaultEvidenceProvider.passes rule.condition rec = .ok true

/-- The evidence of all that matches a rule. -/
def pooled (rule : GovernanceRule) (recs : RecommendationState) : List Nat :=
  sequences (matching rule recs)

/-- What matches the rule and is about the entity. -/
def matchingAbout (rule : GovernanceRule) (recs : RecommendationState) (entity : Atom) :
    List Recommendation :=
  (matching rule recs).filter (targets entity)

/-- The evidence of what matches a rule and is about the entity. -/
def own (rule : GovernanceRule) (recs : RecommendationState) (entity : Atom) : List Nat :=
  sequences (matchingAbout rule recs entity)

/-- The enabled rules that match a recommendation about the entity. -/
def rulesAbout (state : GovernanceState) (recs : RecommendationState) (entity : Atom) :
    List GovernanceRule :=
  (state.rules.filter fun rule => rule.enabled.truthy).filter fun rule =>
    matchingAbout rule recs entity ≠ []

/-- The warnings about the entity. -/
def about (entity : Atom) (ws : List GovernanceWarning) : List GovernanceWarning :=
  ws.filter fun w => w.targetEntity.norm = entity.norm

theorem collect_eq {rule : GovernanceRule} {recs matched : List Recommendation}
    (h : DefaultEvidenceProvider.collect rule recs = .ok matched) :
    matched = recs.filter fun rec =>
      DefaultEvidenceProvider.passes rule.condition rec = .ok true := by
  induction recs generalizing matched with
  | nil => exact (Except.ok.inj h).symm
  | cons rec rest ih =>
      rw [DefaultEvidenceProvider.collect, Except.bind_eq_ok_iff] at h
      obtain ⟨passed, hpassed, h⟩ := h
      rw [Except.bind_eq_ok_iff] at h
      obtain ⟨kept, hkept, h⟩ := h
      rw [Except.pure_eq_ok_iff] at h
      rw [← h, List.filter_cons, hpassed, ← ih hkept]
      cases passed <;> rfl

theorem mem_sequences {recs : List Recommendation} {s : Nat} :
    s ∈ sequences recs ↔ ∃ rec ∈ recs, ∃ e ∈ rec.evidence, e.sequence = s := by
  rw [sequences, List.mem_insertionSort, List.mem_dedup, List.mem_flatMap]
  simp only [List.mem_map]

/-- Evidence is determined by its members. -/
theorem sequences_eq_iff {recs recs' : List Recommendation} :
    sequences recs = sequences recs' ↔ ∀ s, s ∈ sequences recs ↔ s ∈ sequences recs' := by
  refine ⟨fun h s => by rw [h], fun h => ?_⟩
  have hnodup : ∀ rs, (sequences rs).Nodup := by
    intro rs
    exact (List.perm_insertionSort _ _).nodup_iff.mpr (List.nodup_dedup _)
  have hsorted : ∀ rs, (sequences rs).Pairwise (· ≤ ·) := by
    intro rs
    exact List.pairwise_insertionSort _ _
  exact ((List.perm_ext_iff_of_nodup (hnodup recs) (hnodup recs')).mpr h).eq_of_pairwise
    (fun _ _ _ _ hle hge => Nat.le_antisymm hle hge) (hsorted recs) (hsorted recs')

def entityOf (rec : Recommendation) : Atom :=
  match rec.targetEntity with
  | .atom a => a
  | _ => .null

/-- The entities that a set can be made of are the targets of the recommendations. -/
theorem mapM_hash_eq {recs : List Recommendation} {entities : List Atom}
    (h : (recs.mapM fun rec => rec.targetEntity.hash) = .ok entities) :
    entities = recs.map entityOf ∧
      ∀ entity, ∀ rec ∈ recs, targets entity rec = decide ((entityOf rec).norm = entity.norm) := by
  have hall := Fold.forall₂_of_mapM h
  clear h
  induction hall with
  | nil => exact ⟨rfl, fun _ _ hrec => absurd hrec List.not_mem_nil⟩
  | @cons rec a rest entities hhash _ ih =>
      obtain ⟨rfl, htargets⟩ := ih
      have hatom : rec.targetEntity = .atom a := by
        cases htarget : rec.targetEntity with
        | atom b =>
            rw [htarget] at hhash
            rw [Except.ok.inj hhash]
        | arr items =>
            rw [htarget] at hhash
            cases hhash
        | obj members =>
            rw [htarget] at hhash
            cases hhash
      have hentity : entityOf rec = a := by
        rw [entityOf, hatom]
      refine ⟨by rw [List.map_cons, hentity], fun entity => List.forall_mem_cons.mpr ⟨?_, ?_⟩⟩
      · rw [targets, hentity, hatom]
      · exact htargets entity

variable {fmt order projectionVersion queryTime} {state : GovernanceState}
  {recs : RecommendationState} {rule : GovernanceRule} {ev : RuleEvaluation}

/-- An evaluation visits the entity of the first matching recommendation about it, once. -/
theorem evaluateRule_spec (h : evaluateRule fmt order recs rule = .ok ev) :
    (ev.ruleId, ev.ruleVersion) = rule.key ∧ ev.evidence = pooled rule recs ∧
      ev.matched = decide (matching rule recs ≠ []) ∧
      ∀ entity, ev.matchedEntities.filter (fun a => a.norm = entity.norm) =
        ((matchingAbout rule recs entity).head?.map entityOf).toList := by
  rw [evaluateRule, Except.bind_eq_ok_iff] at h
  obtain ⟨matched, hmatched, h⟩ := h
  obtain rfl := collect_eq hmatched
  rw [Except.bind_eq_ok_iff] at h
  obtain ⟨entities, hentities, h⟩ := h
  obtain ⟨rfl, htargets⟩ := mapM_hash_eq hentities
  rw [Except.pure_eq_ok_iff] at h
  refine h ▸ ⟨rfl, rfl, rfl, fun entity => ?_⟩
  have hfind : (((matching rule recs).map entityOf).find? fun a => a.norm = entity.norm) =
      (matchingAbout rule recs entity).head?.map entityOf := by
    rw [List.find?_map, matchingAbout, List.head?_filter]
    exact congrArg _ (List.find?_congr fun rec hrec => (htargets entity rec hrec).symm)
  have hfirst : (Distinct.firsts Atom.norm ((matching rule recs).map entityOf)).filter
      (fun a => a.norm = entity.norm) =
        ((matchingAbout rule recs entity).head?.map entityOf).toList :=
    (Distinct.filter_firsts _ _).trans (congrArg Option.toList hfind)
  have hperm := (order.perm (Distinct.firsts Atom.norm
    ((matching rule recs).map entityOf))).filter fun a => a.norm = entity.norm
  rw [hfirst] at hperm
  cases hcase : (matchingAbout rule recs entity).head?.map entityOf with
  | none =>
      rw [hcase] at hperm
      exact List.perm_nil.mp hperm
  | some a =>
      rw [hcase] at hperm
      exact List.perm_singleton.mp hperm

/-- The rule that is found under the key of a rule. -/
def stored (state : GovernanceState) (rule : GovernanceRule) : GovernanceRule :=
  ((KeyedDict.ofList GovernanceRule.key state.rules).get? rule.key).getD rule

variable (fmt projectionVersion) in
/-- The id of the warning that a rule gives about an entity. -/
def warningId (state : GovernanceState) (recs : RecommendationState) (rule : GovernanceRule)
    (entity : Atom) : String :=
  GovernanceWarning.makeId fmt projectionVersion (stored state rule).metadata.id
    (stored state rule).metadata.version
    (((matchingAbout rule recs entity).head?.map entityOf).getD entity)
    ((pooled rule recs).headD 0)

/-- An evaluation has at most one warning about an entity, and that rests on the pool. -/
theorem about_warningsOf (hrule : rule ∈ state.rules)
    (h : evaluateRule fmt order recs rule = .ok ev) (entity : Atom) :
    (about entity (warningsOf fmt projectionVersion queryTime state ev)).map
        (fun w => (w.id, w.evidence)) =
      if matchingAbout rule recs entity ≠ [] then
        [(warningId fmt projectionVersion state recs rule entity, pooled rule recs)]
      else [] := by
  obtain ⟨hkey, hevidence, hmatched, hentities⟩ := evaluateRule_spec h
  obtain ⟨rule', hrule'⟩ : ∃ rule',
      (KeyedDict.ofList GovernanceRule.key state.rules).get? rule.key = some rule' :=
    KeyedDict.exists_get?_ofList hrule
  have hstored : stored state rule = rule' := by
    rw [stored, hrule', Option.getD_some]
  rw [warningsOf, hkey, hrule']
  by_cases hnone : matching rule recs = []
  · simp [hmatched, hnone, about, matchingAbout]
  · have hfilter : about entity (ev.matchedEntities.map
        (warningAbout fmt projectionVersion queryTime ev rule')) =
          (ev.matchedEntities.filter fun a => a.norm = entity.norm).map
            (warningAbout fmt projectionVersion queryTime ev rule') := by
      rw [about, List.filter_map]
      rfl
    simp only [hmatched, hnone, ne_eq, not_false_eq_true, decide_true, if_true]
    rw [hfilter, hentities entity, warningId]
    cases matchingAbout rule recs entity with
    | nil => rfl
    | cons rec rest => simp [warningAbout, hstored, hevidence]

/-- The warnings about an entity, in the order of the rules. -/
theorem about_warnings {ws : List GovernanceWarning}
    (h : warnings fmt order projectionVersion queryTime state recs = .ok ws) (entity : Atom) :
    (about entity ws).map (fun w => (w.id, w.evidence)) =
      (rulesAbout state recs entity).map fun rule =>
        (warningId fmt projectionVersion state recs rule entity, pooled rule recs) := by
  obtain ⟨evaluations, hevaluations, rfl⟩ := Except.map_eq_ok_iff.mp h
  have hall := Fold.forall₂_of_mapM hevaluations
  have hrules : ∀ rule ∈ state.rules.filter fun rule => rule.enabled.truthy, rule ∈ state.rules :=
    fun rule hrule => List.mem_of_mem_filter hrule
  rw [rulesAbout]
  generalize (state.rules.filter fun rule => rule.enabled.truthy) = enabled at hall hrules ⊢
  clear h hevaluations
  induction hall with
  | nil => rfl
  | @cons rule ev rest evs hev _ ih =>
      obtain ⟨hrule, hrest⟩ := List.forall_mem_cons.mp hrules
      rw [generateWarnings, List.flatMap_cons, about, List.filter_append, List.map_append,
        List.filter_cons]
      refine (congrArg₂ _ (about_warningsOf hrule hev entity) (ih hrest)).trans ?_
      by_cases habout : matchingAbout rule recs entity = []
      · simp [habout]
      · simp [habout]

/-- What the warnings about an entity rest on: each of them on the evidence of its whole rule. That
is the evidence of the matching recommendations about the entity exactly if these have all of it,
and recommendations about other entities leave the warnings as they are exactly if they leave the
evidence of the rules as it is. -/
structure RestsOnRules (fmt : FormatText) (order : EntityOrder) (projectionVersion : Int)
    (queryTime : DateTime) (state : GovernanceState) (recs : RecommendationState) (entity : Atom)
    (ws : List GovernanceWarning) : Prop where
  evidence : (about entity ws).map GovernanceWarning.evidence =
    (rulesAbout state recs entity).map fun rule => pooled rule recs
  own : ∀ rule ∈ rulesAbout state recs entity,
    (∀ s ∈ own rule recs entity, s ∈ pooled rule recs) ∧
      (pooled rule recs = own rule recs entity ↔
        ∀ s ∈ pooled rule recs, s ∈ own rule recs entity)
  unchanged : ∀ (recs' : RecommendationState) (ws' : List GovernanceWarning),
    warnings fmt order projectionVersion queryTime state recs' = .ok ws' →
      recs'.recommendations.filter (targets entity) =
        recs.recommendations.filter (targets entity) →
          ((about entity ws').map (fun w => (w.id, w.evidence)) =
            (about entity ws).map (fun w => (w.id, w.evidence)) ↔
              ∀ rule ∈ rulesAbout state recs entity, pooled rule recs' = pooled rule recs)

theorem mem_pooled_of_mem_own {entity : Atom} {s : Nat} (h : s ∈ own rule recs entity) :
    s ∈ pooled rule recs := by
  obtain ⟨rec, hrec, he⟩ := mem_sequences.mp h
  exact mem_sequences.mpr ⟨rec, List.mem_of_mem_filter hrec, he⟩

/-- What matches a rule and is about an entity can be read off what is about the entity. -/
theorem matchingAbout_congr {recs' : RecommendationState} {entity : Atom}
    (h : recs'.recommendations.filter (targets entity) =
      recs.recommendations.filter (targets entity)) (rule : GovernanceRule) :
    matchingAbout rule recs' entity = matchingAbout rule recs entity := by
  rw [matchingAbout, matching, List.filter_comm, h, ← List.filter_comm]
  rfl

/-- The warnings about an entity rest on the evidence of their rules. -/
theorem warnings_rest_on_rules {ws : List GovernanceWarning}
    (h : warnings fmt order projectionVersion queryTime state recs = .ok ws) (entity : Atom) :
    RestsOnRules fmt order projectionVersion queryTime state recs entity ws := by
  have habout := about_warnings h entity
  refine ⟨?_, fun rule _ => ⟨fun s => mem_pooled_of_mem_own, ?_⟩, fun recs' ws' h' hagree => ?_⟩
  · have hsnd := congrArg (List.map Prod.snd) habout
    rwa [List.map_map, List.map_map] at hsnd
  · constructor
    · intro heq s hs
      rwa [heq] at hs
    · intro hall
      exact sequences_eq_iff.mpr fun s => ⟨hall s, mem_pooled_of_mem_own⟩
  · have hrules : rulesAbout state recs' entity = rulesAbout state recs entity := by
      simp only [rulesAbout, matchingAbout_congr hagree]
    rw [habout, about_warnings h' entity, hrules, List.map_inj_left]
    constructor
    · intro hall rule hrule
      exact (Prod.mk.inj (hall rule hrule)).2
    · intro hall rule hrule
      rw [warningId, warningId, matchingAbout_congr hagree, hall rule hrule]

/-- Texts and whole numbers as they are written. -/
def textsAndNumbers : FormatText where
  format
    | .str s => s
    | .int n => toString n
    | _ => ""
  format_str _ := rfl

/-- Entities in the order in which they are met. -/
def firstMet : EntityOrder := ⟨fun entities => entities, List.Perm.refl⟩

/-- A policy of one rule, which everything matches. -/
def onePolicy : GovernanceState where
  rules := [⟨⟨.str "r1", .int 1, .str "", .warning, .notify⟩, {}, .bool true⟩]

/-- A recommendation about an entity that rests on one event. -/
def gapAbout (entity : String) (sequence : Nat) : Recommendation where
  id := entity
  ruleId := "knowledge_gap_rule"
  ruleVersion := 1
  targetEntity := .str entity
  category := .knowledgeGap
  priority := .one
  rationale := ""
  evidence := [⟨sequence, none⟩]

def noon : DateTime := ⟨2026, 1, 1, 12, 0, 0, 0⟩

/-- The warning about one entity has the evidence of the other and an id from there, which changes
when the other recommendation goes. -/
theorem not_own_evidence : ∃ ws ws',
    warnings textsAndNumbers firstMet 1 noon onePolicy ⟨[gapAbout "k1" 5, gapAbout "k2" 3], 5⟩ =
      .ok ws ∧
    warnings textsAndNumbers firstMet 1 noon onePolicy ⟨[gapAbout "k1" 5], 5⟩ = .ok ws' ∧
    (about (.str "k1") ws).map GovernanceWarning.evidence = [[3, 5]] ∧
    (about (.str "k1") ws').map GovernanceWarning.evidence = [[5]] ∧
    (about (.str "k1") ws).map GovernanceWarning.id ≠
      (about (.str "k1") ws').map GovernanceWarning.id := by
  refine ⟨_, _, rfl, rfl, ?_⟩
  decide +kernel

theorem warnings_rest_on_rules_gap : ∃ ws,
    warnings textsAndNumbers firstMet 1 noon onePolicy ⟨[gapAbout "k1" 5, gapAbout "k2" 3], 5⟩ =
      .ok ws ∧
    RestsOnRules textsAndNumbers firstMet 1 noon onePolicy
      ⟨[gapAbout "k1" 5, gapAbout "k2" 3], 5⟩ (.str "k1") ws :=
  ⟨_, rfl, warnings_rest_on_rules rfl (.str "k1")⟩

end GovernanceRuntime

end RationaleVault.Governance
