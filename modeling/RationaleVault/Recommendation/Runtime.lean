import Mathlib.Algebra.Order.Field.Basic
import Mathlib.Algebra.Order.Field.Rat
import Mathlib.Tactic.Linarith
import RationaleVault.Library.Ranking
import RationaleVault.Memory.Store
import RationaleVault.Recommendation.Projection

/-!
# The recommendation runtime

Recommendations are filtered, scored and ranked by their score times a freshness. The freshness is
a hyperbola in the age, whose pole is at an age of minus ten days: a date in the future makes the
age negative, and beyond the pole the freshness is negative as well. Scores are rational.
-/

namespace RationaleVault

namespace DateTime

/-- `date.toordinal()`. -/
def ordinal (t : DateTime) : Int :=
  let before : Int := t.year - 1
  before * 365 + before / 4 - before / 100 + before / 400 +
    (((List.range t.month).drop 1).map fun month => (daysInMonth t.year month : Int)).sum + t.day

/-- The microseconds from the first day on. -/
def microseconds (t : DateTime) : Int :=
  (((t.ordinal * 24 + t.hour) * 60 + t.minute) * 60 + t.second) * 1000000 + t.microsecond

/-- `(t - s).days`. -/
def daysSince (t s : DateTime) : Int := (t.microseconds - s.microseconds) / 86400000000

end DateTime

/-- An enriched recommendation; `hasZone` says whether its date, if it has one, is aware of a time
zone. -/
structure RankedRecommendation where
  recommendation : Recommendation
  finalScore : ℚ
  hasZone : Bool := true

/-- The time of a query, with or without a time zone. -/
structure RecommendationQueryContext where
  queryTime : DateTime
  hasZone : Bool := true

namespace RecommendationRuntime

variable (context : RecommendationQueryContext)

/-- `filter(state, entity, category)`. -/
def filter (state : RecommendationState) (entity : Option String)
    (category : Option RecommendationCategory) : List Recommendation :=
  state.recommendations.filter fun r =>
    (∀ e ∈ entity, r.targetEntity = .str e) ∧ ∀ c ∈ category, r.category = c

/-- `enrich(recommendations)` without dependencies: every similarity is one. -/
def enrich (recommendations : List Recommendation) : List RankedRecommendation :=
  recommendations.map fun r => { recommendation := r, finalScore := r.priority.value * 1 }

/-- The age in days, where the two times can be subtracted. -/
def age (e : RankedRecommendation) : Int :=
  (e.recommendation.createdAt.map context.queryTime.daysSince).getD 0

/-- A time with a zone and one without cannot be subtracted. -/
def ageDays (e : RankedRecommendation) : Except Exc Int :=
  if e.recommendation.createdAt ≠ none ∧ e.hasZone ≠ context.hasZone then .error .typeError
  else .ok (age context e)

def freshness (ageDays : Int) : ℚ := 1 / (1 + ageDays * (1 / 10))

/-- `_combined_score(e)`. -/
def combinedScore (e : RankedRecommendation) : Except Exc ℚ := do
  let days ← ageDays context e
  if 1 + (days : ℚ) * (1 / 10) = 0 then .error .zeroDivisionError
  else return e.finalScore * freshness days

/-- `rank(enriched, context)`. -/
def rank (enriched : List RankedRecommendation) : Except Exc (List RankedRecommendation) := do
  let scored ← enriched.mapM fun e => do return (← combinedScore context e, e)
  return (Table.orderByDesc Prod.fst scored).map Prod.snd

/-- `search(state, query, entity, category, k, dependency_reader, context)` without dependencies;
the query is not read. -/
def search (state : RecommendationState) (entity : Option String)
    (category : Option RecommendationCategory) (k : Int) :
    Except Exc (List RankedRecommendation) :=
  (rank context (enrich (filter state entity category))).map fun ranked =>
    PythonText.upTo ranked k

/-! ## The freshness -/

theorem denominator_pos {days : Int} (h : -10 < days) : 0 < 1 + (days : ℚ) * (1 / 10) := by
  have hcast : (-10 : ℚ) < days := by
    exact_mod_cast h
  linarith

theorem denominator_neg {days : Int} (h : days < -10) : 1 + (days : ℚ) * (1 / 10) < 0 := by
  have hcast : (days : ℚ) < -10 := by
    exact_mod_cast h
  linarith

theorem denominator_eq_zero_iff (days : Int) : 1 + (days : ℚ) * (1 / 10) = 0 ↔ days = -10 := by
  constructor
  · intro hzero
    have hcast : (days : ℚ) = -10 := by
      linarith
    exact_mod_cast hcast
  · rintro rfl
    norm_num

/-- On either side of the pole what is newer is fresher. -/
theorem freshness_lt {days days' : Int} (hlt : days < days') (h : -10 < days ∨ days' < -10) :
    freshness days' < freshness days := by
  have hcast : 1 + (days : ℚ) * (1 / 10) < 1 + (days' : ℚ) * (1 / 10) := by
    have hdays : (days : ℚ) < days' := by
      exact_mod_cast hlt
    linarith
  obtain hafter | hbefore := h
  · exact one_div_lt_one_div_of_lt (denominator_pos hafter) hcast
  · exact one_div_lt_one_div_of_neg_of_lt (denominator_neg hbefore) hcast

/-! ## The ranking -/

variable {context : RecommendationQueryContext}

/-- The score of an item whose age is not at the pole. -/
def score (context : RecommendationQueryContext) (e : RankedRecommendation) : ℚ :=
  e.finalScore * freshness (age context e)

/-- Of two items of the ranking the first is not worse at the same age, and newer at the same
positive score. -/
def InOrder (context : RecommendationQueryContext) (e e' : RankedRecommendation) : Prop :=
  (age context e = age context e' → e'.finalScore ≤ e.finalScore) ∧
    (e.finalScore = e'.finalScore → 0 < e.finalScore → age context e ≠ age context e' →
      age context e < age context e')

/-- Ranking returns the items in an order by score and age. -/
def Ranks (context : RecommendationQueryContext) (enriched : List RankedRecommendation) : Prop :=
  ∃ ranked, rank context enriched = .ok ranked ∧ ranked.Perm enriched ∧
    ranked.Pairwise (InOrder context)

/-- The times can be subtracted, no item is dated ten days ahead, of items that are dated further
ahead those of one age have one score, and none has the positive score of an item that is not. -/
structure Rankable (context : RecommendationQueryContext) (enriched : List RankedRecommendation) :
    Prop where
  zones : ∀ e ∈ enriched, e.recommendation.createdAt ≠ none → e.hasZone = context.hasZone
  pole : ∀ e ∈ enriched, age context e ≠ -10
  ahead : ∀ e ∈ enriched, ∀ e' ∈ enriched, age context e = age context e' →
    age context e < -10 → e.finalScore = e'.finalScore
  across : ∀ e ∈ enriched, ∀ e' ∈ enriched, e.finalScore = e'.finalScore → 0 < e.finalScore →
    age context e < -10 → age context e' < -10

/-- An item has a score where its times can be subtracted and its age is not at the pole. -/
def Scored (context : RecommendationQueryContext) (e : RankedRecommendation) : Prop :=
  (e.recommendation.createdAt ≠ none → e.hasZone = context.hasZone) ∧ age context e ≠ -10

theorem combinedScore_of_scored {e : RankedRecommendation} (h : Scored context e) :
    combinedScore context e = .ok (score context e) := by
  have hzone : ¬(e.recommendation.createdAt ≠ none ∧ e.hasZone ≠ context.hasZone) :=
    fun hmixed => hmixed.2 (h.1 hmixed.1)
  rw [combinedScore, ageDays, if_neg hzone, Except.ok_bind_eq,
    if_neg (mt (denominator_eq_zero_iff _).mp h.2)]
  rfl

theorem scored_of_combinedScore {e : RankedRecommendation} {q : ℚ}
    (h : combinedScore context e = .ok q) : Scored context e := by
  rw [combinedScore, Except.bind_eq_ok_iff] at h
  obtain ⟨days, hdays, h⟩ := h
  rw [ageDays] at hdays
  split_ifs at hdays with hzone
  obtain rfl := Except.ok.inj hdays
  split_ifs at h with hpole
  exact ⟨fun hdated => not_not.mp fun hne => hzone ⟨hdated, hne⟩,
    mt (denominator_eq_zero_iff _).mpr hpole⟩

theorem rank_of_scored {enriched : List RankedRecommendation}
    (h : ∀ e ∈ enriched, Scored context e) :
    rank context enriched = .ok (Table.orderByDesc (score context) enriched) := by
  have hscored : (enriched.mapM fun e => do return (← combinedScore context e, e)) =
      .ok (enriched.map fun e => (score context e, e)) := by
    apply Fold.mapM_eq_ok
    intro e he
    rw [combinedScore_of_scored (h e he)]
    rfl
  have hsort : (Table.orderByDesc Prod.fst (enriched.map fun e => (score context e, e))).map
      Prod.snd = Table.orderByDesc (score context) enriched := by
    have hpairs : (Table.orderByDesc (score context) enriched).map
        (fun e => (score context e, e)) =
          Table.orderByDesc Prod.fst (enriched.map fun e => (score context e, e)) :=
      List.map_insertionSort _ _ _ _ fun _ _ _ _ => Iff.rfl
    rw [← hpairs, List.map_map]
    exact List.map_id _
  rw [rank, hscored, Except.ok_bind_eq, hsort]
  rfl

theorem scored_of_rank {enriched ranked : List RankedRecommendation}
    (h : rank context enriched = .ok ranked) : ∀ e ∈ enriched, Scored context e := by
  obtain ⟨scored, hscored, -⟩ := Except.bind_eq_ok_iff.mp h
  intro e he
  obtain ⟨pair, -, hpair⟩ := (Fold.forall₂_of_mapM hscored).exists_of_mem he
  obtain ⟨q, hq, -⟩ := Except.bind_eq_ok_iff.mp hpair
  exact scored_of_combinedScore hq

/-- Two items of a ranking are in order, and so are their scores, one way or the other. -/
theorem inOrder_or {enriched : List RankedRecommendation} (h : Ranks context enriched)
    {e e' : RankedRecommendation} (he : e ∈ enriched) (he' : e' ∈ enriched) (hne : e ≠ e') :
    InOrder context e e' ∧ score context e' ≤ score context e ∨
      InOrder context e' e ∧ score context e ≤ score context e' := by
  obtain ⟨ranked, hranked, hperm, horder⟩ := h
  obtain rfl := Except.ok.inj ((rank_of_scored (scored_of_rank hranked)).symm.trans hranked)
  have hboth := horder.and (Ranking.ranked_orderByDesc (score context) enriched).sorted
  have hpair := Table.pair_sublist_or (hperm.mem_iff.mpr he) (hperm.mem_iff.mpr he') hne
  refine hpair.imp (fun hsub => ?_) fun hsub => ?_
  · exact List.rel_of_pairwise_cons (hboth.sublist hsub) List.mem_cons_self
  · exact List.rel_of_pairwise_cons (hboth.sublist hsub) List.mem_cons_self

theorem freshness_pos {days : Int} (h : -10 < days) : 0 < freshness days :=
  one_div_pos.mpr (denominator_pos h)

theorem freshness_neg {days : Int} (h : days < -10) : freshness days < 0 :=
  one_div_neg.mpr (denominator_neg h)

/-- Beyond the pole the better of two items of one age is the worse ranked. -/
theorem le_of_score_le_of_ahead {e e' : RankedRecommendation} (hage : age context e = age context e')
    (hahead : age context e < -10) (h : score context e' ≤ score context e) :
    e.finalScore ≤ e'.finalScore := by
  rw [score, score, ← hage] at h
  exact le_of_not_gt fun hlt => (mul_lt_mul_of_neg_right hlt (freshness_neg hahead)).not_ge h

theorem score_lt_of_newer {e e' : RankedRecommendation} (hscore : e.finalScore = e'.finalScore)
    (hpos : 0 < e.finalScore) (hnewer : age context e' < age context e)
    (hside : -10 < age context e' ∨ age context e < -10) : score context e < score context e' := by
  rw [score, score, ← hscore]
  exact mul_lt_mul_of_pos_left (freshness_lt hnewer hside) hpos

theorem inOrder_of_rankable {enriched : List RankedRecommendation} (h : Rankable context enriched)
    {e e' : RankedRecommendation} (he : e ∈ enriched) (he' : e' ∈ enriched)
    (hle : score context e' ≤ score context e) : InOrder context e e' := by
  constructor
  · intro hage
    obtain hahead | hafter := (h.pole e he).lt_or_gt
    · exact (h.ahead e he e' he' hage hahead).ge
    · rw [score, score, ← hage] at hle
      exact le_of_mul_le_mul_right hle (freshness_pos hafter)
  · intro hscore hpos hne
    by_contra hnot
    have hnewer : age context e' < age context e := lt_of_le_of_ne (not_lt.mp hnot) hne.symm
    -- a newer item on the same side of the pole would have the better score
    have hside : -10 < age context e' ∨ age context e < -10 := by
      obtain hahead | hafter := (h.pole e' he').lt_or_gt
      · exact .inr (h.across e' he' e he hscore.symm (hscore ▸ hpos) hahead)
      · exact .inl hafter
    exact (score_lt_of_newer hscore hpos hnewer hside).not_ge hle

/-- Ranking by score and freshness is an order by score and age exactly if no item is dated ten
days ahead of the query, and those that are dated further ahead do not compete. -/
theorem ranks_iff (context : RecommendationQueryContext) (enriched : List RankedRecommendation) :
    Ranks context enriched ↔ Rankable context enriched := by
  constructor
  · intro h
    have hscored : ∀ e ∈ enriched, Scored context e := by
      obtain ⟨ranked, hranked, -⟩ := h
      exact scored_of_rank hranked
    refine ⟨fun e he => (hscored e he).1, fun e he => (hscored e he).2, ?_, ?_⟩
    · intro e he e' he' hage hahead
      by_contra hne
      have hitems : e ≠ e' := fun heq => hne (congrArg RankedRecommendation.finalScore heq)
      obtain ⟨horder, hle⟩ | ⟨horder, hle⟩ := inOrder_or h he he' hitems
      · exact hne (le_antisymm (le_of_score_le_of_ahead hage hahead hle) (horder.1 hage))
      · exact hne (le_antisymm (horder.1 hage.symm)
          (le_of_score_le_of_ahead hage.symm (hage ▸ hahead) hle))
    · intro e he e' he' hscore hpos hahead
      by_contra hnot
      have hafter : -10 < age context e' := lt_of_le_of_ne (not_lt.mp hnot) (hscored e' he').2.symm
      have hlt : score context e < score context e' :=
        (mul_neg_of_pos_of_neg hpos (freshness_neg hahead)).trans
          (mul_pos (hscore ▸ hpos) (freshness_pos hafter))
      have hitems : e ≠ e' := by
        rintro rfl
        exact hnot hahead
      obtain ⟨-, hle⟩ | ⟨horder, -⟩ := inOrder_or h he he' hitems
      · exact hlt.not_ge hle
      · have hnewer := horder.2 hscore.symm (hscore ▸ hpos) (hahead.trans hafter).ne'
        exact hnot (hnewer.trans hahead)
  · intro h
    have hranked := Ranking.ranked_orderByDesc (score context) enriched
    refine ⟨_, rank_of_scored fun e he => ⟨h.zones e he, h.pole e he⟩, hranked.perm, ?_⟩
    refine hranked.sorted.imp_of_mem fun he he' hle => ?_
    exact inOrder_of_rankable h (hranked.perm.mem_iff.mp he) (hranked.perm.mem_iff.mp he') hle

/-- An item that is dated ten days after the query. -/
def datedAhead : RankedRecommendation where
  recommendation := {
    id := "r1"
    ruleId := "knowledge_gap_rule"
    ruleVersion := 1
    targetEntity := .str "k1"
    category := .knowledgeGap
    priority := .one
    rationale := ""
    createdAt := some ⟨2026, 1, 11, 12, 0, 0, 0⟩ }
  finalScore := 1

def newYear : RecommendationQueryContext := { queryTime := ⟨2026, 1, 1, 12, 0, 0, 0⟩ }

/-- Ranking an item that is dated ten days after the query divides by zero. -/
theorem not_ranks_datedAhead : rank newYear [datedAhead] = .error .zeroDivisionError ∧
    ¬Ranks newYear [datedAhead] := by
  have hage : age newYear datedAhead = -10 := by
    decide +kernel
  constructor
  · rw [rank, List.mapM_cons, combinedScore, ageDays, if_neg (fun hzones => hzones.2 rfl),
      Except.ok_bind_eq, if_pos ((denominator_eq_zero_iff _).mpr hage)]
    rfl
  · rintro ⟨ranked, hranked, -⟩
    exact (scored_of_rank hranked datedAhead List.mem_cons_self).2 hage

/-- A search returns exactly if everything that it finds can be scored. -/
theorem search_isOk_iff {context : RecommendationQueryContext} {state : RecommendationState}
    {entity : Option String} {category : Option RecommendationCategory} {k : Int} :
    (∃ found, search context state entity category k = .ok found) ↔
      ∀ e ∈ enrich (filter state entity category), Scored context e := by
  constructor
  · rintro ⟨found, hfound⟩
    obtain ⟨ranked, hranked, -⟩ := Except.map_eq_ok_iff.mp hfound
    exact scored_of_rank hranked
  · intro h
    exact ⟨_, Except.map_eq_ok_iff.mpr ⟨_, rank_of_scored h, rfl⟩⟩

end RecommendationRuntime

end RationaleVault
