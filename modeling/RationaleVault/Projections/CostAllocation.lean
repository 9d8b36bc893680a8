import Mathlib.Algebra.BigOperators.Ring.List
import Mathlib.Algebra.Order.Field.Basic
import RationaleVault.Projections.AnalyticsAgreement

/-!
# Cost allocation

An execution costs its duration, zero if it reports none. A skill is allocated the mean of its
reported durations for every execution, reported or not.
-/

namespace RationaleVault.SkillPlatform

open ExecutionAnalyticsProjection

/-- `intelligence.cost_allocations` of the report. -/
def ExecutionIntelligenceProjection.costAllocations (analytics : ExecutionAnalytics) :
    OrdDict Atom ℚ :=
  .ofList (analytics.skills.entries.map fun e =>
    (e.1, (analytics.durations.get? e.1).elim 0 fun durStats =>
      durStats.meanDurationMs * e.2.totalExecutions * (1 / 10000)))

namespace ExecutionIntelligenceProjection

/-- The costs of the executions of a skill, each with its report. -/
def skillCosts (s : ExecutionState) (costs : List ExecutionCostReport) (skillId : Atom) : List ℚ :=
  ((s.allExecutions.zip costs).filter fun p => p.1.hasSkill skillId).map fun p =>
    p.2.costComponents.totalCost

/-- Costs are allocated to skills without loss. -/
structure Conserved (s : ExecutionState) (analytics : ExecutionAnalytics) : Prop where
  total : (costAllocations analytics).values.sum =
    (analytics.costs.map fun r => r.costComponents.totalCost).sum
  bySkill : ∀ e ∈ (costAllocations analytics).entries,
    e.2 = (skillCosts s analytics.costs e.1).sum

/-- The duration an execution is charged for. -/
def chargedDuration (e : ExecutionEntry) : ℚ :=
  ((number (e.durationMs.orElse (.int 0))).toOption).getD 0

/-- The durations of the executions of a skill, one of no duration counted as zero. -/
def skillDuration (es : List ExecutionEntry) (skillId : Atom) : ℚ :=
  ((es.filter (·.hasSkill skillId)).map chargedDuration).sum

/-- Every execution of the skill reports a duration. -/
def Reported (es : List ExecutionEntry) (skillId : Atom) : Prop :=
  ∀ e ∈ es, e.hasSkill skillId = true → e.durationMs ≠ .null

variable {u : UnicodeTables} {config : ExecutionAnalyticsConfig}
variable {skillToPlugin : OrdDict String String}

/-! ## Costs of executions -/

theorem costReport_totalCost {e : ExecutionEntry} {r : ExecutionCostReport}
    (h : costReport config e = .ok r) :
    r.costComponents.totalCost = chargedDuration e * (1 / 10000) := by
  obtain ⟨q, hq, hr⟩ := Except.bind_eq_ok_iff.mp h
  obtain rfl := Except.pure_eq_ok_iff.mp hr
  rw [chargedDuration, hq]
  rfl

/-- The reports are those of the executions in turn. -/
theorem sum_costs {es : List ExecutionEntry} {costs : List ExecutionCostReport}
    (h : es.mapM (costReport config) = .ok costs) (p : ExecutionEntry → Bool) :
    (((es.zip costs).filter fun x => p x.1).map fun x => x.2.costComponents.totalCost).sum =
      ((es.filter p).map chargedDuration).sum * (1 / 10000) := by
  have hall := Fold.forall₂_of_mapM h
  clear h
  induction hall with
  | nil => simp
  | cons hr _ ih =>
      rw [List.zip_cons_cons, List.filter_cons, List.filter_cons]
      split_ifs with hp
      · rw [List.map_cons, List.sum_cons, List.map_cons, List.sum_cons, ih, costReport_totalCost hr,
          add_mul]
      · exact ih

/-- The costs of a skill are its charged durations at the rate. -/
theorem sum_skillCosts {s : ExecutionState} {es : List ExecutionEntry} (hs : s.Tracks es)
    {costs : List ExecutionCostReport} (h : s.allExecutions.mapM (costReport config) = .ok costs)
    (skillId : Atom) :
    (skillCosts s costs skillId).sum = skillDuration es skillId * (1 / 10000) := by
  rw [skillCosts, sum_costs h (·.hasSkill skillId), skillDuration,
    ((hs.perm.filter _).map chargedDuration).sum_eq]

theorem sum_totalCosts {s : ExecutionState} {es : List ExecutionEntry} (hs : s.Tracks es)
    {costs : List ExecutionCostReport} (h : s.allExecutions.mapM (costReport config) = .ok costs) :
    (costs.map fun r => r.costComponents.totalCost).sum =
      (es.map chargedDuration).sum * (1 / 10000) := by
  have hsum := sum_costs h fun _ => true
  have hlength : s.allExecutions.length = costs.length := (Fold.forall₂_of_mapM h).length_eq
  rw [List.filter_true, List.filter_true, (hs.perm.map chargedDuration).sum_eq] at hsum
  have hreports := congrArg (List.map fun r => r.costComponents.totalCost)
    (List.map_snd_zip hlength.ge)
  rw [List.map_map] at hreports
  rw [← hsum, ← hreports]
  rfl

/-! ## Allocations of skills -/

theorem number_atom {a : Atom} {q : ℚ} (h : number (.atom a) = .ok q) :
    DictKey.norm a = .num q := by
  cases a with
  | null => cases h
  | str t => cases h
  | bool b => exact congrArg AtomNorm.num (Except.ok.inj h)
  | int n => exact congrArg AtomNorm.num (Except.ok.inj h)
  | float x => exact congrArg AtomNorm.num (Except.ok.inj h)

/-- A number counts as it does where zero stands in for what is false. -/
theorem number_orElse {v : Json} {q : ℚ} (h : number v = .ok q) :
    number (v.orElse (.int 0)) = .ok q := by
  rw [Json.orElse]
  split_ifs with htruthy
  · exact h
  · cases v with
    | arr items => cases h
    | obj members => cases h
    | atom a =>
        rw [Json.truthy_atom, number_atom h, Json.truthyKey, bne_iff_ne, not_not] at htruthy
        rw [htruthy]
        rfl

theorem chargedDuration_of_null {e : ExecutionEntry} (h : e.durationMs = .null) :
    chargedDuration e = 0 := by
  rw [chargedDuration, h]
  rfl

/-- The reported durations of a skill are what it is charged for. -/
theorem sum_numbers {es : List ExecutionEntry} {skillId : Atom} {numbers : List ℚ}
    (h : ((es.filter fun e => e.hasSkill skillId && decide (e.durationMs ≠ .null)).map
      ExecutionEntry.durationMs).mapM number = .ok numbers) :
    numbers.sum = skillDuration es skillId := by
  induction es generalizing numbers with
  | nil =>
      obtain rfl := Except.pure_eq_ok_iff.mp h
      rfl
  | cons e es ih =>
      rw [skillDuration, List.filter_cons]
      rw [List.filter_cons] at h
      by_cases hskill : e.hasSkill skillId = true
      · rw [if_pos hskill, List.map_cons, List.sum_cons]
        by_cases hnull : e.durationMs = .null
        · rw [if_neg (by simp [hnull])] at h
          rw [chargedDuration_of_null hnull, zero_add]
          exact ih h
        · rw [if_pos (by simp [hskill, hnull]), List.map_cons, List.mapM_cons] at h
          obtain ⟨q, hq, h⟩ := Except.bind_eq_ok_iff.mp h
          obtain ⟨rest, hrest, h⟩ := Except.bind_eq_ok_iff.mp h
          obtain rfl := Except.pure_eq_ok_iff.mp h
          rw [List.sum_cons, ih hrest, chargedDuration, number_orElse hq]
          rfl
      · rw [if_neg (by simp [hskill])] at h
        rw [if_neg hskill]
        exact ih h

/-- A mean for every execution of a skill amounts to what is reported exactly when all report or
nothing is reported in sum. -/
theorem mean_mul_eq_iff {d : ℚ} {m n : Nat} (hm : 0 < m) :
    d / m * n * (1 / 10000) = d * (1 / 10000) ↔ n = m ∨ d = 0 := by
  have hpos : (m : ℚ) ≠ 0 := Nat.cast_ne_zero.mpr hm.ne'
  rw [mul_left_inj' (by norm_num), div_mul_eq_mul_div, div_eq_iff hpos, mul_eq_mul_left_iff,
    Nat.cast_inj]

theorem reported_iff (es : List ExecutionEntry) (skillId : Atom) :
    Reported es skillId ↔ (es.filter (·.hasSkill skillId)).length =
      (es.filter fun e => e.hasSkill skillId && decide (e.durationMs ≠ .null)).length := by
  rw [← List.countP_eq_length_filter, ← List.countP_eq_length_filter, eq_comm,
    Tally.countP_eq_countP_iff fun e _ h => (Bool.and_eq_true _ _ ▸ h).1]
  apply forall₂_congr
  intro e _
  rw [Bool.and_eq_true, decide_eq_true_eq]
  exact ⟨fun h hskill => ⟨hskill, h hskill⟩, fun h hskill => (h hskill).2⟩

/-- A skill has duration statistics when it reports durations, with their mean. -/
theorem get?_durationsStatistics {s : ExecutionState}
    {durations : OrdDict Atom ExecutionDurationStatistics}
    (h : durationsStatistics s = .ok durations) (skillId : Atom) :
    durations.get? skillId = none ∧ (s.durations.get? skillId).getD [] = [] ∨
      ∃ st numbers, durations.get? skillId = some st ∧
        ((s.durations.get? skillId).getD []).mapM number = .ok numbers ∧ 0 < numbers.length ∧
          st.meanDurationMs = numbers.sum / numbers.length := by
  have hentries := durationsStatistics_entries h
  cases hget : durations.get? skillId with
  | none =>
      refine .inl ⟨rfl, ?_⟩
      by_contra hds
      obtain ⟨ds, hds'⟩ : ∃ ds, s.durations.get? skillId = some ds := by
        rw [← Option.ne_none_iff_exists']
        intro hnone
        exact hds (by rw [hnone]; rfl)
      rw [hds', Option.getD_some] at hds
      obtain ⟨c, hc, hkey, rfl⟩ := OrdDict.lookupIn_mem hds'
      obtain ⟨e, he, heq, -⟩ := hentries.exists_of_mem
        (List.mem_filter.mpr ⟨hc, decide_eq_true hds⟩)
      have hsome := OrdDict.get?_of_mem he
      rw [heq, OrdDict.get?_congr hkey, hget] at hsome
      cases hsome
  | some st =>
      obtain ⟨e, he, hkey, rfl⟩ := OrdDict.lookupIn_mem hget
      obtain ⟨c, hc, heq, hstats⟩ := hentries.flip.exists_of_mem he
      obtain ⟨hc, hne⟩ := List.mem_filter.mp hc
      obtain ⟨numbers, hnumbers, hst⟩ := Except.bind_eq_ok_iff.mp hstats
      have hds : s.durations.get? skillId = some c.2 := by
        rw [← OrdDict.get?_of_mem hc, ← heq]
        exact (OrdDict.get?_congr hkey).symm
      refine .inr ⟨e.2, numbers, rfl, by rw [hds]; exact hnumbers, ?_, ?_⟩
      · rw [← (Fold.forall₂_of_mapM hnumbers).length_eq]
        exact List.length_pos_iff.mpr (of_decide_eq_true hne)
      · rw [← Except.pure_eq_ok_iff.mp hst]

/-- What a skill is allocated is the cost of its executions exactly when all of them report a
duration or the durations are zero in sum. -/
theorem allocation_eq_iff {s : ExecutionState} {es : List ExecutionEntry} (hs : s.Tracks es)
    {durations : OrdDict Atom ExecutionDurationStatistics}
    (h : durationsStatistics s = .ok durations) (skillId : Atom) {total : Nat}
    (htotal : total = (es.filter (·.hasSkill skillId)).length) :
    ((durations.get? skillId).elim 0 fun durStats =>
        durStats.meanDurationMs * total * (1 / 10000)) =
      skillDuration es skillId * (1 / 10000) ↔
    Reported es skillId ∨ skillDuration es skillId = 0 := by
  obtain ⟨hnone, hds⟩ | ⟨st, numbers, hst, hnumbers, hpos, hmean⟩ :=
    get?_durationsStatistics h skillId
  · rw [hs.durations] at hds
    have hzero : ([] : List ℚ).sum = skillDuration es skillId := sum_numbers (by rw [hds]; rfl)
    rw [hnone, ← hzero]
    simp
  · rw [hs.durations] at hnumbers
    have hlength := (Fold.forall₂_of_mapM hnumbers).length_eq
    rw [List.length_map] at hlength
    rw [hst, Option.elim_some, hmean, sum_numbers hnumbers, mean_mul_eq_iff hpos, htotal,
      reported_iff, hlength]

/-! ## Conservation -/

theorem hasSkill_congr {skillId skillId' : Atom} (h : DictKey.norm skillId = DictKey.norm skillId')
    (e : ExecutionEntry) : e.hasSkill skillId = e.hasSkill skillId' := by
  rw [ExecutionEntry.hasSkill, ExecutionEntry.hasSkill, h]

theorem entries_costAllocations (a : ExecutionAnalytics) :
    (costAllocations a).entries = a.skills.entries.map fun e =>
      (e.1, (a.durations.get? e.1).elim 0 fun durStats =>
        durStats.meanDurationMs * e.2.totalExecutions * (1 / 10000)) := by
  rw [costAllocations, OrdDict.entries_ofList]
  rw [List.map_map]
  exact a.skills.nodup

/-- Each skill of the report has its executions in total. -/
theorem totalExecutions_eq {s : ExecutionState} {es : List ExecutionEntry} (hs : s.Tracks es)
    {skills : OrdDict Atom SkillExecutionStatistics} (h : skillsStatistics u config s = .ok skills)
    {e : Atom × SkillExecutionStatistics} (he : e ∈ skills.entries) :
    e.2.totalExecutions = (es.filter (·.hasSkill e.1)).length := by
  obtain ⟨c, hc, hkey, hstats⟩ := (skillsStatistics_entries h).flip.exists_of_mem he
  obtain ⟨_, -, hstats⟩ := Except.bind_eq_ok_iff.mp hstats
  obtain ⟨_, -, hstats⟩ := Except.bind_eq_ok_iff.mp hstats
  rw [← Except.pure_eq_ok_iff.mp hstats, hkey, (hs.counts.mem_entries hc).1, Tally.count,
    List.countP_eq_length_filter]
  rfl

/-- Every execution has its skill in the report. -/
theorem exists_skill {s : ExecutionState} {es : List ExecutionEntry} (hs : s.Tracks es)
    {skills : OrdDict Atom SkillExecutionStatistics} (h : skillsStatistics u config s = .ok skills)
    {entry : ExecutionEntry} (hentry : entry ∈ es) :
    ∃ e ∈ skills.entries, entry.skill? = some (DictKey.norm e.1) := by
  obtain ⟨skillId, hskill⟩ := hs.skills entry hentry
  have hkey : entry.skill? = some (DictKey.norm skillId) := by rw [ExecutionEntry.skill?, hskill]
  obtain ⟨c, hc, hc'⟩ := List.mem_map.mp
    ((hs.counts.mem_normKeys skillId).mpr ⟨entry, hentry, hkey⟩)
  obtain ⟨e, he, heq, -⟩ := (skillsStatistics_entries h).exists_of_mem hc
  exact ⟨e, he, by rw [hkey, heq, hc']⟩

/-- The durations of all skills together are those of all executions. -/
theorem sum_skillDuration {s : ExecutionState} {es : List ExecutionEntry} (hs : s.Tracks es)
    {skills : OrdDict Atom SkillExecutionStatistics}
    (h : skillsStatistics u config s = .ok skills) :
    (skills.entries.map fun e => skillDuration es e.1).sum = (es.map chargedDuration).sum := by
  have hkeys : (skills.normKeys.map some).Nodup :=
    skills.nodup.map fun _ _ heq => Option.some.inj heq
  have hmem : ∀ entry ∈ es, entry.skill? ∈ skills.normKeys.map some := by
    intro entry hentry
    obtain ⟨e, he, hskill⟩ := exists_skill hs h hentry
    rw [hskill]
    exact List.mem_map_of_mem (List.mem_map.mpr ⟨e, he, rfl⟩)
  rw [← Tally.sum_fibers hkeys hmem chargedDuration, OrdDict.normKeys, List.map_map, List.map_map]
  rfl

/-- Costs are conserved exactly when for every skill either all of its executions report a
duration, or the reported durations are zero in sum. -/
theorem costAllocations_conserved_iff {events : List EventRecord}
    {knownDecisionIds : Option (List String)} {a : ExecutionAnalytics}
    (h : analytics u skillToPlugin events config knownDecisionIds = .ok a) :
    (∃ s, ExecutionStateProjection.reduce events knownDecisionIds = .ok s ∧ Conserved s a) ↔
      ∀ skillId, Reported (executionEntries events) skillId ∨
        skillDuration (executionEntries events) skillId = 0 := by
  obtain ⟨s, hs, hskills, -, hdurations, hcosts⟩ := analytics_eq_ok h
  have htracks := ExecutionStateProjection.reduce_tracks hs
  have hskill : ∀ e ∈ a.skills.entries,
      ((a.durations.get? e.1).elim 0 fun durStats =>
          durStats.meanDurationMs * e.2.totalExecutions * (1 / 10000)) =
        (skillCosts s a.costs e.1).sum ↔
      Reported (executionEntries events) e.1 ∨ skillDuration (executionEntries events) e.1 = 0 := by
    intro e he
    rw [sum_skillCosts htracks hcosts]
    exact allocation_eq_iff htracks hdurations e.1 (totalExecutions_eq htracks hskills he)
  constructor
  · rintro ⟨s', hs', hconserved⟩ skillId
    obtain rfl := Except.ok.inj (hs.symm.trans hs')
    by_cases hnone : ∃ entry ∈ executionEntries events, entry.hasSkill skillId = true
    · obtain ⟨entry, hentry, hhas⟩ := hnone
      obtain ⟨e, he, hkey⟩ := exists_skill htracks hskills hentry
      have hnorm : DictKey.norm e.1 = DictKey.norm skillId :=
        Option.some.inj (hkey.symm.trans (of_decide_eq_true hhas))
      have hbySkill := (hskill e he).mp (hconserved.bySkill _
        (entries_costAllocations a ▸ List.mem_map_of_mem he))
      simp only [Reported, skillDuration, hasSkill_congr hnorm] at hbySkill
      exact hbySkill
    · exact .inl fun e he hhas => absurd ⟨e, he, hhas⟩ hnone
  · intro hall
    have hbySkill : ∀ e ∈ (costAllocations a).entries, e.2 = (skillCosts s a.costs e.1).sum := by
      rw [entries_costAllocations, List.forall_mem_map]
      exact fun e he => (hskill e he).mpr (hall e.1)
    refine ⟨s, hs, ?_, hbySkill⟩
    have hvalues : (costAllocations a).values =
        a.skills.entries.map fun e => skillDuration (executionEntries events) e.1 * (1 / 10000) := by
      rw [OrdDict.values, List.map_congr_left hbySkill, entries_costAllocations, List.map_map]
      exact List.map_congr_left fun e _ => sum_skillCosts htracks hcosts e.1
    rw [hvalues, List.sum_map_mul_right, sum_skillDuration htracks hskills,
      sum_totalCosts htracks hcosts]

/-- Two executions of one skill, of which one reports a duration. -/
def halfReported : List EventRecord :=
  [executed [("skill_id", .str "s1"), ("state", .str "COMPLETED"), ("duration_ms", .int 100)],
    executed [("skill_id", .str "s1"), ("state", .str "FAILED")]]

theorem costAllocations_conserved_iff_halfReported :
    ∃ a, analytics .asciiOnly .empty halfReported {} none = .ok a ∧
      ((∃ s, ExecutionStateProjection.reduce halfReported none = .ok s ∧ Conserved s a) ↔
        ∀ skillId, Reported (executionEntries halfReported) skillId ∨
          skillDuration (executionEntries halfReported) skillId = 0) := by
  obtain ⟨a, ha⟩ : ∃ a, analytics .asciiOnly .empty halfReported {} none = .ok a := ⟨_, rfl⟩
  exact ⟨a, ha, costAllocations_conserved_iff ha⟩

/-- Twice the cost of the executions is allocated to their skill. -/
theorem costAllocations_halfReported :
    ∃ a, analytics .asciiOnly .empty halfReported {} none = .ok a ∧
      (costAllocations a).values.sum = 1 / 50 ∧
      (a.costs.map fun r => r.costComponents.totalCost).sum = 1 / 100 :=
  ⟨_, rfl, by decide +kernel, by decide +kernel⟩

end ExecutionIntelligenceProjection

end RationaleVault.SkillPlatform
