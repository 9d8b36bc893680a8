import Mathlib.Algebra.Order.Field.Basic
import Mathlib.Data.Rat.Floor
import Mathlib.Data.String.Basic
import RationaleVault.Library.Fold
import RationaleVault.Library.Table
import RationaleVault.Library.Tally
import RationaleVault.Memory.Models

/-!
# Telemetry

A ring buffer keeps the last retrievals, and a snapshot of it gives the averages and three
percentiles of their latencies. Values of several nodes are put together by exchangeable
strategies, one of them a percentile of its own. Numbers are exact.
-/

namespace RationaleVault

namespace Telemetry

/-- `int(x)`. -/
def truncate (x : ℚ) : Int := x.num.tdiv x.den

/-- `statistics.mean(xs)`. -/
def mean (xs : List ℚ) : ℚ := xs.sum / xs.length

end Telemetry

open Telemetry

/-- What is recorded of a retrieval; only the latency is required. -/
structure RetrievalRecord where
  totalMs : ℚ
  profile : Option String := none
  providerLatencyMs : Option ℚ := none
  candidateCount : Option Int := none
  retrievedCount : Option Int := none
  timingBreakdown : Option (OrdDict String ℚ) := none

structure RetrievalMetricsSnapshot where
  totalRequests : Nat
  avgTotalMs : ℚ
  p50TotalMs : ℚ
  p95TotalMs : ℚ
  p99TotalMs : ℚ
  avgProviderLatencyMs : ℚ
  avgCandidateCount : ℚ
  avgRetrievedCount : ℚ
  profileDistribution : OrdDict String Nat
  stageAverages : OrdDict String ℚ

namespace RetrievalMetricsSnapshot

def empty : RetrievalMetricsSnapshot where
  totalRequests := 0
  avgTotalMs := 0
  p50TotalMs := 0
  p95TotalMs := 0
  p99TotalMs := 0
  avgProviderLatencyMs := 0
  avgCandidateCount := 0
  avgRetrievedCount := 0
  profileDistribution := .empty
  stageAverages := .empty

/-- `profile_dist`. -/
def profileDist (records : List RetrievalRecord) : OrdDict String Nat :=
  records.foldl (fun dist r => Tally.bump dist (r.profile.getD "unknown")) .empty

/-- `r.get("timing_breakdown", {})`. -/
def timings (r : RetrievalRecord) : OrdDict String ℚ := r.timingBreakdown.getD .empty

/-- `stage_avgs`. -/
def stageAvgs (records : List RetrievalRecord) : OrdDict String ℚ :=
  .ofList ((Table.orderBy id (records.flatMap fun r => (timings r).keys).dedup).map fun key =>
    (key, mean (records.map fun r => ((timings r).get? key).getD 0)))

/-- `percentile(data, p)`: two neighbors are averaged from the middle between them on. -/
def percentile (data : List ℚ) (p : ℚ) : ℚ :=
  let n := data.length
  let k := ((n : ℚ) - 1) * p
  let f := truncate k
  let c := f + 1
  if n ≤ c then data.getLastD 0
  else if 1 / 2 ≤ k - f then (data.getD f.toNat 0 + data.getD c.toNat 0) / 2
  else data.getD f.toNat 0

/-- `RetrievalMetricsSnapshot.from_records(records)`. -/
def fromRecords (records : List RetrievalRecord) : RetrievalMetricsSnapshot :=
  if records.isEmpty then empty
  else
    let totalMsValues := records.map RetrievalRecord.totalMs
    let sortedTotal := Table.orderBy id totalMsValues
    { totalRequests := sortedTotal.length
      avgTotalMs := mean totalMsValues
      p50TotalMs := percentile sortedTotal (1 / 2)
      p95TotalMs := percentile sortedTotal (95 / 100)
      p99TotalMs := percentile sortedTotal (99 / 100)
      avgProviderLatencyMs := mean (records.map fun r => r.providerLatencyMs.getD 0)
      avgCandidateCount := mean (records.map fun r => (r.candidateCount.getD 0 : ℚ))
      avgRetrievedCount := mean (records.map fun r => (r.retrievedCount.getD 0 : ℚ))
      profileDistribution := profileDist records
      stageAverages := stageAvgs records }

end RetrievalMetricsSnapshot

/-! ## The ring buffer -/

/-- The buffer never holds more than `maxlen` records. -/
structure RetrievalMetricsCollector where
  maxlen : Nat
  records : List RetrievalRecord
  bounded : records.length ≤ maxlen

namespace RetrievalMetricsCollector

/-- The last elements of a list. -/
def latest (maxlen : Nat) (records : List RetrievalRecord) : List RetrievalRecord :=
  records.drop (records.length - maxlen)

theorem length_latest_le (maxlen : Nat) (records : List RetrievalRecord) :
    (latest maxlen records).length ≤ maxlen := by
  rw [latest, List.length_drop]
  omega

/-- `RetrievalMetricsCollector(maxlen)`. -/
def init (maxlen : Nat) : RetrievalMetricsCollector := ⟨maxlen, [], Nat.zero_le maxlen⟩

/-- `record(...)` of a retrieval. -/
def record (c : RetrievalMetricsCollector) (r : RetrievalRecord) : RetrievalMetricsCollector :=
  ⟨c.maxlen, latest c.maxlen (c.records ++ [r]), length_latest_le _ _⟩

/-- `clear()`. -/
def clear (c : RetrievalMetricsCollector) : RetrievalMetricsCollector :=
  ⟨c.maxlen, [], Nat.zero_le _⟩

/-- `snapshot()`. -/
def snapshot (c : RetrievalMetricsCollector) : RetrievalMetricsSnapshot :=
  .fromRecords c.records

/-- What can be done to the buffer. -/
inductive Op
  | record (r : RetrievalRecord)
  | clear

def step (c : RetrievalMetricsCollector) : Op → RetrievalMetricsCollector
  | .record r => c.record r
  | .clear => c.clear

/-- What was recorded since the buffer was cleared. -/
def since (recorded : List RetrievalRecord) : Op → List RetrievalRecord
  | .record r => recorded ++ [r]
  | .clear => []

theorem latest_concat (maxlen : Nat) (recorded : List RetrievalRecord) (r : RetrievalRecord) :
    latest maxlen (latest maxlen recorded ++ [r]) = latest maxlen (recorded ++ [r]) := by
  simp only [latest, List.length_append, List.length_drop, List.length_singleton]
  rw [← List.drop_append_of_le_length (Nat.sub_le _ _), List.drop_drop]
  congr 1
  omega

/-- A step keeps the last records. -/
theorem step_records {c : RetrievalMetricsCollector} {recorded : List RetrievalRecord}
    (h : c.records = latest c.maxlen recorded) (op : Op) :
    (c.step op).maxlen = c.maxlen ∧
      (c.step op).records = latest c.maxlen (since recorded op) := by
  cases op with
  | record r =>
      refine ⟨rfl, ?_⟩
      change latest c.maxlen (c.records ++ [r]) = _
      rw [h, latest_concat]
      rfl
  | clear => exact ⟨rfl, List.drop_nil.symm⟩

/-- After any run the buffer holds the last records since it was cleared. -/
theorem run_records (maxlen : Nat) (ops : List Op) :
    (ops.foldl step (init maxlen)).records = latest maxlen (ops.foldl since []) := by
  have hrun : ∀ {c : RetrievalMetricsCollector} {recorded : List RetrievalRecord},
      c.maxlen = maxlen → c.records = latest maxlen recorded →
        (ops.foldl step c).records = latest maxlen (ops.foldl since recorded) := by
    induction ops with
    | nil => exact fun _ h => h
    | cons op rest ih =>
        intro c recorded hmax h
        obtain ⟨hmax', h'⟩ := step_records (hmax.symm ▸ h) op
        exact ih (hmax'.trans hmax) (hmax ▸ h')
  exact hrun rfl List.drop_nil.symm

end RetrievalMetricsCollector

/-! ## Percentiles in order -/

namespace Telemetry

theorem truncate_eq {x : ℚ} (hx : 0 ≤ x) : truncate x = ⌊x⌋ := by
  rw [truncate, Int.tdiv_eq_ediv_of_nonneg (Rat.num_nonneg.mpr hx), Rat.floor_def']

/-- Places of an ordered list. -/
theorem getD_mono {data : List ℚ} (hdata : data.Pairwise (· ≤ ·)) {i j : Nat} (hij : i ≤ j)
    (hj : j < data.length) : data.getD i 0 ≤ data.getD j 0 := by
  apply (Table.getD_le_iff hdata (hij.trans_lt hj)).mpr
  exact hij.trans_lt ((Table.getD_le_iff hdata hj).mp le_rfl)

end Telemetry

namespace RetrievalMetricsSnapshot

/-- Where a percentile is read, before the rounding. -/
def place (data : List ℚ) (p : ℚ) : Nat := (truncate (((data.length : ℚ) - 1) * p)).toNat

variable {data : List ℚ} {p q : ℚ}

theorem scaled_nonneg (hne : data ≠ []) (hp : 0 ≤ p) : 0 ≤ ((data.length : ℚ) - 1) * p := by
  have hlength : (1 : ℚ) ≤ data.length := by
    exact_mod_cast List.length_pos_of_ne_nil hne
  exact mul_nonneg (sub_nonneg.mpr hlength) hp

theorem scaled_le (hne : data ≠ []) (hpq : p ≤ q) :
    ((data.length : ℚ) - 1) * p ≤ ((data.length : ℚ) - 1) * q := by
  have hlength : (1 : ℚ) ≤ data.length := by
    exact_mod_cast List.length_pos_of_ne_nil hne
  exact mul_le_mul_of_nonneg_left hpq (sub_nonneg.mpr hlength)

theorem truncate_scaled (hne : data ≠ []) (hp : 0 ≤ p) :
    truncate (((data.length : ℚ) - 1) * p) = place data p := by
  rw [place, truncate_eq (scaled_nonneg hne hp)]
  exact (Int.toNat_of_nonneg (Int.floor_nonneg.mpr (scaled_nonneg hne hp))).symm

theorem place_mono (hne : data ≠ []) (hp : 0 ≤ p) (hpq : p ≤ q) : place data p ≤ place data q := by
  rw [place, place, truncate_eq (scaled_nonneg hne hp),
    truncate_eq (scaled_nonneg hne (hp.trans hpq))]
  exact Int.toNat_le_toNat (Int.floor_mono (scaled_le hne hpq))

theorem percentile_eq (hne : data ≠ []) (hp : 0 ≤ p) : percentile data p =
    if data.length ≤ place data p + 1 then data.getD (data.length - 1) 0
    else if 1 / 2 ≤ ((data.length : ℚ) - 1) * p - place data p then
      (data.getD (place data p) 0 + data.getD (place data p + 1) 0) / 2
    else data.getD (place data p) 0 := by
  have hlast : data.getLastD 0 = data.getD (data.length - 1) 0 := by
    rw [List.getLastD_eq_getLast?, List.getLast?_eq_getElem?, List.getD_eq_getElem?_getD]
  have hnext : ((data.length : Int) ≤ (place data p : Int) + 1) ↔
      data.length ≤ place data p + 1 := by omega
  have hplace : ((place data p : Int) + 1).toNat = place data p + 1 := by omega
  simp only [percentile, truncate_scaled hne hp, hlast, hnext, hplace, Int.toNat_natCast,
    Int.cast_natCast]

section Ordered

variable (hdata : data.Pairwise (· ≤ ·)) (hne : data ≠ []) (hp : 0 ≤ p)
include hdata hne hp

/-- A percentile is not less than the value at its place. -/
theorem getD_place_le (hplace : place data p < data.length) :
    data.getD (place data p) 0 ≤ percentile data p := by
  rw [percentile_eq hne hp]
  split_ifs with hlast hhalf
  · exact getD_mono hdata (by omega) (by omega)
  · have hnext := getD_mono hdata (Nat.le_succ (place data p)) (not_le.mp hlast)
    linarith
  · exact le_rfl

/-- A percentile is not greater than the value at the next place. -/
theorem percentile_le_next (hnext : place data p + 1 < data.length) :
    percentile data p ≤ data.getD (place data p + 1) 0 := by
  have hle : data.getD (place data p) 0 ≤ data.getD (place data p + 1) 0 :=
    getD_mono hdata (Nat.le_succ _) hnext
  rw [percentile_eq hne hp, if_neg (not_le.mpr hnext)]
  split_ifs
  · linarith
  · exact hle

theorem percentile_le_last : percentile data p ≤ data.getD (data.length - 1) 0 := by
  by_cases hlast : data.length ≤ place data p + 1
  · rw [percentile_eq hne hp, if_pos hlast]
  · have hnext := not_le.mp hlast
    exact (percentile_le_next hdata hne hp hnext).trans (getD_mono hdata (by omega) (by omega))

theorem first_le_percentile : data.getD 0 0 ≤ percentile data p := by
  have hlength := List.length_pos_of_ne_nil hne
  by_cases hlast : data.length ≤ place data p + 1
  · rw [percentile_eq hne hp, if_pos hlast]
    exact getD_mono hdata (Nat.zero_le _) (by omega)
  · have hplace : place data p < data.length := by omega
    exact (getD_mono hdata (Nat.zero_le _) hplace).trans (getD_place_le hdata hne hp hplace)

/-- Higher percentiles are not less. -/
theorem percentile_mono (hpq : p ≤ q) : percentile data p ≤ percentile data q := by
  have hq := hp.trans hpq
  by_cases hlast : data.length ≤ place data q + 1
  · rw [percentile_eq hne hq, if_pos hlast]
    exact percentile_le_last hdata hne hp
  rcases Nat.lt_or_eq_of_le (place_mono hne hp hpq) with hlt | hsame
  · -- the place moves on
    have hnext : place data p + 1 < data.length := by omega
    calc
      percentile data p ≤ data.getD (place data p + 1) 0 := percentile_le_next hdata hne hp hnext
      _ ≤ data.getD (place data q) 0 := getD_mono hdata hlt (by omega)
      _ ≤ percentile data q := getD_place_le hdata hne hq (by omega)
  · -- the place stays, and what was averaged stays averaged
    have hfraction : ((data.length : ℚ) - 1) * p - place data p ≤
        ((data.length : ℚ) - 1) * q - place data q := by
      rw [hsame]
      exact sub_le_sub_right (scaled_le hne hpq) _
    by_cases hhalf : 1 / 2 ≤ ((data.length : ℚ) - 1) * p - place data p
    · rw [percentile_eq hne hp, percentile_eq hne hq, hsame, if_neg hlast, if_neg hlast,
        if_pos (hsame ▸ hhalf), if_pos (hhalf.trans hfraction)]
    · have hread : percentile data p = data.getD (place data p) 0 := by
        rw [percentile_eq hne hp, if_neg (hsame ▸ hlast), if_neg hhalf]
      rw [hread, hsame]
      exact getD_place_le hdata hne hq (by omega)

end Ordered

/-- The percentiles of some latencies lie in order between their least and their greatest one. -/
def Within (s : RetrievalMetricsSnapshot) (latencies : List ℚ) : Prop :=
  ∃ least ∈ latencies, ∃ greatest ∈ latencies, (∀ x ∈ latencies, least ≤ x ∧ x ≤ greatest) ∧
    least ≤ s.p50TotalMs ∧ s.p50TotalMs ≤ s.p95TotalMs ∧ s.p95TotalMs ≤ s.p99TotalMs ∧
      s.p99TotalMs ≤ greatest

theorem exists_bounds {latencies sorted : List ℚ} (hordered : Table.Ordered id latencies sorted)
    (hne : sorted ≠ []) : ∃ least ∈ latencies, ∃ greatest ∈ latencies,
      (∀ x ∈ latencies, least ≤ x ∧ x ≤ greatest) ∧
        least = sorted.getD 0 0 ∧ greatest = sorted.getD (sorted.length - 1) 0 := by
  have hsorted : sorted.Pairwise (· ≤ ·) := hordered.sorted
  have hlength := List.length_pos_of_ne_nil hne
  have hget : ∀ {i} (hi : i < sorted.length), sorted.getD i 0 = sorted[i] := by
    intro i hi
    rw [List.getD_eq_getElem?_getD, List.getElem?_eq_getElem hi, Option.getD_some]
  have hmem : ∀ {i}, i < sorted.length → sorted.getD i 0 ∈ latencies := by
    intro i hi
    rw [hget hi]
    exact hordered.perm.mem_iff.mp (List.getElem_mem hi)
  refine ⟨_, hmem hlength, _, hmem (by omega), fun x hx => ?_, rfl, rfl⟩
  obtain ⟨i, hi, rfl⟩ := List.mem_iff_getElem.mp (hordered.perm.mem_iff.mpr hx)
  rw [← hget hi]
  exact ⟨getD_mono hsorted (Nat.zero_le _) hi, getD_mono hsorted (by omega) (by omega)⟩

theorem fromRecords_within {records : List RetrievalRecord} (hrecords : records ≠ []) :
    (fromRecords records).Within (records.map RetrievalRecord.totalMs) := by
  have hordered := Table.ordered_orderBy id (records.map RetrievalRecord.totalMs)
  have hne : Table.orderBy id (records.map RetrievalRecord.totalMs) ≠ [] := by
    intro hnil
    have hperm := hordered.perm
    rw [hnil, List.nil_perm] at hperm
    exact hrecords (List.map_eq_nil_iff.mp hperm)
  obtain ⟨least, hleast, greatest, hgreatest, hall, hfirst, hlast⟩ := exists_bounds hordered hne
  have hsorted : (Table.orderBy id (records.map RetrievalRecord.totalMs)).Pairwise (· ≤ ·) :=
    hordered.sorted
  have hfull : ¬records.isEmpty = true := by simpa using hrecords
  refine ⟨least, hleast, greatest, hgreatest, hall, ?_⟩
  simp only [fromRecords, if_neg hfull]
  rw [hfirst, hlast]
  refine ⟨first_le_percentile hsorted hne ?_, percentile_mono hsorted hne ?_ ?_,
    percentile_mono hsorted hne ?_ ?_, percentile_le_last hsorted hne ?_⟩ <;> norm_num

end RetrievalMetricsSnapshot

/-! ## Several nodes -/

structure CrossNodeTelemetry where
  aggregationId : String
  sourceNodeIds : List String
  metricType : String
  value : ℚ
  sampleCount : Nat
  aggregationMethod : String
  windowSeconds : Int := 300

namespace TelemetryAggregator

/-- `generate_aggregation_id(metric_type, method, timestamp)`. -/
def generateAggregationId (metricType method timestamp : String) : String :=
  "RSES-XTEL-" ++
    shortHash ("cross_node_telemetry:" ++ metricType ++ ":" ++ method ++ ":" ++ timestamp)

/-- `AverageAggregation.aggregate`. -/
def average (values : List ℚ) : ℚ := if values = [] then 0 else mean values

/-- `SumAggregation.aggregate`. -/
def sum (values : List ℚ) : ℚ := values.sum

/-- `MinAggregation.aggregate`. -/
def min (values : List ℚ) : ℚ := values.min?.getD 0

/-- `MaxAggregation.aggregate`. -/
def max (values : List ℚ) : ℚ := values.max?.getD 0

/-- `P95Aggregation.aggregate`. -/
def p95 (values : List ℚ) : ℚ :=
  if values = [] then 0
  else
    let sortedVals := Table.orderBy id values
    let idx := truncate ((sortedVals.length : ℚ) * (95 / 100)) - 1
    let idx := Max.max 0 (Min.min idx ((sortedVals.length : Int) - 1))
    sortedVals.getD idx.toNat 0

/-- The built-in strategies. -/
def strategies : OrdDict String (List ℚ → ℚ) :=
  .ofList [("AVERAGE", average), ("SUM", sum), ("MIN", min), ("MAX", max), ("P95", p95)]

/-- The values of a metric at each node that has one. -/
def nodeValues (nodeTelemetry : OrdDict String (List (String × ℚ))) (metricType : String) :
    List (String × List ℚ) :=
  (nodeTelemetry.entries.map fun e =>
    (e.1, (e.2.filter fun m => m.1 = metricType).map Prod.snd)).filter fun e => e.2 ≠ []

/-- `NodeTelemetryAggregator.aggregate(node_telemetry, metric_type, method, window_seconds)`, with
the text of the hash of the sorted values. -/
def aggregate (hashText : List ℚ → String) (strategies : OrdDict String (List ℚ → ℚ))
    (nodeTelemetry : OrdDict String (List (String × ℚ))) (metricType method : String)
    (windowSeconds : Int) : Except Exc CrossNodeTelemetry := do
  let nodes := nodeValues nodeTelemetry metricType
  let values := nodes.flatMap Prod.snd
  let (strategy, method) ←
    match strategies.get? method, strategies.get? "AVERAGE" with
    | some strategy, _ => .ok (strategy, method)
    | none, some average => .ok (average, "AVERAGE")
    | none, none => .error (.keyError "AVERAGE")
  return {
    aggregationId := generateAggregationId metricType method
      (hashText (Table.orderBy id values))
    sourceNodeIds := Table.orderBy id (nodes.map Prod.fst)
    metricType := metricType
    value := if values = [] then 0 else strategy values
    sampleCount := values.length
    aggregationMethod := method
    windowSeconds := windowSeconds }

/-- `aggregate_all(node_telemetry, method, window_seconds)`. -/
def aggregateAll (hashText : List ℚ → String) (strategies : OrdDict String (List ℚ → ℚ))
    (nodeTelemetry : OrdDict String (List (String × ℚ))) (method : String) (windowSeconds : Int) :
    Except Exc (List CrossNodeTelemetry) :=
  (Table.orderBy id (nodeTelemetry.values.flatMap fun metrics => metrics.map Prod.fst).dedup).mapM
    fun mt => aggregate hashText strategies nodeTelemetry mt method windowSeconds

/-! ## The order of the nodes -/

/-- A strategy that does not see the order of the values. -/
def OrderFree (strategy : List ℚ → ℚ) : Prop :=
  ∀ values values' : List ℚ, values.Perm values' → strategy values = strategy values'

theorem perm_eq_nil_iff {values values' : List ℚ} (h : values.Perm values') :
    values = [] ↔ values' = [] := by
  rw [← List.length_eq_zero_iff, ← List.length_eq_zero_iff, h.length_eq]

theorem orderFree_strategies : ∀ strategy ∈ strategies.values, OrderFree strategy := by
  have hvalues : strategies.values = [average, sum, min, max, p95] := rfl
  have hleast : OrderFree min := by
    intro values values' h
    rw [min, min]
    congr 1
    exact Option.ext fun x => by simp only [List.min?_eq_some_iff, h.mem_iff]
  have hgreatest : OrderFree max := by
    intro values values' h
    rw [max, max]
    congr 1
    exact Option.ext fun x => by simp only [List.max?_eq_some_iff, h.mem_iff]
  have hmean : OrderFree average := by
    intro values values' h
    simp only [average, mean, perm_eq_nil_iff h, h.sum_eq, h.length_eq]
  have hpercentile : OrderFree p95 := by
    intro values values' h
    simp only [p95, perm_eq_nil_iff h, Table.orderBy_id_eq_of_perm h]
  rw [hvalues]
  simp only [List.forall_mem_cons]
  exact ⟨hmean, fun _ _ h => h.sum_eq, hleast, hgreatest, hpercentile, List.forall_mem_nil _⟩

/-- What is aggregated does not depend on the order of the nodes. -/
theorem aggregate_eq_of_perm {hashText : List ℚ → String}
    {strategies : OrdDict String (List ℚ → ℚ)}
    (hstrategies : ∀ strategy ∈ strategies.values, OrderFree strategy)
    {nodes nodes' : OrdDict String (List (String × ℚ))} (h : nodes.entries.Perm nodes'.entries)
    (metricType method : String) (windowSeconds : Int) :
    aggregate hashText strategies nodes metricType method windowSeconds =
      aggregate hashText strategies nodes' metricType method windowSeconds := by
  have hnodes : (nodeValues nodes metricType).Perm (nodeValues nodes' metricType) :=
    (h.map _).filter _
  have hvalues := hnodes.flatMap_right Prod.snd
  have hvalue : ∀ {name strategy}, strategies.get? name = some strategy →
      strategy ((nodeValues nodes metricType).flatMap Prod.snd) =
        strategy ((nodeValues nodes' metricType).flatMap Prod.snd) := by
    intro name strategy hget
    exact hstrategies strategy (OrdDict.mem_values_iff.mpr ⟨name, hget⟩) _ _ hvalues
  have hids := Table.orderBy_id_eq_of_perm (hnodes.map Prod.fst)
  simp only [aggregate, Table.orderBy_id_eq_of_perm hvalues, hids, hvalues.length_eq,
    perm_eq_nil_iff hvalues]
  cases hmethod : strategies.get? method with
  | some strategy => simp only [Except.ok_bind_eq, hvalue hmethod]
  | none =>
      cases haverage : strategies.get? "AVERAGE" with
      | some strategy => simp only [Except.ok_bind_eq, hvalue haverage]
      | none => rfl

theorem aggregateAll_eq_of_perm (hashText : List ℚ → String)
    {nodes nodes' : OrdDict String (List (String × ℚ))} (h : nodes.entries.Perm nodes'.entries)
    (method : String) (windowSeconds : Int) :
    aggregateAll hashText strategies nodes method windowSeconds =
      aggregateAll hashText strategies nodes' method windowSeconds := by
  have hvalues : nodes.values.Perm nodes'.values := h.map Prod.snd
  have htypes := Table.orderBy_id_eq_of_perm
    (hvalues.flatMap_right fun metrics => metrics.map Prod.fst).dedup
  rw [aggregateAll, aggregateAll, htypes]
  congr 1
  funext mt
  exact aggregate_eq_of_perm orderFree_strategies h mt method windowSeconds

/-! ## The percentile of the values -/

/-- An element that at least 95 percent of the values do not exceed. -/
structure Covers (values : List ℚ) (v : ℚ) : Prop where
  mem : v ∈ values
  share : (95 / 100 : ℚ) * values.length ≤ values.countP fun x => x ≤ v

/-- The number of values is one or a multiple of 20, or one value fills the places on both sides of
the cut behind 95 percent of them. -/
def EvenlyCut (values : List ℚ) : Prop :=
  values.length = 1 ∨ 20 ∣ values.length ∨ ∃ x ∈ values,
    values.countP (fun y => y < x) < 19 * values.length / 20 ∧
      19 * values.length / 20 < values.countP fun y => y ≤ x

variable {values : List ℚ}

theorem truncate_share (n : Nat) : truncate ((n : ℚ) * (95 / 100)) = (19 * n / 20 : Nat) := by
  have hscaled : (n : ℚ) * (95 / 100) = ((19 * n : Nat) : ℚ) / (20 : Nat) := by
    push_cast
    ring
  rw [truncate_eq (by positivity), hscaled, Rat.floor_natCast_div_natCast]
  norm_cast

/-- The place of the sorted values that is read. -/
theorem p95_eq (hvalues : values ≠ []) :
    p95 values = (Table.orderBy id values).getD (19 * values.length / 20 - 1) 0 := by
  have hlength := (Table.orderBy_perm id values).length_eq
  have hpos := List.length_pos_of_ne_nil hvalues
  rw [p95, if_neg hvalues]
  simp only [truncate_share, hlength]
  congr 1
  omega

theorem share_iff (n count : Nat) : (95 / 100 : ℚ) * n ≤ count ↔ 19 * n ≤ 20 * count := by
  have hscaled : (95 / 100 : ℚ) * n ≤ count ↔ ((19 * n : Nat) : ℚ) ≤ (20 * count : Nat) := by
    push_cast
    constructor <;> intro h <;> linarith
  rw [hscaled, Nat.cast_le]

theorem place_lt_length (hvalues : values ≠ []) :
    19 * values.length / 20 - 1 < (Table.orderBy id values).length := by
  have hpos := List.length_pos_of_ne_nil hvalues
  rw [(Table.orderBy_perm id values).length_eq]
  omega

/-- What stands at the place that is read: so many values are less, and so many not greater. -/
theorem p95_eq_iff (hvalues : values ≠ []) {x : ℚ} : p95 values = x ↔
    values.countP (fun y => y < x) ≤ 19 * values.length / 20 - 1 ∧
      19 * values.length / 20 - 1 < values.countP fun y => y ≤ x := by
  have hperm := Table.orderBy_perm id values
  have hplace := place_lt_length hvalues
  rw [p95_eq hvalues, Table.getD_eq_iff (Table.ordered_orderBy id values).sorted hplace,
    hperm.countP_eq, hperm.countP_eq]

theorem p95_mem (hvalues : values ≠ []) : p95 values ∈ values := by
  have hperm := Table.orderBy_perm id values
  have hplace := place_lt_length hvalues
  rw [p95_eq hvalues, List.getD_eq_getElem?_getD, List.getElem?_eq_getElem hplace]
  exact hperm.mem_iff.mp (List.getElem_mem hplace)

/-- The value covers 95 percent of the values exactly when they are evenly cut. -/
theorem covers_iff (hvalues : values ≠ []) : Covers values (p95 values) ↔ EvenlyCut values := by
  have hpos := List.length_pos_of_ne_nil hvalues
  have hmem := p95_mem hvalues
  obtain ⟨hbelow, hreached⟩ := (p95_eq_iff hvalues).mp rfl
  constructor
  · rintro ⟨-, hshare⟩
    rw [share_iff] at hshare
    by_cases hone : values.length = 1
    · exact .inl hone
    by_cases hdvd : 20 ∣ values.length
    · exact .inr (.inl hdvd)
    exact .inr (.inr ⟨p95 values, hmem, by omega, by omega⟩)
  · intro h
    refine ⟨hmem, (share_iff _ _).mpr ?_⟩
    rcases h with hone | hdvd | ⟨x, hx, hless, hmore⟩
    · omega
    · omega
    · have hsame : p95 values = x := (p95_eq_iff hvalues).mpr ⟨by omega, by omega⟩
      rw [hsame]
      omega

/-- The percentiles of a snapshot are in order, and the percentile of several nodes covers 95 percent
of the values exactly when they are evenly cut. -/
theorem percentiles_iff {records : List RetrievalRecord} (hrecords : records ≠ [])
    (hvalues : values ≠ []) :
    ((RetrievalMetricsSnapshot.fromRecords records).Within
        (records.map RetrievalRecord.totalMs) ∧ Covers values (p95 values)) ↔
      EvenlyCut values := by
  rw [covers_iff hvalues]
  exact and_iff_right (RetrievalMetricsSnapshot.fromRecords_within hrecords)

theorem percentiles_iff_oneRecord :
    ((RetrievalMetricsSnapshot.fromRecords [{ totalMs := 3 }]).Within [3] ∧
      Covers [5] (p95 [5])) ↔ EvenlyCut [5] :=
  percentiles_iff (by simp) (by simp)

/-- The percentile of two values is the smaller one. -/
theorem not_covers_two : ¬Covers [1, 2] (p95 [1, 2]) := by
  intro h
  have hshare := h.share
  revert hshare
  decide +kernel

end TelemetryAggregator

end RationaleVault
