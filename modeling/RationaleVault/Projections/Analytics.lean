import RationaleVault.Library.Ranking
import RationaleVault.PythonSort
import RationaleVault.PythonText
import RationaleVault.SkillPlatform.ExecutionHistory

/-!
# Execution analytics

Statistics over the execution state: for each skill, for each plugin that a skill belongs to,
for durations, promotions and costs. Executions are filed by the state projection and compared
by their state texts here once more.
-/

namespace RationaleVault.SkillPlatform

structure SkillExecutionStatistics where
  skillId : Atom
  totalExecutions : Nat
  successRate : ℚ
  rollingSuccessRate : ℚ
  timeouts : Nat
  schemaFailures : Nat

structure PluginExecutionStatistics where
  pluginId : String
  totalExecutions : Nat
  failures : Nat
  timeouts : Nat
  denials : Nat

structure ExecutionDurationStatistics where
  skillId : Atom
  meanDurationMs : ℚ
  minDurationMs : ℚ
  maxDurationMs : ℚ

structure ArtifactPromotionStatistics where
  candidateCount : Nat
  promotedCount : Nat
  rejectedCount : Nat
  averageGateScore : ℚ
  mostCommonViolation : Option Atom
  averageArtifactSize : ℚ

structure CostBreakdown where
  durationWeight : ℚ
  memoryWeight : ℚ
  cpuWeight : ℚ
  totalCost : ℚ

structure ExecutionCostReport where
  durationMs : Json
  cpuTimeMs : Option Int
  memoryBytes : Option Int
  costModelVersion : String
  costComponents : CostBreakdown

structure ExecutionAnalytics where
  skills : OrdDict Atom SkillExecutionStatistics := .empty
  plugins : OrdDict String PluginExecutionStatistics := .empty
  durations : OrdDict Atom ExecutionDurationStatistics := .empty
  promotions : ArtifactPromotionStatistics := ⟨0, 0, 0, 0, none, 0⟩
  costs : List ExecutionCostReport := []

/-- What the analytics read of their configuration. -/
structure ExecutionAnalyticsConfig where
  windowSize : Int := 5
  costModelVersion : String := "1.0"

namespace ExecutionAnalyticsProjection

/-! ## Payload values -/

/-- An operand of an addition or a multiplication. -/
def number (v : Json) : Except Exc ℚ :=
  match v with
  | .atom a =>
      match a.number? with
      | some q => .ok q
      | none => .error .typeError
  | .arr _ => .error .typeError
  | .obj _ => .error .typeError

/-- `v.get(key, default)`. -/
def getOr (v : Json) (key : String) (default : Json) : Except Exc Json :=
  match v with
  | .obj members => .ok (JsonObj.getD members key default)
  | .atom _ => .error (.attributeError "get")
  | .arr _ => .error (.attributeError "get")

/-- `key in v`. -/
def hasKey (v : Json) (key : String) : Except Exc Bool :=
  match v with
  | .obj members => .ok (members.any fun m => m.1 = key)
  | .arr items => .ok (items.any fun item => item = .str key)
  | .atom (.str s) => .ok (PythonText.contains key.toList s.toList)
  | .atom _ => .error .typeError

/-- `len(v)`. -/
def len (v : Json) : Except Exc Nat :=
  match v with
  | .obj members => .ok members.length
  | .arr items => .ok items.length
  | .atom (.str s) => .ok s.toList.length
  | .atom _ => .error .typeError

/-! ## Skills -/

/-- `e.started_at or ""` as a key to sort by; a list or a dict compares with nothing. -/
def startKey (e : ExecutionEntry) : Option AtomNorm :=
  match e.startedAt.orElse (.str "") with
  | .atom a => some (DictKey.norm a)
  | .arr _ => none
  | .obj _ => none

def startComparable : Option AtomNorm → Option AtomNorm → Bool
  | some a, some b => AtomNorm.comparable a b
  | _, _ => false

def startLe : Option AtomNorm → Option AtomNorm → Bool
  | some a, some b => decide (a = b) || AtomNorm.le a b
  | none, none => true
  | _, _ => false

/-- `l[-window_size:]`. -/
def lastOf (windowSize : Int) (l : List ExecutionEntry) : List ExecutionEntry :=
  if 0 < windowSize then l.drop (l.length - windowSize.toNat) else l.drop (-windowSize).toNat

/-- `e.error and "validation failed" in e.error.lower()`. -/
def isSchemaFailure (u : UnicodeTables) (error : Json) : Except Exc Bool :=
  if !error.truthy then .ok false
  else
    match error with
    | .str text =>
        .ok (PythonText.contains "validation failed".toList (u.lower text).toList)
    | _ => .error (.attributeError "lower")

/-- The statistics of one skill. -/
def skillStatistics (u : UnicodeTables) (config : ExecutionAnalyticsConfig) (s : ExecutionState)
    (skillId : Atom) (total : Nat) : Except Exc SkillExecutionStatistics := do
  let success := (s.successCounts.get? skillId).getD 0
  let successRate : ℚ := if 0 < total then success / total else 0
  let allEntries ← sortedBy startComparable startLe startKey
    (s.allExecutions.filter (·.hasSkill skillId))
  let window := if 0 < total then lastOf config.windowSize allEntries else []
  let rollingTotal := window.length
  let rollingSuccess := window.countP fun e => e.state = .str "COMPLETED"
  let rollingSuccessRate : ℚ := if 0 < rollingTotal then rollingSuccess / rollingTotal else 0
  let timeouts := allEntries.countP fun e => e.state = .str "TIMEOUT"
  let schemaFailures ← allEntries.mapM fun e => isSchemaFailure u e.error
  return {
    skillId := skillId
    totalExecutions := total
    successRate := successRate
    rollingSuccessRate := rollingSuccessRate
    timeouts := timeouts
    schemaFailures := schemaFailures.count true }

def skillsStatistics (u : UnicodeTables) (config : ExecutionAnalyticsConfig) (s : ExecutionState) :
    Except Exc (OrdDict Atom SkillExecutionStatistics) := do
  let stats ← s.executionCounts.entries.mapM fun e => do
    return (e.1, ← skillStatistics u config s e.1 e.2)
  return .ofList stats

/-! ## Plugins -/

/-- `skill_to_plugin.get(e.skill_id)`, unless it is empty. -/
def pluginOf (skillToPlugin : OrdDict String String) (e : ExecutionEntry) : Option String :=
  match e.skillId with
  | .str skillId => (skillToPlugin.get? skillId).filter (· ≠ "")
  | _ => none

/-- `plugin_counts`, `plugin_failures`, `plugin_timeouts` and `plugin_denials`. -/
structure PluginCounts where
  counts : OrdDict String Nat := .empty
  failures : OrdDict String Nat := .empty
  timeouts : OrdDict String Nat := .empty
  denials : OrdDict String Nat := .empty

/-- One execution of a plugin. Of the failures only those with the state `FAILED` are counted. -/
def PluginCounts.add (c : PluginCounts) (pid : String) (state : Json) : PluginCounts :=
  let counts := Tally.bump c.counts pid
  if state = .str "FAILED" then
    { c with counts := counts, failures := Tally.bump c.failures pid }
  else if state = .str "TIMEOUT" then
    { c with counts := counts, timeouts := Tally.bump c.timeouts pid }
  else if state = .str "DENIED" then
    { c with counts := counts, denials := Tally.bump c.denials pid }
  else { c with counts := counts }

def pluginStep (skillToPlugin : OrdDict String String) (c : PluginCounts) (e : ExecutionEntry) :
    PluginCounts :=
  (pluginOf skillToPlugin e).elim c fun pid => c.add pid e.state

def pluginsStatistics (skillToPlugin : OrdDict String String) (s : ExecutionState) :
    OrdDict String PluginExecutionStatistics :=
  let c := s.allExecutions.foldl (pluginStep skillToPlugin) {}
  .ofList (c.counts.keys.map fun pid =>
    (pid,
      { pluginId := pid
        totalExecutions := (c.counts.get? pid).getD 0
        failures := (c.failures.get? pid).getD 0
        timeouts := (c.timeouts.get? pid).getD 0
        denials := (c.denials.get? pid).getD 0 }))

/-! ## Durations and costs -/

/-- The statistics of the durations of one skill. -/
def durationStatistics (skillId : Atom) (ds : List Json) :
    Except Exc ExecutionDurationStatistics := do
  let numbers ← ds.mapM number
  return {
    skillId := skillId
    meanDurationMs := numbers.sum / numbers.length
    minDurationMs := numbers.min?.getD 0
    maxDurationMs := numbers.max?.getD 0 }

def durationsStatistics (s : ExecutionState) :
    Except Exc (OrdDict Atom ExecutionDurationStatistics) := do
  let stats ← (s.durations.entries.filter fun e => e.2 ≠ []).mapM fun e => do
    return (e.1, ← durationStatistics e.1 e.2)
  return .ofList stats

/-- The cost report of one execution. -/
def costReport (config : ExecutionAnalyticsConfig) (e : ExecutionEntry) :
    Except Exc ExecutionCostReport := do
  let durMs := e.durationMs.orElse (.int 0)
  let durWeight : ℚ := 1 / 10000
  let totalCost := (← number durMs) * durWeight
  return {
    durationMs := durMs
    cpuTimeMs := none
    memoryBytes := none
    costModelVersion := config.costModelVersion
    costComponents := ⟨durWeight, 0, 0, totalCost⟩ }

/-! ## Promotions -/

/-- What is collected from the promotion reports. -/
structure Promotions where
  candCount : Nat := 0
  promCount : Nat := 0
  rejCount : Nat := 0
  gateScores : List Json := []
  violations : OrdDict Atom Nat := .empty
  artifactSizes : List Json := []

/-- The value under the key, if there is one, after the others. -/
def collect (key : String) (values : List Json) (v : Json) : Except Exc (List Json) := do
  if ← hasKey v key then return values ++ [← v.getItem key] else return values

def promotionStep (p : Promotions) (event : EventRecord) : Except Exc Promotions :=
  if event.eventType ≠ .skillExecuted then .ok p
  else do
    let report := (JsonObj.get event.payload "promotion_report").orElse (.obj [])
    let promoted ← getOr report "promoted" (.arr [])
    let rejected ← getOr report "rejected" (.arr [])
    let gateResult ← getOr report "gate_result" (.obj [])
    let evaluation ← getOr report "evaluation" (.obj [])
    let promotedCount ← len promoted
    let rejectedCount ← len rejected
    let gateScores ← collect "score" p.gateScores evaluation
    let reported ← (← getOr gateResult "violations" (.arr [])).toList
    let violations ← reported.foldlM (fun violations v => do
      return Tally.bump violations (← v.hash)) p.violations
    let artifactSizes ← (← promoted.toList).foldlM (collect "size") p.artifactSizes
    return {
      candCount := p.candCount + promotedCount + rejectedCount
      promCount := p.promCount + promotedCount
      rejCount := p.rejCount + rejectedCount
      gateScores := gateScores
      violations := violations
      artifactSizes := artifactSizes }

/-- `sum(values) / len(values) if values else 0.0`. -/
def average (values : List Json) : Except Exc ℚ := do
  if values = [] then return 0
  else
    let numbers ← values.mapM number
    return numbers.sum / numbers.length

def promotionStatistics (events : List EventRecord) : Except Exc ArtifactPromotionStatistics := do
  let p ← events.foldlM promotionStep {}
  return {
    candidateCount := p.candCount
    promotedCount := p.promCount
    rejectedCount := p.rejCount
    averageGateScore := ← average p.gateScores
    mostCommonViolation := (Best.best Prod.snd p.violations.entries).map Prod.fst
    averageArtifactSize := ← average p.artifactSizes }

/-- `analytics` of `ExecutionAnalyticsProjection.project(events, config, known_decision_ids)`, with
the plugins of the registered skills. -/
def analytics (u : UnicodeTables) (skillToPlugin : OrdDict String String)
    (events : List EventRecord) (config : ExecutionAnalyticsConfig)
    (knownDecisionIds : Option (List String)) : Except Exc ExecutionAnalytics := do
  let state ← ExecutionStateProjection.reduce events knownDecisionIds
  let skills ← skillsStatistics u config state
  let plugins := pluginsStatistics skillToPlugin state
  let durations ← durationsStatistics state
  let promotions ← promotionStatistics events
  let costs ← state.allExecutions.mapM (costReport config)
  return { skills, plugins, durations, promotions, costs }

/-! ## Statistics by key -/

/-- A dictionary of statistics has the keys that it is computed for. -/
theorem entries_of_mapM {ν μ : Type} {g : Atom × ν → Except Exc μ} {es : List (Atom × ν)}
    (hes : (es.map fun e => DictKey.norm e.1).Nodup) {l : List (Atom × μ)}
    (h : (es.mapM fun e => do return (e.1, ← g e)) = .ok l) :
    (OrdDict.ofList l).entries = l ∧ List.Forall₂ (fun c e => e.1 = c.1 ∧ g c = .ok e.2) es l := by
  have hall : List.Forall₂ (fun c e => e.1 = c.1 ∧ g c = .ok e.2) es l := by
    refine (Fold.forall₂_of_mapM h).imp fun c e he => ?_
    obtain ⟨st, hst, he⟩ := Except.bind_eq_ok_iff.mp he
    obtain rfl := Except.pure_eq_ok_iff.mp he
    exact ⟨rfl, hst⟩
  have hkeys : List.Forall₂ (· = ·) (es.map fun e => DictKey.norm e.1)
      (l.map fun e => DictKey.norm e.1) := by
    rw [List.forall₂_map_left_iff, List.forall₂_map_right_iff]
    exact hall.imp fun c e he => (congrArg DictKey.norm he.1).symm
  rw [List.forall₂_eq_eq_eq] at hkeys
  exact ⟨OrdDict.entries_ofList (hkeys ▸ hes), hall⟩

theorem skillsStatistics_entries {u : UnicodeTables} {config : ExecutionAnalyticsConfig}
    {s : ExecutionState} {stats : OrdDict Atom SkillExecutionStatistics}
    (h : skillsStatistics u config s = .ok stats) :
    List.Forall₂ (fun c e => e.1 = c.1 ∧ skillStatistics u config s c.1 c.2 = .ok e.2)
      s.executionCounts.entries stats.entries := by
  obtain ⟨l, hl, hstats⟩ := Except.bind_eq_ok_iff.mp h
  obtain rfl := Except.pure_eq_ok_iff.mp hstats
  obtain ⟨hentries, hall⟩ := entries_of_mapM s.executionCounts.nodup hl
  rw [hentries]
  exact hall

theorem durationsStatistics_entries {s : ExecutionState}
    {stats : OrdDict Atom ExecutionDurationStatistics} (h : durationsStatistics s = .ok stats) :
    List.Forall₂ (fun c e => e.1 = c.1 ∧ durationStatistics c.1 c.2 = .ok e.2)
      (s.durations.entries.filter fun e => e.2 ≠ []) stats.entries := by
  obtain ⟨l, hl, hstats⟩ := Except.bind_eq_ok_iff.mp h
  obtain rfl := Except.pure_eq_ok_iff.mp hstats
  have hnodup : ((s.durations.entries.filter fun e => e.2 ≠ []).map fun e =>
      DictKey.norm e.1).Nodup := s.durations.nodup.sublist (List.filter_sublist.map _)
  obtain ⟨hentries, hall⟩ := entries_of_mapM hnodup hl
  rw [hentries]
  exact hall

/-- What the analytics are made of. -/
theorem analytics_eq_ok {u : UnicodeTables} {skillToPlugin : OrdDict String String}
    {events : List EventRecord} {config : ExecutionAnalyticsConfig}
    {knownDecisionIds : Option (List String)} {a : ExecutionAnalytics}
    (h : analytics u skillToPlugin events config knownDecisionIds = .ok a) :
    ∃ state, ExecutionStateProjection.reduce events knownDecisionIds = .ok state ∧
      skillsStatistics u config state = .ok a.skills ∧
      a.plugins = pluginsStatistics skillToPlugin state ∧
      durationsStatistics state = .ok a.durations ∧
      state.allExecutions.mapM (costReport config) = .ok a.costs := by
  obtain ⟨state, hstate, h⟩ := Except.bind_eq_ok_iff.mp h
  obtain ⟨skills, hskills, h⟩ := Except.bind_eq_ok_iff.mp h
  obtain ⟨durations, hdurations, h⟩ := Except.bind_eq_ok_iff.mp h
  obtain ⟨promotions, -, h⟩ := Except.bind_eq_ok_iff.mp h
  obtain ⟨costs, hcosts, h⟩ := Except.bind_eq_ok_iff.mp h
  obtain rfl := Except.pure_eq_ok_iff.mp h
  exact ⟨state, hstate, hskills, rfl, hdurations, hcosts⟩

end ExecutionAnalyticsProjection

end RationaleVault.SkillPlatform
