import RationaleVault.Projections.Analytics

/-!
# Analytics and the execution state

The rolling rate of a skill is that of its last executions by start. The counts of a plugin are
those of the lists of the state where every execution of a plugin has one of the four known
states: one of another state is listed as failed and counted as none of the three.
-/

namespace RationaleVault.SkillPlatform

namespace ExecutionAnalyticsProjection

/-! ## The order of executions -/

/-- Starts compare as the texts and numbers they are. -/
theorem comparison_start : Comparison startComparable startLe where
  symm a b h := by
    cases a with
    | none => cases h
    | some a =>
        cases b with
        | none => cases h
        | some b => exact AtomNorm.comparable_symm h
  refl a := by
    cases a with
    | none => rfl
    | some a => exact Bool.or_eq_true _ _ ▸ .inl (decide_eq_true rfl)
  total a b h := by
    cases a with
    | none => cases h
    | some a =>
        cases b with
        | none => cases h
        | some b =>
            simp only [startLe, Bool.or_eq_true]
            exact (AtomNorm.le_or_le h).imp .inr .inr
  antisymm a b h h' := by
    cases a with
    | none =>
        cases b with
        | none => rfl
        | some b => cases h
    | some a =>
        cases b with
        | none => cases h
        | some b =>
            simp only [startLe, Bool.or_eq_true, decide_eq_true_eq] at h h'
            rcases h with rfl | h
            · rfl
            · rcases h' with rfl | h'
              · rfl
              · exact congrArg some (AtomNorm.eq_of_le_of_le h h')
  trans a b c h h' := by
    cases a with
    | none =>
        cases b with
        | none => exact h'
        | some b => cases h
    | some a =>
        cases b with
        | none => cases h
        | some b =>
            cases c with
            | none => cases h'
            | some c =>
                simp only [startLe, Bool.or_eq_true, decide_eq_true_eq] at h h' ⊢
                rcases h with rfl | h
                · exact h'
                · rcases h' with rfl | h'
                  · exact .inr h
                  · exact .inr (AtomNorm.le_of_le_of_le h h')

/-- The executions in an order of their starts. -/
structure Chronological (es chron : List ExecutionEntry) : Prop where
  perm : chron.Perm es
  sorted : chron.Pairwise fun e e' => startLe (startKey e) (startKey e') = true

theorem chronological_of_sortedBy {es chron : List ExecutionEntry}
    (h : sortedBy startComparable startLe startKey es = .ok chron) : Chronological es chron := by
  refine ⟨sortedBy_perm h, ?_⟩
  rw [sortedBy] at h
  split_ifs at h with hcomparable
  rw [← Except.ok.inj h]
  exact comparison_start.pairwise_insertionSort hcomparable

/-- The share of completed executions. -/
def completedShare (es : List ExecutionEntry) : ℚ :=
  (es.countP fun e => e.state = .str "COMPLETED") / es.length

/-- The last `n` executions. -/
def lastExecutions (n : Nat) (es : List ExecutionEntry) : List ExecutionEntry :=
  es.drop (es.length - n)

end ExecutionAnalyticsProjection

open ExecutionAnalyticsProjection

/-- How many executions of a list belong to the plugin. -/
def ofPlugin (skillToPlugin : OrdDict String String) (pid : String) (es : List ExecutionEntry) :
    Nat :=
  es.countP fun e => pluginOf skillToPlugin e = some pid

/-- The statistics agree with the state. -/
structure ExecutionAnalytics.Agrees (skillToPlugin : OrdDict String String) (windowSize : Int)
    (s : ExecutionState) (a : ExecutionAnalytics) : Prop where
  failures : ∀ e ∈ a.plugins.entries, e.2.failures = ofPlugin skillToPlugin e.1 s.failedExecutions
  timeouts : ∀ e ∈ a.plugins.entries, e.2.timeouts = ofPlugin skillToPlugin e.1 s.timeoutExecutions
  denials : ∀ e ∈ a.plugins.entries, e.2.denials = ofPlugin skillToPlugin e.1 s.deniedExecutions
  total : ∀ e ∈ a.plugins.entries,
    ofPlugin skillToPlugin e.1 s.completedExecutions + e.2.failures + e.2.timeouts + e.2.denials =
      e.2.totalExecutions
  rolling : 1 ≤ windowSize → ∀ e ∈ a.skills.entries, ∃ chron,
    Chronological (s.allExecutions.filter (·.hasSkill e.1)) chron ∧
      chron.length = e.2.totalExecutions ∧
      e.2.rollingSuccessRate =
        completedShare (lastExecutions (min windowSize.toNat e.2.totalExecutions) chron)

namespace ExecutionAnalyticsProjection

variable {u : UnicodeTables} {config : ExecutionAnalyticsConfig}
variable {skillToPlugin : OrdDict String String}

/-! ## Skills -/

theorem lastOf_eq {windowSize : Int} (hw : 1 ≤ windowSize) (es : List ExecutionEntry) :
    lastOf windowSize es = lastExecutions (min windowSize.toNat es.length) es := by
  rw [lastOf, if_pos (by omega), lastExecutions]
  congr 1
  omega

/-- The rolling rate of a skill with executions is that of its last ones. -/
theorem skillStatistics_rolling {s : ExecutionState} {skillId : Atom} {total : Nat}
    {st : SkillExecutionStatistics} (h : skillStatistics u config s skillId total = .ok st)
    (htotal : (s.allExecutions.filter (·.hasSkill skillId)).length = total) (hpos : 0 < total)
    (hw : 1 ≤ config.windowSize) :
    ∃ chron, Chronological (s.allExecutions.filter (·.hasSkill skillId)) chron ∧
      chron.length = st.totalExecutions ∧ st.rollingSuccessRate =
        completedShare (lastExecutions (min config.windowSize.toNat st.totalExecutions) chron) := by
  obtain ⟨chron, hchron, h⟩ := Except.bind_eq_ok_iff.mp h
  obtain ⟨_, -, h⟩ := Except.bind_eq_ok_iff.mp h
  obtain rfl := Except.pure_eq_ok_iff.mp h
  have hordered := chronological_of_sortedBy hchron
  have hlength : chron.length = total := hordered.perm.length_eq.trans htotal
  refine ⟨chron, hordered, hlength, ?_⟩
  dsimp only
  rw [if_pos hpos, lastOf_eq hw, hlength]
  split_ifs with hwindow
  · rfl
  · rw [completedShare, List.length_eq_zero_iff.mp (Nat.eq_zero_of_not_pos hwindow)]
    simp

theorem rolling_of_skills {s : ExecutionState} {es : List ExecutionEntry} (hs : s.Tracks es)
    {stats : OrdDict Atom SkillExecutionStatistics} (h : skillsStatistics u config s = .ok stats)
    (hw : 1 ≤ config.windowSize) : ∀ e ∈ stats.entries, ∃ chron,
      Chronological (s.allExecutions.filter (·.hasSkill e.1)) chron ∧
        chron.length = e.2.totalExecutions ∧ e.2.rollingSuccessRate =
          completedShare (lastExecutions (min config.windowSize.toNat e.2.totalExecutions) chron) := by
  intro e he
  obtain ⟨c, hc, hkey, hstats⟩ := (skillsStatistics_entries h).flip.exists_of_mem he
  obtain ⟨hcount, hpos⟩ := hs.counts.mem_entries hc
  rw [hkey]
  refine skillStatistics_rolling hstats ?_ hpos hw
  rw [(hs.perm.filter _).length_eq, hcount, Tally.count, List.countP_eq_length_filter]
  rfl

/-! ## Plugins -/

/-- The plugin of an execution in the given state. -/
def pluginIn (skillToPlugin : OrdDict String String) (state : String) (e : ExecutionEntry) :
    Option String :=
  if e.state = .str state then pluginOf skillToPlugin e else none

/-- The four dictionaries count the executions of a list. -/
structure PluginCounts.Tracks (skillToPlugin : OrdDict String String) (es : List ExecutionEntry)
    (c : PluginCounts) : Prop where
  counts : Tally.Counts (pluginOf skillToPlugin) es c.counts
  failures : Tally.Counts (pluginIn skillToPlugin "FAILED") es c.failures
  timeouts : Tally.Counts (pluginIn skillToPlugin "TIMEOUT") es c.timeouts
  denials : Tally.Counts (pluginIn skillToPlugin "DENIED") es c.denials

theorem PluginCounts.counts_add (c : PluginCounts) (pid : String) (state : Json) :
    (c.add pid state).counts = Tally.bump c.counts pid := by
  rw [add]
  split_ifs <;> rfl

theorem PluginCounts.failures_add (c : PluginCounts) (pid : String) (state : Json) :
    (c.add pid state).failures =
      if state = .str "FAILED" then Tally.bump c.failures pid else c.failures := by
  rw [add]
  split_ifs <;> rfl

theorem PluginCounts.timeouts_add (c : PluginCounts) (pid : String) (state : Json) :
    (c.add pid state).timeouts =
      if state = .str "TIMEOUT" then Tally.bump c.timeouts pid else c.timeouts := by
  rw [add]
  split_ifs with hfailed htimeout
  · rw [hfailed] at htimeout
    simp at htimeout
  all_goals rfl

theorem PluginCounts.denials_add (c : PluginCounts) (pid : String) (state : Json) :
    (c.add pid state).denials =
      if state = .str "DENIED" then Tally.bump c.denials pid else c.denials := by
  rw [add]
  split_ifs with hfailed hdenied htimeout hdenied
  · rw [hfailed] at hdenied
    simp at hdenied
  · rfl
  · rw [htimeout] at hdenied
    simp at hdenied
  all_goals rfl

/-- One more execution in the counts of a state. -/
theorem counts_pluginIn {es : List ExecutionEntry} {d d' : OrdDict String Nat} {state pid : String}
    {e : ExecutionEntry} (h : Tally.Counts (pluginIn skillToPlugin state) es d)
    (hpid : pluginOf skillToPlugin e = some pid)
    (hd : d' = if e.state = .str state then Tally.bump d pid else d) :
    Tally.Counts (pluginIn skillToPlugin state) (es ++ [e]) d' := by
  rw [hd]
  split_ifs with hstate
  · refine h.concat_bump ?_
    rw [pluginIn, if_pos hstate, hpid]
    rfl
  · exact h.concat_of_none (if_neg hstate)

theorem pluginCounts_tracks (es : List ExecutionEntry) :
    (es.foldl (pluginStep skillToPlugin) {}).Tracks skillToPlugin es := by
  induction es using List.reverseRecOn with
  | nil => exact ⟨.nil, .nil, .nil, .nil⟩
  | append_singleton before e ih =>
      rw [List.foldl_concat, pluginStep]
      cases hpid : pluginOf skillToPlugin e with
      | none =>
          have hnone : ∀ state, pluginIn skillToPlugin state e = none := by
            intro state
            rw [pluginIn, hpid, ite_self]
          exact ⟨ih.counts.concat_of_none hpid, ih.failures.concat_of_none (hnone _),
            ih.timeouts.concat_of_none (hnone _), ih.denials.concat_of_none (hnone _)⟩
      | some pid =>
          refine ⟨?_, counts_pluginIn ih.failures hpid (PluginCounts.failures_add ..),
            counts_pluginIn ih.timeouts hpid (PluginCounts.timeouts_add ..),
            counts_pluginIn ih.denials hpid (PluginCounts.denials_add ..)⟩
          rw [Option.elim_some, PluginCounts.counts_add]
          exact ih.counts.concat_bump hpid

/-- Every plugin of the report has its counts over all executions. -/
theorem mem_pluginsStatistics {s : ExecutionState} {e : String × PluginExecutionStatistics}
    (he : e ∈ (pluginsStatistics skillToPlugin s).entries) :
    e.2.totalExecutions = Tally.count (pluginOf skillToPlugin) s.allExecutions e.1 ∧
      e.2.failures = Tally.count (pluginIn skillToPlugin "FAILED") s.allExecutions e.1 ∧
      e.2.timeouts = Tally.count (pluginIn skillToPlugin "TIMEOUT") s.allExecutions e.1 ∧
      e.2.denials = Tally.count (pluginIn skillToPlugin "DENIED") s.allExecutions e.1 := by
  have htracks : (s.allExecutions.foldl (pluginStep skillToPlugin) {}).Tracks skillToPlugin
      s.allExecutions := pluginCounts_tracks _
  have hnodup := (s.allExecutions.foldl (pluginStep skillToPlugin) {}).counts.nodup
  rw [pluginsStatistics, OrdDict.entries_ofList, List.mem_map] at he
  · obtain ⟨pid, -, rfl⟩ := he
    exact ⟨htracks.counts.getD pid, htracks.failures.getD pid, htracks.timeouts.getD pid,
      htracks.denials.getD pid⟩
  · rw [OrdDict.keys, List.map_map, List.map_map]
    exact hnodup

theorem exists_pluginsStatistics {s : ExecutionState} {e : ExecutionEntry}
    (he : e ∈ s.allExecutions) {pid : String} (hpid : pluginOf skillToPlugin e = some pid) :
    ∃ st, (pid, st) ∈ (pluginsStatistics skillToPlugin s).entries := by
  have htracks : (s.allExecutions.foldl (pluginStep skillToPlugin) {}).Tracks skillToPlugin
      s.allExecutions := pluginCounts_tracks _
  have hnodup := (s.allExecutions.foldl (pluginStep skillToPlugin) {}).counts.nodup
  obtain ⟨x, hx, hkey⟩ := List.mem_map.mp ((htracks.counts.mem_normKeys pid).mpr ⟨e, he, hpid⟩)
  rw [pluginsStatistics, OrdDict.entries_ofList]
  · exact ⟨_, List.mem_map.mpr ⟨pid, List.mem_map.mpr ⟨x, hx, hkey⟩, rfl⟩⟩
  · rw [OrdDict.keys, List.map_map, List.map_map]
    exact hnodup

/-! ## The lists of the state -/

/-- The executions of a plugin in a list of the state, counted among all executions. -/
theorem ofPlugin_executions {s : ExecutionState} {es : List ExecutionEntry} (hs : s.Tracks es)
    (pid : String) (c : ExecutionClass) :
    ofPlugin skillToPlugin pid (s.executions c) = s.allExecutions.countP fun e =>
      decide (pluginOf skillToPlugin e = some pid) && decide (.ofState e.state = c) := by
  rw [ofPlugin, hs.classes, List.countP_filter, hs.perm.countP_eq]

/-- Where one class is exactly one state text both counts agree. -/
theorem count_pluginIn {s : ExecutionState} {es : List ExecutionEntry} (hs : s.Tracks es)
    (pid : String) {state : String} {c : ExecutionClass}
    (hstate : ∀ x, ExecutionClass.ofState x = c ↔ x = .str state) :
    Tally.count (pluginIn skillToPlugin state) s.allExecutions pid =
      ofPlugin skillToPlugin pid (s.executions c) := by
  rw [ofPlugin_executions hs, Tally.count]
  apply List.countP_congr
  intro e _
  rw [decide_eq_true_eq, Bool.and_eq_true, decide_eq_true_eq, decide_eq_true_eq, hstate, pluginIn]
  split_ifs with h <;> simp [h]

theorem ofState_eq_timeout_iff (x : Json) :
    ExecutionClass.ofState x = .timeout ↔ x = .str "TIMEOUT" := by
  rw [ExecutionClass.ofState]
  split_ifs with hcompleted htimeout hdenied <;> simp_all

theorem ofState_eq_denied_iff (x : Json) :
    ExecutionClass.ofState x = .denied ↔ x = .str "DENIED" := by
  rw [ExecutionClass.ofState]
  split_ifs with hcompleted htimeout hdenied <;> simp_all

/-- One of the four state texts. -/
def Known (state : Json) : Prop :=
  state = .str "COMPLETED" ∨ state = .str "FAILED" ∨ state = .str "TIMEOUT" ∨ state = .str "DENIED"

/-- A known state is filed as failed exactly when it says so. -/
theorem known_iff (x : Json) :
    Known x ↔ (ExecutionClass.ofState x = .failed → x = .str "FAILED") := by
  rw [ExecutionClass.ofState, Known]
  split_ifs with hcompleted htimeout hdenied <;> simp_all

/-- A plugin's failures are those of the list of failed executions exactly when no execution of
the plugin is filed there under another state. -/
theorem failures_eq_iff {s : ExecutionState} {es : List ExecutionEntry} (hs : s.Tracks es)
    (pid : String) :
    Tally.count (pluginIn skillToPlugin "FAILED") s.allExecutions pid =
        ofPlugin skillToPlugin pid s.failedExecutions ↔
      ∀ e ∈ s.allExecutions, pluginOf skillToPlugin e = some pid → Known e.state := by
  have hfailed : ofPlugin skillToPlugin pid s.failedExecutions = _ :=
    ofPlugin_executions hs pid .failed
  rw [hfailed, Tally.count, Tally.countP_eq_countP_iff]
  · apply forall₂_congr
    intro e _
    rw [Bool.and_eq_true, decide_eq_true_eq, decide_eq_true_eq, decide_eq_true_eq, known_iff,
      pluginIn]
    constructor
    · intro h hpid hclass
      by_contra hstate
      have hnone := h ⟨hpid, hclass⟩
      rw [if_neg hstate] at hnone
      cases hnone
    · rintro h ⟨hpid, hclass⟩
      rw [if_pos (h hpid hclass), hpid]
  · intro e _ hpid
    rw [decide_eq_true_eq, pluginIn] at hpid
    split_ifs at hpid with hstate
    rw [Bool.and_eq_true, decide_eq_true_eq, decide_eq_true_eq, hstate]
    exact ⟨hpid, rfl⟩

/-- The executions of a plugin are those in the four lists. -/
theorem count_pluginOf (s : ExecutionState) (pid : String) :
    Tally.count (pluginOf skillToPlugin) s.allExecutions pid =
      ofPlugin skillToPlugin pid s.completedExecutions +
        ofPlugin skillToPlugin pid s.failedExecutions +
          ofPlugin skillToPlugin pid s.timeoutExecutions +
            ofPlugin skillToPlugin pid s.deniedExecutions := by
  rw [Tally.count, ExecutionState.allExecutions, List.countP_append, List.countP_append,
    List.countP_append]
  rfl

/-- An execution with the given payload. -/
def executed (payload : JsonObj) : EventRecord where
  eventSequence := 1
  id := .zero
  projectId := .zero
  streamId := "skills"
  version := 1
  eventType := .skillExecuted
  metadata := ⟨"", "", "", ""⟩
  payload := payload
  parentId := none
  recordedAt := none
  schemaVersion := .int 1

/-- The skill `s1` of the plugin `p1`. -/
def onePlugin : OrdDict String String := .ofList [("s1", "p1")]

end ExecutionAnalyticsProjection

end RationaleVault.SkillPlatform
