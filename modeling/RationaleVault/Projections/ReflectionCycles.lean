import Mathlib.Data.Finset.Sort
import RationaleVault.Projections.Reflection

/-!
# Histories of reflection cycles

Cycles run on one ledger, with other events between them. The histories are
compared with what the cycles have reflected on: no target is to be approved
twice, and what is rebuilt from the events is to be what was reported.
-/

namespace RationaleVault

/-- What a cycle is given, and the events that its payloads are put into. -/
structure ReflectionCycle where
  order : SetOrder String
  learningRecords : List ExecutionLearningRecord
  config : ReflectionConfig
  createdAt : String
  envelope : Nat → EventRecord

/-- The event with a payload of the cycle. -/
def ReflectionCycle.event (c : ReflectionCycle) (i : Nat) (p : ReflectionGeneratedPayload) :
    EventRecord :=
  { c.envelope i with eventType := .reflectionGenerated, payload := p.toDict }

/-- What happens to a ledger. -/
inductive ReflectionOp
  | append (event : { event : EventRecord // event.eventType ≠ .reflectionGenerated })
  | cycle (c : ReflectionCycle)

/-- The events, the reports, and what the cycles have reflected on. -/
structure ReflectionHistory where
  events : List EventRecord := []
  reports : List ReflectionReport := []
  reflected : List Reflected := []

namespace ReflectionHistory

open ReflectionStateProjection ReflectionCandidateBuilder

variable (x : ReflectionEngine)

/-- A cycle projects the events so far and appends every payload it generates. -/
def cycle (h : ReflectionHistory) (c : ReflectionCycle) : Except Exc ReflectionHistory := do
  let new ← ReflectionStateProjection.reflected x c.order h.events c.learningRecords c.config
    c.createdAt
  let (report, bundle) ← project x c.order h.events c.learningRecords c.config c.createdAt
  return {
    events := h.events ++ bundle.generated.mapIdx c.event
    reports := h.reports ++ [report]
    reflected := h.reflected ++ new }

/-- One operation; a cycle that raises appends nothing. -/
def step (h : ReflectionHistory) : ReflectionOp → ReflectionHistory
  | .append event => { h with events := h.events ++ [event.1] }
  | .cycle c =>
      match cycle x h c with
      | .ok h' => h'
      | .error _ => h

/-- The targets of the approved reflections. -/
def approved (h : ReflectionHistory) : List String :=
  (h.reflected.filter Reflected.isCompleted).map fun r => r.candidate.context.target

/-- The approved reflections, which the reports have added one after another. -/
def reported (h : ReflectionHistory) : List Reflection :=
  (h.reflected.filter Reflected.isCompleted).map Reflected.reflection

/-- No target was approved twice. -/
def ReflectedOnce (h : ReflectionHistory) : Prop := h.approved.Nodup

/-- A later cycle rebuilds what was reported, and no report has a rejected reflection. -/
structure Replayed (h : ReflectionHistory) : Prop where
  rebuilt : ∀ createdAt, historical createdAt h.events = h.reported
  standing : ∀ report ∈ h.reports, ∀ r ∈ report.reflections, r.status ≠ .rejected

/-! ## What is rebuilt -/

/-- A reflection as it is rebuilt: the payload has no place for when it was completed. -/
def unfinished (r : Reflection) : Reflection := { r with completedAt := .null }

/-- The events have what the cycles reflected on, and all of that was compiled. -/
structure Coherent (h : ReflectionHistory) : Prop where
  rebuilt : ∀ createdAt, historical createdAt h.events =
    h.reflected.map fun r => unfinished r.reflection
  compiled : ∀ r ∈ h.reflected, ∃ float order assessment createdAt,
    r.reflection = ReflectionCompiler.compile float order assessment r.candidate createdAt

theorem coherent_empty : Coherent {} := ⟨fun _ => rfl, fun r hr => by cases hr⟩

theorem ofValue_value (status : ReflectionStatus) :
    ReflectionStatus.ofValue (.str status.value) = .ok status :=
  Json.enum_value (by decide) (by cases status <;> decide) _

/-- A payload is read back without the time of completion. -/
theorem historicalOf_event (c : ReflectionCycle) (i : Nat) (createdAt : String) (r : Reflected)
    (hcreated : r.reflection.createdAt = .str c.createdAt) :
    historicalOf createdAt (c.event i (payloadOf c.createdAt r)) =
      some (unfinished r.reflection) := by
  have hread : Reflection.fromDict (payloadOf c.createdAt r).toDict =
      .ok (unfinished r.reflection) := by
    change (ReflectionStatus.ofValue (.str r.reflection.status.value) >>= _) = _
    rw [ofValue_value, unfinished, hcreated]
    rfl
  rw [historicalOf, if_pos ⟨rfl, rfl⟩]
  have hpayload : (c.event i (payloadOf c.createdAt r)).payload =
      (payloadOf c.createdAt r).toDict := rfl
  rw [hpayload, hread]

theorem historical_append (createdAt : String) (events more : List EventRecord) :
    historical createdAt (events ++ more) =
      historical createdAt events ++ historical createdAt more :=
  List.filterMap_append

/-- The payloads of a cycle are rebuilt in their order, whatever the events around them are. -/
theorem historical_mapIdx {event : Nat → ReflectionGeneratedPayload → EventRecord}
    {createdAt at' : String} {new : List Reflected}
    (h : ∀ i, ∀ r ∈ new, historicalOf createdAt (event i (payloadOf at' r)) =
      some (unfinished r.reflection)) :
    historical createdAt ((new.map (payloadOf at')).mapIdx event) =
      new.map fun r => unfinished r.reflection := by
  induction new generalizing event with
  | nil => rfl
  | cons r rest ih =>
      rw [List.map_cons, List.mapIdx_cons, historical, List.filterMap_cons,
        h 0 r List.mem_cons_self, List.map_cons]
      exact congrArg (List.cons _) (ih fun i r hr => h (i + 1) r (List.mem_cons_of_mem _ hr))

/-! ## One operation -/

namespace Coherent

variable {h : ReflectionHistory}

theorem isCompleted_iff (hc : Coherent h) {r : Reflected} (hr : r ∈ h.reflected) :
    (r.reflection.status = .active ∨ r.reflection.status = .completed) ↔
      r.isCompleted = true := by
  obtain ⟨float, order, assessment, createdAt, heq⟩ := hc.compiled r hr
  rw [Reflected.isCompleted, heq, ReflectionCompiler.compile]
  split_ifs <;> simp

/-- The active targets are the names that are read of the approved ones. -/
theorem activeTargets_eq (hc : Coherent h) (createdAt : String) :
    activeTargets (historical createdAt h.events) = .ok (h.approved.map readTarget) := by
  have hstanding : (historical createdAt h.events).filter
      (fun r => r.status = .active || r.status = .completed) =
      (h.reflected.filter Reflected.isCompleted).map fun r => unfinished r.reflection := by
    rw [hc.rebuilt, List.filter_map]
    congr 1
    refine List.filter_congr fun r hr => ?_
    rw [Bool.eq_iff_iff, ← hc.isCompleted_iff hr]
    simp [unfinished]
  have hread : ∀ r ∈ h.reflected.filter Reflected.isCompleted,
      ((fun r => activeTarget r.reconstructedRationale) ∘ fun r => unfinished r.reflection) r =
        .ok (some (readTarget r.candidate.context.target)) := by
    intro r hr
    rw [Function.comp_apply, unfinished]
    obtain ⟨float, order, assessment, at', heq⟩ := hc.compiled r (List.mem_of_mem_filter hr)
    rw [heq]
    exact congrArg Except.ok (targetOfText_rationaleOf float _ _ _ _)
  rw [activeTargets, hstanding, List.mapM_map, Fold.mapM_eq_ok hread, Except.ok_bind_eq, approved,
    List.map_map, List.filterMap_map]
  exact congrArg Except.ok (congrFun List.filterMap_eq_map' _)

end Coherent

theorem exists_generateReportId {reflections : List Reflection}
    (h : ∀ r ∈ reflections, ∃ id, r.reflectionId = .str id) (createdAt : String) :
    ∃ reportId, ReflectionReport.generateReportId reflections createdAt = .ok reportId := by
  obtain ⟨ids, hids⟩ := List.exists_forall₂ h
  have hread : reflections.mapM Reflection.idText = .ok ids :=
    Fold.mapM_of_forall₂ (hids.imp fun _ _ heq => by rw [Reflection.idText, heq])
  simp only [ReflectionReport.generateReportId, hread]
  exact ⟨_, rfl⟩

/-- What a cycle reflects on. -/
def newOf (h : ReflectionHistory) (c : ReflectionCycle) : List Reflected :=
  (buildCandidates x.unicode c.learningRecords c.config c.createdAt).map
    (reflect x c.order c.config c.createdAt (h.approved.map readTarget))

theorem compiled_of_mem_newOf {h : ReflectionHistory} {c : ReflectionCycle} {r : Reflected}
    (hr : r ∈ newOf x h c) : ∃ assessment, r.reflection =
      ReflectionCompiler.compile x.float c.order assessment r.candidate c.createdAt := by
  obtain ⟨candidate, -, rfl⟩ := List.mem_map.mp hr
  exact ⟨_, rfl⟩

theorem Coherent.reflected_eq {h : ReflectionHistory} (hc : Coherent h) (c : ReflectionCycle) :
    ReflectionStateProjection.reflected x c.order h.events c.learningRecords c.config c.createdAt =
      .ok (newOf x h c) := by
  rw [ReflectionStateProjection.reflected, hc.activeTargets_eq]
  rfl

/-- The projection of a coherent history does not raise. -/
theorem Coherent.project_eq {h : ReflectionHistory} (hc : Coherent h) (c : ReflectionCycle) :
    ∃ report, report.reflections = historical c.createdAt h.events ++
        ((newOf x h c).filter Reflected.isCompleted).map Reflected.reflection ∧
      project x c.order h.events c.learningRecords c.config c.createdAt =
        .ok (report, ⟨(newOf x h c).map (payloadOf c.createdAt)⟩) := by
  have hids : ∀ r ∈ historical c.createdAt h.events ++
      ((newOf x h c).filter Reflected.isCompleted).map Reflected.reflection,
      ∃ id, r.reflectionId = .str id := by
    intro r hr
    rw [hc.rebuilt, List.mem_append, List.mem_map, List.mem_map] at hr
    rcases hr with ⟨r, hr, rfl⟩ | ⟨r, hr, rfl⟩
    · obtain ⟨_, _, _, _, heq⟩ := hc.compiled r hr
      exact ⟨_, by rw [unfinished, heq]; rfl⟩
    · obtain ⟨_, heq⟩ := compiled_of_mem_newOf x (List.mem_of_mem_filter hr)
      exact ⟨_, by rw [heq]; rfl⟩
  obtain ⟨reportId, hreport⟩ := exists_generateReportId hids c.createdAt
  refine ⟨⟨reportId, _, c.createdAt⟩, rfl, ?_⟩
  rw [project, hc.reflected_eq, Except.ok_bind_eq, bundleOf, hreport]
  rfl

theorem Coherent.step_cycle {h : ReflectionHistory} (hc : Coherent h) (c : ReflectionCycle) :
    ∃ report, report.reflections = historical c.createdAt h.events ++
        ((newOf x h c).filter Reflected.isCompleted).map Reflected.reflection ∧
      step x h (.cycle c) = {
        events := h.events ++ ((newOf x h c).map (payloadOf c.createdAt)).mapIdx c.event
        reports := h.reports ++ [report]
        reflected := h.reflected ++ newOf x h c } := by
  obtain ⟨report, hreport, hproject⟩ := hc.project_eq x c
  refine ⟨report, hreport, ?_⟩
  have hcycle : cycle x h c = .ok {
      events := h.events ++ ((newOf x h c).map (payloadOf c.createdAt)).mapIdx c.event
      reports := h.reports ++ [report]
      reflected := h.reflected ++ newOf x h c } := by
    rw [cycle, hc.reflected_eq, Except.ok_bind_eq, hproject]
    rfl
  rw [step, hcycle]

theorem Coherent.step {h : ReflectionHistory} (hc : Coherent h) (op : ReflectionOp) :
    Coherent (step x h op) := by
  cases op with
  | append event =>
      refine ⟨fun createdAt => ?_, hc.compiled⟩
      change historical createdAt (h.events ++ [event.1]) = _
      have hother : historicalOf createdAt event.1 = none := if_neg fun hand => event.2 hand.1
      rw [historical_append, hc.rebuilt, historical, List.filterMap_cons, hother]
      exact List.append_nil _
  | cycle c =>
      obtain ⟨report, -, hstep⟩ := hc.step_cycle x c
      rw [hstep]
      refine ⟨fun createdAt => ?_, fun r hr => ?_⟩
      · have hevents : historical createdAt
            (((newOf x h c).map (payloadOf c.createdAt)).mapIdx c.event) =
              (newOf x h c).map fun r => unfinished r.reflection :=
          historical_mapIdx fun i r hr => by
            obtain ⟨_, heq⟩ := compiled_of_mem_newOf x hr
            exact historicalOf_event c i createdAt r (by rw [heq]; rfl)
        rw [historical_append, hc.rebuilt, hevents, List.map_append]
      · rcases List.mem_append.mp hr with hr | hr
        · exact hc.compiled r hr
        · obtain ⟨assessment, heq⟩ := compiled_of_mem_newOf x hr
          exact ⟨_, _, assessment, _, heq⟩

/-! ## One reflection per target -/

theorem isCompleted_reflect {order : SetOrder String} {config : ReflectionConfig}
    {createdAt : String} {active : List String} {candidate : ReflectionCandidate} :
    (reflect x order config createdAt active candidate).isCompleted = true ↔
      ((evidenceRules x.round).all fun rule => rule candidate config) = true ∧
        candidate.context.target ∉ active := by
  have hstatus : ∀ approved : Bool,
      ((if approved then ReflectionStatus.completed else .rejected) = .completed) ↔
        approved = true := by
    decide
  rw [Reflected.isCompleted, decide_eq_true_iff]
  apply (hstatus _).trans
  rw [ReflectionRuleEngine.assess, List.all_append, Bool.and_eq_true]
  simp [duplicateSuppressionRule]

/-- A target that a cycle approves is one that the evidence speaks for, and whose name was not read
of any approved target. -/
theorem mem_approved_newOf {h : ReflectionHistory} {c : ReflectionCycle} {target : String} :
    target ∈ ((newOf x h c).filter Reflected.isCompleted).map (fun r => r.candidate.context.target) ↔
      ∃ candidate ∈ buildCandidates x.unicode c.learningRecords c.config c.createdAt,
        ((evidenceRules x.round).all fun rule => rule candidate c.config) = true ∧
          (∀ t ∈ h.approved, readTarget t ≠ candidate.context.target) ∧
          candidate.context.target = target := by
  simp only [newOf, List.mem_map, List.mem_filter]
  constructor
  · rintro ⟨r, ⟨⟨candidate, hcandidate, rfl⟩, hcompleted⟩, rfl⟩
    obtain ⟨hevidence, hactive⟩ := (isCompleted_reflect x).mp hcompleted
    refine ⟨candidate, hcandidate, hevidence, fun t ht heq => hactive ?_, rfl⟩
    exact heq ▸ List.mem_map_of_mem ht
  · rintro ⟨candidate, hcandidate, hevidence, hnames, rfl⟩
    refine ⟨_, ⟨⟨candidate, hcandidate, rfl⟩, (isCompleted_reflect x).mpr ⟨hevidence, ?_⟩⟩, rfl⟩
    rw [List.mem_map]
    rintro ⟨t, ht, heq⟩
    exact hnames t ht heq

/-- The approved targets of one cycle are distinct. -/
theorem nodup_approved_newOf (h : ReflectionHistory) (c : ReflectionCycle) :
    (((newOf x h c).filter Reflected.isCompleted).map
      fun r => r.candidate.context.target).Nodup := by
  have htargets : (newOf x h c).map (fun r => r.candidate.context.target) =
      (buildCandidates x.unicode c.learningRecords c.config c.createdAt).map
        fun candidate => candidate.context.target := by
    rw [newOf, List.map_map]
    rfl
  apply List.Sublist.nodup (List.filter_sublist.map _)
  rw [htargets]
  exact nodup_targets x.unicode c.learningRecords c.config c.createdAt

/-- If the evidence speaks for a candidate about an approved target, the name of that target is
read of the rationale of an approved reflection. -/
def Recognizes (h : ReflectionHistory) : ReflectionOp → Prop
  | .append _ => True
  | .cycle c =>
      ∀ candidate ∈ buildCandidates x.unicode c.learningRecords c.config c.createdAt,
        ((evidenceRules x.round).all fun rule => rule candidate c.config) = true →
        candidate.context.target ∈ h.approved →
        ∃ t ∈ h.approved, readTarget t = candidate.context.target

theorem reflectedOnce_step {h : ReflectionHistory} (op : ReflectionOp) (hc : Coherent h)
    (honce : ReflectedOnce h) : ReflectedOnce (step x h op) ↔ Recognizes x h op := by
  cases op with
  | append event => exact iff_of_true honce trivial
  | cycle c =>
      obtain ⟨report, -, hstep⟩ := hc.step_cycle x c
      rw [hstep, ReflectedOnce, approved, List.filter_append, List.map_append, List.nodup_append]
      constructor
      · rintro ⟨-, -, hdisjoint⟩ candidate hcandidate hevidence happroved
        by_contra hnone
        have hnames : ∀ t ∈ h.approved, readTarget t ≠ candidate.context.target :=
          fun t ht heq => hnone ⟨t, ht, heq⟩
        exact hdisjoint _ happroved _
          ((mem_approved_newOf x).mpr ⟨candidate, hcandidate, hevidence, hnames, rfl⟩) rfl
      · intro hrecognizes
        refine ⟨honce, nodup_approved_newOf x h c, ?_⟩
        rintro target happroved _ hnew rfl
        obtain ⟨candidate, hcandidate, hevidence, hnames, rfl⟩ := (mem_approved_newOf x).mp hnew
        obtain ⟨t, ht, heq⟩ := hrecognizes candidate hcandidate hevidence happroved
        exact hnames t ht heq

/-- In a history no target is approved twice, at any time, exactly if every cycle recognizes the
approved targets that the evidence speaks for again. -/
theorem reflectedOnce_iff (ops : List ReflectionOp) :
    (∀ pre, pre <+: ops → ReflectedOnce (pre.foldl (step x) {})) ↔
      ∀ pre op post, ops = pre ++ op :: post → Recognizes x (pre.foldl (step x) {}) op :=
  Fold.always_iff_of_invariant (P := ReflectedOnce) (Q := Coherent)
    (fun _ op hc => hc.step x op) (fun _ op hc honce => reflectedOnce_step x op hc honce)
    coherent_empty List.nodup_nil ops

theorem quote_not_mem_readTarget (target : String) : quote ∉ (readTarget target).toList := by
  have hread : quote ∉ target.toList.takeWhile (· ≠ quote) := fun hmem => by
    simpa using List.mem_takeWhile_imp hmem
  rw [readTarget, String.toList_ofList]
  split_ifs
  · exact fun hmem => hread (List.mem_of_mem_take hmem)
  · exact hread

/-- A record that complains about a skill with a quote in its name. -/
def complaint (learningId : String) : ExecutionLearningRecord where
  learningId := learningId
  plannerFeedback := {
    plannerId := "p1"
    confidenceAdjustment := -1
    skillPriorityDelta := .ofList [("it's", -1)]
    plannerRecommendation := .decreasePriority
    rationale := "" }
  createdAt := "2026-01-01T00:00:00"
  sourceArtifactIds := []

/-- A cycle on two such records. -/
def complaintCycle : ReflectionCycle where
  order := ⟨fun s => s.sort, fun s => by simp⟩
  learningRecords := [complaint "l1", complaint "l2"]
  config := ⟨"1.0", true, 1 / 2, [.outcomeMismatch]⟩
  createdAt := "2026-01-01T00:00:00"
  envelope _ := {
    eventSequence := 1, id := .zero, projectId := .zero, streamId := "", version := 1
    eventType := .reflectionGenerated, metadata := ⟨"", "", "", ""⟩, payload := []
    parentId := none, recordedAt := none, schemaVersion := .null }

/-- An engine with exact arithmetic. -/
def exactEngine : ReflectionEngine := ⟨.asciiOnly, id, .zeroOne⟩

theorem buildCandidates_complaintCycle :
    ∃ candidate, buildCandidates exactEngine.unicode complaintCycle.learningRecords
        complaintCycle.config complaintCycle.createdAt = [candidate] ∧
      candidate.context.target = "it's" ∧
      ((evidenceRules exactEngine.round).all fun rule => rule candidate complaintCycle.config) =
        true :=
  ⟨_, rfl, rfl, by decide +kernel⟩

theorem not_quiet_complaintCycle :
    ¬ Quiet exactEngine.unicode complaintCycle.config complaintCycle.learningRecords := by
  intro hquiet
  obtain ⟨candidate, hbuild, -⟩ := buildCandidates_complaintCycle
  rw [(buildCandidates_eq_nil_iff exactEngine.unicode).mpr hquiet] at hbuild
  cases hbuild

/-- Two cycles on the same records approve two reflections of one target. -/
theorem not_reflectedOnce_complaint : ¬ ReflectedOnce
    ([.cycle complaintCycle, .cycle complaintCycle].foldl (step exactEngine) {}) := by
  obtain ⟨candidate, hbuild, htarget, hevidence⟩ := buildCandidates_complaintCycle
  have hcandidate : candidate ∈ buildCandidates exactEngine.unicode complaintCycle.learningRecords
      complaintCycle.config complaintCycle.createdAt := hbuild ▸ List.mem_singleton_self candidate
  have hcoherent := coherent_empty.step exactEngine (.cycle complaintCycle)
  have honce : ReflectedOnce (step exactEngine {} (.cycle complaintCycle)) :=
    (reflectedOnce_step exactEngine _ coherent_empty List.nodup_nil).mpr
      fun _ _ _ happroved => by cases happroved
  have happroved : "it's" ∈ (step exactEngine {} (.cycle complaintCycle)).approved := by
    obtain ⟨report, -, hstep⟩ := coherent_empty.step_cycle exactEngine complaintCycle
    have hfresh : ∀ t ∈ ({} : ReflectionHistory).approved,
        readTarget t ≠ candidate.context.target := fun t ht => by cases ht
    rw [hstep, approved, List.filter_append, List.map_append, List.mem_append]
    exact Or.inr ((mem_approved_newOf exactEngine).mpr
      ⟨candidate, hcandidate, hevidence, hfresh, htarget⟩)
  intro h
  have hrecognizes := (reflectedOnce_step exactEngine (.cycle complaintCycle) hcoherent honce).mp h
  obtain ⟨t, -, heq⟩ := hrecognizes candidate hcandidate hevidence (htarget ▸ happroved)
  apply quote_not_mem_readTarget t
  rw [heq, htarget]
  decide

/-! ## Replay -/

/-- The records of a cycle make no candidate. -/
def Silent : ReflectionOp → Prop
  | .append _ => True
  | .cycle c => Quiet x.unicode c.config c.learningRecords

theorem status_of_mem_reported {h : ReflectionHistory} {r : Reflection} (hr : r ∈ h.reported) :
    r.status = .completed := by
  obtain ⟨_, hmem, rfl⟩ := List.mem_map.mp hr
  have hcompleted : Reflected.isCompleted _ = true := List.of_mem_filter hmem
  exact of_decide_eq_true hcompleted

/-- Nothing that a cycle reflects on is rebuilt as it was reported: what was rejected is rebuilt
too, and what was approved loses the time of its completion. -/
theorem newOf_eq_nil_of_rebuilt {h : ReflectionHistory} {c : ReflectionCycle}
    (hrebuilt : (newOf x h c).map (fun r => unfinished r.reflection) =
      ((newOf x h c).filter Reflected.isCompleted).map Reflected.reflection) :
    newOf x h c = [] := by
  cases hnew : newOf x h c with
  | nil => rfl
  | cons r rest =>
      exfalso
      have hr : r ∈ newOf x h c := hnew ▸ List.mem_cons_self
      obtain ⟨assessment, heq⟩ := compiled_of_mem_newOf x hr
      rw [hnew] at hrebuilt
      by_cases hcompleted : r.isCompleted = true
      · rw [List.filter_cons_of_pos hcompleted] at hrebuilt
        have hhead : unfinished r.reflection = r.reflection := (List.cons.inj hrebuilt).1
        have hlost : Json.null = r.reflection.completedAt := congrArg Reflection.completedAt hhead
        rw [Reflected.isCompleted, heq, ReflectionCompiler.compile] at hcompleted
        rw [heq, ReflectionCompiler.compile] at hlost
        cases happroved : assessment.approved with
        | true => simp [happroved] at hlost
        | false => simp [happroved] at hcompleted
      · rw [List.filter_cons_of_neg hcompleted] at hrebuilt
        have hlength := congrArg List.length hrebuilt
        have hle := List.length_filter_le Reflected.isCompleted rest
        simp only [List.map_cons, List.length_cons, List.length_map] at hlength
        omega

theorem replayed_step {h : ReflectionHistory} (op : ReflectionOp) (hc : Coherent h)
    (hreplayed : Replayed h) : Replayed (step x h op) ↔ Silent x op := by
  have hold : h.reflected.map (fun r => unfinished r.reflection) = h.reported := by
    rw [← hc.rebuilt "", hreplayed.rebuilt]
  cases op with
  | append event =>
      refine iff_of_true ⟨fun createdAt => ?_, hreplayed.standing⟩ trivial
      rw [(hc.step x (.append event)).rebuilt]
      exact hold
  | cycle c =>
      obtain ⟨report, hreport, hstep⟩ := hc.step_cycle x c
      have hsilent : newOf x h c = [] ↔ Silent x (.cycle c) := by
        rw [newOf, List.map_eq_nil_iff, buildCandidates_eq_nil_iff]
        rfl
      rw [← hsilent]
      constructor
      · intro hnext
        have hrebuilt := hnext.rebuilt c.createdAt
        rw [(hc.step x (.cycle c)).rebuilt, hstep, reported, List.map_append, List.filter_append,
          List.map_append, hold] at hrebuilt
        exact newOf_eq_nil_of_rebuilt x (List.append_cancel_left hrebuilt)
      · intro hnone
        refine ⟨fun createdAt => ?_, fun report' hreport' r hr => ?_⟩
        · rw [(hc.step x (.cycle c)).rebuilt, hstep, hnone, reported, List.append_nil]
          exact hold
        · rw [hstep] at hreport'
          rcases List.mem_append.mp hreport' with hreport' | hlast
          · exact hreplayed.standing report' hreport' r hr
          · rw [List.mem_singleton.mp hlast, hreport, hnone, hreplayed.rebuilt] at hr
            have hstatus := status_of_mem_reported (by simpa using hr)
            simp [hstatus]

theorem replayed_empty : Replayed {} :=
  ⟨fun _ => rfl, fun report hreport => by cases hreport⟩

/-- What is rebuilt is what was reported, throughout a history, exactly if no cycle has a
candidate. -/
theorem replayed_iff (ops : List ReflectionOp) :
    (∀ pre, pre <+: ops → Replayed (pre.foldl (step x) {})) ↔
      ∀ pre op post, ops = pre ++ op :: post → Silent x op :=
  Fold.always_iff_of_invariant (P := Replayed) (Q := Coherent) (C := fun _ op => Silent x op)
    (fun _ op hc => hc.step x op) (fun _ op hc hreplayed => replayed_step x op hc hreplayed)
    coherent_empty replayed_empty ops

/-- The reflection of a cycle is rebuilt without the time of its completion. -/
theorem not_replayed_complaint :
    ¬ Replayed ([.cycle complaintCycle].foldl (step exactEngine) {}) := fun h =>
  not_quiet_complaintCycle ((replayed_step exactEngine (.cycle complaintCycle) coherent_empty
    replayed_empty).mp h)

end ReflectionHistory

end RationaleVault
