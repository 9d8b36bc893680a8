import RationaleVault.CognitiveHead.Synthesis

/-!
# Reasoning over knowledge states

Contradictions are sought between knowledge objects, so a finding names two
knowledge ids; synthesis looks the named ids up among the memories that support
a belief. A contradicted object is therefore withheld exactly when a finding
with the id in question happens to name a supporting memory of its title.
-/

namespace RationaleVault

namespace ReasoningEngine

variable (u : UnicodeTables) (clock : Clock)

/-- The loop that keeps the first object of each id. -/
def firstOfEachId (seenIds : List String) : List KnowledgeObject → List KnowledgeObject
  | [] => []
  | k :: rest =>
      if k.id ∈ seenIds then firstOfEachId seenIds rest
      else k :: firstOfEachId (seenIds ++ [k.id]) rest

/-- The record under which an object is searched for contradictions. -/
def tempRecord (k : KnowledgeObject) : MemoryRecord :=
  { id := k.id, version := k.version, title := k.title, content := k.content
    memoryType := .decision, importance := "medium", lifecycleStatus := "active"
    sourceEventIds := [], sourceType := "manual", createdAt := clock.createdAt k }

def tempRecords (states : List KnowledgeState) : List MemoryRecord :=
  (firstOfEachId [] (EvidenceAggregator.activeObjects states)).map (tempRecord clock)

/-- The findings over the active objects of all states. -/
def findings (states : List KnowledgeState) (suppressedIds : List String) :
    List ContradictionFinding :=
  ContradictionEngine.detect u suppressedIds (tempRecords clock states)

/-- The belief of a bundle before doubt spreads. -/
def initialBelief (config : ReasoningConfig) (b : EvidenceBundle) : Belief :=
  BeliefEngine.construct u b.title b.content (AssessmentEngine.assess b config)
    b.supportingEvidence

/-- The support graphs of all states in one. -/
def supportGraph (states : List KnowledgeState) : OrdDict String (List String) :=
  (states.flatMap fun state => state.supportGraph.entries).foldl
    (fun graph (src, targets) => graph.set src ((graph.get? src).getD [] ++ targets)) .empty

/-- The beliefs of a report. -/
def beliefs (states : List KnowledgeState) (config : ReasoningConfig) : List Belief :=
  let bundles := EvidenceAggregator.aggregate u clock states
  let conceptIdToBeliefId := OrdDict.ofList (bundles.map fun b =>
    (b.conceptId, (initialBelief u config b).beliefId))
  PropagationEngine.propagateBeliefs (bundles.map (initialBelief u config)) conceptIdToBeliefId
    (supportGraph states) config

/-- `ReasoningEngine.reason(knowledge_states, suppressed_ids, config)`. -/
def reason (states : List KnowledgeState) (suppressedIds : List String)
    (config : ReasoningConfig) : Except Exc ReasoningReport :=
  ReasoningReportBuilder.build (beliefs u clock states config)
    (findings u clock states suppressedIds) config

/-- `ReasoningEngine.synthesize(report, synthesis_config, gate_policy)`. -/
def synthesize (report : ReasoningReport) (synthesisConfig : SynthesisConfig)
    (gatePolicy : DecisionGatePolicy) : Except Exc DecisionSet := do
  let synthesis ← SynthesisEngine.synthesize report synthesisConfig
  return DecisionGate.gate synthesis gatePolicy

/-! ## Beliefs and their bundles -/

variable {u clock}

theorem reason_eq_ok {states : List KnowledgeState} {suppressedIds : List String}
    {config : ReasoningConfig} {report : ReasoningReport}
    (h : reason u clock states suppressedIds config = .ok report) :
    report.beliefs = beliefs u clock states config ∧
      report.contradictions = findings u clock states suppressedIds :=
  ReasoningReportBuilder.build_eq_ok h

theorem identity_beliefs (states : List KnowledgeState) (config : ReasoningConfig) :
    (beliefs u clock states config).map Belief.identity =
      (EvidenceAggregator.aggregate u clock states).map fun b =>
        (initialBelief u config b).identity := by
  rw [beliefs, PropagationEngine.identity_propagateBeliefs, List.map_map]
  rfl

/-- The evidence of a belief: the memories of the active objects with its title. -/
theorem mem_supportingEvidence {states : List KnowledgeState} {config : ReasoningConfig}
    {b : Belief} (hb : b ∈ beliefs u clock states config) (m : String) :
    m ∈ b.supportingEvidence ↔ ∃ k ∈ EvidenceAggregator.activeObjects states,
      EvidenceAggregator.normTitle u k = PythonText.normalized u b.title ∧
        m ∈ k.supportingMemoryIds := by
  have hid := List.mem_map_of_mem (f := Belief.identity) hb
  rw [identity_beliefs] at hid
  obtain ⟨bundle, hbundle, heq⟩ := List.mem_map.mp hid
  simp only [Belief.identity, initialBelief, BeliefEngine.construct, Prod.mk.injEq] at heq
  obtain ⟨_, htitle, _, hevidence⟩ := heq
  rw [← hevidence, ← htitle]
  exact EvidenceAggregator.mem_aggregate hbundle m

/-- A belief is known by its normalized title. -/
theorem eq_of_title {states : List KnowledgeState} {config : ReasoningConfig} {b b' : Belief}
    (hb : b ∈ beliefs u clock states config) (hb' : b' ∈ beliefs u clock states config)
    (h : PythonText.normalized u b.title = PythonText.normalized u b'.title) : b = b' := by
  have htitles : (beliefs u clock states config).map
      (fun b => PythonText.normalized u b.title) =
      (EvidenceAggregator.aggregate u clock states).map
        fun b => PythonText.normalized u b.title := by
    have hid : (beliefs u clock states config).map Belief.identity = _ :=
      identity_beliefs states config
    have hnormalized := congrArg (List.map fun i : String × String × String × List String =>
      PythonText.normalized u i.2.1) hid
    rwa [List.map_map, List.map_map] at hnormalized
  have hnodup : ((EvidenceAggregator.aggregate u clock states).map
      fun b => PythonText.normalized u b.title).Nodup := EvidenceAggregator.nodup_titles states
  rw [← htitles] at hnodup
  exact List.inj_on_of_nodup_map hnodup hb hb' h

/-- Every active object has a belief. -/
theorem exists_belief {states : List KnowledgeState} {config : ReasoningConfig}
    {k : KnowledgeObject} (hk : k ∈ EvidenceAggregator.activeObjects states) :
    ∃ b ∈ beliefs u clock states config,
      PythonText.normalized u b.title = EvidenceAggregator.normTitle u k := by
  obtain ⟨bundle, hbundle, htitle⟩ : ∃ b ∈ EvidenceAggregator.aggregate u clock states,
      PythonText.normalized u b.title = EvidenceAggregator.normTitle u k :=
    EvidenceAggregator.exists_bundle hk
  have hid : (initialBelief u config bundle).identity ∈
      (beliefs u clock states config).map Belief.identity := by
    rw [identity_beliefs]
    exact List.mem_map_of_mem hbundle
  obtain ⟨b, hb, heq⟩ := List.mem_map.mp hid
  have hb_title : b.title = bundle.title := congrArg (fun i => i.2.1) heq
  exact ⟨b, hb, by rw [hb_title, htitle]⟩

/-! ## Contradicted knowledge at the gate -/

/-- An unsuppressed finding of the report names the object. -/
structure Contradicts (report : ReasoningReport) (f : ContradictionFinding)
    (k : KnowledgeObject) : Prop where
  mem : f ∈ report.contradictions
  unsuppressed : f.suppressed = false
  names : f.ruleAId = k.id ∨ f.ruleBId = k.id

/-- The id and the title are those of the belief. -/
def Concerns (b : Belief) (beliefId beliefTitle : String) : Prop :=
  beliefId = b.beliefId ∧ beliefTitle = b.title

/-- No decision is made for a belief, and its item lists a finding. -/
structure Withheld (report : ReasoningReport) (config : SynthesisConfig)
    (policy : DecisionGatePolicy) (b : Belief) (findingId : String) : Prop where
  undecided : ∃ set, synthesize report config policy = .ok set ∧
    ∀ d ∈ set.decisions, ¬Concerns b d.beliefId d.beliefTitle
  listed : ∃ synthesis, SynthesisEngine.synthesize report config = .ok synthesis ∧
    ∃ item ∈ synthesis.items, Concerns b item.candidate.beliefId item.candidate.beliefTitle ∧
      findingId ∈ item.candidate.contradictionIds

/-- Under a policy that blocks contradicted items a belief is withheld exactly when its
evidence has the finding. -/
theorem withheld_iff {states : List KnowledgeState} {suppressedIds : List String}
    {config : ReasoningConfig} {report : ReasoningReport}
    (hreason : reason u clock states suppressedIds config = .ok report) {b : Belief}
    (hb : b ∈ report.beliefs) (synthesisConfig : SynthesisConfig) {policy : DecisionGatePolicy}
    (hpolicy : policy.blockIfContradicted = true) (findingId : String) :
    Withheld report synthesisConfig policy b findingId ↔
      synthesisConfig.impactBreadthDivisor ≠ 0 ∧
        findingId ∈ SynthesisEngine.activeContradictionIdsForBelief b report.contradictions := by
  have hbeliefs := (reason_eq_ok hreason).1
  -- items and decisions about `b` belong to `b`: no other belief has its title
  have hown : ∀ b' ∈ report.beliefs, b'.title = b.title → b' = b := by
    rw [hbeliefs] at hb ⊢
    exact fun b' hb' htitle => eq_of_title hb' hb (by rw [htitle])
  constructor
  · rintro ⟨_, synthesis, hsynthesis, item, hitem, ⟨_, htitle⟩, hlisted⟩
    obtain ⟨hfrom, hto⟩ := SynthesisEngine.items_synthesize hsynthesis
    obtain ⟨b', hb', hof⟩ := hfrom item hitem
    obtain rfl := hown b' hb' (hof.beliefTitle.symm.trans htitle)
    exact ⟨(hto b' hb).1, (hof.mem_contradictionIds findingId).mp hlisted⟩
  · rintro ⟨hdivisor, hactive⟩
    obtain ⟨synthesis, hsynthesis⟩ := SynthesisEngine.exists_synthesize hdivisor report
    obtain ⟨hfrom, hto⟩ := SynthesisEngine.items_synthesize hsynthesis
    constructor
    · refine ⟨DecisionGate.gate synthesis policy, by rw [synthesize, hsynthesis]; rfl, ?_⟩
      rintro d hd ⟨_, htitle⟩
      obtain ⟨item, hitem, hpass, rfl⟩ := DecisionGate.exists_item hd
      obtain ⟨b', hb', hof⟩ := hfrom item hitem
      obtain rfl := hown b' hb' (hof.beliefTitle.symm.trans htitle)
      have hne : item.candidate.contradictionIds ≠ [] :=
        List.ne_nil_of_mem ((hof.mem_contradictionIds findingId).mpr hactive)
      rw [DecisionGate.passesGate_eq_false hpolicy hne] at hpass
      cases hpass
    · obtain ⟨_, item, hitem, hof⟩ := hto b hb
      exact ⟨synthesis, hsynthesis, item, hitem, ⟨hof.beliefId, hof.beliefTitle⟩,
        (hof.mem_contradictionIds findingId).mpr hactive⟩

/-- Contradicted knowledge is withheld exactly when an unsuppressed finding with the id of the
finding at hand names a memory that supports active knowledge of the same title. -/
theorem contradicted_withheld_iff (u : UnicodeTables) (clock : Clock)
    {states : List KnowledgeState} {suppressedIds : List String} {config : ReasoningConfig}
    {report : ReasoningReport} (hreason : reason u clock states suppressedIds config = .ok report)
    {state : KnowledgeState} (hstate : state ∈ states) {k : KnowledgeObject}
    (hk : k ∈ state.activeKnowledge) {f : ContradictionFinding} (_hf : Contradicts report f k)
    (synthesisConfig : SynthesisConfig) {policy : DecisionGatePolicy}
    (hpolicy : policy.blockIfContradicted = true) :
    ∃ b ∈ report.beliefs, PythonText.normalized u b.title = PythonText.normalized u k.title ∧
      (Withheld report synthesisConfig policy b f.findingId ↔
        synthesisConfig.impactBreadthDivisor ≠ 0 ∧
          ∃ c ∈ findings u clock states suppressedIds, c.suppressed = false ∧
            c.findingId = f.findingId ∧
            ∃ state' ∈ states, ∃ k' ∈ state'.activeKnowledge,
              PythonText.normalized u k'.title = PythonText.normalized u k.title ∧
              (c.ruleAId ∈ k'.supportingMemoryIds ∨ c.ruleBId ∈ k'.supportingMemoryIds)) := by
  obtain ⟨hbeliefs, hfindings⟩ := reason_eq_ok hreason
  obtain ⟨b, hb, htitle⟩ : ∃ b ∈ beliefs u clock states config,
      PythonText.normalized u b.title = EvidenceAggregator.normTitle u k :=
    exists_belief (EvidenceAggregator.mem_activeObjects.mpr ⟨state, hstate, hk⟩)
  refine ⟨b, hbeliefs ▸ hb, htitle, ?_⟩
  rw [withheld_iff hreason (hbeliefs ▸ hb) synthesisConfig hpolicy, hfindings]
  apply and_congr_right'
  have hevidence : ∀ m, m ∈ b.supportingEvidence ↔ ∃ state' ∈ states,
      ∃ k' ∈ state'.activeKnowledge,
        PythonText.normalized u k'.title = PythonText.normalized u k.title ∧
          m ∈ k'.supportingMemoryIds := by
    intro m
    rw [mem_supportingEvidence hb, htitle]
    simp only [EvidenceAggregator.mem_activeObjects, EvidenceAggregator.normTitle]
    constructor
    · rintro ⟨k', ⟨state', hstate', hk'⟩, h⟩
      exact ⟨state', hstate', k', hk', h⟩
    · rintro ⟨state', hstate', k', hk', h⟩
      exact ⟨k', ⟨state', hstate', hk'⟩, h⟩
  simp only [SynthesisEngine.activeContradictionIdsForBelief, activeContradictions, List.mem_map,
    List.mem_filter, Bool.not_eq_true', Bool.or_eq_true, decide_eq_true_eq, hevidence]
  constructor
  · rintro ⟨c, ⟨⟨hc, hunsuppressed⟩, hnamed⟩, hid⟩
    refine ⟨c, hc, hunsuppressed, hid, ?_⟩
    obtain ⟨state', hstate', k', hk', htitle', hm⟩ | ⟨state', hstate', k', hk', htitle', hm⟩ :=
      hnamed
    · exact ⟨state', hstate', k', hk', htitle', .inl hm⟩
    · exact ⟨state', hstate', k', hk', htitle', .inr hm⟩
  · rintro ⟨c, hc, hunsuppressed, hid, state', hstate', k', hk', htitle', hm | hm⟩
    · exact ⟨c, ⟨⟨hc, hunsuppressed⟩, .inl ⟨state', hstate', k', hk', htitle', hm⟩⟩, hid⟩
    · exact ⟨c, ⟨⟨hc, hunsuppressed⟩, .inr ⟨state', hstate', k', hk', htitle', hm⟩⟩, hid⟩

/-- A clock on which no text is a date. -/
def undated : Clock where
  Instant := Unit
  createdAt _ := "2026-01-01T00:00:00"
  fromisoformat _ := none
  gt _ _ := none
  ageDays _ := 0

/-- A fully trusted object drawn from one memory. -/
def rule (id title content memory : String) : KnowledgeObject where
  id := id
  version := 1
  title := title
  content := content
  knowledgeType := .lesson
  knowledgeDomain := .architecture
  confidence := ⟨1, 1, 0, .one⟩
  importance := "high"
  provenance := ⟨id, [memory], [], "", ⟨1, 1, 0, .one⟩, 1, ""⟩
  supportingMemoryIds := [memory]
  createdAt := ""
  updatedAt := ""

/-- Two rules that contradict each other. -/
def opposed : List KnowledgeState :=
  [{ projectId := "p1", activeKnowledge := [rule "k1" "Storage" "enable sqlite" "m1",
    rule "k2" "Tests" "disable sqlite" "m2"] }]

/-- The pair is found, and the first rule is approved all the same. -/
theorem contradicted_approved :
    ∃ report set f, reason .asciiOnly undated opposed [] {} = .ok report ∧
      synthesize report {} {} = .ok set ∧
      Contradicts report f (rule "k1" "Storage" "enable sqlite" "m1") ∧
      ∃ b ∈ report.beliefs, b.title = "Storage" ∧
        ∃ d ∈ set.decisions, Concerns b d.beliefId d.beliefTitle := by
  have hrun : (match reason .asciiOnly undated opposed [] {} with
    | .error _ => false
    | .ok report =>
        match synthesize report {} {} with
        | .error _ => false
        | .ok set =>
            (report.contradictions.any fun f => !f.suppressed && f.ruleAId == "k1") &&
            report.beliefs.any fun b => b.title == "Storage" &&
              set.decisions.any fun d => d.beliefId == b.beliefId && d.beliefTitle == b.title) =
      true := by decide +kernel
  cases hreason : reason .asciiOnly undated opposed [] {} with
  | error e =>
      rw [hreason] at hrun
      cases hrun
  | ok report =>
      rw [hreason] at hrun
      cases hset : synthesize report {} {} with
      | error e =>
          simp only [hset] at hrun
          cases hrun
      | ok set =>
          simp only [hset, Bool.and_eq_true, List.any_eq_true, Bool.not_eq_true',
            beq_iff_eq] at hrun
          obtain ⟨⟨f, hf, hunsuppressed, hname⟩, b, hb, htitle, d, hd, hid, hdtitle⟩ := hrun
          exact ⟨report, set, f, rfl, hset, ⟨hf, hunsuppressed, .inl hname⟩, b, hb, htitle, d, hd,
            hid, hdtitle⟩

theorem contradicts_opposed :
    ∃ report f, reason .asciiOnly undated opposed [] {} = .ok report ∧
      Contradicts report f (rule "k1" "Storage" "enable sqlite" "m1") := by
  have hrun : (match reason .asciiOnly undated opposed [] {} with
    | .error _ => false
    | .ok report => report.contradictions.any fun f => !f.suppressed && f.ruleAId == "k1") =
      true := by decide +kernel
  cases hreason : reason .asciiOnly undated opposed [] {} with
  | error e =>
      rw [hreason] at hrun
      cases hrun
  | ok report =>
      simp only [hreason, List.any_eq_true, Bool.and_eq_true, Bool.not_eq_true',
        beq_iff_eq] at hrun
      obtain ⟨f, hf, hunsuppressed, hname⟩ := hrun
      exact ⟨report, f, rfl, hf, hunsuppressed, .inl hname⟩

/-- What decides over the first of the opposed rules. -/
theorem contradicted_withheld_iff_opposed :
    ∃ report, ∃ f : ContradictionFinding, reason .asciiOnly undated opposed [] {} = .ok report ∧
      ∃ b ∈ report.beliefs, PythonText.normalized .asciiOnly b.title =
          PythonText.normalized .asciiOnly "Storage" ∧
        (Withheld report {} {} b f.findingId ↔
          ({} : SynthesisConfig).impactBreadthDivisor ≠ 0 ∧
            ∃ c ∈ findings .asciiOnly undated opposed [], c.suppressed = false ∧
              c.findingId = f.findingId ∧ ∃ state' ∈ opposed, ∃ k' ∈ state'.activeKnowledge,
                PythonText.normalized .asciiOnly k'.title =
                    PythonText.normalized .asciiOnly "Storage" ∧
                  (c.ruleAId ∈ k'.supportingMemoryIds ∨ c.ruleBId ∈ k'.supportingMemoryIds)) := by
  obtain ⟨report, f, hreason, hf⟩ := contradicts_opposed
  exact ⟨report, f, hreason, contradicted_withheld_iff .asciiOnly undated hreason
    List.mem_cons_self List.mem_cons_self hf {} rfl⟩

end ReasoningEngine

end RationaleVault
