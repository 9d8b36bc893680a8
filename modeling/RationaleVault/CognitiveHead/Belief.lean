import RationaleVault.CognitiveHead.Evidence
import RationaleVault.Knowledge.Contradiction
import RationaleVault.Library.Kahn

/-!
# Beliefs

Each evidence bundle is assessed and becomes a belief. Doubt then spreads along
the support graph, from a belief to the beliefs it supports. Spreading changes
confidences and dependents only.
-/

namespace RationaleVault

structure ReasoningConfig where
  version : String := "BeliefEngine v1"
  attenuation : ℚ := 4 / 5
  agreementWeight : ℚ := 1 / 10
  corroborationWeight : ℚ := 1 / 20
  contradictionPenaltyWeight : ℚ := 3 / 10
  stalenessPenaltyWeight : ℚ := 1 / 100

structure EvidenceAssessment where
  baseConfidence : ℚ
  agreementScore : ℚ
  corroborationScore : ℚ
  contradictionPenalty : ℚ
  stalenessPenalty : ℚ
  propagatedAdjustment : ℚ
  localConfidence : ℚ
  finalConfidence : ℚ

/-- `AssessmentEngine.assess(bundle, config)`. -/
def AssessmentEngine.assess (bundle : EvidenceBundle) (config : ReasoningConfig) :
    EvidenceAssessment :=
  let base := bundle.baseConfidence
  let agreement := min (1 / 5) (max 0 ((bundle.sourceDiversity - 1 : ℚ) * config.agreementWeight))
  let corroboration :=
    min (1 / 5) (max 0 (bundle.supportingEvidence.length * config.corroborationWeight))
  let numContradictions :=
    bundle.contradictingEvidence.length + bundle.contradictionFindings.length
  let contradictionPenalty :=
    min 1 (max 0 (numContradictions * config.contradictionPenaltyWeight))
  let stalenessPenalty := min (1 / 2) (max 0 (bundle.freshness * config.stalenessPenaltyWeight))
  let localConfidence :=
    max 0 (min 1 (base + agreement + corroboration - contradictionPenalty - stalenessPenalty))
  { baseConfidence := base
    agreementScore := agreement
    corroborationScore := corroboration
    contradictionPenalty := contradictionPenalty
    stalenessPenalty := stalenessPenalty
    propagatedAdjustment := 0
    localConfidence := localConfidence
    finalConfidence := localConfidence }

structure Belief where
  beliefId : String
  title : String
  content : String
  localConfidence : ℚ
  propagatedAdjustment : ℚ
  finalConfidence : ℚ
  assessment : EvidenceAssessment
  supportingEvidence : List String
  dependentBeliefIds : List String

namespace BeliefEngine

variable (u : UnicodeTables)

/-- `BeliefEngine.generate_belief_id(title, content)`. -/
def generateBeliefId (title content : String) : String :=
  "BEL-" ++ shortHash ("belief:" ++ PythonText.normalized u title ++ ":" ++
    PythonText.normalized u content)

/-- `BeliefEngine.construct(title, content, assessment, supporting_evidence)`. -/
def construct (title content : String) (assessment : EvidenceAssessment)
    (supportingEvidence : List String) : Belief :=
  { beliefId := generateBeliefId u title content
    title := title
    content := content
    localConfidence := assessment.localConfidence
    propagatedAdjustment := assessment.propagatedAdjustment
    finalConfidence := assessment.finalConfidence
    assessment := assessment
    supportingEvidence := supportingEvidence
    dependentBeliefIds := [] }

end BeliefEngine

/-- The part of a belief that its evidence fixes. -/
def Belief.identity (b : Belief) : String × String × String × List String :=
  (b.beliefId, b.title, b.content, b.supportingEvidence)

namespace PropagationEngine

/-! ## The support graph -/

/-- The valid targets of a concept. -/
def adj (concepts : List String) (supportGraph : OrdDict String (List String)) (src : String) :
    List String :=
  if src ∈ concepts then ((supportGraph.get? src).getD []).filter (· ∈ concepts) else []

def inDegree (concepts : List String) (supportGraph : OrdDict String (List String))
    (tgt : String) : Int :=
  (concepts.flatMap (adj concepts supportGraph)).count tgt

/-- The order in which the concepts are taken out of the queue. -/
def topoOrder (concepts : List String) (supportGraph : OrdDict String (List String)) :
    List String :=
  let degrees := inDegree concepts supportGraph
  let queue := concepts.filter fun cid => degrees cid = 0
  Kahn.loop (adj concepts supportGraph) (Kahn.pending concepts.toFinset degrees queue) degrees
    queue []

theorem mem_adj {concepts : List String} {supportGraph : OrdDict String (List String)}
    {src tgt : String} (h : tgt ∈ adj concepts supportGraph src) : tgt ∈ concepts := by
  unfold adj at h
  split at h
  · simpa using (List.mem_filter.mp h).2
  · cases h

/-- The queue is empty at the end: more rounds would change nothing. -/
theorem topoOrder_eq_loop (concepts : List String) (supportGraph : OrdDict String (List String))
    {fuel : Nat} (h : Kahn.pending concepts.toFinset (inDegree concepts supportGraph)
      (concepts.filter fun cid => inDegree concepts supportGraph cid = 0) ≤ fuel) :
    Kahn.loop (adj concepts supportGraph) fuel (inDegree concepts supportGraph)
      (concepts.filter fun cid => inDegree concepts supportGraph cid = 0) [] =
      topoOrder concepts supportGraph :=
  Kahn.loop_of_le (fun _ _ hm => List.mem_toFinset.mpr (mem_adj hm)) h le_rfl []

/-! ## Spreading -/

/-- `belief_map`: the concept of a belief with the place of the belief. -/
def beliefMap (beliefs : List Belief) (conceptIdToBeliefId : OrdDict String String) :
    OrdDict String Nat :=
  beliefs.zipIdx.foldl (fun beliefMap (b, i) =>
    match conceptIdToBeliefId.entries.find? fun e => e.2 = b.beliefId with
    | some e => beliefMap.set e.1 i
    | none => beliefMap) .empty

variable (adj : String → List String) (beliefMap : OrdDict String Nat)

/-- The belief of a concept. -/
def beliefAt (beliefs : List Belief) (cid : String) : Option Belief :=
  (beliefMap.get? cid).bind fun i => beliefs[i]?

/-- Change the belief of a concept in its place. -/
def updateAt (beliefs : List Belief) (cid : String) (f : Belief → Belief) : List Belief :=
  match beliefMap.get? cid with
  | some i => beliefs.modify i f
  | none => beliefs

/-- List the beliefs a belief supports among its dependents. -/
def linkDependents (beliefs : List Belief) (src : String) : List Belief :=
  updateAt beliefMap beliefs src fun b =>
    let dependents := (adj src).foldl (fun ids tgt =>
      match beliefAt beliefMap beliefs tgt with
      | some t => if t.beliefId ∈ ids then ids else ids ++ [t.beliefId]
      | none => ids) b.dependentBeliefIds
    { b with dependentBeliefIds := Table.orderBy id dependents }

/-- The doubt of a parent lowers the confidence of a child. -/
def lower (penalty : ℚ) (child : Belief) : Belief :=
  let newAdjustment := min child.propagatedAdjustment penalty
  let newFinal := max 0 (min 1 (child.localConfidence + newAdjustment))
  { child with
    propagatedAdjustment := newAdjustment
    finalConfidence := newFinal
    assessment := { child.assessment with
      propagatedAdjustment := newAdjustment
      localConfidence := child.localConfidence
      finalConfidence := newFinal } }

/-- One step of the traversal. -/
def propagateFrom (config : ReasoningConfig) (beliefs : List Belief) (parentCid : String) :
    List Belief :=
  match beliefAt beliefMap beliefs parentCid with
  | none => beliefs
  | some parent =>
      let penalty := (parent.finalConfidence - 1) * config.attenuation
      (adj parentCid).foldl
        (fun beliefs childCid => updateAt beliefMap beliefs childCid (lower penalty)) beliefs

/-- `propagate_beliefs(beliefs, concept_id_to_belief_id, support_graph, config)`. -/
def propagateBeliefs (beliefs : List Belief) (conceptIdToBeliefId : OrdDict String String)
    (supportGraph : OrdDict String (List String)) (config : ReasoningConfig) : List Belief :=
  let concepts := conceptIdToBeliefId.keys
  let order := topoOrder concepts supportGraph
  -- a cycle keeps its concepts out of the queue
  if order.length ≠ concepts.length then beliefs
  else
    let targets := PropagationEngine.adj concepts supportGraph
    let places := PropagationEngine.beliefMap beliefs conceptIdToBeliefId
    order.foldl (propagateFrom targets places config)
      (concepts.foldl (linkDependents targets places) beliefs)

/-! ## What spreading keeps -/

variable {adj beliefMap}

theorem identity_updateAt {f : Belief → Belief} (hf : ∀ b, (f b).identity = b.identity)
    (beliefs : List Belief) (cid : String) :
    (updateAt beliefMap beliefs cid f).map Belief.identity = beliefs.map Belief.identity := by
  unfold updateAt
  split
  · apply List.ext_getElem?
    intro j
    rw [List.getElem?_map, List.getElem?_map, List.getElem?_modify]
    cases beliefs[j]? with
    | none => rfl
    | some b =>
        change some (Belief.identity (if _ then f b else b)) = some b.identity
        split
        · rw [hf b]
        · rfl
  · rfl

theorem identity_linkDependents (beliefs : List Belief) (src : String) :
    (linkDependents adj beliefMap beliefs src).map Belief.identity =
      beliefs.map Belief.identity := by
  apply identity_updateAt
  intro b
  rfl

theorem identity_propagateFrom (config : ReasoningConfig) (beliefs : List Belief) (cid : String) :
    (propagateFrom adj beliefMap config beliefs cid).map Belief.identity =
      beliefs.map Belief.identity := by
  unfold propagateFrom
  split
  · rfl
  · apply List.foldlRecOn (motive := fun bs : List Belief =>
      bs.map Belief.identity = beliefs.map Belief.identity)
    · rfl
    · intro bs h child _
      rw [identity_updateAt (fun b => rfl : ∀ b, (lower _ b).identity = b.identity), h]

/-- Ids, texts and evidence of the beliefs stay as they were. -/
theorem identity_propagateBeliefs (beliefs : List Belief)
    (conceptIdToBeliefId : OrdDict String String) (supportGraph : OrdDict String (List String))
    (config : ReasoningConfig) :
    (propagateBeliefs beliefs conceptIdToBeliefId supportGraph config).map Belief.identity =
      beliefs.map Belief.identity := by
  simp only [propagateBeliefs]
  split
  · rfl
  · apply List.foldlRecOn (motive := fun bs : List Belief =>
      bs.map Belief.identity = beliefs.map Belief.identity)
    · exact List.foldlRecOn (motive := fun bs : List Belief =>
        bs.map Belief.identity = beliefs.map Belief.identity) _ _ rfl
        fun bs h src _ => (identity_linkDependents bs src).trans h
    · exact fun bs h cid _ => (identity_propagateFrom config bs cid).trans h

end PropagationEngine

end RationaleVault
