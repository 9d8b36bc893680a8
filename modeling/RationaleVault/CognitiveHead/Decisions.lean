import RationaleVault.CognitiveHead.Propagation
import RationaleVault.CognitiveHead.Synthesis

/-!
# What the gate decides

Synthesis ranks one item for every belief, and the gate divides the ranked items
in two. What it lets through keeps the order of the ranking up to the cap, and
what the cap cuts off is blocked with the items that did not pass.
-/

namespace RationaleVault

/-! ## One item for each belief -/

namespace SynthesisEngine

variable {report : ReasoningReport} {config : SynthesisConfig} {synthesis : SynthesisReport}

theorem forall₂_flatten {beliefs : List Belief} {lists : List (List SynthesisItem)}
    (h : beliefs.Forall₂ (fun b list => itemsOf report config b = .ok list) lists) :
    beliefs.Forall₂ (fun b item => itemsOf report config b = .ok [item]) lists.flatten := by
  induction h with
  | nil => exact .nil
  | @cons b list _ _ hlist _ ih =>
      obtain ⟨item, hitem, _⟩ := itemsOf_eq_ok report (divisor_ne_zero hlist) b
      obtain rfl : list = [item] := Except.ok.inj (hlist.symm.trans hitem)
      exact .cons hitem ih

/-- The items are those of the beliefs in order of their rank. -/
theorem exists_ordered_items (h : synthesize report config = .ok synthesis) :
    ∃ items, report.beliefs.Forall₂ (fun b item => itemsOf report config b = .ok [item]) items ∧
      Table.Ordered rank items synthesis.items := by
  obtain ⟨lists, hlists, h⟩ := Except.bind_eq_ok_iff.mp h
  obtain rfl := Except.pure_eq_ok_iff.mp h
  exact ⟨lists.flatten, forall₂_flatten (Fold.forall₂_of_mapM hlists),
    Table.ordered_orderBy rank lists.flatten⟩

end SynthesisEngine

namespace DecisionGate

/-! ## The kept items -/

variable {synthesis : SynthesisReport} {policy : DecisionGatePolicy}

/-- The items that pass. -/
def passing (synthesis : SynthesisReport) (policy : DecisionGatePolicy) : List SynthesisItem :=
  synthesis.items.filter (passesGate policy)

/-- The items that are decided: the first ones that pass, and all of them without a cap. -/
def decided (synthesis : SynthesisReport) (policy : DecisionGatePolicy) : List SynthesisItem :=
  if policy.maxDecisions ≤ 0 then passing synthesis policy
  else (passing synthesis policy).take policy.maxDecisions.toNat

/-- A cap that is not reached changes nothing. -/
theorem take_cap (synthesis : SynthesisReport) (policy : DecisionGatePolicy) :
    (passing synthesis policy).take (cap policy (passing synthesis policy).length) =
      decided synthesis policy := by
  unfold cap decided
  split_ifs with hcut hnone hnone
  · omega
  · rfl
  · exact List.take_length
  · rw [List.take_length, List.take_of_length_le]
    omega

theorem decisions_gate (synthesis : SynthesisReport) (policy : DecisionGatePolicy) :
    (gate synthesis policy).decisions = (decided synthesis policy).map (decisionOf policy) := by
  rw [← take_cap]
  rfl

/-- Every item is decided or blocked, once. -/
theorem decided_blocked_perm (synthesis : SynthesisReport) (policy : DecisionGatePolicy) :
    (decided synthesis policy ++ (gate synthesis policy).blocked).Perm synthesis.items := by
  have hblocked : (gate synthesis policy).blocked =
      synthesis.items.filter (fun i => !passesGate policy i) ++
        (passing synthesis policy).drop (cap policy (passing synthesis policy).length) := rfl
  rw [hblocked, ← take_cap]
  have hrest : ((passing synthesis policy).take (cap policy (passing synthesis policy).length) ++
      (synthesis.items.filter (fun i => !passesGate policy i) ++
        (passing synthesis policy).drop (cap policy (passing synthesis policy).length))).Perm
      (passing synthesis policy ++ synthesis.items.filter fun i => !passesGate policy i) := by
    apply (List.perm_append_comm.append_left _).trans
    rw [← List.append_assoc, List.take_append_drop]
  exact hrest.trans (List.filter_append_perm (passesGate policy) synthesis.items)

/-! ## A higher floor -/

/-- What passes a higher floor passes a lower one. -/
theorem passesGate_of_le {floor : ℚ} (hfloor : policy.minimumConfidence ≤ floor)
    {item : SynthesisItem}
    (h : passesGate { policy with minimumConfidence := floor } item = true) :
    passesGate policy item = true := by
  unfold passesGate at h ⊢
  split_ifs at h with hdefer hlow hblock
  rw [if_neg hdefer, if_neg (not_lt.mpr (hfloor.trans (not_lt.mp hlow))), if_neg hblock]

theorem decisions_sublist_of_le {floor : ℚ} (hfloor : policy.minimumConfidence ≤ floor)
    (huncapped : policy.maxDecisions = 0) :
    (gate synthesis { policy with minimumConfidence := floor }).decisions.Sublist
      (gate synthesis policy).decisions := by
  have hsub : (passing synthesis { policy with minimumConfidence := floor }).Sublist
      (passing synthesis policy) :=
    List.monotone_filter_right synthesis.items fun item h => passesGate_of_le hfloor h
  rw [decisions_gate, decisions_gate, decided, decided, if_pos huncapped.le, if_pos huncapped.le]
  exact hsub.map (decisionOf policy)

/-- A decision carries what was synthesized. -/
structure Copies (d : DecisionItem) (item : SynthesisItem) : Prop where
  synthesisId : d.synthesisId = item.synthesisId
  category : d.category = item.candidate.category
  priority : d.priority = item.candidate.priority
  confidence : d.confidence = item.candidate.confidence
  impact : d.impact = item.candidate.impact

/-- The gate divides the ranked items, one for each belief, and keeps the first that pass. -/
theorem gate_divides {report : ReasoningReport} {config : SynthesisConfig}
    (h : SynthesisEngine.synthesize report config = .ok synthesis)
    (policy : DecisionGatePolicy) :
    (∃ items, report.beliefs.Forall₂
        (fun b item => SynthesisEngine.itemsOf report config b = .ok [item]) items ∧
      Table.Ordered SynthesisEngine.rank items synthesis.items) ∧
    ((gate synthesis policy).decisions.Forall₂ Copies (decided synthesis policy)) ∧
    (decided synthesis policy ++ (gate synthesis policy).blocked).Perm synthesis.items ∧
    (policy.maxDecisions = 0 → decided synthesis policy =
      synthesis.items.filter (passesGate policy)) ∧
    (0 < policy.maxDecisions → decided synthesis policy =
      (synthesis.items.filter (passesGate policy)).take policy.maxDecisions.toNat) ∧
    ∀ floor, policy.minimumConfidence ≤ floor → policy.maxDecisions = 0 →
      (gate synthesis { policy with minimumConfidence := floor }).decisions.Sublist
        (gate synthesis policy).decisions := by
  refine ⟨SynthesisEngine.exists_ordered_items h, ?_, decided_blocked_perm synthesis policy, ?_, ?_,
    fun floor hfloor huncapped => decisions_sublist_of_le hfloor huncapped⟩
  · rw [decisions_gate, List.forall₂_map_left_iff, List.forall₂_same]
    exact fun item _ => ⟨rfl, rfl, rfl, rfl, rfl⟩
  · intro huncapped
    exact if_pos huncapped.le
  · intro hcap
    exact if_neg (not_le.mpr hcap)

/-- Two beliefs without findings. -/
def twoBeliefs : ReasoningReport where
  beliefs := [PropagationEngine.standing "BEL-A" 1 [], PropagationEngine.standing "BEL-B" 1 []]
  assessments := []
  contradictions := []
  summary := ⟨2, 0, 0, 0, 0, 0, 0, 0⟩
  overallConfidence := 1
  reasoningVersion := "1.0"
  configSnapshot := {}

theorem gate_divides_twoBeliefs :
    ∃ synthesis, SynthesisEngine.synthesize twoBeliefs {} = .ok synthesis ∧
      (decided synthesis { maxDecisions := 1 } ++
        (gate synthesis { maxDecisions := 1 }).blocked).Perm synthesis.items := by
  have hdivisor : ({} : SynthesisConfig).impactBreadthDivisor ≠ 0 := by decide
  obtain ⟨synthesis, h⟩ := SynthesisEngine.exists_synthesize hdivisor twoBeliefs
  exact ⟨synthesis, h, (gate_divides h { maxDecisions := 1 }).2.2.1⟩

end DecisionGate

end RationaleVault
