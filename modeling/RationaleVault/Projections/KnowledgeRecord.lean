import Mathlib.Algebra.Order.BigOperators.Group.List
import Mathlib.Algebra.Order.Field.Basic
import Mathlib.Tactic.Linarith
import RationaleVault.Library.Distinct
import RationaleVault.Projections.GraphRecord

/-!
# The classified state of knowledge

Knowledge is classified by lifecycle and by the derived epistemic status. The
invariants of the state come from that status and, by a second rule, from the
active objects once more. The health relates the sizes of the classes.
-/

namespace RationaleVault

structure KnowledgeHealth where
  confidence : ℚ
  contradictionRate : ℚ
  invariantRatio : ℚ
  staleRatio : ℚ
  activeCount : Nat
  totalCount : Nat
  overall : ℚ

/-- The epistemic buckets of a knowledge state. -/
structure EpistemicBuckets where
  proposed : List KnowledgeObject := []
  validated : List KnowledgeObject := []
  invariants : List KnowledgeObject := []
  conflicted : List KnowledgeObject := []
  tombstoned : List KnowledgeObject := []

def EpistemicBuckets.bucket (b : EpistemicBuckets) : EpistemicStatus → List KnowledgeObject
  | .proposed => b.proposed
  | .validated => b.validated
  | .invariant => b.invariants
  | .conflicted => b.conflicted
  | .tombstoned => b.tombstoned

/-- The dataclass `KnowledgeState` with its fields. -/
structure KnowledgeRecord extends CompiledKnowledge, EpistemicBuckets where
  compiledAt : String
  projectionVersion : String := "1.0"
  staleKnowledge : List KnowledgeObject := []
  supersededKnowledge : List KnowledgeObject := []
  unresolvedCount : Nat := 0
  health : Option KnowledgeHealth := none
  provenance : OrdDict String (List Int) := .empty

namespace KnowledgeProjection

/-- The objects of one lifecycle. -/
def withLifecycle (lifecycle : KnowledgeLifecycle) (knowledge : List KnowledgeObject) :
    List KnowledgeObject :=
  knowledge.filter fun k => k.lifecycleStatus == lifecycle.value

/-- The object goes to the bucket of its status. -/
def classifyOne (b : EpistemicBuckets) (k : KnowledgeObject) : EpistemicBuckets :=
  let status := deriveEpistemicStatus k
  if status = .proposed then { b with proposed := b.proposed ++ [k] }
  else if status = .validated then { b with validated := b.validated ++ [k] }
  else if status = .invariant then { b with invariants := b.invariants ++ [k] }
  else if status = .conflicted then { b with conflicted := b.conflicted ++ [k] }
  else if status = .tombstoned then { b with tombstoned := b.tombstoned ++ [k] }
  else b

def classify (knowledge : List KnowledgeObject) : EpistemicBuckets := knowledge.foldl classifyOne {}

/-- An active object that is declared an invariant or, without contradictions, has the evidence
of one. The declared ones are not asked for contradictions. -/
def isInvariant (k : KnowledgeObject) : Bool :=
  isActive k &&
    (k.knowledgeType = .projectInvariant ||
      (19 / 20 ≤ k.confidence.score && 5 ≤ k.supportingMemoryIds.length &&
        k.contradictingMemoryIds.length = 0))

/-- `_identify_invariants(knowledge)`. -/
def identifyInvariants (knowledge : List KnowledgeObject) : List KnowledgeObject :=
  knowledge.filter isInvariant

/-- `_compute_health(active, all_knowledge, conflicted, invariants, stale)`. -/
def computeHealth (active allKnowledge conflicted invariants stale : List KnowledgeObject) :
    KnowledgeHealth :=
  let total := allKnowledge.length
  let activeCount := active.length
  if activeCount = 0 then
    { confidence := 0, contradictionRate := 0, invariantRatio := 0, staleRatio := 0,
      activeCount := 0, totalCount := total, overall := 0 }
  else
    let avgConfidence := (active.map fun k => k.confidence.score).sum / activeCount
    let contradictionRate : ℚ := conflicted.length / activeCount
    let invariantRatio : ℚ := invariants.length / activeCount
    let staleRatio : ℚ := if 0 < total then stale.length / total else 0
    { confidence := avgConfidence
      contradictionRate := contradictionRate
      invariantRatio := invariantRatio
      staleRatio := staleRatio
      activeCount := activeCount
      totalCount := total
      overall := avgConfidence * (2 / 5) + (1 - contradictionRate) * (3 / 10) +
        min invariantRatio (3 / 10) * (1 / 5) + (1 - staleRatio) * (1 / 10) }

/-- `all_invariants`: those of the status and those of the second rule, once for each id. -/
def allInvariants (knowledge : List KnowledgeObject) : List KnowledgeObject :=
  Distinct.firsts KnowledgeObject.id
    ((classify knowledge).invariants ++ identifyInvariants (active knowledge))

/-- `KnowledgeProjection.project(project_id, knowledge, reference_time)`. -/
def projectRecord (u : UnicodeTables) (digits : DigitTable) (now projectId : String)
    (knowledge : List KnowledgeObject) : Except Exc KnowledgeRecord := do
  let active := active knowledge
  let stale := withLifecycle .stale knowledge
  let superseded := withLifecycle .superseded knowledge
  let archived := withLifecycle .archived knowledge
  let compiled := project u now projectId knowledge
  let buckets := { classify knowledge with invariants := allInvariants knowledge }
  let provenance ← GraphProjection.provenance digits active
  return {
    toCompiledKnowledge := compiled
    toEpistemicBuckets := buckets
    compiledAt := now
    staleKnowledge := stale
    supersededKnowledge := superseded ++ archived
    unresolvedCount := compiled.conflictQueue.length
    health := some (computeHealth active knowledge buckets.conflicted buckets.invariants stale)
    provenance := provenance }

/-! ## What stands in a bucket -/

theorem bucket_classifyOne (b : EpistemicBuckets) (k : KnowledgeObject) (s : EpistemicStatus) :
    (classifyOne b k).bucket s =
      b.bucket s ++ if deriveEpistemicStatus k = s then [k] else [] := by
  cases hstatus : deriveEpistemicStatus k <;> cases s <;>
    simp [classifyOne, EpistemicBuckets.bucket, hstatus]

theorem bucket_classify (K : List KnowledgeObject) (s : EpistemicStatus) :
    (classify K).bucket s = K.filter fun k => deriveEpistemicStatus k = s := by
  induction K using List.reverseRecOn with
  | nil => cases s <;> rfl
  | append_singleton before k ih =>
      rw [classify, List.foldl_concat, bucket_classifyOne, List.filter_append, List.filter_cons,
        List.filter_nil]
      rw [classify] at ih
      rw [ih]
      simp only [decide_eq_true_eq]

theorem invariants_classify (K : List KnowledgeObject) :
    (classify K).invariants = K.filter fun k => deriveEpistemicStatus k = .invariant :=
  bucket_classify K .invariant

theorem isInvariant_iff {k : KnowledgeObject} :
    isInvariant k = true ↔ isActive k = true ∧ (k.knowledgeType = .projectInvariant ∨
      19 / 20 ≤ k.confidence.score ∧ 5 ≤ k.supportingMemoryIds.length ∧
        k.contradictingMemoryIds = []) := by
  simp only [isInvariant, Bool.and_eq_true, Bool.or_eq_true, decide_eq_true_eq,
    List.length_eq_zero_iff, and_assoc]

theorem not_tombstoned_of_isActive {k : KnowledgeObject} (h : isActive k = true) :
    ¬ (k.lifecycleStatus = KnowledgeLifecycle.superseded.value ∨
      k.lifecycleStatus = KnowledgeLifecycle.archived.value) := by
  rw [beq_iff_eq.mp h]
  decide

/-- Without contradictions the two rules agree on an active object. -/
theorem derive_of_isInvariant {k : KnowledgeObject} (h : isInvariant k = true)
    (hclear : k.contradictingMemoryIds = []) : deriveEpistemicStatus k = .invariant := by
  obtain ⟨hactive, hinvariant⟩ := isInvariant_iff.mp h
  rw [deriveEpistemicStatus, if_neg (not_tombstoned_of_isActive hactive), hclear,
    List.length_nil, if_neg (lt_irrefl _)]
  by_cases hdeclared : k.knowledgeType = .projectInvariant
  · rw [if_pos hdeclared]
  · obtain ⟨hscore, hsupport, -⟩ := hinvariant.resolve_left hdeclared
    rw [if_neg hdeclared, if_pos ⟨hscore, hsupport⟩]

/-- An active object with contradictions is conflicted, whatever its type. -/
theorem derive_of_contradicted {k : KnowledgeObject} (h : isActive k = true)
    (hcontradicted : k.contradictingMemoryIds ≠ []) : deriveEpistemicStatus k = .conflicted := by
  rw [deriveEpistemicStatus, if_neg (not_tombstoned_of_isActive h),
    if_pos (List.length_pos_iff.mpr hcontradicted)]

/-- An active object that is declared an invariant and contradicted. -/
def Disputed (k : KnowledgeObject) : Prop :=
  isActive k = true ∧ k.knowledgeType = .projectInvariant ∧ k.contradictingMemoryIds ≠ []

/-- The second rule adds the disputed objects to those whose status is invariant. -/
theorem isInvariant_or_derive_iff {k : KnowledgeObject} :
    deriveEpistemicStatus k = .invariant ∨ isInvariant k = true ↔
      deriveEpistemicStatus k = .invariant ∨ Disputed k := by
  constructor
  · rintro (hstatus | hinvariant)
    · exact .inl hstatus
    · by_cases hclear : k.contradictingMemoryIds = []
      · exact .inl (derive_of_isInvariant hinvariant hclear)
      · obtain ⟨hactive, hdeclared | ⟨-, -, hclear'⟩⟩ := isInvariant_iff.mp hinvariant
        · exact .inr ⟨hactive, hdeclared, hclear⟩
        · exact absurd hclear' hclear
  · rintro (hstatus | ⟨hactive, hdeclared, -⟩)
    · exact .inl hstatus
    · exact .inr (isInvariant_iff.mpr ⟨hactive, .inl hdeclared⟩)

/-- The objects from which the invariants of the state are taken. -/
theorem mem_candidates {K : List KnowledgeObject} {k : KnowledgeObject} :
    k ∈ (classify K).invariants ++ identifyInvariants (active K) ↔
      k ∈ K ∧ (deriveEpistemicStatus k = .invariant ∨ Disputed k) := by
  rw [← isInvariant_or_derive_iff, invariants_classify, identifyInvariants, active,
    List.mem_append, List.mem_filter, List.mem_filter, List.mem_filter, decide_eq_true_eq]
  constructor
  · rintro (⟨hk, hstatus⟩ | ⟨⟨hk, -⟩, hinvariant⟩)
    · exact ⟨hk, .inl hstatus⟩
    · exact ⟨hk, .inr hinvariant⟩
  · rintro ⟨hk, hstatus | hinvariant⟩
    · exact .inl ⟨hk, hstatus⟩
    · exact .inr ⟨⟨hk, (isInvariant_iff.mp hinvariant).1⟩, hinvariant⟩

theorem mem_allInvariants {K : List KnowledgeObject} (hids : (K.map KnowledgeObject.id).Nodup)
    {k : KnowledgeObject} :
    k ∈ allInvariants K ↔ k ∈ K ∧ (deriveEpistemicStatus k = .invariant ∨ Disputed k) := by
  rw [allInvariants, Distinct.mem_firsts, mem_candidates]
  intro a ha b hb hid
  exact List.inj_on_of_nodup_map hids (mem_candidates.mp ha).1 (mem_candidates.mp hb).1 hid

theorem nodup_allInvariants (K : List KnowledgeObject) : (allInvariants K).Nodup :=
  .of_map _ (Distinct.nodup_map_firsts _)

theorem projectRecord_eq_ok {u : UnicodeTables} {digits : DigitTable} {now projectId : String}
    {K : List KnowledgeObject} {state : KnowledgeRecord}
    (h : projectRecord u digits now projectId K = .ok state) :
    state.toEpistemicBuckets = { classify K with invariants := allInvariants K } ∧
      state.health = some (computeHealth (active K) K (classify K).conflicted (allInvariants K)
        (withLifecycle .stale K)) := by
  rw [projectRecord] at h
  cases hprovenance : GraphProjection.provenance digits (active K) with
  | error e =>
      rw [hprovenance] at h
      cases h
  | ok provenance =>
      rw [hprovenance] at h
      cases h
      exact ⟨rfl, rfl⟩

/-! ## The buckets as a partition -/

/-- Every object stands once in the bucket of its status and in no other bucket. -/
def Partitions (knowledge : List KnowledgeObject) (b : EpistemicBuckets) : Prop :=
  ∀ k s, (b.bucket s).count k = if k ∈ knowledge ∧ deriveEpistemicStatus k = s then 1 else 0

/-- Where the invariants are merged from both rules the other buckets stay as they are. -/
theorem bucket_merged {b : EpistemicBuckets} {l : List KnowledgeObject} {s : EpistemicStatus}
    (h : s ≠ .invariant) : ({ b with invariants := l } : EpistemicBuckets).bucket s = b.bucket s := by
  cases s with
  | invariant => exact absurd rfl h
  | proposed => rfl
  | validated => rfl
  | conflicted => rfl
  | tombstoned => rfl

theorem count_of_nodup {l : List KnowledgeObject} (hl : l.Nodup) (k : KnowledgeObject) {p : Prop}
    [Decidable p] : l.count k = (if p then 1 else 0) ↔ (k ∈ l ↔ p) := by
  by_cases hk : k ∈ l
  · rw [List.count_eq_one_of_mem hl hk]
    by_cases hp : p <;> simp [hk, hp]
  · rw [List.count_eq_zero_of_not_mem hk]
    by_cases hp : p <;> simp [hk, hp]

/-- The epistemic buckets of knowledge with distinct ids are a partition by status exactly when
no active invariant that was declared is contradicted. -/
theorem projectRecord_partitions_iff {u : UnicodeTables} {digits : DigitTable}
    {now projectId : String} {K : List KnowledgeObject} {state : KnowledgeRecord}
    (hids : (K.map KnowledgeObject.id).Nodup)
    (h : projectRecord u digits now projectId K = .ok state) :
    Partitions K state.toEpistemicBuckets ↔ ∀ k ∈ K, ¬Disputed k := by
  rw [(projectRecord_eq_ok h).1]
  have hinvariants : ∀ k, (allInvariants K).count k =
      (if k ∈ K ∧ deriveEpistemicStatus k = .invariant then 1 else 0) ↔
        (k ∈ K → Disputed k → deriveEpistemicStatus k = .invariant) := by
    intro k
    rw [count_of_nodup (nodup_allInvariants K), mem_allInvariants hids]
    tauto
  have hothers : ∀ k s, s ≠ .invariant → ((classify K).bucket s).count k =
      if k ∈ K ∧ deriveEpistemicStatus k = s then 1 else 0 := by
    intro k s _
    rw [bucket_classify, count_of_nodup ((hids.of_map).filter _)]
    simp only [List.mem_filter, decide_eq_true_eq]
  constructor
  · intro hpartition k hk hdisputed
    have hstatus := (hinvariants k).mp (hpartition k .invariant) hk hdisputed
    rw [derive_of_contradicted hdisputed.1 hdisputed.2.2] at hstatus
    cases hstatus
  · intro hclear k s
    by_cases hs : s = .invariant
    · subst hs
      exact (hinvariants k).mpr fun hk hdisputed => absurd hdisputed (hclear k hk)
    · rw [bucket_merged hs]
      exact hothers k s hs

/-- A piece of knowledge of the given type, lifecycle and contradicting memories. -/
def belief (id : String) (knowledgeType : KnowledgeType) (lifecycle : KnowledgeLifecycle)
    (contradicting : List String) : KnowledgeObject where
  id := id
  version := 1
  title := "Storage"
  content := "state is derived"
  knowledgeType := knowledgeType
  knowledgeDomain := .architecture
  confidence := ⟨1, 1, 0, .one⟩
  importance := "high"
  provenance := ⟨id, ["m1"], [], "", ⟨1, 1, 0, .one⟩, 1, ""⟩
  supportingMemoryIds := ["m1"]
  contradictingMemoryIds := contradicting
  lifecycleStatus := lifecycle.value
  createdAt := ""
  updatedAt := ""

theorem projectRecord_partitions_iff_belief :
    ∃ state, projectRecord .asciiOnly .asciiOnly "" "p1" [belief "k1" .lesson .active []] =
      .ok state ∧ (Partitions [belief "k1" .lesson .active []] state.toEpistemicBuckets ↔
        ∀ k ∈ [belief "k1" .lesson .active []], ¬Disputed k) := by
  obtain ⟨state, hstate⟩ : ∃ state, projectRecord .asciiOnly .asciiOnly "" "p1"
    [belief "k1" .lesson .active []] = .ok state := ⟨_, rfl⟩
  exact ⟨state, hstate, projectRecord_partitions_iff (List.nodup_singleton _) hstate⟩

/-- A contradicted invariant stands in two buckets. -/
theorem projectRecord_disputed :
    ∃ state, projectRecord .asciiOnly .asciiOnly "" "p1"
        [belief "k1" .projectInvariant .active ["m2"]] = .ok state ∧
      state.conflicted = [belief "k1" .projectInvariant .active ["m2"]] ∧
      state.invariants = [belief "k1" .projectInvariant .active ["m2"]] :=
  ⟨_, rfl, by decide +kernel, by decide +kernel⟩

/-! ## The range of the health -/

theorem score_mem_Icc (c : KnowledgeConfidence) : c.score ∈ Set.Icc (0 : ℚ) 1 := by
  rw [KnowledgeConfidence.score]
  split_ifs
  · exact ⟨le_rfl, zero_le_one⟩
  · exact ⟨le_max_left _ _, max_le zero_le_one (min_le_left _ _)⟩

/-- The mean of numbers between zero and one is one of them. -/
theorem mean_mem_Icc {l : List ℚ} (hl : 0 < l.length) (h : ∀ x ∈ l, x ∈ Set.Icc (0 : ℚ) 1) :
    l.sum / l.length ∈ Set.Icc (0 : ℚ) 1 := by
  have hlength : (0 : ℚ) < l.length := Nat.cast_pos.mpr hl
  have hsum : l.sum ≤ l.length := by
    have hcard := List.sum_le_card_nsmul l 1 fun x hx => (h x hx).2
    rwa [nsmul_one] at hcard
  exact ⟨div_nonneg (List.sum_nonneg fun x hx => (h x hx).1) hlength.le,
    (div_le_one hlength).mpr hsum⟩

theorem ratio_mem_Icc_iff {a b : Nat} (hb : 0 < b) : (a : ℚ) / b ∈ Set.Icc (0 : ℚ) 1 ↔ a ≤ b := by
  have hpos : (0 : ℚ) < b := Nat.cast_pos.mpr hb
  rw [Set.mem_Icc, div_le_one hpos, Nat.cast_le]
  exact and_iff_right (div_nonneg (Nat.cast_nonneg a) hpos.le)

end KnowledgeProjection

/-- All measures of a health lie between zero and one. -/
structure KnowledgeHealth.InRange (h : KnowledgeHealth) : Prop where
  confidence : h.confidence ∈ Set.Icc (0 : ℚ) 1
  contradictionRate : h.contradictionRate ∈ Set.Icc (0 : ℚ) 1
  invariantRatio : h.invariantRatio ∈ Set.Icc (0 : ℚ) 1
  staleRatio : h.staleRatio ∈ Set.Icc (0 : ℚ) 1
  overall : h.overall ∈ Set.Icc (0 : ℚ) 1

namespace KnowledgeProjection

/-- The weighted measure of four measures in range is in range. -/
theorem overall_mem_Icc {c r i s : ℚ} (hc : c ∈ Set.Icc (0 : ℚ) 1) (hr : r ∈ Set.Icc (0 : ℚ) 1)
    (hi : i ∈ Set.Icc (0 : ℚ) 1) (hs : s ∈ Set.Icc (0 : ℚ) 1) :
    c * (2 / 5) + (1 - r) * (3 / 10) + min i (3 / 10) * (1 / 5) + (1 - s) * (1 / 10) ∈
      Set.Icc (0 : ℚ) 1 := by
  have hcap : min i (3 / 10) ≤ 3 / 10 := min_le_right _ _
  have hcap0 : 0 ≤ min i (3 / 10) := le_min hi.1 (by norm_num)
  obtain ⟨hc0, hc1⟩ := hc
  obtain ⟨hr0, hr1⟩ := hr
  obtain ⟨hs0, hs1⟩ := hs
  constructor <;> linarith

/-- The measures are in range when nothing is active, or when the active objects are at least as
many as the conflicted ones and as the invariants. -/
theorem computeHealth_inRange_iff {active K conflicted invariants stale : List KnowledgeObject}
    (hstale : stale.length ≤ K.length) :
    (computeHealth active K conflicted invariants stale).InRange ↔
      active = [] ∨ conflicted.length ≤ active.length ∧ invariants.length ≤ active.length := by
  by_cases hactive : active = []
  · rw [computeHealth, hactive, List.length_nil, if_pos rfl]
    have hzero : (0 : ℚ) ∈ Set.Icc (0 : ℚ) 1 := ⟨le_rfl, zero_le_one⟩
    exact iff_of_true ⟨hzero, hzero, hzero, hzero, hzero⟩ (.inl rfl)
  · have hpos : 0 < active.length := List.length_pos_iff.mpr hactive
    rw [computeHealth, if_neg hpos.ne']
    constructor
    · intro h
      exact .inr ⟨(ratio_mem_Icc_iff hpos).mp h.contradictionRate,
        (ratio_mem_Icc_iff hpos).mp h.invariantRatio⟩
    · intro h
      obtain ⟨hconflicted, hinvariants⟩ := h.resolve_left hactive
      have hc := mean_mem_Icc (l := active.map fun k => k.confidence.score)
        (by rwa [List.length_map]) (List.forall_mem_map.mpr fun k _ => score_mem_Icc k.confidence)
      rw [List.length_map] at hc
      have hr := (ratio_mem_Icc_iff hpos).mpr hconflicted
      have hi := (ratio_mem_Icc_iff hpos).mpr hinvariants
      have hs : (if 0 < K.length then (stale.length : ℚ) / K.length else 0) ∈
          Set.Icc (0 : ℚ) 1 := by
        split_ifs with htotal
        · exact (ratio_mem_Icc_iff htotal).mpr hstale
        · exact ⟨le_rfl, zero_le_one⟩
      exact ⟨hc, hr, hi, hs, overall_mem_Icc hc hr hi hs⟩

instance : DecidablePred Disputed := fun _ => inferInstanceAs (Decidable (_ ∧ _ ∧ _))

/-- The ids of the objects that the state takes for invariants. -/
def invariantIds (knowledge : List KnowledgeObject) : Finset String :=
  ((knowledge.filter fun k => deriveEpistemicStatus k = .invariant ∨ Disputed k).map
    KnowledgeObject.id).toFinset

theorem length_allInvariants (K : List KnowledgeObject) :
    (allInvariants K).length = (invariantIds K).card := by
  rw [allInvariants, Distinct.length_firsts, invariantIds]
  congr 1
  ext id
  simp only [List.mem_toFinset, List.mem_map, mem_candidates, List.mem_filter, decide_eq_true_eq]

/-- The health of the state is in range exactly when nothing is active, or the conflicted objects
and the ids of invariants, active or not, are no more than the active objects. -/
theorem projectRecord_inRange_iff {u : UnicodeTables} {digits : DigitTable}
    {now projectId : String} {K : List KnowledgeObject} {state : KnowledgeRecord}
    (h : projectRecord u digits now projectId K = .ok state) :
    (∃ health, state.health = some health ∧ health.InRange) ↔
      active K = [] ∨
        (K.filter fun k => deriveEpistemicStatus k = .conflicted).length ≤ (active K).length ∧
          (invariantIds K).card ≤ (active K).length := by
  have hconflicted : (classify K).conflicted =
      K.filter fun k => deriveEpistemicStatus k = .conflicted := bucket_classify K .conflicted
  have hstale : (withLifecycle .stale K).length ≤ K.length := List.length_filter_le _ _
  rw [(projectRecord_eq_ok h).2, ← hconflicted, ← length_allInvariants,
    ← computeHealth_inRange_iff hstale]
  constructor
  · rintro ⟨health, hhealth, hrange⟩
    rw [← Option.some.inj hhealth] at hrange
    exact hrange
  · intro hrange
    exact ⟨_, rfl, hrange⟩

theorem projectRecord_inRange_iff_belief :
    ∃ state, projectRecord .asciiOnly .asciiOnly "" "p1" [belief "k1" .lesson .active []] =
      .ok state ∧ ((∃ health, state.health = some health ∧ health.InRange) ↔
        active [belief "k1" .lesson .active []] = [] ∨
          ([belief "k1" .lesson .active []].filter fun k =>
              deriveEpistemicStatus k = .conflicted).length ≤
            (active [belief "k1" .lesson .active []]).length ∧
          (invariantIds [belief "k1" .lesson .active []]).card ≤
            (active [belief "k1" .lesson .active []]).length) := by
  obtain ⟨state, hstate⟩ : ∃ state, projectRecord .asciiOnly .asciiOnly "" "p1"
    [belief "k1" .lesson .active []] = .ok state := ⟨_, rfl⟩
  exact ⟨state, hstate, projectRecord_inRange_iff hstate⟩

/-- One active object and two stale ones that are contradicted. -/
def mostlyStale : List KnowledgeObject :=
  [belief "k1" .lesson .active [], belief "k2" .lesson .stale ["m1"],
    belief "k3" .lesson .stale ["m1"]]

/-- Two conflicts for one active object are a rate of two. -/
theorem projectRecord_mostlyStale :
    ∃ state health, projectRecord .asciiOnly .asciiOnly "" "p1" mostlyStale = .ok state ∧
      state.health = some health ∧ health.contradictionRate = 2 ∧ ¬health.InRange := by
  refine ⟨_, _, rfl, rfl, ?_, fun hrange => ?_⟩
  · decide +kernel
  · have hrate := hrange.contradictionRate.2
    revert hrate
    decide +kernel

end KnowledgeProjection

end RationaleVault
