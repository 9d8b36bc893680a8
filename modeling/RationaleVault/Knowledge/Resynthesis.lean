import RationaleVault.Knowledge.Synthesizer
import RationaleVault.Library.Ranking

/-!
# Synthesizing again

The ids of knowledge are digests of what its memories say, so the same memories
give the same objects again. The pass over the existing knowledge then takes an
object's own re-derivation for the object that replaces it.
-/

namespace RationaleVault

namespace KnowledgeSynthesizer

variable {u : UnicodeTables} {float : ℚ → FloatLit}

/-! ## What the objects of one type are drawn from -/

/-- The groups of memories that objects of a type are drawn from. -/
def groups (u : UnicodeTables) (memories : List MemoryRecord) :
    KnowledgeType → List (List MemoryRecord)
  | .projectInvariant => (memories.filter (isInvariant u)).map fun mem => [mem]
  | .architecturePrinciple => architectureClusters u memories
  | .lesson => clusterBySimilarity u (ofType .lessonLearned memories) (7 / 20)
  | .failurePattern => clusterBySimilarity u (ofType .failure memories) (7 / 20)
  | .workflowPattern => clusterBySimilarity u (ofType .workflow memories) (7 / 20)
  | .researchFinding => clusterBySimilarity u (ofType .research memories) (2 / 5)
  | .decisionLineage => (ofType .decision memories).map (sourceMemories u memories)

/-- The id of the object drawn from a group. -/
def groupId (u : UnicodeTables) (projectId : String) (t : KnowledgeType)
    (group : List MemoryRecord) : String :=
  match t with
  | .decisionLineage =>
      generateKnowledgeId u t.value ((group.head?.map MemoryRecord.title).getD "")
        (lineageContent group) projectId
  | _ =>
      generateKnowledgeId u t.value (extractPrincipalTitle u group) (mergeClusterContent group)
        projectId

/-- What marking reads of an object. -/
def key (k : KnowledgeObject) : String × List String := (k.id, k.supportingMemoryIds)

/-- The detector of a type. -/
def detect (u : UnicodeTables) (float : ℚ → FloatLit) (ctx : Context)
    (memories : List MemoryRecord) : KnowledgeType → List KnowledgeObject
  | .projectInvariant => detectProjectInvariants u float ctx memories
  | .architecturePrinciple => detectArchitecturePrinciples u float ctx memories
  | .lesson => detectLessons u float ctx memories
  | .failurePattern => detectFailurePatterns u float ctx memories
  | .workflowPattern => detectWorkflowPatterns u float ctx memories
  | .researchFinding => detectResearchFindings u float ctx memories
  | .decisionLineage => buildDecisionLineage u float ctx memories

variable {ctx : Context} {memories : List MemoryRecord}

theorem map_key_detect (t : KnowledgeType) :
    (detect u float ctx memories t).map key =
      (groups u memories t).map fun g => (groupId u ctx.projectId t g, g.map MemoryRecord.id) := by
  cases t with
  | projectInvariant =>
      rw [detect, detectProjectInvariants, groups, List.map_map, List.map_map]
      rfl
  | decisionLineage =>
      rw [detect, buildDecisionLineage, groups, List.map_map, List.map_map]
      rfl
  | architecturePrinciple => exact List.map_map ..
  | lesson => exact List.map_map ..
  | failurePattern => exact List.map_map ..
  | workflowPattern => exact List.map_map ..
  | researchFinding => exact List.map_map ..

theorem detect_fresh {t : KnowledgeType} {k : KnowledgeObject}
    (h : k ∈ detect u float ctx memories t) :
    k.knowledgeType = t ∧ k.lifecycleStatus = KnowledgeLifecycle.active.value := by
  cases t <;> obtain ⟨g, -, rfl⟩ := List.mem_map.mp h <;> exact ⟨rfl, rfl⟩

/-- The new objects of a type are those of its detector. -/
theorem filter_synthesize (t : KnowledgeType) :
    (synthesize u float ctx memories).filter (fun k => k.knowledgeType = t) =
      detect u float ctx memories t := by
  have hfilter : ∀ t', (detect u float ctx memories t').filter (fun k => k.knowledgeType = t) =
      if t' = t then detect u float ctx memories t' else [] := by
    intro t'
    split
    · next heq => exact List.filter_eq_self.mpr fun k hk => by simpa [(detect_fresh hk).1] using heq
    · next hne => exact List.filter_eq_nil_iff.mpr fun k hk => by simpa [(detect_fresh hk).1] using hne
  have hsplit : synthesize u float ctx memories =
      detect u float ctx memories .projectInvariant ++
        detect u float ctx memories .architecturePrinciple ++
        detect u float ctx memories .lesson ++ detect u float ctx memories .failurePattern ++
        detect u float ctx memories .workflowPattern ++ detect u float ctx memories .researchFinding ++
        detect u float ctx memories .decisionLineage := rfl
  simp only [hsplit, List.filter_append, hfilter]
  cases t <;> simp

/-! ## The best match -/

/-- How many memories of a group support an object. -/
def sharedMemories (k : KnowledgeObject) (group : List MemoryRecord) : Nat :=
  (k.supportingMemoryIds.toFinset ∩ (group.map MemoryRecord.id).toFinset).card

/-- The first group with the most memories that support an object, if any does. -/
def bestGroup (u : UnicodeTables) (memories : List MemoryRecord) (k : KnowledgeObject) :
    Option (List MemoryRecord) :=
  Best.best (sharedMemories k) (groups u memories k.knowledgeType)

theorem bestMatch_eq (current : List KnowledgeObject) (k : KnowledgeObject) :
    bestMatch current k =
      (Best.best (overlap k) (current.filter fun new => new.knowledgeType = k.knowledgeType),
        ((Best.best (overlap k)
          (current.filter fun new => new.knowledgeType = k.knowledgeType)).map
            (overlap k)).getD 0) := by
  rw [← Best.foldl_eq, List.foldl_filter, bestMatch]
  congr 1
  funext best new
  by_cases htype : new.knowledgeType = k.knowledgeType <;> simp [htype]

/-- The pass over the existing knowledge finds the object drawn from the best group. -/
theorem best_synthesize (u : UnicodeTables) (float : ℚ → FloatLit) (ctx : Context)
    (memories : List MemoryRecord) (k : KnowledgeObject) :
    (Best.best (overlap k) ((synthesize u float ctx memories).filter
        fun new => new.knowledgeType = k.knowledgeType)).map KnowledgeObject.id =
      (bestGroup u memories k).map (groupId u ctx.projectId k.knowledgeType) := by
  have hscore : ∀ l : List KnowledgeObject, (Best.best (overlap k) l).map KnowledgeObject.id =
      (Best.best (fun p : String × List String =>
        (k.supportingMemoryIds.toFinset ∩ p.2.toFinset).card) (l.map key)).map Prod.fst := by
    intro l
    rw [Best.best_map, Option.map_map]
    rfl
  rw [hscore, filter_synthesize, map_key_detect, Best.best_map, Option.map_map]
  rfl

theorem markOne_id (now : String) (current : List KnowledgeObject) (k : KnowledgeObject) :
    (markOne now current k).id = k.id := by
  rw [markOne]
  dsimp only
  split
  · rfl
  · split <;> rfl

/-- A best match supersedes an object, and nothing else changes what supersedes it. -/
theorem markOne_eq (u : UnicodeTables) (float : ℚ → FloatLit) (ctx : Context)
    (memories : List MemoryRecord) (now : String) (k : KnowledgeObject) :
    (∀ g, bestGroup u memories k = some g →
      (markOne now (synthesize u float ctx memories) k).lifecycleStatus =
          KnowledgeLifecycle.superseded.value ∧
        (markOne now (synthesize u float ctx memories) k).supersededBy =
          some (groupId u ctx.projectId k.knowledgeType g)) ∧
    (bestGroup u memories k = none →
      (markOne now (synthesize u float ctx memories) k).supersededBy = k.supersededBy) := by
  have hbest := best_synthesize u float ctx memories k
  constructor
  · intro g hg
    rw [hg, Option.map_some, Option.map_eq_some_iff] at hbest
    obtain ⟨new, hnew, hid⟩ := hbest
    obtain ⟨n, hn⟩ := Nat.exists_eq_succ_of_ne_zero (Best.score_pos hnew).ne'
    rw [markOne, bestMatch_eq, hnew, Option.map_some, Option.getD_some, hn]
    exact ⟨rfl, congrArg some hid⟩
  · intro hg
    rw [hg, Option.map_none, Option.map_eq_none_iff] at hbest
    rw [markOne, bestMatch_eq, hbest]
    dsimp only
    split <;> rfl

/-! ## Memories that yield nothing -/

theorem ne_nil_of_mem_clusterFrom {threshold : ℚ} {l : List MemoryRecord} {visited : List String}
    {g : List MemoryRecord} (h : g ∈ clusterFrom u threshold l visited) : g ≠ [] := by
  induction l generalizing visited with
  | nil => cases h
  | cons m rest ih =>
      rw [clusterFrom] at h
      split at h
      · exact ih h
      · dsimp only at h
        split at h
        · rcases List.mem_cons.mp h with rfl | h
          · simp
          · exact ih h
        · exact ih h

theorem ne_nil_of_mem_groups {t : KnowledgeType} {g : List MemoryRecord}
    (h : g ∈ groups u memories t) : g ≠ [] := by
  cases t with
  | projectInvariant =>
      obtain ⟨m, -, rfl⟩ := List.mem_map.mp h
      simp
  | architecturePrinciple =>
      rcases List.mem_append.mp h with h | h
      · exact ne_nil_of_mem_clusterFrom h
      · obtain ⟨m, -, rfl⟩ := List.mem_map.mp h
        simp
  | decisionLineage =>
      obtain ⟨m, -, rfl⟩ := List.mem_map.mp h
      simp [sourceMemories]
  | lesson => exact ne_nil_of_mem_clusterFrom h
  | failurePattern => exact ne_nil_of_mem_clusterFrom h
  | workflowPattern => exact ne_nil_of_mem_clusterFrom h
  | researchFinding => exact ne_nil_of_mem_clusterFrom h

/-- No cluster is formed exactly when no two memories are similar. -/
theorem clusterBySimilarity_eq_nil_iff {threshold : ℚ} {l : List MemoryRecord} :
    clusterBySimilarity u l threshold = [] ↔
      l.Pairwise fun m m' => PythonText.jaccardSimilarity u m.content m'.content < threshold := by
  rw [clusterBySimilarity]
  induction l with
  | nil => simp [clusterFrom]
  | cons m rest ih =>
      rw [clusterFrom, if_neg (by simp), List.pairwise_cons, ← ih]
      simp only [List.not_mem_nil, not_false_eq_true, decide_true, Bool.true_and]
      by_cases hsimilar : ∃ m' ∈ rest,
          threshold ≤ PythonText.jaccardSimilarity u m.content m'.content
      · obtain ⟨m', hm', hle⟩ := hsimilar
        have hmem : m' ∈ rest.filter fun m' =>
            decide (threshold ≤ PythonText.jaccardSimilarity u m.content m'.content) := by
          simp [hm', hle]
        have hlength := List.length_pos_of_mem hmem
        rw [if_pos (by rw [List.length_cons]; omega)]
        exact iff_of_false (by simp) fun h => absurd (h.1 m' hm') (Rat.not_lt.mpr hle)
      · have hnone : rest.filter (fun m' =>
            decide (threshold ≤ PythonText.jaccardSimilarity u m.content m'.content)) = [] :=
          List.filter_eq_nil_iff.mpr fun m' hm' h =>
            hsimilar ⟨m', hm', of_decide_eq_true h⟩
        rw [hnone, if_neg (by simp)]
        exact (and_iff_right fun m' hm' => Rat.not_le.mp fun hle => hsimilar ⟨m', hm', hle⟩).symm

/-- No architecture memory and no decision, and no two similar memories of another type. -/
structure YieldsNothing (u : UnicodeTables) (memories : List MemoryRecord) : Prop where
  architecture : ofType .architecture memories = []
  decision : ofType .decision memories = []
  lesson : (ofType .lessonLearned memories).Pairwise fun m m' =>
    PythonText.jaccardSimilarity u m.content m'.content < 7 / 20
  failure : (ofType .failure memories).Pairwise fun m m' =>
    PythonText.jaccardSimilarity u m.content m'.content < 7 / 20
  workflow : (ofType .workflow memories).Pairwise fun m m' =>
    PythonText.jaccardSimilarity u m.content m'.content < 7 / 20
  research : (ofType .research memories).Pairwise fun m m' =>
    PythonText.jaccardSimilarity u m.content m'.content < 2 / 5

theorem architectureClusters_eq_nil_iff :
    architectureClusters u memories = [] ↔ ofType .architecture memories = [] := by
  constructor
  · intro h
    obtain ⟨hclusters, hsingle⟩ := List.append_eq_nil_iff.mp h
    rw [hclusters, List.map_eq_nil_iff] at hsingle
    simpa using hsingle
  · intro h
    simp [architectureClusters, h, clusterBySimilarity, clusterFrom]

theorem yieldsNothing_iff :
    YieldsNothing u memories ↔ ∀ t, groups u memories t = [] := by
  constructor
  · intro h t
    cases t with
    | projectInvariant =>
        rw [groups, List.map_eq_nil_iff, List.filter_eq_nil_iff]
        intro m hm hinvariant
        have harch : m ∈ ofType .architecture memories := by
          rw [ofType, List.mem_filter]
          refine ⟨hm, ?_⟩
          rw [isInvariant, Bool.and_eq_true, Bool.and_eq_true] at hinvariant
          exact hinvariant.1.1
        exact absurd (h.architecture ▸ harch) (by simp)
    | architecturePrinciple => exact architectureClusters_eq_nil_iff.mpr h.architecture
    | lesson => exact clusterBySimilarity_eq_nil_iff.mpr h.lesson
    | failurePattern => exact clusterBySimilarity_eq_nil_iff.mpr h.failure
    | workflowPattern => exact clusterBySimilarity_eq_nil_iff.mpr h.workflow
    | researchFinding => exact clusterBySimilarity_eq_nil_iff.mpr h.research
    | decisionLineage => rw [groups, h.decision, List.map_nil]
  · intro h
    exact
      { architecture := architectureClusters_eq_nil_iff.mp (h .architecturePrinciple)
        decision := List.map_eq_nil_iff.mp (h .decisionLineage)
        lesson := clusterBySimilarity_eq_nil_iff.mp (h .lesson)
        failure := clusterBySimilarity_eq_nil_iff.mp (h .failurePattern)
        workflow := clusterBySimilarity_eq_nil_iff.mp (h .workflowPattern)
        research := clusterBySimilarity_eq_nil_iff.mp (h .researchFinding) }

theorem synthesize_eq_nil_iff :
    synthesize u float ctx memories = [] ↔ YieldsNothing u memories := by
  have hdetect : ∀ t, detect u float ctx memories t = [] ↔ groups u memories t = [] := by
    intro t
    rw [← List.map_eq_nil_iff (f := key), map_key_detect, List.map_eq_nil_iff]
  rw [yieldsNothing_iff]
  constructor
  · intro h t
    rw [← hdetect, ← filter_synthesize, h, List.filter_nil]
  · intro h
    apply List.eq_nil_iff_forall_not_mem.mpr
    intro k hk
    have hmem : k ∈ detect u float ctx memories k.knowledgeType := by
      rw [← filter_synthesize, List.mem_filter]
      exact ⟨hk, by simp⟩
    rw [(hdetect k.knowledgeType).mpr (h k.knowledgeType)] at hmem
    cases hmem

/-- Every new object has a group that supports it when the same memories are gone through again. -/
theorem exists_bestGroup {k : KnowledgeObject} (hk : k ∈ synthesize u float ctx memories) :
    ∃ g, bestGroup u memories k = some g := by
  have hmem : k ∈ detect u float ctx memories k.knowledgeType := by
    rw [← filter_synthesize, List.mem_filter]
    exact ⟨hk, by simp⟩
  have hkey := List.mem_map_of_mem (f := key) hmem
  rw [map_key_detect, List.mem_map] at hkey
  obtain ⟨g, hg, heq⟩ := hkey
  have hids : k.supportingMemoryIds = g.map MemoryRecord.id := (congrArg Prod.snd heq).symm
  apply Best.exists_best hg
  rw [sharedMemories, hids, Finset.inter_self, Finset.card_pos, List.toFinset_nonempty_iff]
  exact fun h => ne_nil_of_mem_groups hg (List.map_eq_nil_iff.mp h)

theorem lifecycleStatus_of_mem_synthesize {k : KnowledgeObject}
    (hk : k ∈ synthesize u float ctx memories) :
    k.lifecycleStatus = KnowledgeLifecycle.active.value := by
  have hmem : k ∈ detect u float ctx memories k.knowledgeType := by
    rw [← filter_synthesize, List.mem_filter]
    exact ⟨hk, by simp⟩
  exact (detect_fresh hmem).2

/-! ## Stability -/

/-- The best group of an object gives another id, and without one the object does not point to
itself already. -/
def PointsElsewhere (u : UnicodeTables) (projectId : String) (memories : List MemoryRecord)
    (k : KnowledgeObject) : Prop :=
  match bestGroup u memories k with
  | some g => groupId u projectId k.knowledgeType g ≠ k.id
  | none => k.supersededBy ≠ some k.id

theorem supersededBy_markOne_ne_iff (now : String) (k : KnowledgeObject) :
    (markOne now (synthesize u float ctx memories) k).supersededBy ≠
        some (markOne now (synthesize u float ctx memories) k).id ↔
      PointsElsewhere u ctx.projectId memories k := by
  rw [markOne_id, PointsElsewhere]
  obtain ⟨hsome, hnone⟩ := markOne_eq u float ctx memories now k
  cases hbest : bestGroup u memories k with
  | none => rw [hnone hbest]
  | some g => rw [(hsome g hbest).2, ne_eq, Option.some.injEq]

/-- Synthesizing again leaves no object superseded by itself exactly when no existing object has its
own re-derivation as its best match, and it leaves what it derived before active exactly when the
memories yield nothing. -/
theorem synthesizeAll_stable_iff (u : UnicodeTables) (float : ℚ → FloatLit)
    (allMemories : List MemoryRecord) (ctx : Context) :
    (∀ K : List KnowledgeObject,
      (∀ K', (synthesizeAll u float allMemories ctx (some K)).2 = some K' →
        ∀ k ∈ K', k.supersededBy ≠ some k.id) ↔
      ∀ k ∈ K, PointsElsewhere u ctx.projectId (projectMemories allMemories ctx.projectId) k) ∧
    (∀ (earlier : Context) (existing : Option (List KnowledgeObject)),
      earlier.projectId = ctx.projectId →
      ((∀ K', (synthesizeAll u float allMemories ctx
          (some (synthesizeAll u float allMemories earlier existing).1)).2 = some K' →
        ∀ p ∈ (synthesizeAll u float allMemories earlier existing).1.zip K',
          p.1.lifecycleStatus = KnowledgeLifecycle.active.value →
          p.2.lifecycleStatus = KnowledgeLifecycle.active.value) ↔
      YieldsNothing u (projectMemories allMemories ctx.projectId))) := by
  constructor
  · intro K
    simp only [synthesizeAll, Option.map_some, Option.some.injEq, forall_eq', markStaleKnowledge,
      List.forall_mem_map, supersededBy_markOne_ne_iff]
  · intro earlier existing hproject
    rw [← @synthesize_eq_nil_iff u float earlier]
    simp only [synthesizeAll, Option.map_some, Option.some.injEq, forall_eq', markStaleKnowledge,
      hproject]
    constructor
    · intro h
      apply List.eq_nil_iff_forall_not_mem.mpr
      intro k hk
      obtain ⟨g, hg⟩ := exists_bestGroup hk
      rw [← List.map_prod_left_eq_zip] at h
      have hactive := h _ (List.mem_map_of_mem hk) (lifecycleStatus_of_mem_synthesize hk)
      have hretired := ((markOne_eq u float ctx _ ctx.now k).1 g hg).1
      exact absurd (hretired.symm.trans hactive) (by decide)
    · intro h p hp
      rw [h] at hp
      cases hp

/-- The memory of one accepted decision. -/
def acceptedDecision : MemoryRecord where
  id := "m1"
  version := 1
  title := "Decision Accepted"
  content := "Use Postgres"
  memoryType := .decision
  importance := "high"
  lifecycleStatus := "active"
  sourceEventIds := ["e1"]
  sourceType := "decision"
  createdAt := "2026-01-01"
  projectId := "p1"

/-- Synthesizing twice over one decision supersedes its lineage by itself. -/
theorem synthesizeAll_supersedes_itself :
    let float : ℚ → FloatLit := fun _ => .one
    let ctx : Context := ⟨"p1", "", "2026-01-01"⟩
    let K := (synthesizeAll .asciiOnly float [acceptedDecision] ctx none).1
    ∃ K', (synthesizeAll .asciiOnly float [acceptedDecision] ctx (some K)).2 = some K' ∧
      K.map KnowledgeObject.lifecycleStatus = ["ACTIVE"] ∧
      ∃ k ∈ K', k.supersededBy = some k.id ∧ k.lifecycleStatus = "SUPERSEDED" :=
  ⟨_, rfl, rfl, _, List.mem_cons_self, rfl, rfl⟩

end KnowledgeSynthesizer

end RationaleVault
