import Mathlib.Data.String.Basic
import RationaleVault.Knowledge.Synthesizer
import RationaleVault.Library.Greedy
import RationaleVault.Library.Pairs
import RationaleVault.Library.Tally

/-!
# Clusters of similar memories

The detector of duplicates and the detectors of knowledge scan the memories with one loop. A
memory starts a cluster unless an earlier one has it, and takes the later memories that are
similar to it. Similarity is not transitive: only the first member is similar to all others.
-/

namespace RationaleVault

structure ConsolidationCandidate where
  candidateId : String
  memoryIds : List String
  similarityScore : ℚ
  clusterSize : Nat

namespace Consolidation

variable (u : UnicodeTables)

def isActive (r : MemoryRecord) : Bool := u.lower r.lifecycleStatus = "active"

/-- Whether a later record joins the cluster of an earlier one. -/
def joins (r1 r2 : MemoryRecord) : Bool :=
  decide (r1.memoryType = r2.memoryType) &&
    decide (7 / 20 ≤ PythonText.jaccardSimilarity u r1.content r2.content)

/-- `avg_sim`, over the pairs of a cluster. -/
def averageSimilarity (cluster : List MemoryRecord) : ℚ :=
  let sims := (Pairs.couples cluster).map fun p =>
    PythonText.jaccardSimilarity u p.1.content p.2.content
  if sims = [] then 1 else sims.sum / sims.length

def candidateOf (cluster : List MemoryRecord) : ConsolidationCandidate :=
  let sortedIds := Table.orderBy id (cluster.map MemoryRecord.id)
  { candidateId := Sha256.hexdigest (String.intercalate ":" sortedIds)
    memoryIds := sortedIds
    similarityScore := averageSimilarity u cluster
    clusterSize := cluster.length }

/-- The loop over the active records with the ids visited so far. -/
def detectFrom : List MemoryRecord → List String → List ConsolidationCandidate
  | [], _ => []
  | r1 :: rest, visited =>
      if r1.id ∈ visited then detectFrom rest visited
      else
        let cluster := r1 :: rest.filter fun r2 => decide (r2.id ∉ visited) && joins u r1 r2
        if 1 < cluster.length then
          candidateOf u cluster :: detectFrom rest (visited ++ cluster.map MemoryRecord.id)
        else detectFrom rest visited

/-- `detect_consolidation_candidates()` on the records of the provider. -/
def detectConsolidationCandidates (records : List MemoryRecord) : List ConsolidationCandidate :=
  detectFrom u (records.filter (isActive u)) []

/-! ## The loops as one scan -/

variable {u} {memories : List MemoryRecord}

theorem detectFrom_eq (records : List MemoryRecord) (visited : List String) :
    detectFrom u records visited =
      (Greedy.clustersFrom MemoryRecord.id (joins u) records visited).map (candidateOf u) := by
  induction records generalizing visited with
  | nil => rfl
  | cons r rest ih =>
      simp only [detectFrom, Greedy.clustersFrom, ih]
      by_cases hvisited : r.id ∈ visited
      · rw [if_pos hvisited, if_pos hvisited]
      · rw [if_neg hvisited, if_neg hvisited]
        by_cases hlength : 1 < (Greedy.collect MemoryRecord.id (joins u) visited r rest).length
        · rw [if_pos hlength]
          exact if_pos hlength
        · rw [if_neg hlength]
          exact if_neg hlength

/-- Whether the detectors of knowledge put two memories together. -/
def similar (u : UnicodeTables) (threshold : ℚ) (m1 m2 : MemoryRecord) : Bool :=
  decide (threshold ≤ PythonText.jaccardSimilarity u m1.content m2.content)

theorem clusterFrom_eq (threshold : ℚ) (records : List MemoryRecord) (visited : List String) :
    KnowledgeSynthesizer.clusterFrom u threshold records visited =
      Greedy.clustersFrom MemoryRecord.id (similar u threshold) records visited := by
  induction records generalizing visited with
  | nil => rfl
  | cons r rest ih =>
      simp only [KnowledgeSynthesizer.clusterFrom, Greedy.clustersFrom, ih]
      rfl

theorem clusterBySimilarity_eq (threshold : ℚ) (records : List MemoryRecord) :
    KnowledgeSynthesizer.clusterBySimilarity u records threshold =
      Greedy.clustersFrom MemoryRecord.id (similar u threshold) records [] :=
  clusterFrom_eq threshold records []

/-! ## The first member -/

/-- No text is more similar to a text than the text itself. -/
theorem jaccardSimilarity_le_self (s t : String) :
    PythonText.jaccardSimilarity u s t ≤ PythonText.jaccardSimilarity u s s := by
  simp only [PythonText.jaccardSimilarity, or_self, Finset.inter_self, Finset.union_self]
  generalize (PythonText.split (PythonText.strip (u.lower s).toList)).toFinset = ws
  generalize (PythonText.split (PythonText.strip (u.lower t).toList)).toFinset = wt
  by_cases hs : ws = ∅
  · rw [if_pos (.inl hs), if_pos hs]
  · have hcard : (ws.card : ℚ) ≠ 0 := by
      rwa [Nat.cast_ne_zero, Finset.card_ne_zero, Finset.nonempty_iff_ne_empty]
    rw [if_neg hs, div_self hcard]
    split_ifs
    · exact zero_le_one
    · apply div_le_one_of_le₀ _ (Nat.cast_nonneg _)
      exact Nat.cast_le.mpr (Finset.card_le_card fun w hw =>
        Finset.mem_union_left _ (Finset.mem_inter.mp hw).1)

/-- Every member of a cluster, the first one too, is similar to the first one. -/
theorem threshold_le_of_mem {threshold : ℚ} {leader : MemoryRecord} {members : List MemoryRecord}
    (hcluster : leader :: members ∈ KnowledgeSynthesizer.clusterBySimilarity u memories threshold)
    {m : MemoryRecord} (hm : m ∈ leader :: members) :
    threshold ≤ PythonText.jaccardSimilarity u leader.content m.content := by
  rw [clusterBySimilarity_eq] at hcluster
  obtain ⟨_, _, hcons, hne, hclose⟩ := (Greedy.cluster_of_mem hcluster).led
  obtain ⟨rfl, rfl⟩ := List.cons.inj hcons
  rcases List.mem_cons.mp hm with rfl | hm
  · obtain ⟨other, hother⟩ := List.exists_mem_of_ne_nil _ hne
    exact (of_decide_eq_true (hclose other hother)).trans (jaccardSimilarity_le_self _ _)
  · exact of_decide_eq_true (hclose m hm)

/-! ## Architecture memories -/

theorem mem_of_mem_clusters {threshold : ℚ} {m : MemoryRecord}
    (hm : m ∈ (KnowledgeSynthesizer.clusterBySimilarity u memories threshold).flatten) :
    m ∈ memories := by
  rw [clusterBySimilarity_eq] at hm
  obtain ⟨c, hc, hm⟩ := List.mem_flatten.mp hm
  exact (Greedy.cluster_of_mem hc).sublist.subset hm

theorem nodup_clusters {threshold : ℚ} (hids : (memories.map MemoryRecord.id).Nodup) :
    ((KnowledgeSynthesizer.clusterBySimilarity u memories threshold).flatten.map
      MemoryRecord.id).Nodup := by
  rw [clusterBySimilarity_eq]
  exact Greedy.nodup_clustersFrom hids

theorem nodup_ofType (hids : (memories.map MemoryRecord.id).Nodup) (t : MemoryType) :
    ((KnowledgeSynthesizer.ofType t memories).map MemoryRecord.id).Nodup :=
  hids.sublist (List.filter_sublist.map _)

/-- The clusters and the leftovers together are the architecture memories. -/
theorem flatten_architectureClusters_perm (hids : (memories.map MemoryRecord.id).Nodup) :
    (KnowledgeSynthesizer.architectureClusters u memories).flatten.Perm
      (KnowledgeSynthesizer.ofType .architecture memories) := by
  have harch := nodup_ofType hids .architecture
  have hclusters : ((KnowledgeSynthesizer.clusterBySimilarity u
      (KnowledgeSynthesizer.ofType .architecture memories) (2 / 5)).flatten.map
        MemoryRecord.id).Nodup := nodup_clusters harch
  have hsingles : ∀ l : List MemoryRecord, (l.map fun mem => [mem]).flatten = l := by
    intro l
    rw [← List.flatMap_def]
    exact List.flatMap_singleton' l
  simp only [KnowledgeSynthesizer.architectureClusters, List.flatten_append, hsingles]
  generalize hgrouped : (KnowledgeSynthesizer.clusterBySimilarity u
    (KnowledgeSynthesizer.ofType .architecture memories) (2 / 5)).flatten = grouped at hclusters ⊢
  have hsub : ∀ m ∈ grouped, m ∈ KnowledgeSynthesizer.ofType .architecture memories := by
    intro m hm
    rw [← hgrouped] at hm
    exact mem_of_mem_clusters hm
  apply (List.perm_ext_iff_of_nodup _ (List.Nodup.of_map _ harch)).mpr
  · intro m
    rw [List.mem_append, List.mem_filter, decide_eq_true_eq]
    constructor
    · rintro (hm | hm)
      · exact hsub m hm
      · exact hm.1
    · intro hm
      by_cases hmem : m.id ∈ grouped.map MemoryRecord.id
      · obtain ⟨m', hm', hid⟩ := List.mem_map.mp hmem
        rw [← List.inj_on_of_nodup_map harch (hsub m' hm') hm hid]
        exact .inl hm'
      · exact .inr ⟨hm, hmem⟩
  · refine List.nodup_append.mpr ⟨List.Nodup.of_map _ hclusters,
      (List.Nodup.of_map _ harch).filter _, ?_⟩
    rintro m hm _ hleft rfl
    exact of_decide_eq_true (List.mem_filter.mp hleft).2 (List.mem_map_of_mem hm)

/-- What the principles rest on, one after the other: every architecture memory once. -/
theorem supportingMemoryIds_perm (float : ℚ → FloatLit) (ctx : KnowledgeSynthesizer.Context)
    (hids : (memories.map MemoryRecord.id).Nodup) :
    ((KnowledgeSynthesizer.detectArchitecturePrinciples u float ctx memories).flatMap
      KnowledgeObject.supportingMemoryIds).Perm
        ((KnowledgeSynthesizer.ofType .architecture memories).map MemoryRecord.id) := by
  have hsupport : (KnowledgeSynthesizer.detectArchitecturePrinciples u float ctx memories).flatMap
      KnowledgeObject.supportingMemoryIds =
        (KnowledgeSynthesizer.architectureClusters u memories).flatten.map MemoryRecord.id := by
    rw [KnowledgeSynthesizer.detectArchitecturePrinciples, List.flatMap_map, List.map_flatten]
    rfl
  rw [hsupport]
  exact (flatten_architectureClusters_perm hids).map _

theorem countP_supporting_eq_one (float : ℚ → FloatLit) (ctx : KnowledgeSynthesizer.Context)
    (hids : (memories.map MemoryRecord.id).Nodup) {m : MemoryRecord} (hm : m ∈ memories)
    (htype : m.memoryType = .architecture) :
    (KnowledgeSynthesizer.detectArchitecturePrinciples u float ctx memories).countP
      (fun p => m.id ∈ p.supportingMemoryIds) = 1 := by
  have hperm := supportingMemoryIds_perm (u := u) float ctx hids
  apply Tally.countP_mem_eq_one (hperm.nodup_iff.mpr (nodup_ofType hids _))
  apply hperm.mem_iff.mpr (List.mem_map_of_mem _)
  exact List.mem_filter.mpr ⟨hm, decide_eq_true htype⟩

/-! ## Duplicates -/

theorem nodup_candidates (hids : (memories.map MemoryRecord.id).Nodup) :
    ((detectConsolidationCandidates u memories).flatMap
      ConsolidationCandidate.memoryIds).Nodup := by
  have hactive : ((memories.filter (isActive u)).map MemoryRecord.id).Nodup :=
    hids.sublist (List.filter_sublist.map _)
  have hnodup : ((Greedy.clustersFrom MemoryRecord.id (joins u) (memories.filter (isActive u))
      []).flatten.map MemoryRecord.id).Nodup := Greedy.nodup_clustersFrom hactive
  have hsorted : ∀ clusters : List (List MemoryRecord),
      ((clusters.map (candidateOf u)).flatMap ConsolidationCandidate.memoryIds).Perm
        (clusters.flatten.map MemoryRecord.id) := by
    intro clusters
    rw [List.flatMap_map, List.map_flatten, ← List.flatMap_def]
    exact List.Perm.flatMap_left _ fun c _ => Table.orderBy_perm id _
  rw [detectConsolidationCandidates, detectFrom_eq]
  exact (hsorted _).nodup_iff.mpr hnodup

/-- The members of a cluster of duplicates are active, and of the type of its first member. -/
theorem members_of_mem_candidates {c : ConsolidationCandidate}
    (hc : c ∈ detectConsolidationCandidates u memories) :
    ∃ t, ∀ i ∈ c.memoryIds, ∃ m ∈ memories,
      m.id = i ∧ isActive u m = true ∧ m.memoryType = t := by
  rw [detectConsolidationCandidates, detectFrom_eq] at hc
  obtain ⟨cluster, hcluster, rfl⟩ := List.mem_map.mp hc
  have h := Greedy.cluster_of_mem hcluster
  obtain ⟨leader, members, rfl, -, hclose⟩ := h.led
  refine ⟨leader.memoryType, fun i hi => ?_⟩
  obtain ⟨m, hm, rfl⟩ := List.mem_map.mp (Table.mem_orderBy.mp hi)
  obtain ⟨hmem, hactive⟩ := List.mem_filter.mp (h.sublist.subset hm)
  refine ⟨m, hmem, rfl, hactive, ?_⟩
  rcases List.mem_cons.mp hm with rfl | hm
  · rfl
  · exact (of_decide_eq_true (Bool.and_eq_true_iff.mp (hclose m hm)).1).symm

/-! ## What the clusters keep to -/

structure Apart (u : UnicodeTables) (float : ℚ → FloatLit) (ctx : KnowledgeSynthesizer.Context)
    (memories : List MemoryRecord) : Prop where
  disjoint : ∀ threshold, ((KnowledgeSynthesizer.clusterBySimilarity u memories
    threshold).flatten.map MemoryRecord.id).Nodup
  led : ∀ threshold, ∀ c ∈ KnowledgeSynthesizer.clusterBySimilarity u memories threshold,
    ∃ leader members, c = leader :: members ∧
      ∀ m ∈ c, threshold ≤ PythonText.jaccardSimilarity u leader.content m.content
  supporting : ∀ m ∈ memories, m.memoryType = .architecture →
    (KnowledgeSynthesizer.detectArchitecturePrinciples u float ctx memories).countP
      (fun p => m.id ∈ p.supportingMemoryIds) = 1
  candidates : ((detectConsolidationCandidates u memories).flatMap
    ConsolidationCandidate.memoryIds).Nodup
  members : ∀ c ∈ detectConsolidationCandidates u memories, ∃ t, ∀ i ∈ c.memoryIds,
    ∃ m ∈ memories, m.id = i ∧ isActive u m = true ∧ m.memoryType = t

/-- Memories with ids of their own: no two clusters share one, the members of a cluster are similar
to its first one, and each architecture memory supports one principle. -/
theorem clusters_apart (float : ℚ → FloatLit) (ctx : KnowledgeSynthesizer.Context)
    (hids : (memories.map MemoryRecord.id).Nodup) : Apart u float ctx memories where
  disjoint _ := nodup_clusters hids
  led threshold c hc := by
    have hscan := hc
    rw [clusterBySimilarity_eq] at hscan
    obtain ⟨leader, members, rfl, -, -⟩ := (Greedy.cluster_of_mem hscan).led
    exact ⟨leader, members, rfl, fun m hm => threshold_le_of_mem hc hm⟩
  supporting _ hm htype := countP_supporting_eq_one float ctx hids hm htype
  candidates := nodup_candidates hids
  members _ hc := members_of_mem_candidates hc

/-- An active architecture memory. -/
def blueprint (id content : String) : MemoryRecord where
  id := id
  version := 1
  title := "t"
  content := content
  memoryType := .architecture
  importance := "high"
  lifecycleStatus := "ACTIVE"
  sourceEventIds := []
  sourceType := "event"
  createdAt := "2026-01-01T00:00:00"

theorem clusters_apart_blueprints : Apart .asciiOnly (fun _ => .zero) ⟨"p", "", "now"⟩
    [blueprint "m1" "use one ledger", blueprint "m2" "one ledger only",
      blueprint "m3" "no network"] :=
  clusters_apart _ _ (by decide)

/-- The first two of them are duplicates. -/
example : (detectConsolidationCandidates .asciiOnly [blueprint "m1" "use one ledger",
    blueprint "m2" "one ledger only", blueprint "m3" "no network"]).map
      ConsolidationCandidate.memoryIds = [["m1", "m2"]] := by
  decide +kernel

end Consolidation

end RationaleVault
