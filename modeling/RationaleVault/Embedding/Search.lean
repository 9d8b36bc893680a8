import Mathlib.Algebra.Order.Field.Rat
import RationaleVault.Embedding.Builder
import RationaleVault.Library.Ranking

/-!
# Semantic search

The adapter lays the vectors of the builder out in an index with a node for each row, and looks up
the rows that are nearest to a query. It can be destroyed and built again at any time: what it
finds depends on the states that were built, not on the indexes that were dropped. A deleted node
is found as long as the builder remembers its vector.
-/

namespace RationaleVault

/-- `EmbeddingProvider`: all vectors have the dimension of the model. -/
structure EmbeddingProvider where
  dimension : Nat
  embed : String → List ℚ
  dimension_pos : 0 < dimension
  length_embed : ∀ text, (embed text).length = dimension

/-- The L2 distance of `IndexFlatL2`, which is squared. -/
def distanceL2 (v w : List ℚ) : ℚ := ((v.zip w).map fun p => (p.1 - p.2) ^ 2).sum

/-- `faiss.IndexFlatL2`: an exact search gives the nearest rows with their distances, the nearest
first and those at one distance in any order. -/
structure FlatIndex where
  search : List (List ℚ) → List ℚ → Nat → List (ℚ × Nat)
  exact : ∀ matrix query k, ∃ rows, Ranking.IsTop (fun i => -distanceL2 query (matrix.getD i [])) k
    (List.range matrix.length) rows ∧
      search matrix query k = rows.map fun i => (distanceL2 query (matrix.getD i []), i)

/-- The index that takes rows at one distance in the order in which they were added. -/
def FlatIndex.inOrder : FlatIndex where
  search matrix query k :=
    let distance := fun i => distanceL2 query (matrix.getD i [])
    ((Table.orderByDesc (fun i => -distance i) (List.range matrix.length)).take k).map
      fun i => (distance i, i)
  exact _ _ _ := ⟨_, ⟨_, Ranking.ranked_orderByDesc _ _, rfl⟩, rfl⟩

structure SearchResult where
  id : Atom
  score : ℚ
  payload : List (String × String)
  deriving DecidableEq

inductive RuntimeHealth
  | unknown | ready | degraded | failed | shutdown
  deriving DecidableEq

structure FAISSMetrics where
  indexedNodes : Nat := 0
  indexType : String := "IndexFlatL2"
  dimension : Nat := 0
  vectorCount : Nat := 0
  deriving DecidableEq

/-- The adapter; its index is the matrix that was added to it. -/
structure FAISSAdapter where
  builder : EmbeddingBuilder (List ℚ) := {}
  index : Option (List (List ℚ)) := none
  nodeIds : List Atom := []
  health : RuntimeHealth := .unknown
  metrics : FAISSMetrics := {}

namespace FAISSAdapter

open EmbeddingBuilder

/-- `build(state)`. -/
def build (provider : EmbeddingProvider) (a : FAISSAdapter) (state : EmbeddingState) :
    FAISSAdapter :=
  let builder := a.builder.build provider.embed state
  let vectors := builder.vectors
  if vectors.entries = [] then { builder := builder, health := .ready }
  else
    let matrix := vectors.keys.map fun nid => (vectors.get? nid).getD []
    { builder := builder
      index := some matrix
      nodeIds := vectors.keys
      health := .ready
      metrics := {
        indexedNodes := vectors.keys.length
        dimension := (matrix.headD []).length
        vectorCount := matrix.length } }

/-- `destroy()`. -/
def destroy (a : FAISSAdapter) : FAISSAdapter := { builder := a.builder }

/-- `search(query, k)`. -/
def search (ix : FlatIndex) (provider : EmbeddingProvider) (a : FAISSAdapter) (query : String)
    (k : Nat) : List SearchResult :=
  match a.index with
  | none => []
  | some matrix =>
      let queryVec := provider.embed query
      if queryVec = [] then []
      else
        let kActual := min k matrix.length
        if kActual = 0 then []
        else (ix.search matrix queryVec kActual).filterMap fun hit =>
          a.nodeIds[hit.2]?.map fun id => ⟨id, hit.1, [("distance_metric", "L2")]⟩

/-- What can be done with an adapter between searches. -/
inductive Op
  | build (state : EmbeddingState)
  | destroy

/-- One operation. -/
def step (provider : EmbeddingProvider) (a : FAISSAdapter) : Op → FAISSAdapter
  | .build state => a.build provider state
  | .destroy => a.destroy

/-- The adapter after some operations. -/
def run (provider : EmbeddingProvider) (ops : List Op) : FAISSAdapter :=
  ops.foldl (step provider) {}

/-- The state that an operation builds. -/
def Op.state? : Op → Option EmbeddingState
  | .build state => some state
  | .destroy => none

/-- What the adapter knows of a node: after a build its newest entry among the states since the
last change of provider, model or version, after a destruction nothing. -/
def known (ops : List Op) (key : Atom) : Option NodeInfo :=
  if ops.getLast?.bind Op.state? = none then none
  else latest (current (ops.filterMap Op.state?).reverse) key

/-! ## The nearest nodes -/

/-- The `k` nearest nodes of those that are known, or all if there are fewer. -/
structure Nearest (known : Atom → Option NodeInfo) (distance : NodeInfo → ℚ) (k : Nat)
    (results : List SearchResult) : Prop where
  length_le : results.length ≤ k
  nodup : (results.map fun r => (DictKey.norm r.id : AtomNorm)).Nodup
  sorted : results.Pairwise fun r r' => r.score ≤ r'.score
  found : ∀ r ∈ results, ∃ info, known r.id = some info ∧ r.score = distance info
  nearest : ∀ key info, known key = some info →
    (∃ r ∈ results, (DictKey.norm r.id : AtomNorm) = DictKey.norm key) ∨
      results.length = k ∧ ∀ r ∈ results, r.score ≤ distance info

variable {known : Atom → Option NodeInfo} {distance : NodeInfo → ℚ} {k : Nat}

theorem Nearest.of_forall_none (h : ∀ key, known key = none) : Nearest known distance k [] where
  length_le := Nat.zero_le k
  nodup := List.nodup_nil
  sorted := List.Pairwise.nil
  found _ hr := by cases hr
  nearest key info hknown := by
    rw [h key] at hknown
    cases hknown

/-- Looking up the nodes of the top rows, when each row lies at the distance of its node. -/
theorem Nearest.of_isTop {ids : List Atom} {score : Nat → ℚ} {rows : List Nat}
    (hids : (ids.map fun id => (DictKey.norm id : AtomNorm)).Nodup)
    (htop : Ranking.IsTop (fun i => -score i) k (List.range ids.length) rows)
    (hfound : ∀ i < ids.length, ∃ info, known (ids.getD i .null) = some info ∧
      score i = distance info)
    (hall : ∀ key info, known key = some info → ∃ i < ids.length,
      (DictKey.norm (ids.getD i .null) : AtomNorm) = DictKey.norm key ∧ score i = distance info)
    (payload : List (String × String)) :
    Nearest known distance k ((rows.map fun i => (score i, i)).filterMap fun hit =>
      ids[hit.2]?.map fun id => ⟨id, hit.1, payload⟩) := by
  obtain ⟨ranked, hranked, rfl⟩ := htop
  have hlt : ∀ i ∈ ranked, i < ids.length := fun i hi =>
    List.mem_range.mp (hranked.perm.mem_iff.mp hi)
  have hresults : ((ranked.take k).map fun i => (score i, i)).filterMap (fun hit =>
      ids[hit.2]?.map fun id => (⟨id, hit.1, payload⟩ : SearchResult)) =
      (ranked.take k).map fun i => ⟨ids.getD i .null, score i, payload⟩ := by
    rw [List.filterMap_map, ← List.filterMap_eq_map]
    apply List.filterMap_congr
    intro i hi
    have hi := hlt i (List.mem_of_mem_take hi)
    simp [hi]
  rw [hresults]
  constructor
  · rw [List.length_map]
    exact List.length_take_le k ranked
  · rw [List.map_map]
    have hnodup : (ranked.take k).Nodup :=
      (hranked.perm.nodup_iff.mpr List.nodup_range).sublist (List.take_sublist k ranked)
    refine hnodup.map_on fun i hi j hj heq => ?_
    have hi := hlt i (List.mem_of_mem_take hi)
    have hj := hlt j (List.mem_of_mem_take hj)
    rw [← List.Nodup.getElem_inj_iff hids]
    · simpa [hi, hj] using heq
    · simpa using hi
    · simpa using hj
  · rw [List.pairwise_map]
    exact (hranked.sorted.sublist (List.take_sublist k ranked)).imp fun h => neg_le_neg_iff.mp h
  · intro r hr
    obtain ⟨i, hi, rfl⟩ := List.mem_map.mp hr
    exact hfound i (hlt i (List.mem_of_mem_take hi))
  · intro key info hknown
    obtain ⟨i, hi, hnorm, hscore⟩ := hall key info hknown
    have hmem : i ∈ ranked := hranked.perm.mem_iff.mpr (List.mem_range.mpr hi)
    rw [← List.take_append_drop k ranked, List.mem_append] at hmem
    rcases hmem with htake | hdrop
    · exact Or.inl ⟨_, List.mem_map_of_mem htake, hnorm⟩
    · -- a row that is left out is left out for `k` others
      right
      refine ⟨?_, fun r hr => ?_⟩
      · have hpos := List.length_pos_of_mem hdrop
        rw [List.length_drop] at hpos
        rw [List.length_map, List.length_take]
        omega
      · obtain ⟨j, hj, rfl⟩ := List.mem_map.mp hr
        rw [← hscore]
        exact neg_le_neg_iff.mp (hranked.le_of_mem_drop hdrop hj)

/-! ## Runs of an adapter -/

theorem run_concat (provider : EmbeddingProvider) (ops : List Op) (op : Op) :
    run provider (ops ++ [op]) = step provider (run provider ops) op := List.foldl_concat ..

@[simp] theorem builder_build (provider : EmbeddingProvider) (a : FAISSAdapter)
    (state : EmbeddingState) :
    (a.build provider state).builder = a.builder.build provider.embed state := by
  rw [build]
  split
  · rfl
  · rfl

/-- Destroying an index leaves no trace in the builder. -/
theorem builder_run (provider : EmbeddingProvider) (ops : List Op) :
    (run provider ops).builder =
      (ops.filterMap Op.state?).foldl (EmbeddingBuilder.build provider.embed) {} := by
  induction ops using List.reverseRecOn with
  | nil => rfl
  | append_singleton ops op ih =>
      rw [run_concat, List.filterMap_append, List.foldl_append, ← ih]
      cases op with
      | build state => exact builder_build provider _ state
      | destroy => rfl

/-- The top among as many as there are. -/
theorem isTop_of_min {rows top : List Nat} {score : Nat → ℚ}
    (h : Ranking.IsTop score (min k rows.length) rows top) : Ranking.IsTop score k rows top := by
  obtain ⟨ranked, hranked, rfl⟩ := h
  refine ⟨ranked, hranked, ?_⟩
  rw [← hranked.perm.length_eq, ← List.take_eq_take_min]

/-- A search looks up the nodes of the top rows of the index. -/
theorem exists_search_eq (ix : FlatIndex) (provider : EmbeddingProvider) (a : FAISSAdapter)
    {matrix : List (List ℚ)} (hindex : a.index = some matrix) (query : String) (k : Nat) :
    ∃ rows, Ranking.IsTop (fun i => -distanceL2 (provider.embed query) (matrix.getD i [])) k
      (List.range matrix.length) rows ∧
      search ix provider a query k =
        (rows.map fun i => (distanceL2 (provider.embed query) (matrix.getD i []), i)).filterMap
          fun hit => a.nodeIds[hit.2]?.map fun id =>
            ⟨id, hit.1, [("distance_metric", "L2")]⟩ := by
  have hquery : provider.embed query ≠ [] := by
    apply List.ne_nil_of_length_pos
    rw [provider.length_embed]
    exact provider.dimension_pos
  simp only [search, hindex, if_neg hquery]
  by_cases hzero : min k matrix.length = 0
  · rw [if_pos hzero]
    refine ⟨[], isTop_of_min ?_, rfl⟩
    rw [List.length_range, hzero]
    exact ⟨_, Ranking.ranked_orderByDesc _ _, rfl⟩
  · rw [if_neg hzero]
    obtain ⟨rows, htop, heq⟩ := ix.exact matrix (provider.embed query) (min k matrix.length)
    refine ⟨rows, isTop_of_min ?_, by rw [heq]⟩
    rw [List.length_range]
    exact htop

/-- The rows of the index are the embeddings of the texts of their nodes. -/
theorem exists_row (provider : EmbeddingProvider) {vectors : OrdDict Atom (List ℚ)}
    (hvectors : ∀ key, vectors.get? key =
      (known key).map fun info => provider.embed info.canonicalText)
    {i : Nat} (hi : i < vectors.keys.length) :
    ∃ info, known (vectors.keys.getD i .null) = some info ∧
      (vectors.keys.map fun nid => (vectors.get? nid).getD []).getD i [] =
        provider.embed info.canonicalText := by
  have hlen : i < vectors.entries.length := by simpa [OrdDict.keys] using hi
  have hkey : vectors.keys.getD i .null = vectors.entries[i].1 := by
    simp [OrdDict.keys, hlen]
  have hget : vectors.get? (vectors.keys.getD i .null) = some vectors.entries[i].2 := by
    rw [hkey]
    exact OrdDict.get?_of_mem (List.getElem_mem hlen)
  obtain ⟨info, hinfo, hembed⟩ := Option.map_eq_some_iff.mp ((hvectors _).symm.trans hget)
  have hrow : (vectors.keys.map fun nid => (vectors.get? nid).getD []).getD i [] =
      (vectors.get? (vectors.keys.getD i .null)).getD [] := by simp [hi]
  exact ⟨info, hinfo, by rw [hrow, hget, hembed, Option.getD_some]⟩

/-- After a build the index lies over the vectors of the builder. -/
theorem nearest_of_build (ix : FlatIndex) (provider : EmbeddingProvider) (a : FAISSAdapter)
    (state : EmbeddingState) (query : String) (k : Nat)
    (hvectors : ∀ key, (a.build provider state).builder.vectors.get? key =
      (known key).map fun info => provider.embed info.canonicalText) :
    Nearest known (fun info => distanceL2 (provider.embed query) (provider.embed info.canonicalText))
      k (search ix provider (a.build provider state) query k) := by
  rw [builder_build] at hvectors
  generalize hv : (a.builder.build provider.embed state).vectors = vectors at hvectors
  by_cases hnone : vectors.entries = []
  · have hindex : (a.build provider state).index = none := by
      simp only [build, hv, if_pos hnone]
    rw [search, hindex]
    refine Nearest.of_forall_none fun key => ?_
    have hget := hvectors key
    rw [OrdDict.get?, hnone] at hget
    exact Option.map_eq_none_iff.mp hget.symm
  · have hindex : (a.build provider state).index =
        some (vectors.keys.map fun nid => (vectors.get? nid).getD []) := by
      simp only [build, hv, if_neg hnone]
    have hids : (a.build provider state).nodeIds = vectors.keys := by
      simp only [build, hv, if_neg hnone]
    obtain ⟨rows, htop, heq⟩ := exists_search_eq ix provider _ hindex query k
    rw [heq, hids]
    rw [List.length_map] at htop
    have hrow : ∀ i, (hi : i < vectors.keys.length) → ∃ info,
        known (vectors.keys.getD i .null) = some info ∧
        (vectors.keys.map fun nid => (vectors.get? nid).getD []).getD i [] =
          provider.embed info.canonicalText := fun i hi => exists_row provider hvectors hi
    refine Nearest.of_isTop ?_ htop ?_ ?_ _
    · rw [OrdDict.keys, List.map_map]
      exact vectors.nodup
    · intro i hi
      obtain ⟨info, hinfo, hembed⟩ := hrow i hi
      exact ⟨info, hinfo, by rw [hembed]⟩
    · intro key info hinfo
      have hget : vectors.get? key = some (provider.embed info.canonicalText) := by
        rw [hvectors, hinfo]
        rfl
      obtain ⟨e, he, hnorm, -⟩ := OrdDict.lookupIn_mem hget
      obtain ⟨i, hi, hat⟩ := List.mem_iff_getElem.mp he
      have hi' : i < vectors.keys.length := by simpa [OrdDict.keys] using hi
      have hkey : (DictKey.norm (vectors.keys.getD i .null) : AtomNorm) = DictKey.norm key := by
        rw [← hnorm, ← hat]
        simp [OrdDict.keys, hi]
      refine ⟨i, hi', hkey, ?_⟩
      have hsame := OrdDict.get?_congr (d := vectors) hkey
      rw [hget] at hsame
      obtain ⟨info', hinfo', hembed⟩ := hrow i hi'
      rw [hvectors, hinfo', Option.map_some, Option.some.injEq] at hsame
      rw [hembed, hsame]

/-- A provider that sees only how long a text is. -/
def lengthProvider : EmbeddingProvider where
  dimension := 1
  embed text := [(text.length : ℚ)]
  dimension_pos := Nat.one_pos
  length_embed _ := rfl

end FAISSAdapter

end RationaleVault
