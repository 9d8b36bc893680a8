import Mathlib.Algebra.Order.Field.Basic
import Mathlib.Algebra.Order.Ring.Cast
import RationaleVault.Library.Fold
import RationaleVault.Library.KeyedDict
import RationaleVault.Memory.Retrieval

/-!
# Fused search

A keyword search and a semantic search are fused by reciprocal ranks: a record gets points for
its place in each list, and the records come in descending order of their points. Records are
told apart by their ids; of two records with one id the one of the semantic search is returned.
-/

namespace RationaleVault

namespace SemanticSearch

/-- `scores[rec.id] = scores.get(rec.id, 0.0) + (1.0 / (k + rank + 1))`. -/
def addRank (k : Int) (scores : OrdDict String ℚ) (ranked : MemoryRecord × Nat) :
    Except Exc (OrdDict String ℚ) :=
  if k + ranked.2 + 1 = 0 then .error .zeroDivisionError
  else .ok (scores.set ranked.1.id
    ((scores.get? ranked.1.id).getD 0 + 1 / ((k + ranked.2 + 1 : Int) : ℚ)))

/-- `perform_rrf_blending(keyword_results, semantic_results, k)`. -/
def performRrfBlending (keywordResults semanticResults : List MemoryRecord) (k : Int := 60) :
    Except Exc (List MemoryRecord) := do
  let scores ← keywordResults.zipIdx.foldlM (addRank k) .empty
  let scores ← semanticResults.zipIdx.foldlM (addRank k) scores
  let allRecords := KeyedDict.ofList MemoryRecord.id (keywordResults ++ semanticResults)
  let sortedIds := Table.orderByDesc (fun x => (scores.get? x).getD 0) scores.keys
  sortedIds.mapM fun rid =>
    match allRecords.get? rid with
    | some r => .ok r
    | none => .error (.keyError rid)

/-- `search_memories_rrf(query, all_records, semantic_provider)`, with `semantic_provider.search`. -/
def searchMemories (u : UnicodeTables) (query : String) (allRecords : List MemoryRecord)
    (search : String → List MemoryRecord → Except Exc (List MemoryRecord)) : List MemoryRecord :=
  if query = "" then allRecords
  else
    let keywordResults := searchMemoriesRrf u query allRecords
    let blended := do performRrfBlending keywordResults (← search query allRecords)
    match blended with
    | .ok results => results
    | .error _ => keywordResults

/-! ## Scores -/

/-- What a place in a list is worth. -/
def weight (k : Int) (rank : Nat) : ℚ := 1 / ((k + rank + 1 : Int) : ℚ)

section Weight

variable {k : Int} (hk : 0 ≤ k)
include hk

theorem denominator_pos (rank : Nat) : 0 < k + rank + 1 := by omega

theorem weight_pos (rank : Nat) : 0 < weight k rank :=
  one_div_pos.mpr (Int.cast_pos.mpr (denominator_pos hk rank))

theorem weight_strictAnti : StrictAnti (weight k) := by
  intro m n hmn
  apply one_div_lt_one_div_of_lt (Int.cast_pos.mpr (denominator_pos hk m))
  exact Int.cast_lt.mpr (by omega)

/-- Scoring a list adds the points of the places in it to the scores. -/
theorem foldlM_addRank (results : List MemoryRecord) (n : Nat) (scores : OrdDict String ℚ) :
    ∃ scores', (results.zipIdx n).foldlM (addRank k) scores = .ok scores' ∧ ∀ i,
      (scores'.get? i).getD 0 = (scores.get? i).getD 0 +
        Ranking.points (weight k) n (results.map MemoryRecord.id) i ∧
      (scores'.contains i = true ↔
        scores.contains i = true ∨ i ∈ results.map MemoryRecord.id) := by
  induction results generalizing n scores with
  | nil => exact ⟨scores, rfl, fun i => ⟨(add_zero _).symm, by simp⟩⟩
  | cons r rest ih =>
      obtain ⟨scores', hfold, hscores⟩ := ih (n + 1)
        (scores.set r.id ((scores.get? r.id).getD 0 + weight k n))
      refine ⟨scores', ?_, fun i => ?_⟩
      · rw [List.zipIdx_cons, List.foldlM_cons, addRank, if_neg (denominator_pos hk n).ne']
        exact hfold
      · obtain ⟨hpoints, hcontains⟩ := hscores i
        rw [hpoints, hcontains, List.map_cons, Ranking.points, OrdDict.contains, OrdDict.get?_set]
        by_cases hi : r.id = i
        · subst hi
          simp [add_assoc]
        · have hi' : ¬i = r.id := fun heq => hi heq.symm
          simp [hi, hi', OrdDict.contains]

end Weight

/-! ## The fused list -/

section Blending

variable {keyword semantic : List MemoryRecord} {k : Int}

/-- A record of the dictionary of all records is one of the lists, under its id. -/
theorem get?_allRecords {xs : List MemoryRecord} {i : String} {r : MemoryRecord}
    (h : (KeyedDict.ofList MemoryRecord.id xs).get? i = some r) : r ∈ xs ∧ r.id = i := by
  obtain ⟨hmem, hid⟩ := (KeyedDict.get?_eq_some_iff _ _ _).mp h
  refine ⟨?_, hid⟩
  clear h hid
  induction xs using List.reverseRecOn with
  | nil => cases hmem
  | append_singleton before x ih =>
      rw [KeyedDict.ofList, List.foldl_concat] at hmem
      rcases KeyedDict.mem_values_put hmem with rfl | hmem
      · exact List.mem_append_right _ List.mem_cons_self
      · exact List.mem_append_left _ (ih hmem)

/-- The ids of the fused list are those of both lists, ranked by their points. -/
theorem performRrfBlending_spec (hk : 0 ≤ k) (keyword semantic : List MemoryRecord) :
    ∃ out ids, performRrfBlending keyword semantic k = .ok out ∧
      (∀ r ∈ out, r ∈ keyword ∨ r ∈ semantic) ∧ ids.Nodup ∧
      (∀ i, i ∈ ids ↔ i ∈ keyword.map MemoryRecord.id ∨ i ∈ semantic.map MemoryRecord.id) ∧
      Ranking.Ranked (fun i => Ranking.points (weight k) 0 (keyword.map MemoryRecord.id) i +
        Ranking.points (weight k) 0 (semantic.map MemoryRecord.id) i) ids
          (out.map MemoryRecord.id) := by
  obtain ⟨scores, hfirst, hscores⟩ := foldlM_addRank hk keyword 0 .empty
  obtain ⟨scores', hsecond, hscores'⟩ := foldlM_addRank hk semantic 0 scores
  have hmem : ∀ i, i ∈ scores'.keys ↔
      i ∈ keyword.map MemoryRecord.id ∨ i ∈ semantic.map MemoryRecord.id := by
    intro i
    have hkeys : scores'.contains i = true ↔ i ∈ scores'.keys := scores'.contains_iff i
    rw [← hkeys, (hscores' i).2, (hscores i).2, OrdDict.contains, OrdDict.get?_empty]
    simp
  have hpoints : (fun i => (scores'.get? i).getD 0) = fun i =>
      Ranking.points (weight k) 0 (keyword.map MemoryRecord.id) i +
        Ranking.points (weight k) 0 (semantic.map MemoryRecord.id) i := by
    funext i
    rw [(hscores' i).1, (hscores i).1, OrdDict.get?_empty, Option.getD_none, zero_add]
  have hranked := Ranking.ranked_orderByDesc (fun i => (scores'.get? i).getD 0) scores'.keys
  -- every id of the scores finds its record
  have hfound : ∀ i ∈ Table.orderByDesc (fun i => (scores'.get? i).getD 0) scores'.keys, ∃ r,
      (KeyedDict.ofList MemoryRecord.id (keyword ++ semantic)).get? i = some r := by
    intro i hi
    have hi' := (hmem i).mp (Table.mem_orderByDesc.mp hi)
    rw [← List.mem_append, ← List.map_append] at hi'
    obtain ⟨r, hr, rfl⟩ := List.mem_map.mp hi'
    exact KeyedDict.exists_get?_ofList hr
  obtain ⟨out, hout⟩ := List.exists_forall₂ hfound
  have hids : ∀ {l : List String} {rs : List MemoryRecord}, List.Forall₂ (fun i r =>
      (KeyedDict.ofList MemoryRecord.id (keyword ++ semantic)).get? i = some r) l rs →
        rs.map MemoryRecord.id = l := by
    intro l rs hall
    induction hall with
    | nil => rfl
    | cons hr _ ih => rw [List.map_cons, ih, (get?_allRecords hr).2]
  refine ⟨out, scores'.keys, ?_, ?_, scores'.normKeys_nodup, hmem, ?_⟩
  · rw [performRrfBlending, hfirst, Except.ok_bind_eq, hsecond, Except.ok_bind_eq]
    apply Fold.mapM_of_forall₂
    exact hout.imp fun i r hr => by simp only [hr]
  · intro r hr
    obtain ⟨i, -, hi⟩ := hout.flip.exists_of_mem hr
    exact List.mem_append.mp (get?_allRecords hi).1
  · rw [← hpoints, hids hout]
    exact hranked

/-- One of the lists puts an id before another, and the other list does not disagree. -/
def Ahead (l l' : List String) (i j : String) : Prop :=
  [i, j].Sublist l ∧ [i, j].Sublist l' ∨ [i, j].Sublist l ∧ j ∉ l' ∨ [i, j].Sublist l' ∧ j ∉ l

/-- What the fused list keeps of the two lists. -/
structure Fuses (keyword semantic out : List MemoryRecord) : Prop where
  nodup : (out.map MemoryRecord.id).Nodup
  mem_iff : ∀ i, i ∈ out.map MemoryRecord.id ↔
    i ∈ keyword.map MemoryRecord.id ∨ i ∈ semantic.map MemoryRecord.id
  returned : ∀ r ∈ out, r ∈ keyword ∨ r ∈ semantic
  complete : (∀ r ∈ keyword, ∀ r' ∈ semantic, r.id = r'.id → r = r') →
    ∀ r, r ∈ keyword ∨ r ∈ semantic → r ∈ out
  ahead : ∀ i j, Ahead (keyword.map MemoryRecord.id) (semantic.map MemoryRecord.id) i j →
    [i, j].Sublist (out.map MemoryRecord.id)

/-- Lists without two records of one id: every id of theirs comes back once, and an id that one
list puts before another one, undisputed by the other list, stands before it. -/
theorem blending_fuses (hkeyword : (keyword.map MemoryRecord.id).Nodup)
    (hsemantic : (semantic.map MemoryRecord.id).Nodup) (hk : 0 ≤ k) :
    ∃ out, performRrfBlending keyword semantic k = .ok out ∧ Fuses keyword semantic out := by
  obtain ⟨out, ids, hok, hreturned, hnodup, hmem, hranked⟩ :=
    performRrfBlending_spec hk keyword semantic
  have hpos : ∀ m, 0 ≤ weight k m := fun m => (weight_pos hk m).le
  have hanti := weight_strictAnti hk
  have hout : ∀ i, i ∈ out.map MemoryRecord.id ↔
      i ∈ keyword.map MemoryRecord.id ∨ i ∈ semantic.map MemoryRecord.id :=
    fun i => hranked.perm.mem_iff.trans (hmem i)
  refine ⟨out, hok, hranked.perm.nodup_iff.mpr hnodup, hout, hreturned, ?_, ?_⟩
  · intro hagree r hr
    have hid : r.id ∈ out.map MemoryRecord.id :=
      (hout r.id).mpr (hr.imp (List.mem_map_of_mem ·) (List.mem_map_of_mem ·))
    obtain ⟨r', hr', hsame⟩ := List.mem_map.mp hid
    have heq : r' = r := by
      rcases hreturned r' hr' with hr' | hr' <;> rcases hr with hr | hr
      · exact List.inj_on_of_nodup_map hkeyword hr' hr hsame
      · exact hagree r' hr' r hr hsame
      · exact (hagree r hr r' hr' hsame.symm).symm
      · exact List.inj_on_of_nodup_map hsemantic hr' hr hsame
    exact heq ▸ hr'
  · intro i j hahead
    have hmembers : i ∈ ids ∧ j ∈ ids := by
      rw [hmem, hmem]
      rcases hahead with ⟨h, -⟩ | ⟨h, -⟩ | ⟨h, -⟩
      · exact ⟨.inl (h.subset (by simp)), .inl (h.subset (by simp))⟩
      · exact ⟨.inl (h.subset (by simp)), .inl (h.subset (by simp))⟩
      · exact ⟨.inr (h.subset (by simp)), .inr (h.subset (by simp))⟩
    apply hranked.pair_sublist hmembers.1 hmembers.2
    rcases hahead with ⟨h, h'⟩ | ⟨h, hj⟩ | ⟨h, hj⟩
    · exact Ranking.add_points_lt hpos hanti hkeyword hsemantic h (.inl h')
    · exact Ranking.add_points_lt hpos hanti hkeyword hsemantic h (.inr hj)
    · rw [add_comm, add_comm (Ranking.points _ _ (keyword.map MemoryRecord.id) i)]
      exact Ranking.add_points_lt hpos hanti hsemantic hkeyword h (.inr hj)

end Blending

theorem blending_fuses_swapped :
    ∃ out, performRrfBlending
        [rankedNote "m1" "a" "low", rankedNote "m2" "b" "low", rankedNote "m3" "c" "low"]
        [rankedNote "m3" "c" "low", rankedNote "m1" "a" "low"] 0 = .ok out ∧
      Fuses [rankedNote "m1" "a" "low", rankedNote "m2" "b" "low", rankedNote "m3" "c" "low"]
        [rankedNote "m3" "c" "low", rankedNote "m1" "a" "low"] out :=
  blending_fuses (by decide) (by decide) le_rfl

/-- Records with as many points stay as the keyword search had them. -/
example : ((performRrfBlending [rankedNote "m1" "a" "low", rankedNote "m2" "b" "low"]
    [rankedNote "m2" "b" "low", rankedNote "m1" "a" "low"]).map fun out =>
      out.map MemoryRecord.id) = .ok ["m1", "m2"] := by
  decide +kernel

/-! ## The search -/

/-- A fused search returns stored records and what the semantic search has found. -/
theorem mem_searchMemories {u : UnicodeTables} {query : String} {allRecords : List MemoryRecord}
    {search : String → List MemoryRecord → Except Exc (List MemoryRecord)} {r : MemoryRecord}
    (hr : r ∈ searchMemories u query allRecords search) :
    r ∈ allRecords ∨ ∃ found, search query allRecords = .ok found ∧ r ∈ found := by
  have hkeyword : ∀ r ∈ searchMemoriesRrf u query allRecords, r ∈ allRecords := by
    intro r hr
    rw [searchMemoriesRrf] at hr
    split_ifs at hr
    · exact hr
    · exact (List.mem_filter.mp (Table.mem_orderByDesc.mp hr)).1
  rw [searchMemories] at hr
  split_ifs at hr
  · exact .inl hr
  · cases hsearch : search query allRecords with
    | error e =>
        simp only [hsearch] at hr
        exact .inl (hkeyword r hr)
    | ok found =>
        obtain ⟨out, _, hok, hreturned, -⟩ := performRrfBlending_spec (k := 60) (by omega)
          (searchMemoriesRrf u query allRecords) found
        simp only [hsearch, Except.ok_bind_eq, hok] at hr
        exact (hreturned r hr).imp (hkeyword r) fun hfound => ⟨found, rfl, hfound⟩

end SemanticSearch

end RationaleVault
