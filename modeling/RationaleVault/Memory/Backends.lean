import RationaleVault.MarkdownProcesses
import RationaleVault.Memory.Bookkeeping
import RationaleVault.Memory.Store

/-!
# The two memory stores side by side

After the same additions both stores hold the same records. Their searches agree
for a query with all limits exactly if both match the same stored records and,
for the empty query, which the Markdown store does not sort, the records of the
file are in order of priority already.
-/

namespace RationaleVault

open SQLiteMemoryProvider

variable {u : UnicodeTables} {ft : FloatText} {rows records : List MemoryRecord} {query : String}

/-! ## The records -/

/-- The number that a record gets depends on the stored records only. -/
theorem numbered_congr (hmem : ∀ r, r ∈ rows ↔ r ∈ records)
    (hrows : (rows.map MemoryRecord.id).Nodup) (hrecords : (records.map MemoryRecord.id).Nodup)
    (r : MemoryRecord) : numbered rows r = numbered records r := by
  rw [numbered, numbered, Table.find?_key_congr hrows hrecords hmem]

/-- The table after a record whose numbers can be bound. -/
def replaced (rows : List MemoryRecord) (r : MemoryRecord) : List MemoryRecord :=
  Table.replace MemoryRecord.id rows (numbered rows r)

variable (u ft) in
/-- Additions that raise nowhere leave the same records in both stores. -/
theorem same_records (added : List MemoryRecord)
    (hfits : Noninterference.Along (fun rows r => Fits (numbered rows r)) replaced rows added)
    (hmem : ∀ r, r ∈ rows ↔ r ∈ records) (hrows : (rows.map MemoryRecord.id).Nodup)
    (hrecords : (records.map MemoryRecord.id).Nodup) :
    ∃ rows', added.foldlM addRecord rows = .ok rows' ∧ (rows'.map MemoryRecord.id).Nodup ∧
      ((added.foldl (MarkdownMemoryProvider.format u ft).upsert records).map
        MemoryRecord.id).Nodup ∧
      ∀ r, r ∈ rows' ↔ r ∈ added.foldl (MarkdownMemoryProvider.format u ft).upsert records := by
  induction added generalizing rows records with
  | nil => exact ⟨rows, rfl, hrows, hrecords, hmem⟩
  | cons r rest ih =>
      have hadd : addRecord rows r = .ok (replaced rows r) := if_pos hfits.head
      have hstored : (MarkdownMemoryProvider.format u ft).stored records r = numbered rows r := by
        rw [MarkdownMemoryProvider.stored_eq_numbered, numbered_congr hmem hrows hrecords]
      have hmem' : ∀ x, x ∈ replaced rows r ↔
          x ∈ (MarkdownMemoryProvider.format u ft).upsert records r := by
        intro x
        rw [replaced, Table.mem_replace, MarkdownFormat.mem_upsert hrecords, hstored, numbered_id,
          hmem, or_comm]
        rfl
      obtain ⟨rows', hrun, hnodup⟩ := ih hfits.tail hmem' (Table.nodup_replace hrows _)
        (MarkdownFormat.nodup_upsert (F := MarkdownMemoryProvider.format u ft) hrecords r)
      refine ⟨rows', ?_, hnodup⟩
      rw [List.foldlM_cons, hadd]
      exact hrun

/-! ## The searches -/

namespace MarkdownMemoryProvider

/-- Whether `search_records` keeps the record. The empty query keeps all. -/
def hit (u : UnicodeTables) (query : String) (r : MemoryRecord) : Bool :=
  decide (query = "") || matched u query r

/-- The hits in the order in which `search_records` returns them. -/
def listed (u : UnicodeTables) (records : List MemoryRecord) (query : String) :
    List MemoryRecord :=
  if query = "" then records
  else Table.orderByDesc (MemoryRecord.priority u) (records.filter (matched u query))

theorem searchRecords_eq {limit : Int} (hpos : 0 ≤ limit) :
    searchRecords u records query limit = (listed u records query).take limit.toNat := by
  rw [searchRecords, listed, PythonText.upTo, PythonText.upTo, if_pos hpos, if_pos hpos]
  split
  · rfl
  · rfl

theorem filter_hit_empty : records.filter (hit u "") = records := by
  rw [List.filter_eq_self]
  exact fun r _ => rfl

theorem hit_eq (hquery : query ≠ "") : hit u query = matched u query := by
  funext r
  rw [hit, decide_eq_false hquery, Bool.false_or]

theorem listed_perm : (listed u records query).Perm (records.filter (hit u query)) := by
  rw [listed]
  split
  next hquery => rw [hquery, filter_hit_empty]
  next hquery =>
    rw [hit_eq hquery]
    exact (Ranking.ranked_orderByDesc _ _).perm

/-- The hits are ranked, unless the query is empty and the file out of order. -/
theorem ranked_listed
    (hordered : query = "" → records.Pairwise fun r r' => r'.priority u ≤ r.priority u) :
    Ranking.Ranked (MemoryRecord.priority u) (records.filter (hit u query))
      (listed u records query) := by
  refine ⟨listed_perm, ?_⟩
  rw [listed]
  split
  next hquery => exact hordered hquery
  next => exact (Ranking.ranked_orderByDesc _ _).sorted

end MarkdownMemoryProvider

open MarkdownMemoryProvider (hit listed listed_perm ranked_listed searchRecords_eq filter_hit_empty)

/-- Both searches return the same records when all matches are within the limit, and otherwise
records of the same priorities one after the other. -/
def Interchangeable (u : UnicodeTables) (rows records : List MemoryRecord) (query : String)
    (limit : Int) : Prop :=
  ∀ result, SearchRecords u rows query limit result → ∃ found, result = .ok found ∧
    if ((rows.filter (matched query)).length : Int) ≤ limit ∧
        ((records.filter (hit u query)).length : Int) ≤ limit then
      ∀ r, r ∈ found ↔ r ∈ MarkdownMemoryProvider.searchRecords u records query limit
    else
      found.map (MemoryRecord.priority u) =
        (MarkdownMemoryProvider.searchRecords u records query limit).map (MemoryRecord.priority u)

/-- The database can compare the pattern, both stores match the same records, and for the empty
query the records of the file are in order. -/
structure Agree (u : UnicodeTables) (rows records : List MemoryRecord) (query : String) : Prop where
  pattern : rows = [] ∨ ("%" ++ query ++ "%").utf8ByteSize ≤ 50000
  matches_eq : ∀ r ∈ rows, matched query r = hit u query r
  ordered : query = "" → records.Pairwise fun r r' => r'.priority u ≤ r.priority u

theorem searchRecords_iff (hpattern : rows = [] ∨ ("%" ++ query ++ "%").utf8ByteSize ≤ 50000)
    {limit : Int} (hpos : 0 ≤ limit) (hlimit : limit < 2 ^ 63)
    {result : Except Exc (List MemoryRecord)} :
    SearchRecords u rows query limit result ↔
      ∃ ranked, Ranking.Ranked (MemoryRecord.priority u) (rows.filter (matched query)) ranked ∧
        result = .ok (ranked.take limit.toNat) := by
  have hfits : ¬ ¬ IsInt64 limit := not_not.mpr ⟨by omega, hlimit⟩
  have hshort : ¬ (rows ≠ [] ∧ 50000 < ("%" ++ query ++ "%").utf8ByteSize) := by
    rintro ⟨hrows, hlong⟩
    rcases hpattern with h | h
    · exact hrows h
    · exact absurd hlong (not_lt.mpr h)
  rw [SearchRecords, if_neg hfits, if_neg hshort]
  simp only [if_neg (not_lt.mpr hpos)]

/-- Agreement is enough. -/
theorem Agree.interchangeable (h : Agree u rows records query) (hperm : rows.Perm records)
    {limit : Int} (hpos : 0 ≤ limit) (hlimit : limit < 2 ^ 63) :
    Interchangeable u rows records query limit := by
  intro result hresult
  obtain ⟨ranked, hranked, rfl⟩ := (searchRecords_iff h.pattern hpos hlimit).mp hresult
  have hhits : (rows.filter (matched query)).Perm (records.filter (hit u query)) := by
    rw [List.filter_congr h.matches_eq]
    exact hperm.filter _
  have hlisted := (ranked_listed h.ordered).of_perm hhits.symm
  refine ⟨_, rfl, ?_⟩
  rw [searchRecords_eq hpos]
  split
  next hwithin =>
    have hfew : (rows.filter (matched query)).length ≤ limit.toNat := by omega
    intro r
    rw [List.take_of_length_le (hranked.perm.length_eq ▸ hfew),
      List.take_of_length_le (hlisted.perm.length_eq ▸ hfew), hranked.perm.mem_iff,
      hlisted.perm.mem_iff]
  next => rw [List.map_take, List.map_take, hranked.map_eq hlisted]

/-- What the searches return for the limits up to the number of matches shows the agreement. -/
theorem agree_of_interchangeable (hperm : rows.Perm records)
    (hfew : (rows.length : Int) < 2 ^ 63)
    (h : ∀ limit : Int, 0 ≤ limit → limit < 2 ^ 63 → Interchangeable u rows records query limit) :
    Agree u rows records query := by
  have hpattern : rows = [] ∨ ("%" ++ query ++ "%").utf8ByteSize ≤ 50000 := by
    by_contra hnot
    rw [not_or, not_le] at hnot
    have hsearch : SearchRecords u rows query 0
        (.error (.operationalError "LIKE or GLOB pattern too complex")) := by
      rw [SearchRecords, if_neg (not_not.mpr ⟨by omega, by omega⟩), if_pos hnot]
    obtain ⟨found, hfound, -⟩ := h 0 le_rfl (by omega) _ hsearch
    cases hfound
  have hranked := Ranking.ranked_orderByDesc (MemoryRecord.priority u) (rows.filter (matched query))
  have hsame : ∀ limit : Int, 0 ≤ limit → limit < 2 ^ 63 →
      if ((rows.filter (matched query)).length : Int) ≤ limit ∧
          ((records.filter (hit u query)).length : Int) ≤ limit then
        ∀ r, r ∈ (Table.orderByDesc (MemoryRecord.priority u)
          (rows.filter (matched query))).take limit.toNat ↔
          r ∈ (listed u records query).take limit.toNat
      else
        ((Table.orderByDesc (MemoryRecord.priority u) (rows.filter (matched query))).take
          limit.toNat).map (MemoryRecord.priority u) =
          ((listed u records query).take limit.toNat).map (MemoryRecord.priority u) := by
    intro limit hpos hlimit
    have hresult := (searchRecords_iff hpattern hpos hlimit).mpr ⟨_, hranked, rfl⟩
    obtain ⟨found, hfound, hsame⟩ := h limit hpos hlimit _ hresult
    rwa [← Except.ok.inj hfound, searchRecords_eq hpos] at hsame
  have hmatches : ∀ r ∈ rows, matched query r = hit u query r := by
    intro r hr
    have hcount : (rows.filter (matched query)).length ≤ rows.length := List.length_filter_le _ _
    have hcount' : (records.filter (hit u query)).length ≤ records.length :=
      List.length_filter_le _ _
    have hlength := hperm.length_eq
    -- the limit is the number of records
    have hmem := hsame rows.length (Int.natCast_nonneg _) hfew
    have hwithin : ((rows.filter (matched query)).length : Int) ≤ rows.length ∧
        ((records.filter (hit u query)).length : Int) ≤ rows.length := by omega
    rw [if_pos hwithin] at hmem
    have hmem := hmem r
    rw [Int.toNat_natCast,
      List.take_of_length_le (hranked.perm.length_eq ▸ hcount),
      List.take_of_length_le (listed_perm.length_eq ▸ hlength ▸ hcount'), hranked.perm.mem_iff,
      listed_perm.mem_iff, List.mem_filter, List.mem_filter] at hmem
    have hr' := hperm.mem_iff.mp hr
    rw [Bool.eq_iff_iff]
    simpa [hr, hr'] using hmem
  refine ⟨hpattern, hmatches, ?_⟩
  rintro rfl
  rcases records with _ | ⟨first, rest⟩
  · exact List.Pairwise.nil
  -- the limit leaves out the last record
  have hall : (rows.filter (matched "")).Perm (first :: rest) := by
    rw [List.filter_congr hmatches, filter_hit_empty]
    exact hperm
  have hlength := hperm.length_eq
  rw [List.length_cons] at hlength
  have htake := hsame rest.length (Int.natCast_nonneg _) (by omega)
  have hbeyond : ¬ (((rows.filter (matched "")).length : Int) ≤ rest.length ∧
      (((first :: rest).filter (hit u "")).length : Int) ≤ rest.length) := by
    rw [filter_hit_empty, List.length_cons]
    omega
  have hlisted : listed u (first :: rest) "" = first :: rest := if_pos rfl
  rw [if_neg hbeyond, hlisted, Int.toNat_natCast, List.map_take, List.map_take] at htake
  have hsorted := hranked.sorted_map
  rw [Ranking.eq_of_perm_of_take ((hranked.of_perm hall).perm.map _) (by simpa using htake)] at hsorted
  exact List.pairwise_map.mp hsorted

theorem length_replaced_le (rows : List MemoryRecord) (r : MemoryRecord) :
    (replaced rows r).length ≤ rows.length + 1 := by
  rw [replaced, Table.replace, List.length_append, List.length_singleton]
  exact Nat.add_le_add_right (List.length_filter_le _ _) 1

theorem length_foldlM_le {added rows' : List MemoryRecord}
    (h : added.foldlM addRecord rows = .ok rows') : rows'.length ≤ rows.length + added.length := by
  induction added generalizing rows with
  | nil =>
      cases h
      exact le_rfl
  | cons r rest ih =>
      rw [List.foldlM_cons] at h
      cases hadd : addRecord rows r with
      | error e =>
          rw [hadd] at h
          cases h
      | ok rows₁ =>
          rw [hadd] at h
          have hrest := ih h
          have hone : rows₁.length ≤ rows.length + 1 := by
            rw [addRecord] at hadd
            split at hadd
            · obtain rfl := Except.ok.inj hadd
              exact length_replaced_le rows r
            · cases hadd
          rw [List.length_cons]
          omega

/-- After the same additions, which raise nowhere and write records that can be read back, both
stores hold the same records, and exactly for the queries about which they agree their searches
can stand for each other with all limits. -/
theorem backends_interchangeable (u : UnicodeTables) (ft : FloatText)
    (calls : List (String × MemoryRecord))
    (hrecoverable : ∀ call ∈ calls, (MarkdownMemoryProvider.format u ft).Recoverable call.2)
    (hfits : Noninterference.Along (fun rows r => Fits (numbered rows r)) replaced []
      (calls.map Prod.snd)) :
    ∃ rows file records, (calls.map Prod.snd).foldlM addRecord [] = .ok rows ∧
      (MarkdownMemoryProvider.format u ft).run none calls = some file ∧
      (∀ now, MarkdownMemoryProvider.getAllRecords u ft file now = some records) ∧
      (∀ r, r ∈ rows ↔ r ∈ records) ∧
      ∀ query, (Agree u rows records query → ∀ limit : Int, 0 ≤ limit → limit < 2 ^ 63 →
          Interchangeable u rows records query limit) ∧
        (calls.length < 2 ^ 63 → (∀ limit : Int, 0 ≤ limit → limit < 2 ^ 63 →
          Interchangeable u rows records query limit) → Agree u rows records query) := by
  obtain ⟨rows, hrun, hrows, hrecords, hmem⟩ :=
    same_records u ft (calls.map Prod.snd) hfits (fun _ => Iff.rfl) List.nodup_nil
      List.nodup_nil
  obtain ⟨file, hwrite, hkeeps⟩ :=
    MarkdownFormat.keeps_run hrecoverable MarkdownFormat.keeps_none
  have hperm := (List.perm_ext_iff_of_nodup hrows.of_map hrecords.of_map).mpr hmem
  refine ⟨rows, file, _, hrun, hwrite, hkeeps.read, hmem, fun query => ⟨?_, ?_⟩⟩
  · exact fun h limit hpos hlimit => h.interchangeable hperm hpos hlimit
  · intro hshort h
    have hlength := length_foldlM_le hrun
    rw [List.length_map, List.length_nil] at hlength
    exact agree_of_interchangeable hperm (by omega) h

/-! ## Two notes -/

/-- The stores agree about the query `first` after the two notes. -/
theorem backends_interchangeable_first :
    ∃ rows file records, [titledNote "First", secondNote].foldlM addRecord [] = .ok rows ∧
      (MarkdownMemoryProvider.format .asciiOnly .zeroOne).run none
        [("2026-01-01", titledNote "First"), ("2026-01-02", secondNote)] = some file ∧
      (∀ now, MarkdownMemoryProvider.getAllRecords .asciiOnly .zeroOne file now = some records) ∧
      (∀ r, r ∈ rows ↔ r ∈ records) ∧
      ∀ limit : Int, 0 ≤ limit → limit < 2 ^ 63 →
        Interchangeable .asciiOnly rows records "first" limit := by
  obtain ⟨rows, file, records, hrun, hwrite, hread, hmem, hsearch⟩ :=
    backends_interchangeable .asciiOnly .zeroOne
      [("2026-01-01", titledNote "First"), ("2026-01-02", secondNote)]
      (by simpa using ⟨titledNote_recoverable, secondNote_recoverable⟩)
      (.cons (by decide) (.cons (by decide) (Noninterference.along_nil _ _ _)))
  refine ⟨rows, file, records, hrun, hwrite, hread, hmem, (hsearch "first").1 ⟨?_, ?_, ?_⟩⟩
  · exact Or.inr (by decide)
  · have hrows : rows = [titledNote "First", secondNote] := by
      have htable : [titledNote "First", secondNote].foldlM addRecord [] =
          .ok [titledNote "First", secondNote] := by decide
      exact Except.ok.inj (hrun.symm.trans htable)
    rw [hrows]
    decide +kernel
  · exact fun hempty => absurd hempty (by decide)

/-- For the database the underscore stands for any character. -/
theorem backends_wildcard :
    [titledNote "First"].foldlM addRecord [] = .ok [titledNote "First"] ∧
      ∃ file, (MarkdownMemoryProvider.format .asciiOnly .zeroOne).run none
          [("2026-01-01", titledNote "First")] = some file ∧
        (∀ now, MarkdownMemoryProvider.getAllRecords .asciiOnly .zeroOne file now =
          some [titledNote "First"]) ∧
        ¬ Interchangeable .asciiOnly [titledNote "First"] [titledNote "First"] "F_rst" 5 := by
  have hcalls : ∀ call ∈ [("2026-01-01", titledNote "First")],
      (MarkdownMemoryProvider.format .asciiOnly .zeroOne).Recoverable call.2 := by
    simpa using titledNote_recoverable
  obtain ⟨file, hwrite, hkeeps⟩ := MarkdownFormat.keeps_run hcalls MarkdownFormat.keeps_none
  refine ⟨by decide, file, hwrite, hkeeps.read, fun h => ?_⟩
  have hsearch : SearchRecords .asciiOnly [titledNote "First"] "F_rst" 5
      (.ok [titledNote "First"]) :=
    (searchRecords_iff (Or.inr (by decide)) (by decide) (by decide)).mpr
      ⟨[titledNote "First"], ⟨by decide, List.pairwise_singleton _ _⟩, rfl⟩
  obtain ⟨found, hfound, hsame⟩ := h _ hsearch
  rw [if_pos (by decide), ← Except.ok.inj hfound] at hsame
  have hlisted := (hsame (titledNote "First")).mp (List.mem_singleton_self _)
  exact absurd hlisted (by decide +kernel)

end RationaleVault
