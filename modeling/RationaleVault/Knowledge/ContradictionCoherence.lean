import Mathlib.Data.Sym.Sym2
import RationaleVault.Knowledge.Contradiction
import RationaleVault.Projections.CompiledKnowledge

/-!
# What the contradiction engine reports

Findings on two records are about conflicts: a key that both set, or a subject on which they
take sides. Records with one content conflict when that content takes both sides, and a conflict
with several opposed words is reported once for each of them under one id.
-/

namespace RationaleVault

namespace ContradictionEngine

/-- What a finding on two records is about. -/
structure Conflict where
  a : MemoryRecord
  b : MemoryRecord
  contradictionType : String
  detailKey : String

/-- The id, the records and the type of a finding. -/
structure Summary where
  findingId : String
  ruleAId : String
  ruleBId : String
  contradictionType : String

def summaryOf (f : ContradictionFinding) : Summary :=
  ⟨f.findingId, f.ruleAId, f.ruleBId, f.contradictionType⟩

/-- The id under which a conflict is reported. -/
def Conflict.findingId (c : Conflict) : String :=
  ContradictionFinding.generateFindingId c.contradictionType c.a.id c.b.id c.detailKey

def Conflict.summary (c : Conflict) : Summary :=
  ⟨c.findingId, c.a.id, c.b.id, c.contradictionType⟩

variable (u : UnicodeTables)

/-- The record's content has the word. -/
def Mentions (r : MemoryRecord) (word : String) : Prop :=
  PythonText.contains word.toList (comparedContent u r) = true

instance (r : MemoryRecord) (word : String) : Decidable (Mentions u r word) :=
  inferInstanceAs (Decidable (_ = _))

/-- A subject that both records mention. -/
def SharedKeyword (a b : MemoryRecord) (kw : String) : Prop :=
  kw ∈ keywords ∧ Mentions u a kw ∧ Mentions u b kw

/-- Each record has one word of the polarity and the other record the other. -/
def Opposed (a b : MemoryRecord) (p : String × String) : Prop :=
  Mentions u a p.1 ∧ Mentions u b p.2 ∨ Mentions u a p.2 ∧ Mentions u b p.1

instance (a b : MemoryRecord) : DecidablePred (Opposed u a b) := fun _ =>
  inferInstanceAs (Decidable (_ ∨ _))

/-- The keys that both records set, to different values. -/
def exclusiveKeys (a b : MemoryRecord) : List String :=
  ((parseConfigs (comparedContent u a)).entries.filter fun e =>
    ((parseConfigs (comparedContent u b)).get? e.1).any fun val => decide (e.2 ≠ val)).map Prod.fst

/-- The subjects of opposite assertions, once for each opposed polarity. -/
def oppositeKeys (a b : MemoryRecord) : List String :=
  (keywords.filter fun kw => Mentions u a kw ∧ Mentions u b kw).flatMap fun kw =>
    (polarities.filter (Opposed u a b ·)).map fun _ => kw

/-- The conflicts between two records, as they are reported. -/
def conflictsOf (a b : MemoryRecord) : List Conflict :=
  (exclusiveKeys u a b).map (⟨a, b, "exclusive_config", ·⟩) ++
    (oppositeKeys u a b).map (⟨a, b, "opposite_assertion", ·⟩)

def conflicts (records : List MemoryRecord) : List Conflict :=
  (Pairs.couples records).flatMap fun p => conflictsOf u p.1 p.2

variable {u} {suppressedIds : List String}

/-! ## Findings and conflicts -/

theorem map_flatMap_eq_filter {α β γ : Type} {f : α → List β} {g : β → γ} {p : α → Bool} {h : α → γ}
    (hf : ∀ e, (f e).map g = if p e then [h e] else []) (l : List α) :
    (l.flatMap f).map g = (l.filter p).map h := by
  induction l with
  | nil => rfl
  | cons e rest ih =>
      rw [List.flatMap_cons, List.map_append, ih, hf, List.filter_cons]
      split_ifs <;> rfl

theorem map_summaryOf_exclusiveConfigs (a b : MemoryRecord) :
    (exclusiveConfigs u suppressedIds a b).map summaryOf =
      (exclusiveKeys u a b).map fun key => Conflict.summary ⟨a, b, "exclusive_config", key⟩ := by
  rw [exclusiveKeys, List.map_map]
  apply map_flatMap_eq_filter
  intro e
  cases hget : (parseConfigs (comparedContent u b)).get? e.1 with
  | none => simp [hget]
  | some val =>
      by_cases hval : e.2 = val
      · simp [hget, hval]
      · simp [hget, hval, summaryOf, Conflict.summary, Conflict.findingId]

theorem map_summaryOf_oppositeAssertions (a b : MemoryRecord) :
    (oppositeAssertions u suppressedIds a b).map summaryOf =
      (oppositeKeys u a b).map fun kw => Conflict.summary ⟨a, b, "opposite_assertion", kw⟩ := by
  have hkeywords : (keywords.filter fun kw =>
      PythonText.contains kw.toList (comparedContent u a) &&
        PythonText.contains kw.toList (comparedContent u b)) =
      keywords.filter fun kw => Mentions u a kw ∧ Mentions u b kw := by
    apply List.filter_congr
    intro kw _
    rw [Bool.eq_iff_iff, decide_eq_true_iff, Bool.and_eq_true]
    rfl
  have hpolarities : (polarities.filter fun p =>
      (PythonText.contains p.1.toList (comparedContent u a) &&
          PythonText.contains p.2.toList (comparedContent u b)) ||
        (PythonText.contains p.2.toList (comparedContent u a) &&
          PythonText.contains p.1.toList (comparedContent u b))) =
      polarities.filter (Opposed u a b ·) := by
    apply List.filter_congr
    intro p _
    rw [Bool.eq_iff_iff, decide_eq_true_iff, Bool.or_eq_true, Bool.and_eq_true, Bool.and_eq_true]
    rfl
  rw [oppositeKeys, ← hkeywords, ← hpolarities, oppositeAssertions, List.map_flatMap,
    List.map_flatMap]
  apply List.flatMap_congr
  intro kw _
  rw [List.map_map, List.map_map]
  rfl

theorem conflicts_cons (a : MemoryRecord) (rest : List MemoryRecord) :
    conflicts u (a :: rest) = rest.flatMap (conflictsOf u a) ++ conflicts u rest := by
  rw [conflicts, Pairs.couples_cons, List.flatMap_append, List.flatMap_map]
  rfl

theorem map_summaryOf_pairFindings (records : List MemoryRecord) :
    (pairFindings u suppressedIds records).map summaryOf =
      (conflicts u records).map Conflict.summary := by
  induction records with
  | nil => rfl
  | cons a rest ih =>
      have hpair : ∀ b, (exclusiveConfigs u suppressedIds a b ++
          oppositeAssertions u suppressedIds a b).map summaryOf =
            (conflictsOf u a b).map Conflict.summary := by
        intro b
        rw [List.map_append, map_summaryOf_exclusiveConfigs, map_summaryOf_oppositeAssertions,
          conflictsOf, List.map_append, List.map_map, List.map_map]
        rfl
      rw [pairFindings, List.map_append, ih, conflicts_cons, List.map_append, List.map_flatMap,
        List.map_flatMap]
      simp only [hpair]

/-- Records with ids of their own are not reported as duplicates. -/
theorem duplicatesFrom_eq_nil {records : List MemoryRecord}
    (hids : (records.map MemoryRecord.id).Nodup) {idMap : OrdDict String MemoryRecord}
    (hfresh : ∀ r ∈ records, idMap.get? r.id = none) :
    duplicatesFrom suppressedIds idMap records = [] := by
  induction records generalizing idMap with
  | nil => rfl
  | cons r rest ih =>
      obtain ⟨hr, hrest⟩ := List.nodup_cons.mp hids
      rw [duplicatesFrom, hfresh r List.mem_cons_self]
      apply ih hrest
      intro r' hr'
      rw [OrdDict.get?_set_of_ne, hfresh r' (List.mem_cons_of_mem r hr')]
      intro heq
      exact hr (List.mem_map.mpr ⟨r', hr', heq.symm⟩)

theorem map_summaryOf_detect {records : List MemoryRecord}
    (hids : (records.map MemoryRecord.id).Nodup) :
    (detect u suppressedIds records).map summaryOf =
      (conflicts u records).map Conflict.summary := by
  rw [detect, duplicatesFrom_eq_nil hids fun _ _ => rfl, List.nil_append,
    map_summaryOf_pairFindings]

/-! ## When two records are in conflict -/

/-- Both records set the key, to different values. -/
def SetsApart (u : UnicodeTables) (a b : MemoryRecord) (key : String) : Prop :=
  ∃ valA valB, (parseConfigs (comparedContent u a)).get? key = some valA ∧
    (parseConfigs (comparedContent u b)).get? key = some valB ∧ valA ≠ valB

theorem mem_exclusiveKeys {a b : MemoryRecord} {key : String} :
    key ∈ exclusiveKeys u a b ↔ SetsApart u a b key := by
  simp only [exclusiveKeys, List.mem_map, List.mem_filter, Option.any_eq_true, decide_eq_true_eq]
  constructor
  · rintro ⟨e, ⟨he, valB, hval, hne⟩, rfl⟩
    exact ⟨e.2, valB, OrdDict.get?_of_mem he, hval, hne⟩
  · rintro ⟨valA, valB, hA, hB, hne⟩
    obtain ⟨e, he, hkey, rfl⟩ := OrdDict.lookupIn_mem hA
    rw [DictKey.norm_string, DictKey.norm_string] at hkey
    exact ⟨e, ⟨he, valB, by rw [hkey, hB], hne⟩, hkey⟩

theorem mem_oppositeKeys {a b : MemoryRecord} {kw : String} :
    kw ∈ oppositeKeys u a b ↔ SharedKeyword u a b kw ∧ ∃ p ∈ polarities, Opposed u a b p := by
  simp only [oppositeKeys, List.mem_flatMap, List.mem_filter, List.mem_map, decide_eq_true_eq]
  constructor
  · rintro ⟨kw, hshared, p, hp, rfl⟩
    exact ⟨hshared, p, hp⟩
  · rintro ⟨hshared, p, hp⟩
    exact ⟨kw, hshared, p, hp, rfl⟩

theorem nodup_exclusiveKeys (a b : MemoryRecord) : (exclusiveKeys u a b).Nodup :=
  (parseConfigs (comparedContent u a)).nodup.sublist (List.filter_sublist.map _)

/-- On each subject the two records are opposed in at most one way. -/
def OneSided (u : UnicodeTables) (a b : MemoryRecord) : Prop :=
  ∀ kw, SharedKeyword u a b kw → ∀ p ∈ polarities, ∀ q ∈ polarities,
    Opposed u a b p → Opposed u a b q → p = q

theorem nodup_oppositeKeys_iff (a b : MemoryRecord) :
    (oppositeKeys u a b).Nodup ↔ OneSided u a b := by
  have hone : (polarities.filter (Opposed u a b ·)).length ≤ 1 ↔
      ∀ p ∈ polarities, ∀ q ∈ polarities, Opposed u a b p → Opposed u a b q → p = q := by
    have hnodup : (polarities.filter (Opposed u a b ·)).Nodup := List.Nodup.filter _ (by decide)
    rw [← List.toFinset_card_of_nodup hnodup, Finset.card_le_one]
    simp only [List.mem_toFinset, List.mem_filter, decide_eq_true_eq]
    exact ⟨fun h p hp q hq hop hoq => h p ⟨hp, hop⟩ q ⟨hq, hoq⟩,
      fun h p hp q hq => h p hp.1 q hq.1 hp.2 hq.2⟩
  rw [oppositeKeys, List.nodup_flatMap]
  simp only [List.map_const', List.nodup_replicate, List.mem_filter, decide_eq_true_eq]
  rw [hone]
  constructor
  · rintro ⟨heach, -⟩ kw hkw
    exact heach kw hkw
  · intro h
    refine ⟨h, ?_⟩
    have hnodup : (keywords.filter fun kw => Mentions u a kw ∧ Mentions u b kw).Nodup :=
      List.Nodup.filter _ (by decide)
    apply hnodup.imp
    intro kw kw' hne x hx hx'
    rw [List.eq_of_mem_replicate hx] at hx'
    exact hne (List.eq_of_mem_replicate hx')

theorem mem_conflictsOf {a b : MemoryRecord} {c : Conflict} (h : c ∈ conflictsOf u a b) :
    c.a = a ∧ c.b = b := by
  rcases List.mem_append.mp h with h | h
  all_goals
    obtain ⟨key, _, rfl⟩ := List.mem_map.mp h
    exact ⟨rfl, rfl⟩

theorem nodup_conflictsOf_iff (a b : MemoryRecord) :
    (conflictsOf u a b).Nodup ↔ OneSided u a b := by
  rw [← nodup_oppositeKeys_iff, conflictsOf, List.nodup_append']
  have hexclusive := (nodup_exclusiveKeys (u := u) a b).map (f := (⟨a, b, "exclusive_config", ·⟩))
    fun _ _ h => congrArg Conflict.detailKey h
  constructor
  · rintro ⟨-, hopposite, -⟩
    exact hopposite.of_map
  · intro hopposite
    refine ⟨hexclusive, hopposite.map fun _ _ h => congrArg Conflict.detailKey h, ?_⟩
    intro c hc hc'
    obtain ⟨key, _, rfl⟩ := List.mem_map.mp hc
    obtain ⟨kw, _, hkw⟩ := List.mem_map.mp hc'
    have htype : "opposite_assertion" = "exclusive_config" :=
      congrArg Conflict.contradictionType hkw
    exact absurd htype (by decide)

theorem nodup_conflicts_iff {records : List MemoryRecord} (hrecords : records.Nodup) :
    (conflicts u records).Nodup ↔ ∀ a b, [a, b].Sublist records → OneSided u a b := by
  rw [conflicts, List.nodup_flatMap]
  simp only [nodup_conflictsOf_iff, Pairs.mem_couples]
  constructor
  · rintro ⟨heach, -⟩ a b hab
    exact heach (a, b) hab
  · intro h
    refine ⟨fun p hp => h p.1 p.2 hp, (Pairs.nodup_couples hrecords).imp ?_⟩
    intro p q hne c hc hc'
    obtain ⟨ha, hb⟩ := mem_conflictsOf hc
    obtain ⟨ha', hb'⟩ := mem_conflictsOf hc'
    exact hne (Prod.ext (ha.symm.trans ha') (hb.symm.trans hb'))

/-- A conflict between two records of a list. -/
def InConflict (u : UnicodeTables) (records : List MemoryRecord) (c : Conflict) : Prop :=
  [c.a, c.b].Sublist records ∧
    (c.contradictionType = "exclusive_config" ∧ SetsApart u c.a c.b c.detailKey ∨
      c.contradictionType = "opposite_assertion" ∧ SharedKeyword u c.a c.b c.detailKey ∧
        ∃ p ∈ polarities, Opposed u c.a c.b p)

theorem mem_conflicts {records : List MemoryRecord} {c : Conflict} :
    c ∈ conflicts u records ↔ InConflict u records c := by
  rw [conflicts, List.mem_flatMap]
  constructor
  · rintro ⟨p, hp, hc⟩
    obtain ⟨ha, hb⟩ := mem_conflictsOf hc
    have hsub := Pairs.mem_couples.mp hp
    rw [← ha, ← hb] at hsub hc
    refine ⟨hsub, ?_⟩
    rcases List.mem_append.mp hc with hc | hc
    · obtain ⟨key, hkey, heq⟩ := List.mem_map.mp hc
      have htype := congrArg Conflict.contradictionType heq
      have hdetail := congrArg Conflict.detailKey heq
      rw [← hdetail, ← htype]
      exact .inl ⟨rfl, mem_exclusiveKeys.mp hkey⟩
    · obtain ⟨kw, hkw, heq⟩ := List.mem_map.mp hc
      have htype := congrArg Conflict.contradictionType heq
      have hdetail := congrArg Conflict.detailKey heq
      rw [← hdetail, ← htype]
      exact .inr ⟨rfl, mem_oppositeKeys.mp hkw⟩
  · rintro ⟨hsub, hkind⟩
    refine ⟨(c.a, c.b), Pairs.mem_couples.mpr hsub, List.mem_append.mpr ?_⟩
    obtain ⟨a, b, contradictionType, detailKey⟩ := c
    rcases hkind with ⟨rfl, hkey⟩ | ⟨rfl, hkw⟩
    · exact .inl (List.mem_map.mpr ⟨detailKey, mem_exclusiveKeys.mpr hkey, rfl⟩)
    · exact .inr (List.mem_map.mpr ⟨detailKey, mem_oppositeKeys.mpr hkw, rfl⟩)

/-! ## The other order -/

theorem generateFindingId_comm (contradictionType idA idB detailKey : String) :
    ContradictionFinding.generateFindingId contradictionType idA idB detailKey =
      ContradictionFinding.generateFindingId contradictionType idB idA detailKey := by
  have hsorted : Table.orderBy id [idA, idB] = Table.orderBy id [idB, idA] :=
    Table.orderBy_id_eq_of_perm (List.Perm.swap idB idA [])
  rw [ContradictionFinding.generateFindingId, hsorted]
  rfl

/-- The same conflict with the records the other way round. -/
def Conflict.swap (c : Conflict) : Conflict := { c with a := c.b, b := c.a }

theorem Conflict.findingId_swap (c : Conflict) : c.swap.findingId = c.findingId :=
  generateFindingId_comm ..

theorem SetsApart.symm {a b : MemoryRecord} {key : String} (h : SetsApart u a b key) :
    SetsApart u b a key := by
  obtain ⟨valA, valB, hA, hB, hne⟩ := h
  exact ⟨valB, valA, hB, hA, hne.symm⟩

theorem SharedKeyword.symm {a b : MemoryRecord} {kw : String} (h : SharedKeyword u a b kw) :
    SharedKeyword u b a kw :=
  ⟨h.1, h.2.symm⟩

theorem Opposed.symm {a b : MemoryRecord} {p : String × String} (h : Opposed u a b p) :
    Opposed u b a p :=
  (Or.symm h).imp And.symm And.symm

theorem InConflict.reverse {records : List MemoryRecord} {c : Conflict}
    (h : InConflict u records c) : InConflict u records.reverse c.swap := by
  obtain ⟨hsub, hkind⟩ := h
  refine ⟨List.reverse_sublist.mpr hsub, ?_⟩
  rcases hkind with ⟨htype, hkey⟩ | ⟨htype, hkw, p, hp, hopposed⟩
  · exact .inl ⟨htype, hkey.symm⟩
  · exact .inr ⟨htype, hkw.symm, p, hp, hopposed.symm⟩

/-! ## Coherence -/

/-- The ids of findings, each with the two records it names. -/
def reported (findings : List ContradictionFinding) : Set (String × Sym2 String) :=
  {r | ∃ f ∈ findings, (f.findingId, s(f.ruleAId, f.ruleBId)) = r}

/-- The text has the name, in lower case. -/
def Names (u : UnicodeTables) (s name : String) : Prop :=
  PythonText.contains name.toList (u.lower s).toList = true

/-- Records that agree are not reported as opposed, findings have ids of their own, and neither
the order of the records nor that of two texts matters. -/
structure Coherent (u : UnicodeTables) (suppressedIds : List String) (records : List MemoryRecord)
    (s t : String) : Prop where
  agreement : ∀ f ∈ detect u suppressedIds records, ∀ a ∈ records, ∀ b ∈ records,
    f.ruleAId = a.id → f.ruleBId = b.id → a.content = b.content →
      f.contradictionType ≠ "exclusive_config" ∧ f.contradictionType ≠ "opposite_assertion"
  distinct : ((detect u suppressedIds records).map ContradictionFinding.findingId).Nodup
  reversal : reported (detect u suppressedIds records.reverse) =
    reported (detect u suppressedIds records)
  symmetric : detectContradiction u s t = detectContradiction u t s
  irreflexive : detectContradiction u s s = false

/-- What the texts must not do: take both sides of a polarity together with a subject, oppose
each other in two ways on one subject, or name two engines or two frameworks; and no two
conflicts may have one short hash. -/
structure Unambiguous (u : UnicodeTables) (records : List MemoryRecord) (s : String) : Prop where
  agreeing : ∀ a b, [a, b].Sublist records → a.content = b.content →
    ∀ kw, SharedKeyword u a b kw → ∀ p ∈ polarities, ¬Opposed u a b p
  oneSided : ∀ a b, [a, b].Sublist records → OneSided u a b
  hashes : ∀ c c', InConflict u records c → InConflict u records c' →
    c.findingId = c'.findingId → c = c'
  engines : ¬(Names u s "sqlite" ∧ Names u s "postgres")
  frameworks : ¬(Names u s "fastapi" ∧ Names u s "flask")

section Detect

variable {records : List MemoryRecord} (hids : (records.map MemoryRecord.id).Nodup)
include hids

/-- The findings are those of the conflicts. -/
theorem exists_detect_iff {p : Summary → Prop} :
    (∃ f ∈ detect u suppressedIds records, p (summaryOf f)) ↔
      ∃ c, InConflict u records c ∧ p c.summary := by
  have hmem : ∀ x, x ∈ (detect u suppressedIds records).map summaryOf ↔
      x ∈ (conflicts u records).map Conflict.summary := by
    rw [map_summaryOf_detect hids]
    exact fun _ => .rfl
  constructor
  · rintro ⟨f, hf, hp⟩
    obtain ⟨c, hc, hcf⟩ := List.mem_map.mp ((hmem _).mp (List.mem_map_of_mem hf))
    exact ⟨c, mem_conflicts.mp hc, hcf ▸ hp⟩
  · rintro ⟨c, hc, hp⟩
    obtain ⟨f, hf, hfc⟩ := List.mem_map.mp ((hmem _).mpr (List.mem_map_of_mem (mem_conflicts.mpr hc)))
    exact ⟨f, hf, hfc ▸ hp⟩

theorem agreement_iff :
    (∀ f ∈ detect u suppressedIds records, ∀ a ∈ records, ∀ b ∈ records,
      f.ruleAId = a.id → f.ruleBId = b.id → a.content = b.content →
        f.contradictionType ≠ "exclusive_config" ∧ f.contradictionType ≠ "opposite_assertion") ↔
      ∀ a b, [a, b].Sublist records → a.content = b.content →
        ∀ kw, SharedKeyword u a b kw → ∀ p ∈ polarities, ¬Opposed u a b p := by
  have hreported : ∀ p : Summary → Prop,
      (∃ f ∈ detect u suppressedIds records, p (summaryOf f)) ↔
        ∃ c, InConflict u records c ∧ p c.summary := fun _ => exists_detect_iff hids
  constructor
  · intro h a b hsub hcontent kw hkw p hp hopposed
    obtain ⟨f, hf, htype, ha, hb⟩ := (hreported fun x =>
      x.contradictionType = "opposite_assertion" ∧ x.ruleAId = a.id ∧ x.ruleBId = b.id).mpr
        ⟨⟨a, b, "opposite_assertion", kw⟩, ⟨hsub, .inr ⟨rfl, hkw, p, hp, hopposed⟩⟩, rfl, rfl, rfl⟩
    exact (h f hf a (hsub.subset (by simp)) b (hsub.subset (by simp)) ha hb hcontent).2 htype
  · intro h f hf a ha b hb hfa hfb hcontent
    obtain ⟨c, ⟨hsub, hkind⟩, hfc⟩ := (hreported (· = summaryOf f)).mp ⟨f, hf, rfl⟩
    have hca : c.a = a := List.inj_on_of_nodup_map hids (hsub.subset (by simp)) ha
      ((congrArg Summary.ruleAId hfc).trans hfa)
    have hcb : c.b = b := List.inj_on_of_nodup_map hids (hsub.subset (by simp)) hb
      ((congrArg Summary.ruleBId hfc).trans hfb)
    rw [hca, hcb] at hkind
    rcases hkind with ⟨_, valA, valB, hA, hB, hne⟩ | ⟨_, hkw, p, hp, hopposed⟩
    · rw [comparedContent, hcontent] at hA
      exact absurd (Option.some.inj (hA.symm.trans hB)) hne
    · rw [hca, hcb] at hsub
      exact absurd hopposed (h a b hsub hcontent _ hkw p hp)

theorem distinct_iff :
    ((detect u suppressedIds records).map ContradictionFinding.findingId).Nodup ↔
      (∀ a b, [a, b].Sublist records → OneSided u a b) ∧
        ∀ c c', InConflict u records c → InConflict u records c' →
          c.findingId = c'.findingId → c = c' := by
  have hmap : (detect u suppressedIds records).map ContradictionFinding.findingId =
      (conflicts u records).map Conflict.findingId := by
    have hsummaries : (detect u suppressedIds records).map summaryOf =
        (conflicts u records).map Conflict.summary := map_summaryOf_detect hids
    have hfindings := congrArg (List.map Summary.findingId) hsummaries
    rwa [List.map_map, List.map_map] at hfindings
  rw [hmap, ← nodup_conflicts_iff hids.of_map]
  constructor
  · intro h
    exact ⟨h.of_map, fun c c' hc hc' =>
      List.inj_on_of_nodup_map h (mem_conflicts.mpr hc) (mem_conflicts.mpr hc')⟩
  · rintro ⟨hnodup, hinj⟩
    exact List.Nodup.map_on (fun c hc c' hc' =>
      hinj c c' (mem_conflicts.mp hc) (mem_conflicts.mp hc')) hnodup

theorem mem_reported_detect {r : String × Sym2 String} :
    r ∈ reported (detect u suppressedIds records) ↔
      ∃ c, InConflict u records c ∧ (c.findingId, s(c.a.id, c.b.id)) = r :=
  exists_detect_iff (p := fun x => (x.findingId, s(x.ruleAId, x.ruleBId)) = r) hids

theorem reported_detect_reverse :
    reported (detect u suppressedIds records.reverse) =
      reported (detect u suppressedIds records) := by
  have hids' : (records.reverse.map MemoryRecord.id).Nodup := by
    rwa [List.map_reverse, List.nodup_reverse]
  ext r
  rw [mem_reported_detect hids', mem_reported_detect hids]
  constructor
  · rintro ⟨c, hc, rfl⟩
    have hswap := hc.reverse
    rw [List.reverse_reverse] at hswap
    exact ⟨c.swap, hswap, by rw [c.findingId_swap]; exact congrArg _ Sym2.eq_swap⟩
  · rintro ⟨c, hc, rfl⟩
    exact ⟨c.swap, hc.reverse, by rw [c.findingId_swap]; exact congrArg _ Sym2.eq_swap⟩

end Detect

theorem detectContradiction_self_iff {s : String} :
    detectContradiction u s s = true ↔
      Names u s "sqlite" ∧ Names u s "postgres" ∨ Names u s "fastapi" ∧ Names u s "flask" := by
  simp only [detectContradiction, Names, Bool.or_eq_true, Bool.and_eq_true, List.any_eq_true]
  constructor
  · rintro ((((h | h) | h) | h) | ⟨neg, _, h, _⟩)
    · exact .inl h
    · exact .inl h.symm
    · exact .inr h
    · exact .inr h.symm
    · simp at h
  · rintro (h | h)
    · exact .inl (.inl (.inl (.inl h)))
    · exact .inl (.inl (.inr h))

/-- On records with distinct ids contradiction detection is coherent exactly when the texts are
unambiguous. -/
theorem detect_coherent_iff {records : List MemoryRecord}
    (hids : (records.map MemoryRecord.id).Nodup) (s t : String) :
    Coherent u suppressedIds records s t ↔ Unambiguous u records s := by
  constructor
  · intro h
    obtain ⟨honeSided, hhashes⟩ := (distinct_iff hids).mp h.distinct
    have hself := mt detectContradiction_self_iff.mpr (Bool.eq_false_iff.mp h.irreflexive)
    exact ⟨(agreement_iff hids).mp h.agreement, honeSided, hhashes,
      fun hboth => hself (.inl hboth), fun hboth => hself (.inr hboth)⟩
  · intro h
    have hself : ¬detectContradiction u s s = true := fun hs =>
      (detectContradiction_self_iff.mp hs).elim h.engines h.frameworks
    exact ⟨(agreement_iff hids).mpr h.agreeing, (distinct_iff hids).mpr ⟨h.oneSided, h.hashes⟩,
      reported_detect_reverse hids, KnowledgeProjection.detectContradiction_comm s t,
      Bool.eq_false_iff.mpr hself⟩

/-- A rule that names what to use and what to avoid. -/
def choice (id : String) : MemoryRecord where
  id := id
  version := 1
  title := "Storage"
  content := "use postgres and avoid mysql"
  memoryType := .decision
  importance := "high"
  lifecycleStatus := "ACTIVE"
  sourceEventIds := ["e1"]
  sourceType := "event"
  createdAt := ""

theorem detect_coherent_iff_choice :
    Coherent .asciiOnly [] [choice "m1", choice "m2"] "use sqlite" "use flask" ↔
      Unambiguous .asciiOnly [choice "m1", choice "m2"] "use sqlite" :=
  detect_coherent_iff (by decide) _ _

/-- Two records of one content are reported as opposite assertions. -/
theorem detect_choice :
    ∃ f ∈ detect .asciiOnly [] [choice "m1", choice "m2"],
      f.contradictionType = "opposite_assertion" ∧ f.ruleAId = "m1" ∧ f.ruleBId = "m2" ∧
        (choice "m1").content = (choice "m2").content := by
  have hconflict : InConflict .asciiOnly [choice "m1", choice "m2"]
      ⟨choice "m1", choice "m2", "opposite_assertion", "postgres"⟩ := by
    refine ⟨.refl _, .inr ⟨rfl, ⟨by decide, ?_, ?_⟩, ("use", "avoid"), by decide, ?_⟩⟩
    all_goals decide +kernel
  obtain ⟨f, hf, htype, ha, hb⟩ := (exists_detect_iff (p := fun x =>
    x.contradictionType = "opposite_assertion" ∧ x.ruleAId = "m1" ∧ x.ruleBId = "m2")
      (by decide)).mpr ⟨_, hconflict, rfl, rfl, rfl⟩
  exact ⟨f, hf, htype, ha, hb, rfl⟩

end ContradictionEngine

end RationaleVault
