import RationaleVault.CognitiveHead.Reasoning
import RationaleVault.Organization.Projection

/-!
# Who holds shared knowledge

A project sees the transferable items of the others and not its own. The projects
that see an item are reported as those that have it, and the lineage of an item
lists who sees it together with where it comes from.
-/

namespace RationaleVault

namespace OrganizationProjection

/-- The project has an object with the id. -/
def Holds (projects : Projects) (p kid : String) : Prop :=
  ∃ e ∈ projects.entries, e.1 = p ∧ ∃ k ∈ e.2, k.id = kid

/-- The project has an object with the id that may leave it. -/
def Offers (projects : Projects) (p kid : String) : Prop :=
  ∃ e ∈ projects.entries, e.1 = p ∧ ∃ k ∈ e.2, k.id = kid ∧ isTransferable k.transferability = true

variable {projects : Projects} {p q kid : String}

theorem Holds.mem_keys (h : Holds projects p kid) : p ∈ projects.keys := by
  obtain ⟨e, he, rfl, _⟩ := h
  exact List.mem_map_of_mem he

theorem Offers.holds (h : Offers projects p kid) : Holds projects p kid := by
  obtain ⟨e, he, hp, k, hk, hid, _⟩ := h
  exact ⟨e, he, hp, k, hk, hid⟩

theorem keys_nodup (d : Projects) : d.keys.Nodup := d.normKeys_nodup

/-! ## Who sees an item -/

/-- The states list for every project the transferable items of the others. -/
structure Reports (states : States) (projects : Projects) : Prop where
  projectId : ∀ e ∈ states.entries, e.2.projectId = e.1
  sightings : ∀ s, s ∈ sightings states ↔ s.1 ∈ projects.keys ∧
    ∃ e ∈ projects.entries, e.1 ≠ s.1 ∧ ∃ k ∈ e.2, isTransferable k.transferability = true ∧
      s.2 = CrossProjectProjection.recordOf e.1 k

theorem reports_states (projects : Projects) :
    Reports (CrossProjectProjection.states projects) projects where
  projectId := by
    intro e he
    rw [CrossProjectProjection.entries_states] at he
    obtain ⟨entry, _, rfl⟩ := List.mem_map.mp he
    rfl
  sightings := by
    intro s
    rw [OrganizationProjection.sightings, CrossProjectProjection.entries_states]
    simp only [List.mem_flatMap, List.mem_map]
    constructor
    · rintro ⟨_, ⟨entry, hentry, rfl⟩, r, hr, rfl⟩
      obtain ⟨e, he, hne, k, hk, htransferable, rfl⟩ :=
        CrossProjectProjection.mem_transferable.mp hr
      exact ⟨List.mem_map_of_mem hentry, e, he, hne, k, hk, htransferable, rfl⟩
    · rintro ⟨hkey, e, he, hne, k, hk, htransferable, hrecord⟩
      obtain ⟨entry, hentry, hp⟩ := List.mem_map.mp hkey
      refine ⟨_, ⟨entry, hentry, rfl⟩, s.2, ?_, Prod.ext hp rfl⟩
      exact CrossProjectProjection.mem_transferable.mpr
        ⟨e, he, hp ▸ hne, k, hk, htransferable, hrecord⟩

namespace Reports

variable {states : States} (h : Reports states projects)

include h

/-- No state lists an item of its own project. -/
theorem transfers_eq : transfers states = OrganizationProjection.sightings states := by
  rw [transfers, OrganizationProjection.sightings]
  apply List.flatMap_congr
  intro e he
  congr 1
  apply List.filter_eq_self.mpr
  intro r hr
  have hsight : (e.1, r) ∈ OrganizationProjection.sightings states :=
    List.mem_flatMap.mpr ⟨e, he, List.mem_map_of_mem hr⟩
  obtain ⟨_, e', _, hne, k, _, _, hrecord⟩ := (h.sightings _).mp hsight
  obtain rfl : r = CrossProjectProjection.recordOf e'.1 k := hrecord
  rw [h.projectId e he]
  exact decide_eq_true hne

theorem mem_seenBy : p ∈ ((seenBy states).get? kid).getD [] ↔
    p ∈ projects.keys ∧ ∃ q, q ≠ p ∧ Offers projects q kid := by
  rw [seenBy, Grouping.getD_lists]
  simp only [List.mem_map, List.mem_filter, h.sightings, DictKey.norm_string, decide_eq_true_eq]
  constructor
  · rintro ⟨s, ⟨⟨hkey, e, he, hne, k, hk, htransferable, hrecord⟩, hid⟩, rfl⟩
    rw [hrecord] at hid
    exact ⟨hkey, e.1, hne, e, he, rfl, k, hk, hid, htransferable⟩
  · rintro ⟨hkey, q, hne, e, he, rfl, k, hk, rfl, htransferable⟩
    exact ⟨(p, CrossProjectProjection.recordOf e.1 k),
      ⟨⟨hkey, e, he, hne, k, hk, htransferable, rfl⟩, rfl⟩, rfl⟩

/-- The projects of a lineage: those that see the item and those that offer it to them. -/
theorem mem_lineageProjects : p ∈ ((lineageProjects states).get? kid).getD [] ↔
    ∃ a q, a ∈ projects.keys ∧ Offers projects q kid ∧ q ≠ a ∧ (p = a ∨ p = q) := by
  rw [lineageProjects, Grouping.getD_lists, h.transfers_eq]
  simp only [List.mem_map, List.mem_filter, List.mem_flatMap, h.sightings,
    DictKey.norm_string, decide_eq_true_eq, List.mem_cons, List.not_mem_nil, or_false]
  constructor
  · rintro ⟨x, ⟨⟨s, ⟨hkey, e, he, hne, k, hk, htransferable, hrecord⟩, hx⟩, hid⟩, rfl⟩
    rw [hrecord] at hx
    rcases hx with rfl | rfl
    · exact ⟨s.1, e.1, hkey, ⟨e, he, rfl, k, hk, hid, htransferable⟩, hne, Or.inl rfl⟩
    · exact ⟨s.1, e.1, hkey, ⟨e, he, rfl, k, hk, hid, htransferable⟩, hne, Or.inr rfl⟩
  · rintro ⟨a, q, hkey, ⟨e, he, rfl, k, hk, rfl, htransferable⟩, hne, hp⟩
    refine ⟨(k.id, p), ⟨⟨(a, CrossProjectProjection.recordOf e.1 k),
      ⟨hkey, e, he, hne, k, hk, htransferable, rfl⟩, ?_⟩, rfl⟩, rfl⟩
    rcases hp with rfl | rfl
    · exact Or.inl rfl
    · exact Or.inr rfl

end Reports

/-! ## What is reported -/

theorem one_lt_length_dedup {l : List String} :
    1 < l.dedup.length ↔ ∃ p ∈ l, ∃ q ∈ l, p ≠ q := by
  rw [← List.card_toFinset, Finset.one_lt_card]
  simp

theorem mem_detectSharedKnowledge {states : States} {s : SharedKnowledge} :
    s ∈ detectSharedKnowledge states ↔ ∃ e ∈ (seenBy states).entries,
      sharedEntry e.1 (((kidMeta states).get? e.1).getD ("", "")) e.2 = some s := by
  rw [detectSharedKnowledge, Table.mem_orderBy, List.mem_filterMap]

theorem sharedEntry_eq_some {knowledgeId : String} {about : String × String} {l : List String}
    {s : SharedKnowledge} (h : sharedEntry knowledgeId about l = some s) :
    s.knowledgeId = knowledgeId ∧ s.presentInProjects = sortedSet l ∧ 1 < l.dedup.length := by
  unfold sharedEntry at h
  split_ifs at h with hmany
  obtain rfl := Option.some.inj h
  exact ⟨rfl, rfl, hmany⟩

theorem mem_presentInProjects {states : States} {s : SharedKnowledge}
    (hs : s ∈ detectSharedKnowledge states) :
    p ∈ s.presentInProjects ↔ p ∈ ((seenBy states).get? s.knowledgeId).getD [] := by
  obtain ⟨e, he, hentry⟩ := mem_detectSharedKnowledge.mp hs
  obtain ⟨hid, hpresent, _⟩ := sharedEntry_eq_some hentry
  rw [hpresent, mem_sortedSet, hid, OrdDict.get?_of_mem he, Option.getD_some]

/-- There is an entry for what two projects see. -/
theorem exists_shared_iff {states : States} :
    (∃ s ∈ detectSharedKnowledge states, s.knowledgeId = kid) ↔
      ∃ p ∈ ((seenBy states).get? kid).getD [], ∃ q ∈ ((seenBy states).get? kid).getD [],
        p ≠ q := by
  rw [← one_lt_length_dedup]
  constructor
  · rintro ⟨s, hs, rfl⟩
    obtain ⟨e, he, hentry⟩ := mem_detectSharedKnowledge.mp hs
    obtain ⟨hid, _, hmany⟩ := sharedEntry_eq_some hentry
    rwa [hid, OrdDict.get?_of_mem he, Option.getD_some]
  · intro hmany
    cases hget : (seenBy states).get? kid with
    | none =>
        rw [hget] at hmany
        simp at hmany
    | some l =>
        rw [hget, Option.getD_some] at hmany
        obtain ⟨e, he, hkey, rfl⟩ := OrdDict.lookupIn_mem hget
        obtain rfl : e.1 = kid := hkey
        refine ⟨_, mem_detectSharedKnowledge.mpr ⟨e, he, if_pos hmany⟩, rfl⟩

theorem get?_computeActiveLineages {states : States} {knowledge : Projects} :
    (computeActiveLineages states knowledge).get? kid =
      ((lineageProjects states).get? kid).map (lineageOf states knowledge kid) := by
  have hentries : (computeActiveLineages states knowledge).entries =
      (lineageProjects states).entries.map fun e =>
        (e.1, lineageOf states knowledge e.1 e.2) := by
    apply OrdDict.entries_ofList
    rw [List.map_map]
    exact (lineageProjects states).nodup
  apply Option.ext
  intro lineage
  rw [OrdDict.get?_eq_some_iff, hentries, Option.map_eq_some_iff]
  simp only [OrdDict.get?_eq_some_iff, List.mem_map, DictKey.norm_string]
  constructor
  · rintro ⟨_, ⟨e, he, rfl⟩, rfl, rfl⟩
    exact ⟨e.2, ⟨e, he, rfl, rfl⟩, rfl⟩
  · rintro ⟨l, ⟨e, he, rfl, rfl⟩, rfl⟩
    exact ⟨_, ⟨e, he, rfl⟩, rfl, rfl⟩

theorem mem_currentProjects {states : States} {knowledge : Projects} {lineage : KnowledgeLineage}
    (h : (computeActiveLineages states knowledge).get? kid = some lineage) :
    p ∈ lineage.currentProjects ↔ p ∈ ((lineageProjects states).get? kid).getD [] := by
  rw [get?_computeActiveLineages, Option.map_eq_some_iff] at h
  obtain ⟨l, hl, rfl⟩ := h
  rw [hl, Option.getD_some]
  exact mem_sortedSet

/-- There is a lineage for what was collected from some project. -/
theorem exists_lineage_iff {states : States} {knowledge : Projects} :
    (∃ lineage, (computeActiveLineages states knowledge).get? kid = some lineage) ↔
      ∃ p, p ∈ ((lineageProjects states).get? kid).getD [] := by
  rw [get?_computeActiveLineages]
  cases hget : (lineageProjects states).get? kid with
  | none => simp
  | some l =>
      obtain ⟨p, hp⟩ := List.exists_mem_of_ne_nil l (Grouping.lists_ne_nil hget)
      exact iff_of_true ⟨_, rfl⟩ ⟨p, hp⟩

/-! ## Whether it is true -/

/-- Shared knowledge and lineages name the projects that hold the item. -/
structure WhereSaid (state : OrganizationState) (projects : Projects) : Prop where
  present : ∀ s ∈ state.sharedKnowledge, ∀ p,
    p ∈ s.presentInProjects ↔ Holds projects p s.knowledgeId
  entries : ∀ kid, (∃ s ∈ state.sharedKnowledge, s.knowledgeId = kid) ↔
    (∃ p, Offers projects p kid) ∧ ∃ p q, p ≠ q ∧ Holds projects p kid ∧ Holds projects q kid
  current : ∀ kid lineage, state.activeLineages.get? kid = some lineage →
    ∀ p, p ∈ lineage.currentProjects ↔ Holds projects p kid

/-- Every transferable item is held by all projects and offered by two. -/
def HeldByAll (projects : Projects) : Prop :=
  ∀ kid, (∃ p, Offers projects p kid) → (∀ p ∈ projects.keys, Holds projects p kid) ∧
    ∃ p q, p ≠ q ∧ Offers projects p kid ∧ Offers projects q kid

/-- Of two projects one is not the given one. -/
theorem exists_other {found : String → Prop} (h : ∃ p q, p ≠ q ∧ found p ∧ found q) (x : String) :
    ∃ p, p ≠ x ∧ found p := by
  obtain ⟨p, q, hne, hp, hq⟩ := h
  by_cases hpx : p = x
  · exact ⟨q, fun hqx => hne (hpx.trans hqx.symm), hq⟩
  · exact ⟨p, hpx, hp⟩

theorem exists_two_keys (h : ¬projects.keys.length ≤ 1) :
    ∃ p q, p ≠ q ∧ p ∈ projects.keys ∧ q ∈ projects.keys := by
  have hdedup : projects.keys.dedup = projects.keys := (keys_nodup projects).dedup
  obtain ⟨p, hp, q, hq, hne⟩ := one_lt_length_dedup.mp (hdedup.symm ▸ not_le.mp h)
  exact ⟨p, q, hne, hp, hq⟩

theorem eq_of_length_le_one (h : projects.keys.length ≤ 1) (hp : p ∈ projects.keys)
    (hq : q ∈ projects.keys) : p = q := by
  by_contra hne
  have hdedup : projects.keys.dedup = projects.keys := (keys_nodup projects).dedup
  have hmany := one_lt_length_dedup.mpr ⟨p, hp, q, hq, hne⟩
  rw [hdedup] at hmany
  omega

variable {u : UnicodeTables} {now : String}

theorem whereSaid_of_length_le_one (h : projects.keys.length ≤ 1) :
    WhereSaid (getOrganizationState u now projects) projects := by
  have hnone : ∀ kid p,
      p ∉ ((seenBy (CrossProjectProjection.states projects)).get? kid).getD [] := by
    intro kid p hp
    obtain ⟨hkey, q, hne, hoffers⟩ := (reports_states projects).mem_seenBy.mp hp
    exact hne (eq_of_length_le_one h hoffers.holds.mem_keys hkey)
  have hshared : ∀ kid, ¬∃ s ∈ (getOrganizationState u now projects).sharedKnowledge,
      s.knowledgeId = kid := by
    intro kid hs
    obtain ⟨p, hp, _⟩ := exists_shared_iff.mp hs
    exact hnone kid p hp
  constructor
  · intro s hs
    exact absurd ⟨s, hs, rfl⟩ (hshared s.knowledgeId)
  · intro kid
    apply iff_of_false (hshared kid)
    rintro ⟨_, p, q, hne, hp, hq⟩
    exact hne (eq_of_length_le_one h hp.mem_keys hq.mem_keys)
  · intro kid lineage hlineage
    obtain ⟨p, hp⟩ := exists_lineage_iff.mp ⟨lineage, hlineage⟩
    obtain ⟨a, q, hkey, hoffers, hne, _⟩ := (reports_states projects).mem_lineageProjects.mp hp
    exact absurd (eq_of_length_le_one h hoffers.holds.mem_keys hkey) hne

theorem whereSaid_of_heldByAll (h : HeldByAll projects) :
    WhereSaid (getOrganizationState u now projects) projects := by
  constructor
  · intro s hs p
    rw [mem_presentInProjects hs, (reports_states projects).mem_seenBy]
    obtain ⟨x, hx, _⟩ := exists_shared_iff.mp ⟨s, hs, rfl⟩
    obtain ⟨_, y, _, hoffers⟩ := (reports_states projects).mem_seenBy.mp hx
    obtain ⟨hall, htwo⟩ := h s.knowledgeId ⟨y, hoffers⟩
    constructor
    · rintro ⟨hkey, _⟩
      exact hall p hkey
    · intro hholds
      exact ⟨hholds.mem_keys, exists_other htwo p⟩
  · intro kid
    change (∃ s ∈ detectSharedKnowledge _, s.knowledgeId = kid) ↔ _
    rw [exists_shared_iff]
    simp only [(reports_states projects).mem_seenBy]
    constructor
    · rintro ⟨p, ⟨hp, y, _, hoffers⟩, q, ⟨hq, _⟩, hne⟩
      obtain ⟨hall, _⟩ := h kid ⟨y, hoffers⟩
      exact ⟨⟨y, hoffers⟩, p, q, hne, hall p hp, hall q hq⟩
    · rintro ⟨hoffered, _⟩
      obtain ⟨_, p, q, hne, hp, hq⟩ := h kid hoffered
      exact ⟨p, ⟨hp.holds.mem_keys, q, hne.symm, hq⟩, q, ⟨hq.holds.mem_keys, p, hne, hp⟩, hne⟩
  · intro kid lineage hlineage p
    rw [mem_currentProjects hlineage, (reports_states projects).mem_lineageProjects]
    obtain ⟨x, hx⟩ := exists_lineage_iff.mp ⟨lineage, hlineage⟩
    obtain ⟨_, y, _, hoffers, _⟩ := (reports_states projects).mem_lineageProjects.mp hx
    obtain ⟨hall, htwo⟩ := h kid ⟨y, hoffers⟩
    constructor
    · rintro ⟨a, q, hkey, hq, _, rfl | rfl⟩
      · exact hall p hkey
      · exact hq.holds
    · intro hholds
      obtain ⟨q, hne, hq⟩ := exists_other htwo p
      exact ⟨p, q, hholds.mem_keys, hq, hne, Or.inl rfl⟩

theorem heldByAll_of_whereSaid (h : WhereSaid (getOrganizationState u now projects) projects)
    (hmany : ¬projects.keys.length ≤ 1) : HeldByAll projects := by
  rintro kid ⟨q, hq⟩
  have htwo := exists_two_keys hmany
  obtain ⟨a, hne, hkey⟩ := exists_other htwo q
  obtain ⟨lineage, hlineage⟩ := exists_lineage_iff.mpr
    ⟨a, (reports_states projects).mem_lineageProjects.mpr ⟨a, q, hkey, hq, hne.symm, Or.inl rfl⟩⟩
  -- every project sees the item of the first one or is that one
  have hall : ∀ p ∈ projects.keys, Holds projects p kid := by
    intro p hp
    apply (h.current kid lineage hlineage p).mp
    rw [mem_currentProjects hlineage, (reports_states projects).mem_lineageProjects]
    by_cases hpq : q = p
    · exact ⟨a, q, hkey, hq, hne.symm, Or.inr hpq.symm⟩
    · exact ⟨p, q, hp, hq, hpq, Or.inl rfl⟩
  refine ⟨hall, ?_⟩
  obtain ⟨x, y, hxy, hx, hy⟩ := htwo
  obtain ⟨s, hs, rfl⟩ := (h.entries kid).mpr ⟨⟨q, hq⟩, x, y, hxy, hall x hx, hall y hy⟩
  have hpresent := (h.present s hs q).mpr hq.holds
  rw [mem_presentInProjects hs, (reports_states projects).mem_seenBy] at hpresent
  obtain ⟨_, q', hne', hq'⟩ := hpresent
  exact ⟨q, q', hne'.symm, hq, hq'⟩

/-- The reported places are true exactly when there is nothing to see or every project holds what
any project offers. -/
theorem whereSaid_iff (u : UnicodeTables) (now : String) (projects : Projects) :
    WhereSaid (getOrganizationState u now projects) projects ↔
      projects.keys.length ≤ 1 ∨ HeldByAll projects := by
  constructor
  · intro h
    by_cases hmany : projects.keys.length ≤ 1
    · exact Or.inl hmany
    · exact Or.inr (heldByAll_of_whereSaid h hmany)
  · rintro (hfew | hall)
    · exact whereSaid_of_length_le_one hfew
    · exact whereSaid_of_heldByAll hall

/-- Three projects; the first one offers what no other one has. -/
def oneHolder : Projects :=
  .ofList [("p1", [{ ReasoningEngine.rule "k1" "Storage" "use sqlite" "m1" with
      transferability := "REUSABLE" }]), ("p2", []), ("p3", [])]

/-- The item is reported for the two projects that do not have it. -/
theorem not_whereSaid_oneHolder :
    ¬WhereSaid (getOrganizationState .asciiOnly "" oneHolder) oneHolder ∧
      (getOrganizationState .asciiOnly "" oneHolder).sharedKnowledge =
        [⟨"k1", "Storage", "LESSON", ["p2", "p3"], 1⟩] := by
  have hshared : (getOrganizationState .asciiOnly "" oneHolder).sharedKnowledge =
      [⟨"k1", "Storage", "LESSON", ["p2", "p3"], 1⟩] := by decide +kernel
  refine ⟨fun h => ?_, hshared⟩
  have hholds := (h.present ⟨"k1", "Storage", "LESSON", ["p2", "p3"], 1⟩
    (hshared ▸ List.mem_cons_self) "p2").mp List.mem_cons_self
  obtain ⟨e, he, hp, k, hk, _⟩ := hholds
  have hentries : oneHolder.entries = [("p1", [{ ReasoningEngine.rule "k1" "Storage" "use sqlite"
    "m1" with transferability := "REUSABLE" }]), ("p2", []), ("p3", [])] := rfl
  rw [hentries] at he
  simp only [List.mem_cons, List.not_mem_nil, or_false] at he
  rcases he with rfl | rfl | rfl
  · simp at hp
  · cases hk
  · cases hk

end OrganizationProjection

end RationaleVault
