import RationaleVault.Library.Heard
import RationaleVault.Organization.Holders

/-!
# The order in which projects are registered

The projects are read in the order in which they were inserted. Most of the state
forgets it: sets are sorted, and counts add up. What is taken from the last project
or listed in the order of the first ones does not.
-/

namespace RationaleVault

namespace OrganizationProjection

open Heard

variable {u : UnicodeTables} {now : String} {projects : Projects} {kid p q : String}

/-! ## Registrations -/

/-- The orders in which the projects are listed: to the organization, to each other, and with their
states. -/
structure Registration (projects : Projects) where
  knowledge : Projects
  targets : Projects
  states : States
  knowledge_perm : knowledge.entries.Perm projects.entries
  targets_perm : targets.entries.Perm projects.entries
  states_perm : states.entries.Perm (CrossProjectProjection.states targets).entries

/-- All lists in one order. -/
def Registration.inOrder (projects' : Projects) (h : projects'.entries.Perm projects.entries) :
    Registration projects where
  knowledge := projects'
  targets := projects'
  states := CrossProjectProjection.states projects'
  knowledge_perm := h
  targets_perm := h
  states_perm := .refl _

def Registration.project (u : UnicodeTables) (now : String) (r : Registration projects)
    (includeTelemetry : Bool) : OrganizationState :=
  OrganizationProjection.project u now r.states r.knowledge includeTelemetry

/-- Two organization states are equal; lineages are compared as dictionaries. -/
structure SameState (state state' : OrganizationState) : Prop where
  compiledAt : state.compiledAt = state'.compiledAt
  projectIds : state.projectIds = state'.projectIds
  lineages : ∀ kid, state.activeLineages.get? kid = state'.activeLineages.get? kid
  shared : state.sharedKnowledge = state'.sharedKnowledge
  conflicts : state.crossProjectConflicts = state'.crossProjectConflicts
  invariants : state.invariantsAcrossProjects = state'.invariantsAcrossProjects
  clusters : state.projectClusters = state'.projectClusters
  telemetry : state.transferabilityTelemetry = state'.transferabilityTelemetry
  health : state.health = state'.health

theorem SameState.symm {state state' : OrganizationState} (h : SameState state state') :
    SameState state' state :=
  ⟨h.1.symm, h.2.symm, fun kid => (h.3 kid).symm, h.4.symm, h.5.symm, h.6.symm, h.7.symm,
    h.8.symm, h.9.symm⟩

theorem SameState.trans {state state' state'' : OrganizationState} (h : SameState state state')
    (h' : SameState state' state'') : SameState state state'' :=
  ⟨h.1.trans h'.1, h.2.trans h'.2, fun kid => (h.3 kid).trans (h'.3 kid), h.4.trans h'.4,
    h.5.trans h'.5, h.6.trans h'.6, h.7.trans h'.7, h.8.trans h'.8, h.9.trans h'.9⟩

/-! ## What projects say -/

/-- The title that a project gives an invariant last. -/
def lastTitle (u : UnicodeTables) (key : String × String) (klist : List KnowledgeObject) :
    Option String :=
  (klist.reverse.find? fun k => isInvariant k && invariantKey u k = key).map KnowledgeObject.title

/-- Which of two invariants a project lists first. -/
def firstKey (u : UnicodeTables) (key key' : String × String) (klist : List KnowledgeObject) :
    Option (String × String) :=
  ((klist.filter isInvariant).map (invariantKey u)).find? fun x => x = key ∨ x = key'

/-- The project has an invariant with the key. -/
def HasInvariant (u : UnicodeTables) (projects : Projects) (p : String)
    (key : String × String) : Prop :=
  ∃ e ∈ projects.entries, e.1 = p ∧ ∃ k ∈ e.2, isInvariant k = true ∧ invariantKey u k = key

/-- Two projects have an invariant with the key. -/
def Spans (u : UnicodeTables) (projects : Projects) (key : String × String) : Prop :=
  ∃ p q, p ≠ q ∧ HasInvariant u projects p key ∧ HasInvariant u projects q key

/-- No item is offered twice, and no two projects say different things about the origin of an
offered item, the title of a spanning invariant, or which of two spanning invariants with one title
comes first. -/
structure OrderFree (u : UnicodeTables) (projects : Projects) : Prop where
  offered : ∀ kid p q, Offers projects p kid → Offers projects q kid → p = q
  named : ∀ kid p, Offers projects p kid →
    Unanimous (fun e : String × List KnowledgeObject => namedProject kid e.2) projects.entries
  titles : ∀ key, Spans u projects key →
    Unanimous (fun e : String × List KnowledgeObject => lastTitle u key e.2) projects.entries
  first : ∀ key key', Spans u projects key → Spans u projects key' → key.1 = key'.1 →
    Unanimous (fun e : String × List KnowledgeObject => firstKey u key key' e.2) projects.entries

/-! ## What a registration keeps -/

namespace Registration

variable (r : Registration projects)

theorem mem_states {e : String × CrossProjectState} : e ∈ r.states.entries ↔
    ∃ entry ∈ projects.entries,
      e = (entry.1, CrossProjectProjection.project entry.1 (r.targets.erase entry.1) []) := by
  rw [r.states_perm.mem_iff, CrossProjectProjection.entries_states, List.mem_map]
  simp only [r.targets_perm.mem_iff, eq_comm]

theorem keys_perm : r.states.keys.Perm projects.keys := by
  have hkeys : (CrossProjectProjection.states r.targets).keys = r.targets.keys := by
    rw [OrdDict.keys, CrossProjectProjection.entries_states, List.map_map]
    rfl
  apply (r.states_perm.map Prod.fst).trans
  exact (List.Perm.of_eq hkeys).trans (r.targets_perm.map Prod.fst)

theorem reports : Reports r.states projects where
  projectId := by
    intro e he
    obtain ⟨entry, _, rfl⟩ := r.mem_states.mp he
    rfl
  sightings := by
    intro s
    have hperm : (sightings r.states).Perm
        (sightings (CrossProjectProjection.states r.targets)) :=
      r.states_perm.flatMap_right _
    have hkeys : r.targets.keys.Perm projects.keys := r.targets_perm.map Prod.fst
    rw [hperm.mem_iff, (reports_states r.targets).sightings, hkeys.mem_iff]
    simp only [r.targets_perm.mem_iff]

end Registration

/-! ## Sets and counts -/

theorem sortedSet_congr {l l' : List String} (h : ∀ x, x ∈ l ↔ x ∈ l') :
    sortedSet l = sortedSet l' := by
  apply Table.orderBy_id_eq_of_perm
  apply (List.perm_ext_iff_of_nodup l.nodup_dedup l'.nodup_dedup).mpr
  simpa using h

theorem length_dedup_congr {l l' : List String} (h : ∀ x, x ∈ l ↔ x ∈ l') :
    l.dedup.length = l'.dedup.length := by
  rw [← List.card_toFinset, ← List.card_toFinset]
  congr 1
  ext x
  simpa using h x

theorem entries_perm_of_get? {ν : Type} {d d' : OrdDict String ν}
    (h : ∀ k, d.get? k = d'.get? k) : d.entries.Perm d'.entries := by
  have hnodup : ∀ d : OrdDict String ν, d.entries.Nodup := fun d =>
    List.Nodup.of_map _ d.nodup
  apply (List.perm_ext_iff_of_nodup (hnodup d) (hnodup d')).mpr
  have hmem : ∀ (d : OrdDict String ν) (e : String × ν), e ∈ d.entries ↔ d.get? e.1 = some e.2 := by
    intro d e
    rw [OrdDict.get?_eq_some_iff]
    constructor
    · exact fun he => ⟨e, he, rfl, rfl⟩
    · rintro ⟨e', he', hkey, hval⟩
      obtain rfl : e' = e := Prod.ext hkey hval
      exact he'
  intro e
  rw [hmem, hmem, h]

section Knowledge

variable {K K' : Projects} (hperm : K.entries.Perm K'.entries)

include hperm

theorem detectCrossProjectConflicts_perm :
    detectCrossProjectConflicts u K = detectCrossProjectConflicts u K' := by
  have hids : Table.orderBy id K.keys = Table.orderBy id K'.keys :=
    Table.orderBy_id_eq_of_perm (hperm.map Prod.fst)
  have hamong : ∀ ids, conflictsAmong u K ids = conflictsAmong u K' ids := by
    intro ids
    induction ids with
    | nil => rfl
    | cons a rest ih =>
        rw [conflictsAmong, conflictsAmong, ih]
        simp only [OrdDict.get?_eq_of_perm hperm]
  rw [detectCrossProjectConflicts, detectCrossProjectConflicts, hids, hamong]

theorem clusterProjects_perm : clusterProjects u K = clusterProjects u K' := by
  have hkeys : K.keys.Perm K'.keys := hperm.map Prod.fst
  have hids : Table.orderBy id K.keys = Table.orderBy id K'.keys :=
    Table.orderBy_id_eq_of_perm hkeys
  have hneighbors : ∀ ids, neighbors u K ids = neighbors u K' ids := by
    intro ids
    funext a
    simp only [neighbors, OrdDict.get?_eq_of_perm hperm]
  by_cases hfew : K.keys.length ≤ 1
  · have hsame : K.keys = K'.keys := by
      rcases Nat.le_one_iff_eq_zero_or_eq_one.mp hfew with hzero | hone
      · rw [List.length_eq_zero_iff] at hzero
        rw [hzero] at hkeys ⊢
        exact (List.nil_perm.mp hkeys).symm
      · obtain ⟨a, ha⟩ := List.length_eq_one_iff.mp hone
        rw [ha] at hkeys ⊢
        exact List.singleton_perm.mp hkeys
    rw [clusterProjects, clusterProjects, ← hsame, if_pos hfew, if_pos hfew]
  · have hfew' : ¬K'.keys.length ≤ 1 := hkeys.length_eq ▸ hfew
    rw [clusterProjects, clusterProjects, if_neg hfew, if_neg hfew']
    simp only [hids, hneighbors]

theorem computeTelemetry_perm : computeTelemetry K = computeTelemetry K' := by
  have hall : (K.values.flatMap id).Perm (K'.values.flatMap id) :=
    (hperm.map Prod.snd).flatMap_right _
  simp only [computeTelemetry, hall.countP_eq]

end Knowledge

theorem computeHealth_congr {lineages lineages' : OrdDict String KnowledgeLineage}
    (h : ∀ kid, lineages.get? kid = lineages'.get? kid) (shared : List SharedKnowledge)
    (conflicts : List CrossProjectConflict) (invariants : List SharedKnowledge)
    (telemetry : TransferabilityTelemetry) (projectCount : Nat) :
    computeHealth lineages shared conflicts invariants telemetry projectCount =
      computeHealth lineages' shared conflicts invariants telemetry projectCount := by
  have hdepths : (lineages.values.map KnowledgeLineage.depth).Perm
      (lineages'.values.map KnowledgeLineage.depth) :=
    ((entries_perm_of_get? h).map Prod.snd).map _
  have hempty : lineages.values.map KnowledgeLineage.depth = [] ↔
      lineages'.values.map KnowledgeLineage.depth = [] := by
    rw [← List.length_eq_zero_iff, ← List.length_eq_zero_iff, hdepths.length_eq]
  simp only [computeHealth, hempty, hdepths.sum_eq, hdepths.length_eq]

/-! ## Lineages -/

theorem Registration.offers_of_mem_transfers (r : Registration projects)
    {t : String × CrossProjectKnowledge} (ht : t ∈ transfers r.states) :
    Offers projects t.2.sourceProjectId t.2.knowledgeId ∧ t.2.sourceProjectId ≠ t.1 := by
  rw [r.reports.transfers_eq] at ht
  obtain ⟨_, e, he, hne, k, hk, htransferable, hrecord⟩ := (r.reports.sightings t).mp ht
  rw [hrecord]
  exact ⟨⟨e, he, rfl, k, hk, rfl, htransferable⟩, hne⟩

/-- An item that is seen has the only project that offers it as its source. -/
theorem Registration.kidSource_eq (r : Registration projects) (hfree : OrderFree u projects)
    (hq : Offers projects q kid) (hseen : ∃ p ∈ projects.keys, p ≠ q) :
    (kidSource r.states).get? kid = some q := by
  obtain ⟨p, hp, hne⟩ := hseen
  obtain ⟨e, he, heq, k, hk, hkid, htransferable⟩ := hq
  have hsight : (p, CrossProjectProjection.recordOf e.1 k) ∈ transfers r.states := by
    rw [r.reports.transfers_eq, r.reports.sightings]
    exact ⟨hp, e, he, heq ▸ hne.symm, k, hk, htransferable, rfl⟩
  have hcontains : (kidSource r.states).contains kid = true := by
    have hmem := List.mem_map_of_mem (f := fun t : String × CrossProjectKnowledge =>
      (t.2.knowledgeId, t.2.sourceProjectId)) hsight
    exact hkid ▸ OrdDict.contains_ofList hmem
  obtain ⟨source, hsource⟩ := Option.isSome_iff_exists.mp hcontains
  obtain ⟨before, x, after, hsplit, hkey, hval, _⟩ := OrdDict.get?_ofList_eq_some_iff.mp hsource
  have hx : x ∈ (transfers r.states).map fun t => (t.2.knowledgeId, t.2.sourceProjectId) :=
    hsplit ▸ List.mem_append_right _ List.mem_cons_self
  obtain ⟨t, ht, rfl⟩ := List.mem_map.mp hx
  have hoffers := (r.offers_of_mem_transfers ht).1
  have hid : t.2.knowledgeId = kid := hkey
  rw [hid] at hoffers
  rw [hsource, ← hval]
  exact congrArg some (hfree.offered kid _ _ hoffers ⟨e, he, heq, k, hk, hkid, htransferable⟩)

/-- The project, when it offers the item. -/
def offerOf (kid : String) (e : String × List KnowledgeObject) : Option String :=
  if e.2.any fun k => k.id = kid && CrossProjectProjection.passes [] k then some e.1 else none

theorem offerOf_eq_some_iff {e : String × List KnowledgeObject} : offerOf kid e = some q ↔
    e.1 = q ∧ ∃ k ∈ e.2, k.id = kid ∧ isTransferable k.transferability = true := by
  simp only [offerOf, Option.ite_none_right_eq_some, List.any_eq_true, Bool.and_eq_true,
    decide_eq_true_eq, CrossProjectProjection.passes, List.isEmpty_nil, Bool.true_or,
    Bool.and_true, Option.some.injEq]
  exact and_comm

theorem offers_iff : Offers projects q kid ↔ ∃ e ∈ projects.entries, offerOf kid e = some q := by
  simp only [Offers, offerOf_eq_some_iff]

theorem map_offerOf (kid : String) (e : String × List KnowledgeObject) :
    ((((e.2.filter (CrossProjectProjection.passes [])).map fun k => (k.id, e.1)).reverse.find?
      fun x => x.1 = kid).map Prod.snd) = offerOf kid e := by
  cases hfind : ((e.2.filter (CrossProjectProjection.passes [])).map fun k =>
      (k.id, e.1)).reverse.find? fun x => x.1 = kid with
  | none =>
      have hnone : ¬(e.2.any fun k => k.id = kid && CrossProjectProjection.passes [] k) := by
        intro hany
        obtain ⟨k, hk, hoffered⟩ := List.any_eq_true.mp hany
        obtain ⟨hid, hpasses⟩ := Bool.and_eq_true_iff.mp hoffered
        have hmem := List.mem_map_of_mem (f := fun k : KnowledgeObject => (k.id, e.1))
          (List.mem_filter.mpr ⟨hk, hpasses⟩)
        exact List.find?_eq_none.mp hfind _ (List.mem_reverse.mpr hmem) hid
      rw [offerOf, if_neg hnone]
      rfl
  | some x =>
      have hid : x.1 = kid := by simpa using List.find?_some hfind
      obtain ⟨k, hk, rfl⟩ := List.mem_map.mp (List.mem_reverse.mp (List.mem_of_find?_eq_some hfind))
      obtain ⟨hk, hpasses⟩ := List.mem_filter.mp hk
      have hany : (e.2.any fun k => k.id = kid && CrossProjectProjection.passes [] k) = true :=
        List.any_eq_true.mpr ⟨k, hk, by simpa [hpasses] using hid⟩
      rw [offerOf, if_pos hany]
      rfl

/-- A state takes the last other project that offers an item for its source. -/
theorem get?_provenanceMap (targets : Projects) (p kid : String) :
    (CrossProjectProjection.project p (targets.erase p) []).provenanceMap.get? kid =
      (targets.entries.filter fun e => e.1 ≠ p).reverse.findSome? (offerOf kid) := by
  have hblocks : (CrossProjectProjection.project p (targets.erase p) []).transferableKnowledge.map
      (fun r => (r.knowledgeId, r.sourceProjectId)) =
      (targets.entries.filter fun e => e.1 ≠ p).flatMap fun e =>
        (e.2.filter (CrossProjectProjection.passes [])).map fun k => (k.id, e.1) := by
    simp only [CrossProjectProjection.project, OrdDict.erase, List.map_flatMap, List.map_map]
    rfl
  change (OrdDict.ofList ((CrossProjectProjection.project p
    (targets.erase p) []).transferableKnowledge.map fun r =>
      (r.knowledgeId, r.sourceProjectId))).get? kid = _
  rw [get?_ofList, hblocks, List.reverse_flatMap, List.find?_flatMap, List.map_findSome?]
  congr 1
  funext e
  exact map_offerOf kid e

/-- A state knows the only project that offers an item as its source, unless it is its own. -/
theorem provenance_eq (hfree : OrderFree u projects) {targets : Projects}
    (htargets : targets.entries.Perm projects.entries) (hq : Offers projects q kid) :
    (CrossProjectProjection.project p (targets.erase p) []).provenanceMap.get? kid =
      if p = q then none else some q := by
  have hoffers : ∀ e ∈ projects.entries, ∀ source, offerOf kid e = some source → source = q :=
    fun e he source hsource => hfree.offered kid _ _ (offers_iff.mpr ⟨e, he, hsource⟩) hq
  have hmem : ∀ {e}, e ∈ (targets.entries.filter fun e => e.1 ≠ p).reverse ↔
      e ∈ projects.entries ∧ e.1 ≠ p := by
    simp [htargets.mem_iff]
  have hunanimous : Unanimous (offerOf kid)
      (targets.entries.filter fun e => e.1 ≠ p).reverse := by
    intro e he e' he' x x' hx hx'
    rw [hoffers e (hmem.mp he).1 x hx, hoffers e' (hmem.mp he').1 x' hx']
  rw [get?_provenanceMap]
  apply Option.ext
  intro source
  rw [hunanimous.findSome?_eq_some_iff]
  simp only [hmem, Option.ite_none_left_eq_some, Option.some.injEq]
  constructor
  · rintro ⟨e, ⟨he, hne⟩, hsource⟩
    have heq := hoffers e he source hsource
    exact ⟨fun hpq => hne ((offerOf_eq_some_iff.mp hsource).1.trans (heq.trans hpq.symm)), heq.symm⟩
  · rintro ⟨hne, rfl⟩
    obtain ⟨e, he, hsource⟩ := offers_iff.mp hq
    exact ⟨e, ⟨he, fun hp => hne (hp.symm.trans (offerOf_eq_some_iff.mp hsource).1)⟩, hsource⟩

/-- A path along states that all name one source gets it once. -/
theorem foldl_stepPath {states : List CrossProjectState}
    (h : ∀ s ∈ states, s.provenanceMap.get? kid = none ∨ s.provenanceMap.get? kid = some q)
    (path : List String) : states.foldl (stepPath kid) path =
      if (∃ s ∈ states, s.provenanceMap.get? kid = some q) ∧ path.getLast? ≠ some q then path ++ [q]
      else path := by
  induction states generalizing path with
  | nil => simp
  | cons s rest ih =>
      rw [List.foldl_cons, ih fun s hs => h s (List.mem_cons_of_mem _ hs), stepPath]
      rcases h s List.mem_cons_self with hnone | hsome
      · simp [hnone]
      · by_cases hlast : path.getLast? = some q
        · simp [hsome, hlast]
        · simp [hsome, hlast]

theorem Registration.originOf_eq (r : Registration projects) (hfree : OrderFree u projects)
    (hq : Offers projects q kid) (hseen : ∃ p ∈ projects.keys, p ≠ q) :
    originOf r.states r.knowledge kid =
      (projects.entries.findSome? fun e => namedProject kid e.2).getD q := by
  have hnamed := hfree.named kid q hq
  have hreverse : r.knowledge.entries.reverse.Perm projects.entries :=
    r.knowledge.entries.reverse_perm.trans r.knowledge_perm
  rw [originOf, foldl_getD, hnamed.findSome?_perm hreverse, r.kidSource_eq hfree hq hseen,
    Option.getD_some]

theorem Registration.transferPath_eq (r : Registration projects) (hfree : OrderFree u projects)
    (hq : Offers projects q kid) (hseen : ∃ p ∈ projects.keys, p ≠ q) (origin : String) :
    transferPath r.states origin kid = if origin = q then [origin] else [origin, q] := by
  have hstates : ∀ s ∈ r.states.values, s.provenanceMap.get? kid = none ∨
      s.provenanceMap.get? kid = some q := by
    intro s hs
    obtain ⟨e, he, rfl⟩ := List.mem_map.mp hs
    obtain ⟨entry, _, rfl⟩ := r.mem_states.mp he
    simp only [provenance_eq hfree r.targets_perm hq]
    split_ifs
    · exact Or.inl rfl
    · exact Or.inr rfl
  have hsome : ∃ s ∈ r.states.values, s.provenanceMap.get? kid = some q := by
    obtain ⟨p, hp, hne⟩ := hseen
    obtain ⟨entry, hentry, rfl⟩ := List.mem_map.mp hp
    refine ⟨_, List.mem_map_of_mem (r.mem_states.mpr ⟨entry, hentry, rfl⟩), ?_⟩
    rw [provenance_eq hfree r.targets_perm hq, if_neg hne]
  rw [transferPath, foldl_stepPath hstates]
  by_cases horigin : origin = q
  · simp [horigin]
  · rw [if_pos ⟨hsome, by simpa using horigin⟩, if_neg horigin]
    rfl

theorem get?_eq_none_iff_of_lists {d : OrdDict String (List String)}
    (hd : ∀ g, d.get? kid = some g → g ≠ []) :
    d.get? kid = none ↔ ∀ p, p ∉ (d.get? kid).getD [] := by
  cases hget : d.get? kid with
  | none => simp
  | some g =>
      obtain ⟨p, hp⟩ := List.exists_mem_of_ne_nil g (hd g hget)
      exact iff_of_false nofun fun h => h p hp

/-- Lineages are the same in every registration. -/
theorem Registration.lineages_eq (r r' : Registration projects) (hfree : OrderFree u projects)
    (kid : String) : (computeActiveLineages r.states r.knowledge).get? kid =
      (computeActiveLineages r'.states r'.knowledge).get? kid := by
  have hmem : ∀ p, p ∈ ((lineageProjects r.states).get? kid).getD [] ↔
      p ∈ ((lineageProjects r'.states).get? kid).getD [] := fun p => by
    rw [r.reports.mem_lineageProjects, r'.reports.mem_lineageProjects]
  have hnone : (lineageProjects r.states).get? kid = none ↔
      (lineageProjects r'.states).get? kid = none := by
    have hempty : ∀ states : States, (lineageProjects states).get? kid = none ↔
        ∀ p, p ∉ ((lineageProjects states).get? kid).getD [] := fun states =>
      get?_eq_none_iff_of_lists fun g => Grouping.lists_ne_nil
    rw [hempty, hempty]
    simp only [hmem]
  rw [get?_computeActiveLineages, get?_computeActiveLineages]
  cases hl : (lineageProjects r.states).get? kid with
  | none => rw [hnone.mp hl]; rfl
  | some l =>
      cases hl' : (lineageProjects r'.states).get? kid with
      | none =>
          rw [hnone.mpr hl'] at hl
          cases hl
      | some l' =>
          rw [hl, hl', Option.getD_some, Option.getD_some] at hmem
          obtain ⟨x, hx⟩ := List.exists_mem_of_ne_nil l (Grouping.lists_ne_nil hl)
          have hlisted : x ∈ ((lineageProjects r.states).get? kid).getD [] := by
            rwa [hl, Option.getD_some]
          obtain ⟨a, q, hkey, hq, hne, _⟩ := r.reports.mem_lineageProjects.mp hlisted
          have hseen : ∃ p ∈ projects.keys, p ≠ q := ⟨a, hkey, hne.symm⟩
          rw [Option.map_some, Option.map_some]
          simp only [lineageOf, r.originOf_eq hfree hq hseen, r'.originOf_eq hfree hq hseen,
            r.transferPath_eq hfree hq hseen, r'.transferPath_eq hfree hq hseen,
            sortedSet_congr hmem]

/-! ## Shared knowledge -/

/-- What is shown of an item. -/
def about (k : KnowledgeObject) : String × String × String := (k.id, k.title, k.knowledgeType.value)

/-- What a project shows last of an item that it offers. -/
def lastOffered (kid : String) (klist : List KnowledgeObject) : Option (String × String × String) :=
  ((klist.filter (CrossProjectProjection.passes [])).map about).reverse.find? fun x => x.1 = kid

theorem unanimous_lastOffered (hfree : OrderFree u projects) (kid : String) :
    Unanimous (fun e : String × List KnowledgeObject => lastOffered kid e.2) projects.entries := by
  have hoffers : ∀ e ∈ projects.entries, ∀ x, lastOffered kid e.2 = some x →
      Offers projects e.1 kid := by
    intro e he x hx
    have hid : x.1 = kid := by simpa using List.find?_some hx
    have hmem := List.mem_reverse.mp (List.mem_of_find?_eq_some hx)
    obtain ⟨k, hk, rfl⟩ := List.mem_map.mp hmem
    obtain ⟨hk, hpasses⟩ := List.mem_filter.mp hk
    exact ⟨e, he, rfl, k, hk, hid, by simpa [CrossProjectProjection.passes] using hpasses⟩
  intro e he e' he' x x' hx hx'
  have hkey : e.1 = e'.1 := hfree.offered kid _ _ (hoffers e he x hx) (hoffers e' he' x' hx')
  obtain rfl : e = e' := List.inj_on_of_nodup_map projects.nodup he he' hkey
  exact Option.some.inj (hx.symm.trans hx')

/-- What a project is shown last of an item by the others. -/
def shownTo (projects : Projects) (kid p : String) : Option (String × String × String) :=
  (projects.entries.filter fun e => e.1 ≠ p).findSome? fun e => lastOffered kid e.2

theorem shownTo_eq (hfree : OrderFree u projects) {targets : Projects}
    (htargets : targets.entries.Perm projects.entries) (kid p : String) :
    ((CrossProjectProjection.project p (targets.erase p) []).transferableKnowledge.map
      fun r => (r.knowledgeId, r.title, r.knowledgeType)).reverse.find? (fun x => x.1 = kid) =
      shownTo projects kid p := by
  have hblocks : (CrossProjectProjection.project p (targets.erase p) []).transferableKnowledge.map
      (fun r => (r.knowledgeId, r.title, r.knowledgeType)) =
      (targets.entries.filter fun e => e.1 ≠ p).flatMap fun e =>
        (e.2.filter (CrossProjectProjection.passes [])).map about := by
    simp only [CrossProjectProjection.project, OrdDict.erase, List.map_flatMap, List.map_map]
    rfl
  have hperm : (targets.entries.filter fun e => e.1 ≠ p).reverse.Perm
      (projects.entries.filter fun e => e.1 ≠ p) :=
    (List.reverse_perm _).trans (htargets.filter _)
  have hunanimous : Unanimous (fun e : String × List KnowledgeObject => lastOffered kid e.2)
      (projects.entries.filter fun e => e.1 ≠ p) := fun e he e' he' =>
    unanimous_lastOffered hfree kid e (List.mem_of_mem_filter he) e' (List.mem_of_mem_filter he')
  rw [hblocks, List.reverse_flatMap, List.find?_flatMap, shownTo,
    ← hunanimous.findSome?_perm hperm]
  rfl

/-- What is recorded about an item is what some project is shown of it. -/
theorem Registration.kidMeta_eq_some_iff (r : Registration projects) (hfree : OrderFree u projects)
    (kid : String) (x : String × String × String) :
    (((sightings r.states).map fun s =>
        (s.2.knowledgeId, s.2.title, s.2.knowledgeType)).reverse.find? fun x => x.1 = kid) =
      some x ↔ ∃ p ∈ projects.keys, shownTo projects kid p = some x := by
  let seen (e : String × CrossProjectState) : Option (String × String × String) :=
    (e.2.transferableKnowledge.map fun r => (r.knowledgeId, r.title, r.knowledgeType)).reverse.find?
      fun x => x.1 = kid
  have hseen : ∀ e ∈ r.states.entries, seen e = shownTo projects kid e.1 := by
    intro e he
    obtain ⟨entry, _, rfl⟩ := r.mem_states.mp he
    exact shownTo_eq hfree r.targets_perm kid entry.1
  have hunanimous : Unanimous seen r.states.entries.reverse := by
    intro e he e' he' x x' hx hx'
    rw [hseen e (List.mem_reverse.mp he)] at hx
    rw [hseen e' (List.mem_reverse.mp he')] at hx'
    obtain ⟨t, ht, hshown⟩ := List.exists_of_findSome?_eq_some hx
    obtain ⟨t', ht', hshown'⟩ := List.exists_of_findSome?_eq_some hx'
    exact unanimous_lastOffered hfree kid t (List.mem_of_mem_filter ht) t'
      (List.mem_of_mem_filter ht') x x' hshown hshown'
  have hblocks : ((sightings r.states).map fun s => (s.2.knowledgeId, s.2.title,
      s.2.knowledgeType)) = r.states.entries.flatMap fun e =>
        e.2.transferableKnowledge.map fun r => (r.knowledgeId, r.title, r.knowledgeType) := by
    simp only [sightings, List.map_flatMap, List.map_map]
    rfl
  rw [hblocks, List.reverse_flatMap, List.find?_flatMap]
  change r.states.entries.reverse.findSome? seen = some x ↔ _
  rw [hunanimous.findSome?_eq_some_iff]
  constructor
  · rintro ⟨e, he, hx⟩
    have hmem := List.mem_reverse.mp he
    rw [hseen e hmem] at hx
    exact ⟨e.1, r.keys_perm.mem_iff.mp (List.mem_map_of_mem hmem), hx⟩
  · rintro ⟨p, hp, hx⟩
    obtain ⟨e, he, rfl⟩ := List.mem_map.mp (r.keys_perm.mem_iff.mpr hp)
    exact ⟨e, List.mem_reverse.mpr he, (hseen e he).trans hx⟩

theorem Registration.kidMeta_eq (r r' : Registration projects) (hfree : OrderFree u projects)
    (kid : String) : (kidMeta r.states).get? kid = (kidMeta r'.states).get? kid := by
  rw [kidMeta, kidMeta, get?_ofList, get?_ofList]
  congr 1
  apply Option.ext
  intro x
  exact (r.kidMeta_eq_some_iff hfree kid x).trans (r'.kidMeta_eq_some_iff hfree kid x).symm

/-! ## Entries of a dictionary of projects -/

section Spread

variable {κ ι : Type} [DictKey κ ι] [DecidableEq ι]

/-- The keys that more than one project is listed for. -/
def spreadKeys (groups : OrdDict κ (List String)) : List κ :=
  groups.keys.filter fun k => 1 < ((groups.get? k).getD []).dedup.length

def sharedOf (knowledgeId : String) (about : String × String) (projects : List String) :
    SharedKnowledge where
  knowledgeId := knowledgeId
  title := about.1
  knowledgeType := about.2
  presentInProjects := sortedSet projects
  transferCount := projects.dedup.length - 1

theorem filterMap_sharedEntry (name : κ → String) (about : κ → String × String)
    (groups : OrdDict κ (List String)) :
    groups.entries.filterMap (fun e => sharedEntry (name e.1) (about e.1) e.2) =
      (spreadKeys groups).map fun k =>
        sharedOf (name k) (about k) ((groups.get? k).getD []) := by
  have hentries : ∀ l ⊆ groups.entries,
      l.filterMap (fun e => sharedEntry (name e.1) (about e.1) e.2) =
        ((l.map Prod.fst).filter fun k => 1 < ((groups.get? k).getD []).dedup.length).map
          fun k => sharedOf (name k) (about k) ((groups.get? k).getD []) := by
    intro l
    induction l with
    | nil => exact fun _ => rfl
    | cons e rest ih =>
        intro hsub
        have hget : (groups.get? e.1).getD [] = e.2 := by
          rw [OrdDict.get?_of_mem (hsub List.mem_cons_self), Option.getD_some]
        have hrest := ih fun x hx => hsub (List.mem_cons_of_mem _ hx)
        rw [List.filterMap_cons, List.map_cons]
        by_cases hmany : 1 < e.2.dedup.length
        · rw [List.filter_cons_of_pos (by simpa [hget] using hmany), List.map_cons, hget,
            sharedEntry, if_pos hmany, hrest]
          rfl
        · rw [List.filter_cons_of_neg (by simpa [hget] using hmany), sharedEntry, if_neg hmany,
            hrest]
  exact hentries _ (List.Subset.refl _)

theorem mem_spreadKeys (hnorm : ∀ k k' : κ, DictKey.norm k = DictKey.norm k' → k = k')
    {groups : OrdDict κ (List String)} {k : κ} :
    k ∈ spreadKeys groups ↔ 1 < ((groups.get? k).getD []).dedup.length := by
  rw [spreadKeys, List.mem_filter, decide_eq_true_eq, and_iff_right_iff_imp]
  intro hmany
  cases hget : groups.get? k with
  | none =>
      rw [hget] at hmany
      simp at hmany
  | some l =>
      obtain ⟨e, he, hkey, _⟩ := OrdDict.lookupIn_mem hget
      exact hnorm _ _ hkey ▸ List.mem_map_of_mem he

theorem nodup_spreadKeys (groups : OrdDict κ (List String)) : (spreadKeys groups).Nodup := by
  apply List.Nodup.filter
  apply List.Nodup.of_map DictKey.norm
  rw [OrdDict.keys, List.map_map]
  exact groups.nodup

/-- The keys depend on what is listed for them, their order on the order of the groups. -/
theorem spreadKeys_perm (hnorm : ∀ k k' : κ, DictKey.norm k = DictKey.norm k' → k = k')
    {groups groups' : OrdDict κ (List String)}
    (h : ∀ k x, x ∈ (groups.get? k).getD [] ↔ x ∈ (groups'.get? k).getD []) :
    (spreadKeys groups).Perm (spreadKeys groups') := by
  apply (List.perm_ext_iff_of_nodup (nodup_spreadKeys _) (nodup_spreadKeys _)).mpr
  intro k
  rw [mem_spreadKeys hnorm, mem_spreadKeys hnorm, length_dedup_congr (h k)]

end Spread

/-- Entries with the same projects and the same description are the same. -/
theorem sharedOf_congr {knowledgeId : String} {about about' : String × String}
    {l l' : List String} (habout : about = about') (h : ∀ x, x ∈ l ↔ x ∈ l') :
    sharedOf knowledgeId about l = sharedOf knowledgeId about' l' := by
  rw [sharedOf, sharedOf, habout, sortedSet_congr h, length_dedup_congr h]

theorem detectSharedKnowledge_eq (states : States) : detectSharedKnowledge states =
    (Table.orderBy id (spreadKeys (seenBy states))).map fun kid =>
      sharedOf kid (((kidMeta states).get? kid).getD ("", ""))
        (((seenBy states).get? kid).getD []) := by
  rw [detectSharedKnowledge, filterMap_sharedEntry (fun kid => kid)
    (fun kid => ((kidMeta states).get? kid).getD ("", ""))]
  exact (Table.map_orderBy id SharedKnowledge.knowledgeId _ (fun _ => rfl) _).symm

theorem Registration.shared_eq (r r' : Registration projects) (hfree : OrderFree u projects) :
    detectSharedKnowledge r.states = detectSharedKnowledge r'.states := by
  have hseen : ∀ kid p, p ∈ ((seenBy r.states).get? kid).getD [] ↔
      p ∈ ((seenBy r'.states).get? kid).getD [] := fun kid p => by
    rw [r.reports.mem_seenBy, r'.reports.mem_seenBy]
  have hkeys : Table.orderBy id (spreadKeys (seenBy r.states)) =
      Table.orderBy id (spreadKeys (seenBy r'.states)) :=
    Table.orderBy_id_eq_of_perm (spreadKeys_perm (fun _ _ h => h) hseen)
  rw [detectSharedKnowledge_eq, detectSharedKnowledge_eq, hkeys]
  apply List.map_congr_left
  intro kid _
  exact sharedOf_congr (by rw [r.kidMeta_eq r' hfree kid]) (hseen kid)

/-! ## Spanning invariants -/

theorem mem_keyProjects {key : String × String} :
    p ∈ ((keyProjects u projects).get? key).getD [] ↔ HasInvariant u projects p key := by
  rw [keyProjects, Grouping.getD_lists, HasInvariant]
  simp only [invariants, List.mem_map, List.mem_filter, List.mem_flatMap, decide_eq_true_eq]
  constructor
  · rintro ⟨_, ⟨⟨e, he, k, ⟨hk, hinvariant⟩, rfl⟩, hkey⟩, rfl⟩
    exact ⟨e, he, rfl, k, hk, hinvariant, hkey⟩
  · rintro ⟨e, he, rfl, k, hk, hinvariant, hkey⟩
    exact ⟨(e.1, k), ⟨⟨e, he, k, ⟨hk, hinvariant⟩, rfl⟩, hkey⟩, rfl⟩

theorem mem_spreadKeys_keyProjects {key : String × String} :
    key ∈ spreadKeys (keyProjects u projects) ↔ Spans u projects key := by
  rw [mem_spreadKeys fun _ _ h => h, one_lt_length_dedup, Spans]
  simp only [mem_keyProjects]
  constructor
  · rintro ⟨p, hp, q, hq, hne⟩
    exact ⟨p, q, hne, hp, hq⟩
  · rintro ⟨p, q, hne, hp, hq⟩
    exact ⟨p, hp, q, hq, hne⟩

theorem map_lastTitle (key : String × String) (klist : List KnowledgeObject) :
    (((klist.filter isInvariant).map fun k =>
        (invariantKey u k, k.title, k.knowledgeType.value)).reverse.find? fun x => x.1 = key).map
      Prod.snd = (lastTitle u key klist).map fun title => (title, key.2) := by
  have hfind : (klist.filter isInvariant).reverse.find? (fun k => invariantKey u k = key) =
      klist.reverse.find? fun k => isInvariant k && invariantKey u k = key := by
    rw [← List.filter_reverse, List.find?_filter]
    congr 1
    funext k
    simp only [Bool.decide_and, Bool.decide_eq_true, decide_eq_true_eq]
  rw [← List.map_reverse, List.find?_map, lastTitle, Option.map_map, Option.map_map]
  simp only [Function.comp_def]
  rw [hfind]
  cases hlast : klist.reverse.find? fun k => isInvariant k && invariantKey u k = key with
  | none => rfl
  | some k =>
      have hk := List.find?_some hlast
      have hkey : invariantKey u k = key := by simpa using (Bool.and_eq_true_iff.mp hk).2
      rw [Option.map_some, Option.map_some, ← hkey]
      rfl

/-- The description of an invariant is its last title. -/
theorem get?_keyMeta (K : Projects) (key : String × String) : (keyMeta u K).get? key =
    (K.entries.reverse.findSome? fun e => lastTitle u key e.2).map fun title => (title, key.2) := by
  have hblocks : ((invariants K).map fun i =>
      (invariantKey u i.2, i.2.title, i.2.knowledgeType.value)) = K.entries.flatMap fun e =>
        (e.2.filter isInvariant).map fun k =>
          (invariantKey u k, k.title, k.knowledgeType.value) := by
    simp only [invariants, List.map_flatMap, List.map_map]
    rfl
  rw [keyMeta, get?_ofList, hblocks, List.reverse_flatMap, List.find?_flatMap, List.map_findSome?,
    List.map_findSome?]
  congr 1
  funext e
  exact map_lastTitle key e.2

/-- Which of two keys comes first. -/
theorem find?_invariants (K : Projects) (key key' : String × String) :
    ((invariants K).map fun i => invariantKey u i.2).find? (fun x => x = key ∨ x = key') =
      K.entries.findSome? fun e => firstKey u key key' e.2 := by
  have hblocks : ((invariants K).map fun i => invariantKey u i.2) = K.entries.flatMap fun e =>
      (e.2.filter isInvariant).map (invariantKey u) := by
    simp only [invariants, List.map_flatMap, List.map_map]
    rfl
  rw [hblocks, List.find?_flatMap]
  rfl

theorem findSpanningInvariants_eq (K : Projects) : findSpanningInvariants u K =
    (Table.orderBy Prod.fst (spreadKeys (keyProjects u K))).map fun key =>
      sharedOf key.1 (((keyMeta u K).get? key).getD ("", ""))
        (((keyProjects u K).get? key).getD []) := by
  rw [findSpanningInvariants, filterMap_sharedEntry Prod.fst
    (fun key => ((keyMeta u K).get? key).getD ("", ""))]
  exact (Table.map_orderBy Prod.fst SharedKnowledge.knowledgeId _ (fun _ => rfl) _).symm

theorem firstKey_comm (key key' : String × String) :
    firstKey u key key' = firstKey u key' key := by
  funext klist
  simp only [firstKey, or_comm]

/-- Of two spanning keys the one that is met first stands first. -/
theorem pair_sublist_spreadKeys_iff {K : Projects} {key key' : String × String}
    (hkey : Spans u K key) (hkey' : Spans u K key') (hne : key ≠ key') :
    [key, key'].Sublist (spreadKeys (keyProjects u K)) ↔
      K.entries.findSome? (fun e => firstKey u key key' e.2) = some key := by
  have hfirst : ∀ {x y : String × String}, [x, y].Sublist (spreadKeys (keyProjects u K)) →
      K.entries.findSome? (fun e => firstKey u x y e.2) = some x := by
    intro x y hsub
    have hkeys : [x, y].Sublist (keyProjects u K).normKeys := hsub.trans List.filter_sublist
    rw [← find?_invariants]
    exact Grouping.find?_of_pair_sublist hkeys
  refine ⟨hfirst, fun hmet => ?_⟩
  rcases Table.pair_sublist_or (mem_spreadKeys_keyProjects.mpr hkey)
    (mem_spreadKeys_keyProjects.mpr hkey') hne with hsub | hsub
  · exact hsub
  · rw [firstKey_comm key key', hfirst hsub] at hmet
    exact absurd (Option.some.inj hmet).symm hne

section Spanning

variable {K : Projects} (hperm : K.entries.Perm projects.entries)

include hperm

theorem hasInvariant_congr (p : String) (key : String × String) :
    HasInvariant u K p key ↔ HasInvariant u projects p key := by
  simp only [HasInvariant, hperm.mem_iff]

theorem spans_congr (key : String × String) : Spans u K key ↔ Spans u projects key := by
  simp only [Spans, hasInvariant_congr hperm]

theorem mem_keyProjects_congr (key : String × String) (p : String) :
    p ∈ ((keyProjects u K).get? key).getD [] ↔
      p ∈ ((keyProjects u projects).get? key).getD [] := by
  rw [mem_keyProjects, mem_keyProjects, hasInvariant_congr hperm]

/-- The spanning keys stand in one order when those with one title do. -/
theorem orderBy_spreadKeys_eq_iff :
    Table.orderBy Prod.fst (spreadKeys (keyProjects u K)) =
        Table.orderBy Prod.fst (spreadKeys (keyProjects u projects)) ↔
      ∀ key key', Spans u projects key → Spans u projects key' → key ≠ key' → key.1 = key'.1 →
        K.entries.findSome? (fun e => firstKey u key key' e.2) = some key →
          projects.entries.findSome? (fun e => firstKey u key key' e.2) = some key := by
  rw [Table.orderBy_eq_iff (spreadKeys_perm (fun _ _ h => h) (mem_keyProjects_congr hperm))
    (nodup_spreadKeys _)]
  constructor
  · intro h key key' hkey hkey' hne htitle hmet
    apply (pair_sublist_spreadKeys_iff hkey hkey' hne).mp
    apply h key key' htitle
    exact (pair_sublist_spreadKeys_iff ((spans_congr hperm key).mpr hkey)
      ((spans_congr hperm key').mpr hkey') hne).mpr hmet
  · intro h key key' htitle hsub
    have hkey : Spans u K key := mem_spreadKeys_keyProjects.mp (hsub.subset List.mem_cons_self)
    have hkey' : Spans u K key' := mem_spreadKeys_keyProjects.mp
      (hsub.subset (List.mem_cons_of_mem _ List.mem_cons_self))
    have hne : key ≠ key' := by
      rintro rfl
      exact absurd ((nodup_spreadKeys _).sublist hsub) (by simp)
    have hmet := (pair_sublist_spreadKeys_iff hkey hkey' hne).mp hsub
    rw [spans_congr hperm] at hkey hkey'
    exact (pair_sublist_spreadKeys_iff hkey hkey' hne).mpr
      (h key key' hkey hkey' hne htitle hmet)

theorem findSpanningInvariants_perm (hfree : OrderFree u projects) :
    findSpanningInvariants u K = findSpanningInvariants u projects := by
  have horder : Table.orderBy Prod.fst (spreadKeys (keyProjects u K)) =
      Table.orderBy Prod.fst (spreadKeys (keyProjects u projects)) := by
    rw [orderBy_spreadKeys_eq_iff hperm]
    intro key key' hkey hkey' _ htitle hmet
    rwa [(hfree.first key key' hkey hkey' htitle).findSome?_perm hperm] at hmet
  rw [findSpanningInvariants_eq, findSpanningInvariants_eq, horder]
  apply List.map_congr_left
  intro key hkey
  have hspans : Spans u projects key :=
    mem_spreadKeys_keyProjects.mp (Table.mem_orderBy.mp hkey)
  have hreverse : K.entries.reverse.Perm projects.entries.reverse :=
    K.entries.reverse_perm.trans (hperm.trans projects.entries.reverse_perm.symm)
  have htitles : Unanimous (fun e : String × List KnowledgeObject => lastTitle u key e.2)
      projects.entries.reverse :=
    (hfree.titles key hspans).perm projects.entries.reverse_perm
  apply sharedOf_congr
  · rw [get?_keyMeta, get?_keyMeta, htitles.findSome?_perm hreverse]
  · exact mem_keyProjects_congr hperm key

end Spanning

/-! ## Registrations that agree -/

/-- Where no project says something else than another, every registration gives the same state. -/
theorem sameState_of_orderFree (hfree : OrderFree u projects) (includeTelemetry : Bool)
    (r r' : Registration projects) :
    SameState (r.project u now includeTelemetry) (r'.project u now includeTelemetry) := by
  have hperm : r.knowledge.entries.Perm r'.knowledge.entries :=
    r.knowledge_perm.trans r'.knowledge_perm.symm
  have hkeys : r.states.keys.Perm r'.states.keys := r.keys_perm.trans r'.keys_perm.symm
  have hlineages := r.lineages_eq r' hfree
  have hshared := r.shared_eq r' hfree
  have hconflicts := detectCrossProjectConflicts_perm (u := u) hperm
  have hinvariants : findSpanningInvariants u r.knowledge = findSpanningInvariants u r'.knowledge :=
    (findSpanningInvariants_perm r.knowledge_perm hfree).trans
      (findSpanningInvariants_perm r'.knowledge_perm hfree).symm
  have htelemetry := computeTelemetry_perm hperm
  constructor
  case compiledAt => rfl
  case projectIds => exact Table.orderBy_id_eq_of_perm hkeys
  case lineages => exact hlineages
  case shared => exact hshared
  case conflicts => exact hconflicts
  case invariants => exact hinvariants
  case clusters => exact clusterProjects_perm hperm
  case telemetry => simp only [Registration.project, project, htelemetry]
  case health =>
    simp only [Registration.project, project, hshared, hconflicts, hinvariants, htelemetry,
      hkeys.length_eq]
    exact computeHealth_congr hlineages _ _ _ _ _

end OrganizationProjection

end RationaleVault
