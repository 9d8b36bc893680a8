import RationaleVault.Organization.Registration

/-!
# Registrations that disagree

Two projects that say different things are registered in both orders. The later one is
heard, and the states differ.
-/

namespace RationaleVault

namespace OrganizationProjection

open Heard

variable {u : UnicodeTables} {now : String} {projects : Projects} {kid p q : String}

/-- The state of the organization does not depend on the order of the projects. -/
def OrderIndependent (u : UnicodeTables) (now : String) (projects : Projects) : Prop :=
  ∀ projects' : Projects, projects'.entries.Perm projects.entries →
    SameState (getOrganizationState u now projects') (getOrganizationState u now projects)

/-- The projects in another order. -/
def reordered {l : List (String × List KnowledgeObject)} (h : l.Perm projects.entries) : Projects :=
  ⟨l, (h.map fun e => DictKey.norm e.1).nodup_iff.mpr projects.nodup⟩

/-- One thing that is heard last in every order is said by all. -/
theorem unanimous_of_orders {β : Type} {g : String × List KnowledgeObject → Option β} {y : β}
    (h : ∀ projects' : Projects, projects'.entries.Perm projects.entries →
      ∀ x, projects'.entries.reverse.findSome? g = some x → x = y) :
    Unanimous g projects.entries := by
  apply unanimous_of_heard
  intro l hl x hx
  apply h (reordered (l.reverse_perm.trans hl)) (l.reverse_perm.trans hl)
  change l.reverse.reverse.findSome? g = some x
  rwa [List.reverse_reverse]

/-! ## Lineages -/

/-- An offered item has a lineage as soon as there is another project. -/
theorem exists_lineage (u : UnicodeTables) (now : String)
    (hseen : ∃ p ∈ projects.keys, p ≠ q) (hq : Offers projects q kid) :
    ∃ l, (getOrganizationState u now projects).activeLineages.get? kid =
      some (lineageOf (CrossProjectProjection.states projects) projects kid l) := by
  obtain ⟨p, hp, hne⟩ := hseen
  have hlisted : ∃ p, p ∈ ((lineageProjects (CrossProjectProjection.states projects)).get?
      kid).getD [] :=
    ⟨p, (reports_states projects).mem_lineageProjects.mpr ⟨p, q, hp, hq, hne.symm, Or.inl rfl⟩⟩
  obtain ⟨lineage, hlineage⟩ : ∃ lineage, (computeActiveLineages
      (CrossProjectProjection.states projects) projects).get? kid = some lineage :=
    exists_lineage_iff.mpr hlisted
  rw [get?_computeActiveLineages] at hlineage
  obtain ⟨l, hl, _⟩ := Option.map_eq_some_iff.mp hlineage
  refine ⟨l, ?_⟩
  change (computeActiveLineages _ _).get? kid = _
  rw [get?_computeActiveLineages, hl, Option.map_some]

/-- The lineage of an offered item is the same in every order. -/
theorem lineageOf_eq (h : OrderIndependent u now projects) (hseen : ∃ p ∈ projects.keys, p ≠ q)
    (hq : Offers projects q kid) {projects' : Projects}
    (hperm : projects'.entries.Perm projects.entries) :
    ∃ l l', lineageOf (CrossProjectProjection.states projects') projects' kid l' =
      lineageOf (CrossProjectProjection.states projects) projects kid l := by
  have hkeys : projects'.keys.Perm projects.keys := hperm.map Prod.fst
  have hseen' : ∃ p ∈ projects'.keys, p ≠ q := by simpa only [hkeys.mem_iff] using hseen
  have hq' : Offers projects' q kid := by simpa only [Offers, hperm.mem_iff] using hq
  obtain ⟨l, hl⟩ := exists_lineage u now hseen hq
  obtain ⟨l', hl'⟩ := exists_lineage u now hseen' hq'
  have hsame := (h projects' hperm).lineages kid
  rw [hl, hl'] at hsame
  exact ⟨l, l', Option.some.inj hsame⟩

theorem getLast?_stepPath {path : List String} {state : CrossProjectState}
    (h : state.provenanceMap.get? kid = some q) : (stepPath kid path state).getLast? = some q := by
  simp only [stepPath, h]
  split_ifs with hlast
  · exact hlast
  · exact List.getLast?_concat

/-- The path of an item ends with the last project but one that offers it, when the last one does
too. -/
theorem getLast?_transferPath {K : Projects} {rest : List (String × List KnowledgeObject)}
    {e e' : String × List KnowledgeObject} (hK : K.entries = rest ++ [e, e']) (hne : e.1 ≠ e'.1)
    (he : offerOf kid e = some p) (origin : String) :
    (transferPath (CrossProjectProjection.states K) origin kid).getLast? = some p := by
  have hlast : (CrossProjectProjection.project e'.1 (K.erase e'.1) []).provenanceMap.get? kid =
      some p := by
    rw [get?_provenanceMap, hK, List.filter_append, List.filter_cons_of_pos (by simpa using hne),
      List.filter_cons_of_neg (by simp), List.filter_nil, List.reverse_append,
      List.reverse_singleton, List.singleton_append, List.findSome?_cons, he]
  have hvalues : (CrossProjectProjection.states K).values =
      (rest ++ [e]).map (fun x => CrossProjectProjection.project x.1 (K.erase x.1) []) ++
        [CrossProjectProjection.project e'.1 (K.erase e'.1) []] := by
    rw [OrdDict.values, CrossProjectProjection.entries_states, hK, List.map_map,
      ← List.singleton_append, ← List.append_assoc, List.map_append]
    rfl
  rw [transferPath, hvalues, List.foldl_append, List.foldl_cons, List.foldl_nil]
  exact getLast?_stepPath hlast

/-- Two projects that offer one item can be registered last, in both orders. -/
theorem eq_of_orderIndependent (h : OrderIndependent u now projects) (hp : Offers projects p kid)
    (hq : Offers projects q kid) : p = q := by
  obtain ⟨e, he, hpe⟩ := offers_iff.mp hp
  obtain ⟨e', he', hqe⟩ := offers_iff.mp hq
  obtain rfl := (offerOf_eq_some_iff.mp hpe).1
  obtain rfl := (offerOf_eq_some_iff.mp hqe).1
  by_contra hne
  obtain ⟨rest, hrest⟩ : ∃ rest, projects.entries.Perm (rest ++ [e, e']) := by
    have hmem : e' ∈ projects.entries.erase e :=
      (List.mem_erase_of_ne fun heq => hne (congrArg Prod.fst heq).symm).mpr he'
    refine ⟨(projects.entries.erase e).erase e', ?_⟩
    apply (List.perm_cons_erase he).trans
    apply ((List.perm_cons_erase hmem).cons e).trans
    exact @List.perm_append_comm _ [e, e'] _
  have hswap : (rest ++ [e', e]).Perm projects.entries :=
    ((List.Perm.swap e e' []).append_left rest).trans hrest.symm
  have hseen : ∃ p ∈ projects.keys, p ≠ e.1 := ⟨e'.1, hq.holds.mem_keys, Ne.symm hne⟩
  have hlast : (transferPath (CrossProjectProjection.states projects)
      (originOf (CrossProjectProjection.states projects) projects kid) kid).getLast? =
        some e.1 := by
    obtain ⟨l, l', hsame⟩ := lineageOf_eq h hseen hp
      (show (reordered hrest.symm).entries.Perm _ from hrest.symm)
    rw [← getLast?_transferPath (K := reordered hrest.symm) rfl hne hpe _]
    exact (congrArg (fun s => s.transferPath.getLast?) hsame).symm
  have hlast' : (transferPath (CrossProjectProjection.states projects)
      (originOf (CrossProjectProjection.states projects) projects kid) kid).getLast? =
        some e'.1 := by
    obtain ⟨l, l', hsame⟩ := lineageOf_eq h hseen hp
      (show (reordered hswap).entries.Perm _ from hswap)
    rw [← getLast?_transferPath (K := reordered hswap) rfl (Ne.symm hne) hqe _]
    exact (congrArg (fun s => s.transferPath.getLast?) hsame).symm
  exact hne (Option.some.inj (hlast.symm.trans hlast'))

/-- What the last project says about the origin of an item is its origin. -/
theorem unanimous_namedProject (h : OrderIndependent u now projects)
    (hseen : ∃ p ∈ projects.keys, p ≠ q) (hq : Offers projects q kid) :
    Unanimous (fun e : String × List KnowledgeObject => namedProject kid e.2) projects.entries := by
  apply unanimous_of_orders
  intro projects' hperm x hx
  obtain ⟨l, l', hsame⟩ := lineageOf_eq h hseen hq hperm
  have horigin : originOf (CrossProjectProjection.states projects') projects' kid = x := by
    rw [originOf, foldl_getD, hx, Option.getD_some]
  rw [← horigin]
  exact congrArg KnowledgeLineage.originProject hsame

/-! ## Spanning invariants -/

theorem exists_lastTitle {K : Projects} {key : String × String} (hkey : Spans u K key) :
    ∃ title, K.entries.reverse.findSome? (fun e => lastTitle u key e.2) = some title := by
  obtain ⟨_, _, _, ⟨e, he, _, k, hk, hinvariant, hkey⟩, _⟩ := hkey
  apply Option.isSome_iff_exists.mp
  rw [List.findSome?_isSome_iff]
  refine ⟨e, List.mem_reverse.mpr he, ?_⟩
  rw [lastTitle, Option.isSome_map, List.find?_isSome]
  exact ⟨k, List.mem_reverse.mpr hk, by simp [hinvariant, hkey]⟩

/-- The key of an entry can be read from it. -/
theorem map_findSpanningInvariants (K : Projects) :
    (findSpanningInvariants u K).map (fun s => (s.knowledgeId, s.knowledgeType)) =
      Table.orderBy Prod.fst (spreadKeys (keyProjects u K)) := by
  rw [findSpanningInvariants_eq, List.map_map]
  conv_rhs => rw [← List.map_id (Table.orderBy Prod.fst (spreadKeys (keyProjects u K)))]
  apply List.map_congr_left
  intro key hkey
  obtain ⟨title, htitle⟩ :=
    exists_lastTitle (mem_spreadKeys_keyProjects.mp (Table.mem_orderBy.mp hkey))
  have hmeta : (keyMeta u K).get? key = some (title, key.2) := by
    rw [get?_keyMeta, htitle, Option.map_some]
  simp only [Function.comp_apply, sharedOf, hmeta, Option.getD_some, id_eq]

section Invariants

variable {projects' : Projects}
  (hsame : findSpanningInvariants u projects' = findSpanningInvariants u projects)

include hsame

theorem spreadKeys_eq : Table.orderBy Prod.fst (spreadKeys (keyProjects u projects')) =
    Table.orderBy Prod.fst (spreadKeys (keyProjects u projects)) := by
  rw [← map_findSpanningInvariants, hsame, map_findSpanningInvariants]

theorem findSome?_lastTitle_eq {key : String × String} (hkey : Spans u projects key)
    (hkey' : Spans u projects' key) :
    projects'.entries.reverse.findSome? (fun e => lastTitle u key e.2) =
      projects.entries.reverse.findSome? (fun e => lastTitle u key e.2) := by
  obtain ⟨title, htitle⟩ := exists_lastTitle hkey
  obtain ⟨title', htitle'⟩ := exists_lastTitle hkey'
  have hmem : key ∈ Table.orderBy Prod.fst (spreadKeys (keyProjects u projects)) :=
    Table.mem_orderBy.mpr (mem_spreadKeys_keyProjects.mpr hkey)
  have hentries := hsame
  rw [findSpanningInvariants_eq, findSpanningInvariants_eq, spreadKeys_eq hsame] at hentries
  have hentry := congrArg SharedKnowledge.title (List.map_inj_left.mp hentries key hmem)
  simp only [sharedOf, get?_keyMeta, htitle, htitle', Option.map_some, Option.getD_some] at hentry
  rw [htitle, htitle', hentry]

end Invariants

theorem unanimous_lastTitle (h : OrderIndependent u now projects) {key : String × String}
    (hkey : Spans u projects key) :
    Unanimous (fun e : String × List KnowledgeObject => lastTitle u key e.2) projects.entries := by
  obtain ⟨title, htitle⟩ := exists_lastTitle hkey
  apply unanimous_of_orders
  intro projects' hperm x hx
  have hlast := findSome?_lastTitle_eq (h projects' hperm).invariants hkey
    ((spans_congr hperm key).mpr hkey)
  rw [hx, htitle] at hlast
  exact Option.some.inj hlast

theorem exists_firstKey {key : String × String} (hkey : Spans u projects key)
    (key' : String × String) :
    ∃ x, projects.entries.findSome? (fun e => firstKey u key key' e.2) = some x := by
  obtain ⟨_, _, _, ⟨e, he, _, k, hk, hinvariant, hkey⟩, _⟩ := hkey
  apply Option.isSome_iff_exists.mp
  rw [List.findSome?_isSome_iff]
  refine ⟨e, he, ?_⟩
  rw [firstKey, List.find?_isSome]
  exact ⟨key, hkey ▸ List.mem_map_of_mem (List.mem_filter.mpr ⟨hk, hinvariant⟩), by simp⟩

theorem eq_or_eq_of_firstKey {K : Projects} {key key' x : String × String}
    (h : K.entries.findSome? (fun e => firstKey u key key' e.2) = some x) :
    x = key ∨ x = key' := by
  obtain ⟨e, _, hx⟩ := List.exists_of_findSome?_eq_some h
  simpa using List.find?_some hx

/-- Of two spanning invariants with one title the same comes first in every order. -/
theorem unanimous_firstKey (h : OrderIndependent u now projects) {key key' : String × String}
    (hkey : Spans u projects key) (hkey' : Spans u projects key') (htitle : key.1 = key'.1) :
    Unanimous (fun e : String × List KnowledgeObject => firstKey u key key' e.2)
      projects.entries := by
  obtain ⟨y, hy⟩ := exists_firstKey hkey key'
  apply unanimous_of_heard (y := y)
  intro l hl x hx
  have horder := (orderBy_spreadKeys_eq_iff (K := reordered hl) hl).mp
    (spreadKeys_eq (h (reordered hl) hl).invariants)
  by_cases hne : key = key'
  · subst hne
    rcases eq_or_eq_of_firstKey (K := reordered hl) hx with rfl | rfl
    all_goals rcases eq_or_eq_of_firstKey hy with rfl | rfl <;> rfl
  · -- the key that comes first in this order comes first in the given one
    have hfirst : projects.entries.findSome? (fun e => firstKey u key key' e.2) = some x := by
      rcases eq_or_eq_of_firstKey (K := reordered hl) hx with rfl | rfl
      · exact horder x key' hkey hkey' hne htitle hx
      · rw [firstKey_comm key x] at hx ⊢
        exact horder x key hkey' hkey (Ne.symm hne) htitle.symm hx
    exact Option.some.inj (hfirst.symm.trans hy)

/-! ## The condition -/

theorem unanimous_of_length_le_one {β : Type} {g : String × List KnowledgeObject → Option β}
    (hfew : projects.keys.length ≤ 1) : Unanimous g projects.entries := by
  intro e he e' he' x x' hx hx'
  have hkey : e.1 = e'.1 :=
    eq_of_length_le_one hfew (List.mem_map_of_mem he) (List.mem_map_of_mem he')
  obtain rfl : e = e' := List.inj_on_of_nodup_map projects.nodup he he' hkey
  exact Option.some.inj (hx.symm.trans hx')

theorem orderFree_of_orderIndependent (h : OrderIndependent u now projects) :
    OrderFree u projects where
  offered := fun _ _ _ hp hq => eq_of_orderIndependent h hp hq
  named := by
    intro kid q hq
    by_cases hfew : projects.keys.length ≤ 1
    · exact unanimous_of_length_le_one hfew
    · obtain ⟨p, hne, hp⟩ := exists_other (exists_two_keys hfew) q
      exact unanimous_namedProject h ⟨p, hp, hne⟩ hq
  titles := fun _ hkey => unanimous_lastTitle h hkey
  first := fun _ _ hkey hkey' htitle => unanimous_firstKey h hkey hkey' htitle

/-- The state is the same in every order exactly when no item is offered twice and the projects
agree on what is taken from the first or the last of them. -/
theorem orderIndependent_iff (u : UnicodeTables) (now : String) (projects : Projects) :
    ((∀ (includeTelemetry : Bool) (r r' : Registration projects),
        SameState (r.project u now includeTelemetry) (r'.project u now includeTelemetry)) ↔
      OrderFree u projects) ∧
    (OrderIndependent u now projects ↔ OrderFree u projects) := by
  have hsame : OrderFree u projects → ∀ (includeTelemetry : Bool) (r r' : Registration projects),
      SameState (r.project u now includeTelemetry) (r'.project u now includeTelemetry) :=
    fun hfree includeTelemetry r r' => sameState_of_orderFree hfree includeTelemetry r r'
  have hall : (∀ (includeTelemetry : Bool) (r r' : Registration projects),
      SameState (r.project u now includeTelemetry) (r'.project u now includeTelemetry)) →
        OrderIndependent u now projects :=
    fun h projects' hperm => h true (.inOrder projects' hperm) (.inOrder projects (.refl _))
  exact ⟨⟨fun h => orderFree_of_orderIndependent (hall h), hsame⟩,
    ⟨orderFree_of_orderIndependent, fun hfree => hall (hsame hfree)⟩⟩

/-- The item as a project has it. -/
def ownCopy (p : String) : KnowledgeObject :=
  { ReasoningEngine.rule "k1" "Storage" "use sqlite" "m1" with
    transferability := "REUSABLE"
    projectId := p }

/-- Two projects that both offer the item. -/
def twoHolders : Projects := .ofList [("p1", [ownCopy "p1"]), ("p2", [ownCopy "p2"])]

def twoHoldersSwapped : Projects := .ofList [("p2", [ownCopy "p2"]), ("p1", [ownCopy "p1"])]

/-- The item comes from the project that is registered last. -/
theorem not_orderIndependent_twoHolders :
    twoHoldersSwapped.entries.Perm twoHolders.entries ∧
      ((getOrganizationState .asciiOnly "" twoHolders).activeLineages.get? "k1").map
        KnowledgeLineage.transferPath = some ["p2", "p1"] ∧
      ((getOrganizationState .asciiOnly "" twoHoldersSwapped).activeLineages.get? "k1").map
        KnowledgeLineage.transferPath = some ["p1", "p2"] ∧
      ¬OrderIndependent .asciiOnly "" twoHolders := by
  have hperm : twoHoldersSwapped.entries.Perm twoHolders.entries :=
    List.Perm.swap ("p1", [ownCopy "p1"]) ("p2", [ownCopy "p2"]) []
  have hpath : ((getOrganizationState .asciiOnly "" twoHolders).activeLineages.get? "k1").map
      KnowledgeLineage.transferPath = some ["p2", "p1"] := by decide +kernel
  have hpath' : ((getOrganizationState .asciiOnly "" twoHoldersSwapped).activeLineages.get?
      "k1").map KnowledgeLineage.transferPath = some ["p1", "p2"] := by decide +kernel
  refine ⟨hperm, hpath, hpath', fun h => ?_⟩
  rw [(h _ hperm).lineages "k1", hpath] at hpath'
  exact absurd hpath' (by decide)

end OrganizationProjection

end RationaleVault
