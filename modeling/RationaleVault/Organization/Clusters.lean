import RationaleVault.Library.BreadthFirst
import RationaleVault.Organization.Registration

/-!
# Clusters of projects

Two loops compare the words of every two projects and enter each in the list of the other when
the similarity is positive. Searches along these lists find the connected components.
-/

namespace RationaleVault

namespace OrganizationProjection

variable (u : UnicodeTables)

/-! ## Adjacency lists -/

/-- `terms[pid]`. -/
def termSet (knowledgeByProject : Projects) (pid : String) : Finset (List Char) :=
  (terms u ((knowledgeByProject.get? pid).getD [])).toFinset

/-- Whether the Jaccard similarity of two sets of words is positive. -/
def similar (ta tb : Finset (List Char)) : Bool :=
  if ta = ∅ ∨ tb = ∅ then false
  else decide (0 < ((ta ∩ tb).card : ℚ) / (ta ∪ tb).card)

abbrev Adjacency := OrdDict String (List String)

def link (adj : Adjacency) (a b : String) : Adjacency :=
  (adj.modify a (· ++ [b])).modify b (· ++ [a])

/-- The inner loop: compare a project with the later ones. -/
def linkLater (joined : String → String → Bool) (a : String) (later : List String)
    (adj : Adjacency) : Adjacency :=
  later.foldl (fun adj b => if joined a b then link adj a b else adj) adj

/-- The outer loop. -/
def linkAll (joined : String → String → Bool) : List String → Adjacency → Adjacency
  | [], adj => adj
  | a :: rest, adj => linkAll joined rest (linkLater joined a rest adj)

/-- `adj`. -/
def adjacency (knowledgeByProject : Projects) (projectIds : List String) : Adjacency :=
  linkAll (fun a b => similar (termSet u knowledgeByProject a) (termSet u knowledgeByProject b))
    projectIds (.ofList (projectIds.map fun p => (p, [])))

/-! ## What the loops enter -/

section Links

variable {joined : String → String → Bool} {x : String}

theorem get?_link (adj : Adjacency) {a b : String} (hab : a ≠ b) :
    (link adj a b).get? x =
      (adj.get? x).map (· ++ if x = a then [b] else if x = b then [a] else []) := by
  simp only [link, OrdDict.get?_modify, DictKey.norm_string]
  by_cases ha : a = x
  · subst ha
    rw [if_neg (Ne.symm hab), if_pos rfl]
    simp
  · rw [if_neg ha]
    by_cases hb : b = x
    · subst hb
      simp [Ne.symm hab]
    · rw [if_neg hb]
      cases adj.get? x <;> simp [Ne.symm ha, Ne.symm hb]

/-- The inner loop enters the similar later projects for the project, and the project for them. -/
theorem get?_linkLater {a : String} {later : List String} (ha : a ∉ later) (hlater : later.Nodup)
    (adj : Adjacency) : (linkLater joined a later adj).get? x =
      (adj.get? x).map (· ++ if x = a then later.filter (joined a)
        else if x ∈ later ∧ joined a x then [a] else []) := by
  induction later generalizing adj with
  | nil =>
      cases hget : adj.get? x <;> simp [linkLater, hget]
  | cons b rest ih =>
      obtain ⟨hb, hrest⟩ := List.nodup_cons.mp hlater
      obtain ⟨hab, ha⟩ := not_or.mp (List.mem_cons.not.mp ha)
      have hstep : (if joined a b then link adj a b else adj).get? x =
          (adj.get? x).map (· ++ if joined a b then
            if x = a then [b] else if x = b then [a] else [] else []) := by
        by_cases hjoined : joined a b
        · simp only [hjoined, if_true]
          exact get?_link adj hab
        · cases hget : adj.get? x <;> simp [hjoined, hget]
      have hcons : linkLater joined a (b :: rest) adj =
          linkLater joined a rest (if joined a b then link adj a b else adj) := rfl
      rw [hcons, ih ha hrest, hstep, Option.map_map]
      congr 1
      funext entered
      simp only [Function.comp_apply, List.append_assoc, List.append_cancel_left_eq]
      by_cases hxa : x = a
      · cases hjoined : joined a b <;> simp [hxa, hjoined]
      · by_cases hxb : x = b
        · subst hxb
          cases joined a x <;> simp [hxa, hb]
        · simp [hxa, hxb]

/-- The loops enter for each project the similar others, in the order of the projects. -/
theorem get?_linkAll (hsymm : ∀ a b, joined a b = joined b a) {ids : List String}
    (hids : ids.Nodup) (adj : Adjacency) : (linkAll joined ids adj).get? x =
      (adj.get? x).map (· ++ if x ∈ ids then ids.filter fun b => b ≠ x && joined x b else []) := by
  induction ids generalizing adj with
  | nil => cases hget : adj.get? x <;> simp [linkAll, hget]
  | cons a rest ih =>
      obtain ⟨ha, hrest⟩ := List.nodup_cons.mp hids
      rw [linkAll, ih hrest, get?_linkLater ha hrest, Option.map_map]
      congr 1
      funext entered
      simp only [Function.comp_apply, List.append_assoc, List.append_cancel_left_eq]
      by_cases hxa : x = a
      · subst hxa
        have hfilter : rest.filter (fun b => b ≠ x && joined x b) = rest.filter (joined x) := by
          apply List.filter_congr
          intro b hb
          have hne : b ≠ x := fun heq => ha (heq ▸ hb)
          simp [hne]
        rw [if_pos rfl, if_neg ha, if_pos List.mem_cons_self, List.append_nil,
          List.filter_cons_of_neg (by simp), hfilter]
      · by_cases hx : x ∈ rest
        · rw [if_neg hxa, if_pos hx, if_pos (List.mem_cons_of_mem a hx), List.filter_cons,
            hsymm a x]
          cases joined x a <;> simp [hx, Ne.symm hxa]
        · simp [hxa, hx]

end Links

/-! ## Similar projects -/

theorem similar_iff {ta tb : Finset (List Char)} : similar ta tb = true ↔ ∃ w, w ∈ ta ∧ w ∈ tb := by
  have hpositive : 0 < ((ta ∩ tb).card : ℚ) / (ta ∪ tb).card ↔ (ta ∩ tb).Nonempty := by
    rw [← Finset.card_pos]
    constructor
    · intro h
      by_contra hzero
      rw [Nat.eq_zero_of_not_pos hzero, Nat.cast_zero, zero_div] at h
      exact lt_irrefl 0 h
    · intro h
      have hunion : (ta ∩ tb).card ≤ (ta ∪ tb).card :=
        Finset.card_le_card fun w hw => Finset.mem_union_left _ (Finset.mem_inter.mp hw).1
      exact div_pos (Nat.cast_pos.mpr h) (Nat.cast_pos.mpr (h.trans_le hunion))
  rw [similar]
  split_ifs with hempty
  · rcases hempty with rfl | rfl <;> simp
  · rw [decide_eq_true_eq, hpositive]
    exact exists_congr fun w => Finset.mem_inter

theorem similar_comm (ta tb : Finset (List Char)) : similar ta tb = similar tb ta := by
  rw [Bool.eq_iff_iff, similar_iff, similar_iff]
  exact exists_congr fun w => and_comm

variable {u} {knowledgeByProject : Projects}

/-- A word is in a title of the project. -/
def TitleWord (u : UnicodeTables) (knowledgeByProject : Projects) (p : String)
    (w : List Char) : Prop :=
  ∃ klist, knowledgeByProject.get? p = some klist ∧
    ∃ k ∈ klist, w ∈ PythonText.split (u.lower k.title).toList

theorem mem_termSet {p : String} {w : List Char} :
    w ∈ termSet u knowledgeByProject p ↔ TitleWord u knowledgeByProject p w := by
  rw [termSet, List.mem_toFinset, terms, List.mem_flatMap, TitleWord]
  cases knowledgeByProject.get? p <;> simp

/-- The lists hold the other projects that share a word, in the order of the projects. -/
theorem getD_adjacency {projectIds : List String} (hids : projectIds.Nodup) :
    (fun p => ((adjacency u knowledgeByProject projectIds).get? p).getD []) =
      neighbors u knowledgeByProject projectIds := by
  funext p
  have hnodup : ((projectIds.map fun p => (p, ([] : List String))).map fun e =>
      DictKey.norm e.1).Nodup := by
    rw [List.map_map]
    exact (List.map_id projectIds).symm ▸ hids
  have hword : ∀ b, similar (termSet u knowledgeByProject p) (termSet u knowledgeByProject b) =
      (terms u ((knowledgeByProject.get? p).getD [])).any fun w =>
        (terms u ((knowledgeByProject.get? b).getD [])).contains w := by
    intro b
    rw [Bool.eq_iff_iff, similar_iff, List.any_eq_true]
    simp only [termSet, List.mem_toFinset, List.contains_iff_mem]
  rw [adjacency, get?_linkAll (fun a b => similar_comm _ _) hids, neighbors]
  by_cases hp : p ∈ projectIds
  · have hget : (OrdDict.ofList (projectIds.map fun p => (p, ([] : List String)))).get? p =
        some [] := by
      apply (OrdDict.get?_eq_some_iff _ _ _).mpr
      rw [OrdDict.entries_ofList hnodup]
      exact ⟨(p, []), List.mem_map_of_mem hp, rfl, rfl⟩
    rw [hget, if_pos hp, if_pos hp, Option.map_some, Option.getD_some, List.nil_append]
    apply List.filter_congr
    intro b _
    rw [hword]
  · rw [if_neg hp, if_neg hp]
    have hget : (OrdDict.ofList (projectIds.map fun p => (p, ([] : List String)))).get? p =
        none := by
      rw [Option.eq_none_iff_forall_ne_some]
      intro x hx
      obtain ⟨e, he, hkey, -⟩ := (OrdDict.get?_eq_some_iff _ _ _).mp hx
      rw [OrdDict.entries_ofList hnodup] at he
      obtain ⟨p', hp', rfl⟩ := List.mem_map.mp he
      have hsame : p' = p := hkey
      exact hp (hsame ▸ hp')
    rw [hget]
    rfl

/-- A key is linked to the other keys with a word in common. -/
theorem mem_neighbors_iff {projectIds : List String} {p q : String} :
    q ∈ neighbors u knowledgeByProject projectIds p ↔ p ∈ projectIds ∧ q ∈ projectIds ∧ q ≠ p ∧
      ∃ w, TitleWord u knowledgeByProject p w ∧ TitleWord u knowledgeByProject q w := by
  rw [neighbors]
  by_cases hp : p ∈ projectIds
  · rw [if_pos hp, List.mem_filter, Bool.and_eq_true, decide_eq_true_eq, List.any_eq_true,
      and_iff_right hp]
    simp only [List.contains_iff_mem, ← mem_termSet, termSet, List.mem_toFinset]
  · simp [hp]

/-! ## The search -/

theorem getD_adjacency_eq_nil {projectIds : List String} (hids : projectIds.Nodup) (p : String)
    (hp : p ∉ projectIds) : ((adjacency u knowledgeByProject projectIds).get? p).getD [] = [] :=
  (congrFun (getD_adjacency hids) p).trans (neighbors_eq_nil u knowledgeByProject projectIds p hp)

theorem nodup_projectIds (knowledgeByProject : Projects) :
    (Table.orderBy id knowledgeByProject.keys).Nodup :=
  (Table.orderBy_perm id _).nodup_iff.mpr (keys_nodup knowledgeByProject)

variable (u) in
/-- `_cluster_projects(knowledge_by_project)`, with the lists that its two loops fill. -/
def clusterProjectsByLoops (knowledgeByProject : Projects) : List (List String) :=
  if knowledgeByProject.keys.length ≤ 1 then knowledgeByProject.keys.map fun p => [p]
  else
    let projectIds := Table.orderBy id knowledgeByProject.keys
    let adj := adjacency u knowledgeByProject projectIds
    let clusters := projectIds.foldl (fun found start =>
      if start ∈ found.1 then found
      else
        let (visited, component) := searchComponent (fun node => (adj.get? node).getD [])
          projectIds (getD_adjacency_eq_nil (nodup_projectIds knowledgeByProject)) [start] found.1 []
        (visited, found.2 ++ [Table.orderBy id component])) (([] : List String), ([] : List _))
    Table.orderBy (fun c => c.headD "") clusters.2

theorem clusterProjectsByLoops_eq :
    clusterProjectsByLoops u knowledgeByProject = clusterProjects u knowledgeByProject := by
  simp only [clusterProjectsByLoops, clusterProjects,
    getD_adjacency (u := u) (nodup_projectIds knowledgeByProject)]

/-- Along lists of nodes the search is a breadth-first search among the nodes. -/
theorem searchComponent_eq {adj : String → List String} {nodes : List String}
    (hadj : ∀ a, a ∉ nodes → adj a = []) (hnodes : ∀ a, ∀ b ∈ adj a, b ∈ nodes)
    {queue : List String} (hqueue : ∀ x ∈ queue, x ∈ nodes) (visited component : List String) :
    searchComponent adj nodes hadj queue visited component =
      BreadthFirst.explore adj nodes queue visited component := by
  induction queue, visited, component using searchComponent.induct adj nodes hadj with
  | case1 visited component => rw [searchComponent, BreadthFirst.explore]
  | case2 visited component node rest hnode ih =>
      rw [searchComponent, dif_pos hnode, BreadthFirst.explore, dif_pos (.inl hnode)]
      exact ih fun x hx => hqueue x (List.mem_cons_of_mem _ hx)
  | case3 visited component node rest hnode ih =>
      have hmem : node ∈ nodes := hqueue node List.mem_cons_self
      have hfilter : (adj node).filter (fun w => decide (w ∉ node :: visited ∧ w ∈ nodes)) =
          (adj node).filter fun w => decide (w ∉ node :: visited) := by
        apply List.filter_congr
        intro w hw
        simp only [and_iff_left (hnodes node w hw)]
      rw [searchComponent, dif_neg hnode, BreadthFirst.explore,
        dif_neg (not_or.mpr ⟨hnode, not_not_intro hmem⟩), hfilter]
      apply ih
      intro x hx
      rcases List.mem_append.mp hx with hx | hx
      · exact hqueue x (List.mem_cons_of_mem _ hx)
      · exact hnodes node x (List.mem_filter.mp hx).1

/-! ## The components -/

/-- Two projects of the map have a title word in common. -/
def Related (u : UnicodeTables) (knowledgeByProject : Projects) (p q : String) : Prop :=
  p ∈ knowledgeByProject.keys ∧ q ∈ knowledgeByProject.keys ∧
    ∃ w, TitleWord u knowledgeByProject p w ∧ TitleWord u knowledgeByProject q w

/-- A chain of projects that have a title word in common, one with the next. -/
abbrev Linked (u : UnicodeTables) (knowledgeByProject : Projects) : String → String → Prop :=
  Relation.ReflTransGen (Related u knowledgeByProject)

/-- The lists divide the projects into the components of the linked ones. -/
structure Components (u : UnicodeTables) (knowledgeByProject : Projects)
    (clusters : List (List String)) : Prop where
  perm : clusters.flatten.Perm knowledgeByProject.keys
  ne_nil : ∀ c ∈ clusters, c ≠ []
  linked : ∀ p ∈ knowledgeByProject.keys, ∀ q ∈ knowledgeByProject.keys,
    (∃ c ∈ clusters, p ∈ c ∧ q ∈ c) ↔ Linked u knowledgeByProject p q
  sorted : ∀ c ∈ clusters, c.Pairwise (· < ·)
  ordered : clusters.Pairwise fun c c' => ∀ p ∈ c.head?, ∀ p' ∈ c'.head?, p < p'

variable (u knowledgeByProject) in
/-- The components in the order in which the searches find them. -/
def found : List (List String) :=
  BreadthFirst.components
    (neighbors u knowledgeByProject (Table.orderBy id knowledgeByProject.keys))
    (Table.orderBy id knowledgeByProject.keys) (Table.orderBy id knowledgeByProject.keys)

theorem adjacent_iff {p q : String} :
    BreadthFirst.Adjacent
        (neighbors u knowledgeByProject (Table.orderBy id knowledgeByProject.keys))
        (Table.orderBy id knowledgeByProject.keys) p q ↔
      Related u knowledgeByProject p q ∧ q ≠ p := by
  rw [BreadthFirst.Adjacent, mem_neighbors_iff, Related, Table.mem_orderBy, Table.mem_orderBy]
  tauto

theorem linked_iff {p q : String} :
    Relation.ReflTransGen (BreadthFirst.Adjacent
        (neighbors u knowledgeByProject (Table.orderBy id knowledgeByProject.keys))
        (Table.orderBy id knowledgeByProject.keys)) p q ↔ Linked u knowledgeByProject p q := by
  constructor
  · exact Relation.ReflTransGen.mono (fun _ _ hadj => (adjacent_iff.mp hadj).1) _ _
  · intro h
    induction h with
    | refl => exact .refl
    | @tail v w _ hstep ih =>
        -- a step from a project to itself leads nowhere
        by_cases hsame : w = v
        · exact hsame ▸ ih
        · exact ih.tail (adjacent_iff.mpr ⟨hstep, hsame⟩)

theorem found_spec : (found u knowledgeByProject).flatten.Perm knowledgeByProject.keys ∧
    (∀ c ∈ found u knowledgeByProject, c ≠ []) ∧
    ∀ c ∈ found u knowledgeByProject, ∀ p ∈ c, ∀ q, q ∈ c ↔ Linked u knowledgeByProject p q := by
  have hsymm : ∀ p ∈ Table.orderBy id knowledgeByProject.keys, ∀ q,
      BreadthFirst.Adjacent
          (neighbors u knowledgeByProject (Table.orderBy id knowledgeByProject.keys))
          (Table.orderBy id knowledgeByProject.keys) p q →
        BreadthFirst.Adjacent
          (neighbors u knowledgeByProject (Table.orderBy id knowledgeByProject.keys))
          (Table.orderBy id knowledgeByProject.keys) q p := by
    intro p _ q h
    obtain ⟨⟨hp, hq, w, hwp, hwq⟩, hne⟩ := adjacent_iff.mp h
    exact adjacent_iff.mpr ⟨⟨hq, hp, w, hwq, hwp⟩, Ne.symm hne⟩
  have hroots : ∀ p, p ∈ Table.orderBy id knowledgeByProject.keys ↔
      p ∈ Table.orderBy id knowledgeByProject.keys := fun _ => Iff.rfl
  obtain ⟨hperm, hne, hcomponent⟩ := BreadthFirst.components_spec hsymm
    (nodup_projectIds knowledgeByProject) hroots
  refine ⟨hperm.trans (Table.orderBy_perm id _), hne, fun c hc p hp q => ?_⟩
  rw [hcomponent c hc p hp q, linked_iff]

/-- A single project is a component by itself. -/
theorem found_of_length_le_one (hfew : knowledgeByProject.keys.length ≤ 1) :
    found u knowledgeByProject = knowledgeByProject.keys.map fun p => [p] := by
  obtain ⟨hperm, hne, -⟩ := @found_spec u knowledgeByProject
  generalize found u knowledgeByProject = clusters at hperm hne ⊢
  cases clusters with
  | nil =>
      rw [List.flatten_nil, List.nil_perm] at hperm
      rw [hperm]
      rfl
  | cons c rest =>
      have hlength := hperm.length_eq
      rw [List.flatten_cons, List.length_append] at hlength
      have hc := List.length_pos_of_ne_nil (hne c List.mem_cons_self)
      cases rest with
      | nil =>
          obtain ⟨p, rfl⟩ : ∃ p, c = [p] := List.length_eq_one_iff.mp (by omega)
          rw [List.flatten_singleton] at hperm
          rw [← List.singleton_perm.mp hperm]
          rfl
      | cons c' rest =>
          have hc' := List.length_pos_of_ne_nil
            (hne c' (List.mem_cons_of_mem c List.mem_cons_self))
          rw [List.flatten_cons, List.length_append] at hlength
          omega

/-- The shortcut for at most one project returns what the searches would find. -/
theorem clusterProjects_eq : clusterProjects u knowledgeByProject =
    Table.orderBy (fun c => c.headD "")
      ((found u knowledgeByProject).map (Table.orderBy id)) := by
  rw [clusterProjects]
  split_ifs with hfew
  · rw [found_of_length_le_one hfew]
    rcases Nat.le_one_iff_eq_zero_or_eq_one.mp hfew with hzero | hone
    · rw [List.length_eq_zero_iff.mp hzero]
      rfl
    · obtain ⟨p, hp⟩ := List.length_eq_one_iff.mp hone
      rw [hp]
      rfl
  · have hsearch : ∀ start ∈ Table.orderBy id knowledgeByProject.keys, ∀ visited,
        searchComponent
            (neighbors u knowledgeByProject (Table.orderBy id knowledgeByProject.keys))
            (Table.orderBy id knowledgeByProject.keys)
            (neighbors_eq_nil u knowledgeByProject _) [start] visited [] =
          BreadthFirst.explore
            (neighbors u knowledgeByProject (Table.orderBy id knowledgeByProject.keys))
            (Table.orderBy id knowledgeByProject.keys) [start] visited [] := by
      intro start hstart visited
      apply searchComponent_eq
      · exact fun a b hb => (mem_neighbors_iff.mp hb).2.1
      · intro x hx
        exact List.mem_singleton.mp hx ▸ hstart
    rw [found, ← BreadthFirst.foldl_search_map]
    refine congrArg (fun s : List String × List (List String) =>
      Table.orderBy (fun c => c.headD "") s.2) ?_
    apply List.foldl_ext
    intro found start hstart
    rw [hsearch start hstart]

/-- The clusters are the components that the searches find, each of them sorted. -/
theorem mem_clusterProjects {c : List String} :
    c ∈ clusterProjects u knowledgeByProject ↔
      ∃ c₀ ∈ found u knowledgeByProject, Table.orderBy id c₀ = c := by
  rw [clusterProjects_eq, Table.mem_orderBy, List.mem_map]

theorem flatten_clusterProjects_perm :
    (clusterProjects u knowledgeByProject).flatten.Perm knowledgeByProject.keys := by
  have hsorted := Table.flatten_map_orderBy_perm id (found u knowledgeByProject)
  rw [clusterProjects_eq]
  exact ((Table.orderBy_perm _ _).flatten.trans hsorted).trans found_spec.1

theorem clusterProjects_ne_nil {c : List String}
    (hc : c ∈ clusterProjects u knowledgeByProject) : c ≠ [] := by
  obtain ⟨c₀, hc₀, rfl⟩ := mem_clusterProjects.mp hc
  intro hnil
  have hlength := (Table.orderBy_perm id c₀).length_eq
  rw [hnil, List.length_nil] at hlength
  exact found_spec.2.1 c₀ hc₀ (List.eq_nil_of_length_eq_zero hlength.symm)

theorem mem_clusterProjects_iff {c : List String} (hc : c ∈ clusterProjects u knowledgeByProject)
    {p : String} (hp : p ∈ c) {q : String} : q ∈ c ↔ Linked u knowledgeByProject p q := by
  obtain ⟨c₀, hc₀, rfl⟩ := mem_clusterProjects.mp hc
  rw [Table.mem_orderBy] at hp ⊢
  exact found_spec.2.2 c₀ hc₀ p hp q

theorem components_clusterProjects :
    Components u knowledgeByProject (clusterProjects u knowledgeByProject) := by
  have hnodup : (clusterProjects u knowledgeByProject).flatten.Nodup :=
    flatten_clusterProjects_perm.nodup_iff.mpr (keys_nodup knowledgeByProject)
  obtain ⟨heach, hapart⟩ := List.nodup_flatten.mp hnodup
  constructor
  · exact flatten_clusterProjects_perm
  · exact fun c hc => clusterProjects_ne_nil hc
  · intro p hp q hq
    constructor
    · rintro ⟨c, hc, hpc, hqc⟩
      exact (mem_clusterProjects_iff hc hpc).mp hqc
    · intro h
      obtain ⟨c, hc, hpc⟩ := List.mem_flatten.mp (flatten_clusterProjects_perm.mem_iff.mpr hp)
      exact ⟨c, hc, hpc, (mem_clusterProjects_iff hc hpc).mpr h⟩
  · intro c hc
    obtain ⟨c₀, -, heq⟩ := mem_clusterProjects.mp hc
    have hle : c.Pairwise (· ≤ ·) := heq ▸ (Table.ordered_orderBy id c₀).sorted
    exact (hle.and (heach c hc)).imp fun h => lt_of_le_of_ne h.1 h.2
  · have hle : (clusterProjects u knowledgeByProject).Pairwise fun c c' =>
        c.headD "" ≤ c'.headD "" := by
      rw [clusterProjects_eq]
      exact (Table.ordered_orderBy _ _).sorted
    apply (hle.and hapart).imp_of_mem
    rintro c c' - - ⟨hle, hdisjoint⟩ p hp p' hp'
    obtain ⟨rest, rfl⟩ := List.head?_eq_some_iff.mp hp
    obtain ⟨rest', rfl⟩ := List.head?_eq_some_iff.mp hp'
    refine lt_of_le_of_ne hle ?_
    rintro rfl
    exact hdisjoint List.mem_cons_self List.mem_cons_self

/-- The clusters of projects are the components of the projects that are linked by title words, each
sorted, in the order of their first projects; the order in which the map was filled is not seen. -/
theorem clusters_are_components : Components u knowledgeByProject
    (clusterProjectsByLoops u knowledgeByProject) ∧
      ∀ others : Projects, (∀ p, others.get? p = knowledgeByProject.get? p) →
        clusterProjectsByLoops u others = clusterProjectsByLoops u knowledgeByProject := by
  constructor
  · rw [clusterProjectsByLoops_eq]
    exact components_clusterProjects
  · intro others hsame
    rw [clusterProjectsByLoops_eq, clusterProjectsByLoops_eq]
    exact clusterProjects_perm (entries_perm_of_get? hsame)

end OrganizationProjection

end RationaleVault
