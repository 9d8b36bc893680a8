import RationaleVault.ProjectionPlatform.Registry
import RationaleVault.Projections.Graph

/-!
# Two searches for cycles

The registry of projection classes looks for cycles with a stack of its own, the
platform's registry by recursion. Both raise on every graph with a cycle. On a graph without
one the first never raises, and the second does not while no chain of dependencies is longer
than the calls that the interpreter nests.
-/

namespace RationaleVault

namespace Projections.ProjectionRegistry

variable {κ : Type} [DecidableEq κ] {registry : ProjectionRegistry κ}

variable (registry) in
/-- A registered class depends on another class. -/
def DependsOn (cls dep : κ) : Prop := cls ∈ registry.classes ∧ dep ∈ registry.dependencies cls

/-- The search with a stack accepts exactly the graphs without a cycle. -/
theorem validateCycles_eq_ok_iff_acyclic (hregistered : ∀ cls ∈ registry.classes,
    ∀ dep ∈ registry.dependencies cls, dep ∈ registry.classes) :
    registry.validateCycles = .ok () ↔ Dag.Acyclic registry.DependsOn := by
  have hs : ∀ cls dep, registry.DependsOn cls dep → dep ∈ registry.classes :=
    fun cls dep h => hregistered cls h.1 dep h.2
  rw [validateCycles_eq_ok_iff hregistered, Dag.acyclic_iff_exists_rank hs]
  apply exists_congr
  intro rank
  constructor
  · exact fun h cls dep hdep => h cls hdep.1 dep hdep.2
  · exact fun h cls hcls dep hdep => h cls dep ⟨hcls, hdep⟩

end Projections.ProjectionRegistry

namespace ProjectionPlatform.ProjectionRegistry

variable {π α : Type} {registry : ProjectionRegistry π α}

variable (registry) in
/-- A registered projection depends on another one that is registered. -/
def DependsOn (id dep : String) : Prop :=
  registry.isRegistered id = true ∧ dep ∈ registry.successors id

theorem DependsOn.registered {id dep : String} (h : registry.DependsOn id dep) :
    registry.isRegistered dep = true :=
  (mem_successors.mp h.2).2

/-- An accepted registry has no cycle, at any limit. -/
theorem acyclic_of_validateDependencies {limit : Nat} {ids : List String}
    (hids : ∀ id, registry.isRegistered id = true → id ∈ ids)
    (h : registry.validateDependencies limit ids = .ok ()) :
    Dag.Acyclic registry.DependsOn := by
  obtain ⟨rank, hrank⟩ := exists_rank hids h
  rw [Dag.acyclic_iff_exists_rank fun id dep hdep => hids dep hdep.registered]
  exact ⟨rank, fun id dep hdep => hrank id hdep.1 dep hdep.2⟩

variable (registry) in
/-- No chain of dependencies among registered projections is longer than the limit. -/
def ChainsWithin (limit : Nat) : Prop :=
  ∀ chain : List String, chain.IsChain registry.DependsOn →
    (∀ id ∈ chain, registry.isRegistered id = true) → chain.length ≤ limit

/-- A call returns if no chain of dependencies leads from its node back to the path or past the
limit. -/
theorem exists_dfs_eq_ok (hacyclic : Dag.Acyclic registry.DependsOn) (limit : Nat)
    {path visited : List String} {nodeId : String}
    (hnode : registry.isRegistered nodeId = true)
    (hpath : ∀ p ∈ path, Relation.TransGen registry.DependsOn p nodeId)
    (hchains : ∀ chain : List String, (nodeId :: chain).IsChain registry.DependsOn →
      (∀ id ∈ chain, registry.isRegistered id = true) → chain.length < limit) :
    ∃ visited', registry.dfs limit path nodeId visited = .ok visited' := by
  induction limit generalizing path visited nodeId with
  | zero => exact absurd (hchains [] (.singleton _) (by simp)) (Nat.not_lt_zero _)
  | succ limit ih =>
      rw [dfs]
      have hfresh : nodeId ∉ path := fun hmem => hacyclic nodeId (hpath nodeId hmem)
      rw [if_neg hfresh]
      split_ifs with hvisited
      · exact ⟨visited, rfl⟩
      · rw [foldlM_dependencies fun d visited => registry.dfs limit (nodeId :: path) d visited]
        have hstep : ∀ met d, d ∈ registry.successors nodeId → True →
            ∃ met', registry.dfs limit (nodeId :: path) d met = .ok met' ∧ True := by
          intro met d hd _
          have hedge : registry.DependsOn nodeId d := ⟨hnode, hd⟩
          have hpath' : ∀ p ∈ nodeId :: path, Relation.TransGen registry.DependsOn p d := by
            intro p hp
            rcases List.mem_cons.mp hp with rfl | hp
            · exact .single hedge
            · exact .tail (hpath p hp) hedge
          obtain ⟨met', hmet⟩ := ih hedge.registered hpath'
            fun chain hchain hall => by
              have hlength := hchains (d :: chain) (List.IsChain.cons_cons hedge hchain)
                (List.forall_mem_cons.mpr ⟨hedge.registered, hall⟩)
              rw [List.length_cons] at hlength
              exact Nat.lt_of_succ_lt_succ hlength
          exact ⟨met', hmet, trivial⟩
        obtain ⟨visited', hvisited', _⟩ := Fold.exists_ok hstep trivial
        exact ⟨visited', hvisited'⟩

/-- A graph without a cycle is accepted while its chains stay within the limit. -/
theorem validateDependencies_of_acyclic {limit : Nat} {ids : List String}
    (hids : ∀ id ∈ ids, registry.isRegistered id = true)
    (hmandatory : registry.checkDependencies = .ok ())
    (hacyclic : Dag.Acyclic registry.DependsOn) (hchains : registry.ChainsWithin limit) :
    registry.validateDependencies limit ids = .ok () := by
  have hstep : ∀ met id, id ∈ ids → True →
      ∃ met', registry.dfs limit [] id met = .ok met' ∧ True := by
    intro met id hid _
    have hpath : ∀ p ∈ ([] : List String), Relation.TransGen registry.DependsOn p id := by simp
    obtain ⟨met', hmet⟩ := exists_dfs_eq_ok hacyclic limit (hids id hid) hpath
      fun chain hchain hall =>
        hchains (id :: chain) hchain (List.forall_mem_cons.mpr ⟨hids id hid, hall⟩)
    exact ⟨met', hmet, trivial⟩
  obtain ⟨visited, hvisited, _⟩ := Fold.exists_ok hstep trivial
  rw [validateDependencies, hmandatory, Except.ok_bind_eq, hvisited]
  rfl

/-- The recursive search accepts exactly the graphs without a cycle, if only long cycles come with
long chains. -/
theorem validateDependencies_eq_ok_iff {limit : Nat} {ids : List String}
    (hids : ∀ id, id ∈ ids ↔ registry.isRegistered id = true)
    (hmandatory : registry.checkDependencies = .ok ())
    (hchains : Dag.Acyclic registry.DependsOn → registry.ChainsWithin limit) :
    registry.validateDependencies limit ids = .ok () ↔ Dag.Acyclic registry.DependsOn := by
  constructor
  · exact acyclic_of_validateDependencies fun id => (hids id).mpr
  · intro hacyclic
    exact validateDependencies_of_acyclic (fun id => (hids id).mp) hmandatory hacyclic
      (hchains hacyclic)

end ProjectionPlatform.ProjectionRegistry

/-! ## The same graph in both registries -/

/-- The classes and the platform's projections have the same dependencies, under the ids `f`. -/
structure SameGraph {κ π α : Type} (classes : Projections.ProjectionRegistry κ)
    (platform : ProjectionPlatform.ProjectionRegistry π α) (f : κ → String) : Prop where
  inj : ∀ c ∈ classes.classes, ∀ c' ∈ classes.classes, f c = f c' → c = c'
  registered : ∀ id, platform.isRegistered id = true ↔ ∃ c ∈ classes.classes, f c = id
  depends : ∀ c ∈ classes.classes, ∀ d ∈ classes.classes,
    d ∈ classes.dependencies c ↔ f d ∈ platform.successors (f c)

namespace SameGraph

variable {κ π α : Type} {classes : Projections.ProjectionRegistry κ}
  {platform : ProjectionPlatform.ProjectionRegistry π α} {f : κ → String}

/-- A chain of dependencies between classes is one between their ids, and conversely. -/
theorem transGen_iff (h : SameGraph classes platform f)
    (hregistered : ∀ cls ∈ classes.classes, ∀ dep ∈ classes.dependencies cls,
      dep ∈ classes.classes) {c d : κ} (hc : c ∈ classes.classes) (hd : d ∈ classes.classes) :
    Relation.TransGen classes.DependsOn c d ↔ Relation.TransGen platform.DependsOn (f c) (f d) := by
  constructor
  · intro hpath
    have hmem : d ∈ classes.classes ∧ Relation.TransGen platform.DependsOn (f c) (f d) := by
      clear hd
      induction hpath with
      | single hedge =>
          have hd := hregistered _ hedge.1 _ hedge.2
          exact ⟨hd, .single ⟨(h.registered _).mpr ⟨_, hc, rfl⟩, (h.depends _ hc _ hd).mp hedge.2⟩⟩
      | tail _ hedge ih =>
          have hd := hregistered _ hedge.1 _ hedge.2
          exact ⟨hd, .tail ih.2 ⟨(h.registered _).mpr ⟨_, hedge.1, rfl⟩,
            (h.depends _ hedge.1 _ hd).mp hedge.2⟩⟩
    exact hmem.2
  · intro hpath
    have hback : ∀ id, Relation.TransGen platform.DependsOn (f c) id →
        ∃ d ∈ classes.classes, f d = id ∧ Relation.TransGen classes.DependsOn c d := by
      intro id hid
      induction hid with
      | single hedge =>
          obtain ⟨d, hd, rfl⟩ := (h.registered _).mp hedge.registered
          exact ⟨d, hd, rfl, .single ⟨hc, (h.depends c hc d hd).mpr hedge.2⟩⟩
      | tail _ hedge ih =>
          obtain ⟨b, hb, rfl, hbpath⟩ := ih
          obtain ⟨d, hd, rfl⟩ := (h.registered _).mp hedge.registered
          exact ⟨d, hd, rfl, .tail hbpath ⟨hb, (h.depends b hb d hd).mpr hedge.2⟩⟩
    obtain ⟨d', hd', heq, hback⟩ := hback (f d) hpath
    rwa [h.inj d' hd' d hd heq] at hback

theorem acyclic_iff (h : SameGraph classes platform f)
    (hregistered : ∀ cls ∈ classes.classes, ∀ dep ∈ classes.dependencies cls,
      dep ∈ classes.classes) :
    Dag.Acyclic classes.DependsOn ↔ Dag.Acyclic platform.DependsOn := by
  constructor
  · intro hacyclic id hcycle
    obtain ⟨dep, hedge, _⟩ := Relation.TransGen.head'_iff.mp hcycle
    obtain ⟨c, hc, rfl⟩ := (h.registered id).mp hedge.1
    exact hacyclic c ((h.transGen_iff hregistered hc hc).mpr hcycle)
  · intro hacyclic c hcycle
    obtain ⟨dep, hedge, _⟩ := Relation.TransGen.head'_iff.mp hcycle
    exact hacyclic (f c) ((h.transGen_iff hregistered hedge.1 hedge.1).mp hcycle)

end SameGraph

/-- A check raises. -/
def Raises {ε β : Type} (check : Except ε β) : Prop := ∃ e, check = .error e

theorem raises_iff {ε : Type} {check : Except ε Unit} : Raises check ↔ check ≠ .ok () := by
  unfold Raises
  cases check with
  | error e => simp
  | ok u => simp

def chainId (k : Nat) : String := String.ofList (List.replicate (k + 1) 'p')

theorem chainId_inj {j k : Nat} (h : chainId j = chainId k) : j = k := by
  have hlength := congrArg (fun id => id.toList.length) h
  simpa [chainId] using hlength

/-- The classes below `n`, each of which depends on the one before. -/
def chainClasses (n : Nat) : Projections.ProjectionRegistry Nat where
  declared k :=
    { className := chainId k, projectionName := chainId k, version := ⟨1, 0, 0⟩
      projectionKind := .composite, dependencies := (List.range k).drop (k - 1) }
  classes := List.range n
  nodup := List.nodup_range

def chainProjection (k : Nat) : ProjectionPlatform.Projection Unit Unit where
  metadata :=
    { id := chainId k
      dependencies := ((List.range k).drop (k - 1)).map fun j =>
        { projectionId := chainId j, kind := .state } }
  reduce _ _ := .ok ()
  deserialize _ := .ok ()

def chainProjections : Nat → OrdDict String (ProjectionPlatform.Projection Unit Unit)
  | 0 => .empty
  | n + 1 => (chainProjections n).set (chainId n) (chainProjection n)

theorem chainProjections_ids (n : Nat) :
    ∀ e ∈ (chainProjections n).entries, e.2.metadata.id = e.1 := by
  induction n with
  | zero => simp [chainProjections]
  | succ n ih =>
      rw [chainProjections]
      exact OrdDict.forall_entries_set (d := chainProjections n) (x := chainProjection n)
        (p := fun id projection => projection.metadata.id = id) ih rfl

/-- The platform's projections with the same dependencies. -/
def chainPlatform (n : Nat) : ProjectionPlatform.ProjectionRegistry Unit Unit where
  projections := chainProjections n
  ids := chainProjections_ids n

/-- The registered ids, the last one first. -/
def chainIds (n : Nat) : List String := (List.range n).reverse.map chainId

theorem mem_chainDeps {j k : Nat} : j ∈ (List.range k).drop (k - 1) ↔ j + 1 = k := by
  cases k with
  | zero => simp
  | succ k =>
      rw [Nat.add_sub_cancel, List.range_succ, List.drop_left' List.length_range]
      simp

theorem get?_chainProjections {n k : Nat} (hk : k < n) :
    (chainProjections n).get? (chainId k) = some (chainProjection k) := by
  induction n with
  | zero => exact absurd hk (Nat.not_lt_zero k)
  | succ n ih =>
      rw [chainProjections]
      by_cases heq : k = n
      · rw [heq, OrdDict.get?_set_self]
      · rw [OrdDict.get?_set_of_ne]
        · exact ih (by omega)
        · exact fun hid => heq (chainId_inj hid).symm

theorem isRegistered_chainPlatform {n : Nat} {id : String} :
    (chainPlatform n).isRegistered id = true ↔ ∃ k < n, chainId k = id := by
  unfold ProjectionPlatform.ProjectionRegistry.isRegistered OrdDict.contains
  change ((chainProjections n).get? id).isSome = true ↔ _
  constructor
  · intro h
    induction n with
    | zero => simp [chainProjections] at h
    | succ n ih =>
        by_cases heq : chainId n = id
        · exact ⟨n, Nat.lt_succ_self n, heq⟩
        · rw [chainProjections, OrdDict.get?_set_of_ne _ _ heq] at h
          obtain ⟨k, hk, hid⟩ := ih h
          exact ⟨k, hk.trans (Nat.lt_succ_self n), hid⟩
  · rintro ⟨k, hk, rfl⟩
    rw [get?_chainProjections hk]
    rfl

theorem dependencies_chainPlatform {n k : Nat} (hk : k < n) :
    (chainPlatform n).dependencies (chainId k) = (chainProjection k).metadata.dependencies := by
  have hget : (chainPlatform n).get (chainId k) = .ok (chainProjection k) := by
    unfold ProjectionPlatform.ProjectionRegistry.get chainPlatform
    rw [get?_chainProjections hk]
  exact ProjectionPlatform.ProjectionRegistry.dependencies_of_get hget

theorem mem_successors_chainPlatform {n k : Nat} (hk : k < n) {d : String} :
    d ∈ (chainPlatform n).successors (chainId k) ↔ ∃ j, j + 1 = k ∧ chainId j = d := by
  rw [ProjectionPlatform.ProjectionRegistry.mem_successors, dependencies_chainPlatform hk]
  simp only [chainProjection, List.mem_map, mem_chainDeps, isRegistered_chainPlatform]
  constructor
  · rintro ⟨⟨_, ⟨j, hj, rfl⟩, rfl⟩, _⟩
    exact ⟨j, hj, rfl⟩
  · rintro ⟨j, hj, rfl⟩
    exact ⟨⟨_, ⟨j, hj, rfl⟩, rfl⟩, j, by omega, rfl⟩

theorem sameGraph_chain (n : Nat) : SameGraph (chainClasses n) (chainPlatform n) chainId where
  inj _ _ _ _ h := chainId_inj h
  registered id := by
    rw [isRegistered_chainPlatform]
    simp [chainClasses]
  depends c hc d _ := by
    rw [mem_successors_chainPlatform (List.mem_range.mp hc)]
    change d ∈ (List.range c).drop (c - 1) ↔ _
    rw [mem_chainDeps]
    constructor
    · exact fun h => ⟨d, h, rfl⟩
    · rintro ⟨j, hj, hid⟩
      rwa [← chainId_inj hid]

theorem registered_chainClasses (n : Nat) : ∀ cls ∈ (chainClasses n).classes,
    ∀ dep ∈ (chainClasses n).dependencies cls, dep ∈ (chainClasses n).classes := by
  intro cls hcls dep hdep
  have hlt : cls < n := List.mem_range.mp hcls
  have hsucc : dep + 1 = cls := mem_chainDeps.mp hdep
  exact List.mem_range.mpr (by omega)

theorem acyclic_chainClasses (n : Nat) : Dag.Acyclic (chainClasses n).DependsOn := by
  apply Dag.acyclic_swap_iff.mp
  apply Dag.acyclic_of_rank id
  intro dep cls hdep
  have hsucc : dep + 1 = cls := mem_chainDeps.mp hdep.2
  exact hsucc ▸ Nat.lt_succ_self dep

theorem checkDependencies_chainPlatform (n : Nat) :
    (chainPlatform n).checkDependencies = .ok () := by
  unfold ProjectionPlatform.ProjectionRegistry.checkDependencies
  rw [Fold.forM_eq_ok_iff]
  intro projection hprojection
  rw [Fold.forM_eq_ok_iff]
  intro dep hdep
  obtain ⟨id, hid⟩ := OrdDict.mem_values_iff.mp hprojection
  have hsome : ((chainProjections n).get? id).isSome = true := Option.isSome_of_eq_some hid
  obtain ⟨k, hk, rfl⟩ := isRegistered_chainPlatform.mp hsome
  obtain rfl : chainProjection k = projection :=
    Option.some.inj ((get?_chainProjections hk).symm.trans hid)
  obtain ⟨j, hj, rfl⟩ := List.mem_map.mp hdep
  have hregistered : (chainPlatform n).isRegistered (chainId j) = true :=
    isRegistered_chainPlatform.mpr ⟨j, by have := mem_chainDeps.mp hj; omega, rfl⟩
  simp [hregistered]

theorem mem_chainIds {n : Nat} {id : String} :
    id ∈ chainIds n ↔ (chainPlatform n).isRegistered id = true := by
  rw [isRegistered_chainPlatform]
  simp [chainIds]

/-- Along the chain the calls nest until they pass the limit. -/
theorem dfs_chainPlatform {n : Nat} (limit : Nat) {k : Nat} (hk : k < n) (hlimit : limit ≤ k)
    {path visited : List String} (hpath : ∀ j ≤ k, chainId j ∉ path)
    (hvisited : ∀ j ≤ k, chainId j ∉ visited) :
    (chainPlatform n).dfs limit path (chainId k) visited = .error .recursionError := by
  induction limit generalizing k path visited with
  | zero => rfl
  | succ limit ih =>
      obtain ⟨j, rfl⟩ : ∃ j, k = j + 1 := ⟨k - 1, by omega⟩
      have hdeps : (chainPlatform n).dependencies (chainId (j + 1)) =
          [{ projectionId := chainId j, kind := .state }] := by
        rw [dependencies_chainPlatform hk]
        simp [chainProjection, List.range_succ, List.drop_left' List.length_range]
      have hregistered : (chainPlatform n).isRegistered (chainId j) = true :=
        isRegistered_chainPlatform.mpr ⟨j, by omega, rfl⟩
      have hkeep : ∀ seen : List String, (∀ i ≤ j + 1, chainId i ∉ seen) →
          ∀ i ≤ j, chainId i ∉ chainId (j + 1) :: seen := by
        intro seen hseen i hi hmem
        rcases List.mem_cons.mp hmem with heq | hmem
        · have := chainId_inj heq
          omega
        · exact hseen i (by omega) hmem
      rw [ProjectionPlatform.ProjectionRegistry.dfs, if_neg (hpath _ le_rfl),
        if_neg (hvisited _ le_rfl), hdeps, List.foldlM_cons, if_pos hregistered,
        ih (by omega) (by omega) (hkeep path hpath) (hkeep visited hvisited)]
      rfl

/-- Chains within the first `n` projections are no longer than `n`. -/
theorem chainsWithin_chainPlatform (n : Nat) : (chainPlatform n).ChainsWithin n := by
  have hlength : ∀ (chain : List String) (k : Nat), k < n →
      (chainId k :: chain).IsChain (chainPlatform n).DependsOn → chain.length ≤ k := by
    intro chain
    induction chain with
    | nil => exact fun k _ _ => Nat.zero_le k
    | cons d rest ih =>
        intro k hk hchain
        obtain ⟨hedge, hrest⟩ := List.isChain_cons_cons.mp hchain
        obtain ⟨j, rfl, rfl⟩ := (mem_successors_chainPlatform hk).mp hedge.2
        exact Nat.succ_le_succ (ih j (by omega) hrest)
  intro chain hchain hregistered
  cases chain with
  | nil => exact Nat.zero_le n
  | cons id rest =>
      obtain ⟨k, hk, rfl⟩ := isRegistered_chainPlatform.mp (hregistered id List.mem_cons_self)
      exact (Nat.succ_le_succ (hlength rest k hk hchain)).trans hk

/-- A chain longer than the limit raises, though it has no cycle. -/
theorem validateDependencies_chainPlatform (limit : Nat) :
    (chainPlatform (limit + 1)).validateDependencies limit (chainIds (limit + 1)) =
      .error .recursionError := by
  have hids : chainIds (limit + 1) = chainId limit :: chainIds limit := by
    simp [chainIds, List.range_succ]
  rw [ProjectionPlatform.ProjectionRegistry.validateDependencies,
    checkDependencies_chainPlatform, Except.ok_bind_eq, hids, List.foldlM_cons,
    dfs_chainPlatform limit (Nat.lt_succ_self limit) le_rfl (by simp) (by simp)]
  rfl

end RationaleVault
