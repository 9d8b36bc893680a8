import RationaleVault.Library.Dag
import RationaleVault.Library.Fold
import RationaleVault.Schema.Events

/-!
# The projection registry

Projections are registered explicitly and validated once. Validation refuses
a required dependency that is not registered and every cycle among the
registered ones, which it looks for by a depth-first search.
-/

namespace RationaleVault.ProjectionPlatform

/-- How one projection depends on another. -/
inductive DependencyKind
  | state
  | search
  | eventStream
  | query
  | export
  deriving DecidableEq

structure ProjectionDependency where
  projectionId : String
  kind : DependencyKind
  optional : Bool := false
  deriving DecidableEq

/-- What the platform reads of a descriptor; `snapshotable` is one of the capabilities. -/
structure ProjectionMetadata where
  id : String
  snapshotable : Bool := true
  dependencies : List ProjectionDependency := []
  deriving DecidableEq

/-- A projection: `π` are the stored payloads and `α` the states. -/
structure Projection (π α : Type) where
  metadata : ProjectionMetadata
  reduce : List EventRecord → Option α → Except Exc α
  deserialize : π → Except Exc α

/-- The projections under their ids. -/
structure ProjectionRegistry (π α : Type) where
  projections : OrdDict String (Projection π α) := .empty
  frozen : Bool := false
  ids : ∀ e ∈ projections.entries, e.2.metadata.id = e.1 := by simp

namespace ProjectionRegistry

variable {π α : Type}

/-- `projection_id in self._projections`. -/
def isRegistered (registry : ProjectionRegistry π α) (projectionId : String) : Bool :=
  registry.projections.contains projectionId

def register (registry : ProjectionRegistry π α) (projection : Projection π α) :
    Except Exc (ProjectionRegistry π α) :=
  if registry.frozen then
    .error (.runtimeError "Registry is frozen; cannot register new projections")
  else if registry.isRegistered projection.metadata.id then
    .error (.valueError ("Projection '" ++ projection.metadata.id ++ "' already registered"))
  else
    .ok { registry with
      projections := registry.projections.set projection.metadata.id projection
      ids := OrdDict.forall_entries_set (d := registry.projections)
        (p := fun id projection => projection.metadata.id = id) registry.ids rfl }

def get (registry : ProjectionRegistry π α) (projectionId : String) :
    Except Exc (Projection π α) :=
  match registry.projections.get? projectionId with
  | some projection => .ok projection
  | none => .error (.projectionNotFoundError ("Projection '" ++ projectionId ++ "' not found"))

def all (registry : ProjectionRegistry π α) : List (Projection π α) := registry.projections.values

/-- The dependencies of a registered projection. -/
def dependencies (registry : ProjectionRegistry π α) (projectionId : String) :
    List ProjectionDependency :=
  match registry.projections.get? projectionId with
  | some projection => projection.metadata.dependencies
  | none => []

theorem dependencies_of_get {registry : ProjectionRegistry π α} {projectionId : String}
    {projection : Projection π α} (h : registry.get projectionId = .ok projection) :
    registry.dependencies projectionId = projection.metadata.dependencies := by
  unfold get at h
  unfold dependencies
  cases hget : registry.projections.get? projectionId with
  | none => simp [hget] at h
  | some found =>
      rw [hget] at h
      rw [Except.ok.inj h]

/-- Every dependency is registered or optional. -/
def checkDependencies (registry : ProjectionRegistry π α) : Except Exc Unit :=
  registry.all.forM fun projection => projection.metadata.dependencies.forM fun dep =>
    if !registry.isRegistered dep.projectionId && !dep.optional then
      .error (.projectionNotFoundError ("Projection '" ++ projection.metadata.id ++
        "' requires '" ++ dep.projectionId ++ "' which is not registered"))
    else .ok ()

/-- `_dfs(node_id)` with the nodes it is visiting in `path`; it returns the nodes it has met.
Calls nested deeper than the limit raise. -/
def dfs (registry : ProjectionRegistry π α) :
    Nat → List String → String → List String → Except Exc (List String)
  | 0, _, _, _ => .error .recursionError
  | limit + 1, path, nodeId, visited =>
      if nodeId ∈ path then
        .error (.cyclicDependencyError ("Cyclic dependency detected involving '" ++ nodeId ++ "'"))
      else if nodeId ∈ visited then .ok visited
      else
        (registry.dependencies nodeId).foldlM (fun visited dep =>
          if registry.isRegistered dep.projectionId then
            dfs registry limit (nodeId :: path) dep.projectionId visited
          else .ok visited) (nodeId :: visited)

/-- `_validate_dependencies()`; `ids` is the set of the registered ids as it is iterated. -/
def validateDependencies (registry : ProjectionRegistry π α) (limit : Nat) (ids : List String) :
    Except Exc Unit := do
  registry.checkDependencies
  let _ ← ids.foldlM (fun visited projId => registry.dfs limit [] projId visited) []
  return ()

def freeze (registry : ProjectionRegistry π α) (limit : Nat) (ids : List String) :
    Except Exc (ProjectionRegistry π α) := do
  registry.validateDependencies limit ids
  return { registry with frozen := true }

/-! ## What validation accepts -/

/-- The registered dependencies of a projection. -/
def successors (registry : ProjectionRegistry π α) (projectionId : String) : List String :=
  ((registry.dependencies projectionId).map ProjectionDependency.projectionId).filter
    registry.isRegistered

theorem mem_successors {registry : ProjectionRegistry π α} {id d : String} :
    d ∈ registry.successors id ↔
      (∃ dep ∈ registry.dependencies id, dep.projectionId = d) ∧
        registry.isRegistered d = true := by
  simp [successors]

section Search

variable {registry : ProjectionRegistry π α}

/-- The loop over the dependencies, given what one call does. -/
theorem frontier_foldlM {visit : String → List String → Except Exc (List String)}
    {path : List String}
    (hvisit : ∀ d visited visited' order, Dag.Frontier registry.successors path visited order →
      visit d visited = .ok visited' →
      ∃ order', Dag.Frontier registry.successors path visited' order' ∧ order ⊆ order' ∧
        d ∈ order')
    (ds : List String) {visited visited' order : List String}
    (hfrontier : Dag.Frontier registry.successors path visited order)
    (h : ds.foldlM (fun visited d => visit d visited) visited = .ok visited') :
    ∃ order', Dag.Frontier registry.successors path visited' order' ∧ order ⊆ order' ∧
      ∀ d ∈ ds, d ∈ order' := by
  induction ds generalizing visited order with
  | nil =>
      rw [List.foldlM_nil, Except.pure_eq_ok_iff] at h
      subst h
      exact ⟨order, hfrontier, List.Subset.refl _, by simp⟩
  | cons d rest ih =>
      rw [List.foldlM_cons, Except.bind_eq_ok_iff] at h
      obtain ⟨met, hmet, hrest⟩ := h
      obtain ⟨order₁, hfrontier₁, hsub₁, hd⟩ := hvisit d visited met order hfrontier hmet
      obtain ⟨order₂, hfrontier₂, hsub₂, hall⟩ := ih hfrontier₁ hrest
      refine ⟨order₂, hfrontier₂, List.Subset.trans hsub₁ hsub₂, ?_⟩
      intro d' hd'
      rcases List.mem_cons.mp hd' with rfl | hd'
      · exact hsub₂ hd
      · exact hall d' hd'

theorem foldlM_dependencies (visit : String → List String → Except Exc (List String))
    (deps : List ProjectionDependency) (visited : List String) :
    deps.foldlM (fun visited dep =>
        if registry.isRegistered dep.projectionId then visit dep.projectionId visited
        else .ok visited) visited =
      ((deps.map ProjectionDependency.projectionId).filter registry.isRegistered).foldlM
        (fun visited d => visit d visited) visited := by
  induction deps generalizing visited with
  | nil => rfl
  | cons dep rest ih =>
      rw [List.foldlM_cons, List.map_cons, List.filter_cons]
      by_cases hdep : registry.isRegistered dep.projectionId = true
      · rw [if_pos hdep, if_pos hdep, List.foldlM_cons]
        congr 1
        funext met
        exact ih met
      · rw [if_neg hdep, if_neg hdep]
        exact ih visited

/-- A call that returns has finished its node, and all nodes it has met besides the path. -/
theorem frontier_dfs (limit : Nat) {path visited visited' order : List String} {nodeId : String}
    (hfrontier : Dag.Frontier registry.successors path visited order)
    (h : registry.dfs limit path nodeId visited = .ok visited') :
    ∃ order', Dag.Frontier registry.successors path visited' order' ∧ order ⊆ order' ∧
      nodeId ∈ order' := by
  induction limit generalizing path visited visited' order nodeId with
  | zero => cases h
  | succ limit ih =>
      rw [dfs] at h
      split_ifs at h with hpath hvisited
      · cases h
        have hmem := (hfrontier.visited_iff nodeId).mp hvisited
        exact ⟨order, hfrontier, List.Subset.refl _, hmem.resolve_left hpath⟩
      · rw [foldlM_dependencies (fun d visited => registry.dfs limit (nodeId :: path) d visited)]
          at h
        obtain ⟨order', hfrontier', hsub, hall⟩ :=
          frontier_foldlM (fun d visited visited' order hf hd => ih hf hd) _
            (hfrontier.enter hvisited) h
        exact ⟨nodeId :: order', hfrontier'.leave hpath hall,
          List.Subset.trans hsub (List.subset_cons_self _ _), List.mem_cons_self⟩

/-- An accepted registry can be ranked: every projection lies above its dependencies. -/
theorem exists_rank {limit : Nat} {ids : List String}
    (hids : ∀ id, registry.isRegistered id = true → id ∈ ids)
    (h : registry.validateDependencies limit ids = .ok ()) :
    ∃ rank : String → Nat, ∀ id, registry.isRegistered id = true →
      ∀ d ∈ registry.successors id, rank d < rank id := by
  obtain ⟨_, _, h⟩ := Except.bind_eq_ok_iff.mp h
  obtain ⟨visited, hvisited, _⟩ := Except.bind_eq_ok_iff.mp h
  obtain ⟨order, hfrontier, _, hall⟩ :=
    frontier_foldlM (fun d visited visited' order hf hd => frontier_dfs limit hf hd) ids
      Dag.Frontier.nil hvisited
  exact ⟨Dag.rank order, fun id hid d hd => hfrontier.finished.rank_lt (hall id (hids id hid)) hd⟩

end Search

end ProjectionRegistry

end RationaleVault.ProjectionPlatform
