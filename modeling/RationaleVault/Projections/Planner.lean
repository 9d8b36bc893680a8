import Mathlib.Data.Finset.Card
import Mathlib.Logic.Relation
import RationaleVault.Library.Sha256
import RationaleVault.Projections.BuildOrder

/-!
# The rebuild planner

The planner goes through the build order once. It resolves the fingerprint of
every class from the inputs and the fingerprints of its dependencies, and marks
a class for rebuilding when one of its dependencies is marked, or when the cache
has no entry for it, one with another fingerprint or one of another version.
-/

namespace RationaleVault.Projections

/-! ## Fingerprints and the cache -/

/-- `compute_composite_fingerprint(version, dependency_fingerprints, raw_input_hash)`. -/
def computeCompositeFingerprint (version : SemVer) (dependencyFingerprints : OrdDict String String)
    (rawInputHash : Option String) : String :=
  let sortedDeps := Table.orderBy (fun e : String × String => toLex e)
    dependencyFingerprints.entries
  let depStr := String.intercalate "," (sortedDeps.map fun e => e.1 ++ ":" ++ e.2)
  Sha256.hexdigest ("composite|" ++ version.str ++ "|" ++ depStr ++ "|" ++ rawInputHash.getD "")

structure CacheKey where
  projectId : String
  projectionName : String
  projectionVersion : SemVer
  deriving DecidableEq

instance : DictKey CacheKey CacheKey := ⟨id⟩

structure CacheEntry (σ : Type) where
  compiledProjection : σ
  fingerprint : String
  version : SemVer

abbrev ProjectionCache (σ : Type) := OrdDict CacheKey (CacheEntry σ)

/-! ## The plan -/

structure RebuildMetrics where
  cacheHits : Nat
  cacheMisses : Nat
  dirtyCount : Nat
  scheduledCount : Nat
  deriving DecidableEq

/-- What the planner fills in class by class. -/
structure PlanState where
  dirtyNodes : Finset String := ∅
  orderedNodes : List String := []
  unchangedNodes : List String := []
  reasons : OrdDict String String := .empty
  resolvedFingerprints : OrdDict String String := .empty

structure RebuildPlan extends PlanState where
  metrics : RebuildMetrics

namespace RebuildPlanner

variable {κ σ : Type} (projectId : String)
  (currentFingerprints : OrdDict String String) (cache : ProjectionCache σ)
  (registry : ProjectionRegistry κ)

/-- `dep_fps`: the fingerprints of the dependencies by name. -/
def dependencyFingerprints (resolved : OrdDict String String) (cls : κ) :
    Except Exc (OrdDict String String) := do
  let fps ← (registry.dependencies cls).mapM fun dep =>
    match resolved.get? (registry.name dep) with
    | some fp => .ok (registry.name dep, fp)
    | none => .error (.keyError (registry.name dep))
  return .ofList fps

/-- The fingerprint of a class, given those resolved before. -/
def resolveFingerprint (resolved : OrdDict String String) (cls : κ) : Except Exc String :=
  match registry.kind cls with
  | .base =>
      let fp := (currentFingerprints.get? (registry.name cls)).getD ""
      if fp = "" then
        .error (.valueError ("Missing input fingerprint for Base projection '" ++
          registry.name cls ++ "'"))
      else .ok fp
  | _ => do
      let depFps ← dependencyFingerprints registry resolved cls
      let rawHash := if registry.dependencies cls = [] then
        currentFingerprints.get? (registry.name cls) else none
      return computeCompositeFingerprint (registry.declared cls).version depFps rawHash

/-- The key under which the planner looks for a class. -/
def cacheKey (cls : κ) : CacheKey :=
  ⟨projectId, registry.name cls, (registry.declared cls).version⟩

/-- `text[:8]`. -/
def shown (text : String) : String := String.ofList (text.toList.take 8)

/-- Why a class is dirty, if it is. -/
def dirtyReason (dirtyNodes : Finset String) (cls : κ) (fp : String) : Option String :=
  let version := (registry.declared cls).version
  let dirtyDeps := ((registry.dependencies cls).map registry.name).filter (· ∈ dirtyNodes)
  if dirtyDeps ≠ [] then some ("Dependency changed: " ++ String.intercalate ", " dirtyDeps)
  else
    match cache.get? (cacheKey projectId registry cls) with
    | none => some "Missing cache entry"
    | some entry =>
        if entry.fingerprint ≠ fp then
          some ("Fingerprint mismatch: cached=" ++ shown entry.fingerprint ++ "... current=" ++
            shown fp ++ "...")
        else if entry.version ≠ version then
          some ("Version mismatch: cached=" ++ entry.version.str ++ " current=" ++ version.str)
        else none

/-- The body of the loop over the build order. -/
def planNode (s : PlanState) (cls : κ) : Except Exc PlanState := do
  let name := registry.name cls
  let fp ← resolveFingerprint currentFingerprints registry s.resolvedFingerprints cls
  let s := { s with resolvedFingerprints := s.resolvedFingerprints.set name fp }
  match dirtyReason projectId cache registry s.dirtyNodes cls fp with
  | some reason =>
      return { s with
        dirtyNodes := insert name s.dirtyNodes
        reasons := s.reasons.set name reason
        orderedNodes := s.orderedNodes ++ [name] }
  | none => return { s with unchangedNodes := s.unchangedNodes ++ [name] }

/-- `RebuildPlanner.plan(project_id, current_fingerprints, cache, registry)`. -/
def plan [DecidableEq κ] : Except Exc RebuildPlan := do
  let topoOrder ← registry.topologicalSort
  let s ← topoOrder.foldlM (planNode projectId currentFingerprints cache registry) {}
  return { s with
    metrics := {
      cacheHits := s.unchangedNodes.length
      cacheMisses := s.orderedNodes.length
      dirtyCount := s.dirtyNodes.card
      scheduledCount := s.orderedNodes.length } }

/-! ## What has to be rebuilt -/

/-- The fingerprint of a class: the input's for a base projection, else the digest of its
version, of the fingerprints of its dependencies and, without dependencies, of its input. -/
inductive HasFingerprint : κ → String → Prop
  | base {cls : κ} {fp : String} (hkind : registry.kind cls = .base)
      (hfp : currentFingerprints.get? (registry.name cls) = some fp) (hne : fp ≠ "") :
      HasFingerprint cls fp
  | composite {cls : κ} {fps : κ → String} (hkind : registry.kind cls ≠ .base)
      (hdeps : ∀ dep ∈ registry.dependencies cls, HasFingerprint dep (fps dep)) :
      HasFingerprint cls (computeCompositeFingerprint (registry.declared cls).version
        (.ofList ((registry.dependencies cls).map fun dep => (registry.name dep, fps dep)))
        (if registry.dependencies cls = [] then currentFingerprints.get? (registry.name cls)
        else none))

/-- The cache has no entry for the class, one with a fingerprint that is not the class's, or one
of another version. -/
def Stale (cls : κ) : Prop :=
  ∀ entry, cache.get? (cacheKey projectId registry cls) = some entry →
    ¬ HasFingerprint currentFingerprints registry cls entry.fingerprint ∨
      entry.version ≠ (registry.declared cls).version

/-- The registered classes that have to be rebuilt. -/
def Rebuilt : κ → Prop :=
  Dag.Marked (fun c d => c ∈ registry.classes ∧ d ∈ registry.dependencies c)
    fun c => c ∈ registry.classes ∧ Stale projectId currentFingerprints cache registry c

/-! ## One class -/

section Step

variable {projectId currentFingerprints cache registry}

/-- A class has one fingerprint at most. -/
theorem HasFingerprint.unique {cls : κ} {fp fp' : String}
    (h : HasFingerprint currentFingerprints registry cls fp)
    (h' : HasFingerprint currentFingerprints registry cls fp') : fp = fp' := by
  induction h generalizing fp' with
  | base hkind hfp _ =>
      cases h' with
      | base _ hfp' _ => exact Option.some.inj (hfp.symm.trans hfp')
      | composite hkind' _ => exact absurd hkind hkind'
  | @composite cls fps hkind _ ih =>
      cases h' with
      | base hkind' _ _ => exact absurd hkind' hkind
      | @composite _ fps' _ hdeps' =>
          have hfps : (registry.dependencies cls).map (fun dep => (registry.name dep, fps dep)) =
              (registry.dependencies cls).map fun dep => (registry.name dep, fps' dep) := by
            apply List.map_congr_left
            intro dep hdep
            rw [ih dep hdep (hdeps' dep hdep)]
          rw [hfps]

/-- The resolved fingerprints of the classes in `done`. -/
def Resolved (currentFingerprints : OrdDict String String) (registry : ProjectionRegistry κ)
    (done : List κ) (resolved : OrdDict String String) : Prop :=
  ∀ c ∈ done, ∃ fp, resolved.get? (registry.name c) = some fp ∧
    HasFingerprint currentFingerprints registry c fp

/-- A base projection has an input. -/
def HasInput (currentFingerprints : OrdDict String String) (registry : ProjectionRegistry κ)
    (cls : κ) : Prop :=
  registry.kind cls = .base →
    ∃ fp, currentFingerprints.get? (registry.name cls) = some fp ∧ fp ≠ ""

theorem resolveFingerprint_base {resolved : OrdDict String String} {cls : κ}
    (hkind : registry.kind cls = .base) {fp : String} :
    resolveFingerprint currentFingerprints registry resolved cls = .ok fp ↔
      currentFingerprints.get? (registry.name cls) = some fp ∧ fp ≠ "" := by
  rw [resolveFingerprint, hkind]
  dsimp only
  cases hinput : currentFingerprints.get? (registry.name cls) with
  | none => simp
  | some input =>
      rw [Option.getD_some]
      split_ifs with hempty
      · subst hempty
        simp
      · rw [Except.ok.injEq, Option.some.injEq]
        constructor
        · rintro rfl
          exact ⟨rfl, hempty⟩
        · exact fun h => h.1

/-- With the dependencies resolved, so is the class. -/
theorem resolveFingerprint_composite {done : List κ} {resolved : OrdDict String String}
    (h : Resolved currentFingerprints registry done resolved) {cls : κ}
    (hkind : registry.kind cls ≠ .base) (hdeps : registry.dependencies cls ⊆ done) :
    ∃ fp, resolveFingerprint currentFingerprints registry resolved cls = .ok fp ∧
      HasFingerprint currentFingerprints registry cls fp := by
  have hresolved : dependencyFingerprints registry resolved cls = .ok (.ofList
      ((registry.dependencies cls).map fun dep =>
        (registry.name dep, (resolved.get? (registry.name dep)).getD ""))) := by
    rw [dependencyFingerprints, Fold.mapM_eq_ok]
    · rfl
    · intro dep hdep
      obtain ⟨fp, hfp, _⟩ := h dep (hdeps hdep)
      simp [hfp]
  have hall : ∀ dep ∈ registry.dependencies cls,
      HasFingerprint currentFingerprints registry dep
        ((resolved.get? (registry.name dep)).getD "") := by
    intro dep hdep
    obtain ⟨fp, hfp, hhas⟩ := h dep (hdeps hdep)
    simpa [hfp] using hhas
  refine ⟨_, ?_, .composite hkind hall⟩
  unfold resolveFingerprint
  rw [hresolved]
  split
  · rename_i hbase
    exact absurd hbase hkind
  · rfl

/-- With the dependencies resolved, what is resolved is the fingerprint. -/
theorem hasFingerprint_of_resolve {done : List κ} {resolved : OrdDict String String}
    (h : Resolved currentFingerprints registry done resolved) {cls : κ}
    (hdeps : registry.dependencies cls ⊆ done) {fp : String}
    (hfp : resolveFingerprint currentFingerprints registry resolved cls = .ok fp) :
    HasFingerprint currentFingerprints registry cls fp := by
  by_cases hkind : registry.kind cls = .base
  · obtain ⟨hinput, hne⟩ := (resolveFingerprint_base hkind).mp hfp
    exact .base hkind hinput hne
  · obtain ⟨fp', hfp', hhas⟩ := resolveFingerprint_composite h hkind hdeps
    rw [Except.ok.inj (hfp.symm.trans hfp')]
    exact hhas

/-- Only a missing input keeps a class from being resolved after its dependencies. -/
theorem exists_resolveFingerprint_iff {done : List κ} {resolved : OrdDict String String}
    (h : Resolved currentFingerprints registry done resolved) {cls : κ}
    (hdeps : registry.dependencies cls ⊆ done) :
    (∃ fp, resolveFingerprint currentFingerprints registry resolved cls = .ok fp) ↔
      HasInput currentFingerprints registry cls := by
  by_cases hkind : registry.kind cls = .base
  · simp only [resolveFingerprint_base hkind, HasInput, hkind, forall_const]
  · obtain ⟨fp, hfp, _⟩ := resolveFingerprint_composite h hkind hdeps
    exact ⟨fun _ hbase => absurd hbase hkind, fun _ => ⟨fp, hfp⟩⟩

theorem rebuilt_iff {cls : κ} :
    Rebuilt projectId currentFingerprints cache registry cls ↔
      (cls ∈ registry.classes ∧ Stale projectId currentFingerprints cache registry cls) ∨
      ∃ dep, (cls ∈ registry.classes ∧ dep ∈ registry.dependencies cls) ∧
        Rebuilt projectId currentFingerprints cache registry dep :=
  Dag.marked_iff

/-- With the marks of the dependencies known, a class is dirty exactly when it has to be
rebuilt. -/
theorem dirtyReason_eq_none_iff {dirtyNodes : Finset String} {cls : κ} {fp : String}
    (hcls : cls ∈ registry.classes)
    (hdirty : ∀ dep ∈ registry.dependencies cls, (registry.name dep ∈ dirtyNodes ↔
      Rebuilt projectId currentFingerprints cache registry dep))
    (hfp : HasFingerprint currentFingerprints registry cls fp) :
    dirtyReason projectId cache registry dirtyNodes cls fp = none ↔
      ¬ Rebuilt projectId currentFingerprints cache registry cls := by
  have hdeps : ((registry.dependencies cls).map registry.name).filter (· ∈ dirtyNodes) = [] ↔
      ¬ ∃ dep, (cls ∈ registry.classes ∧ dep ∈ registry.dependencies cls) ∧
        Rebuilt projectId currentFingerprints cache registry dep := by
    simp only [List.filter_eq_nil_iff, List.forall_mem_map, decide_eq_true_eq, hcls, true_and,
      not_exists, not_and]
    exact forall₂_congr fun dep hdep => not_congr (hdirty dep hdep)
  have hfresh : ∀ fp', ¬ HasFingerprint currentFingerprints registry cls fp' ↔ fp' ≠ fp := by
    intro fp'
    constructor
    · rintro hnot rfl
      exact hnot hfp
    · exact fun hne hfp' => hne (hfp'.unique hfp)
  rw [dirtyReason, rebuilt_iff, not_or, ← hdeps]
  split_ifs with hdirtyDeps
  · simp [hdirtyDeps]
  · simp only [hcls, true_and, not_not.mp hdirtyDeps, and_true, Stale, hfresh]
    cases cache.get? (cacheKey projectId registry cls) with
    | none => simp
    | some entry =>
        simp only [Option.some.injEq, forall_eq', not_or, not_not]
        split_ifs with hmismatch hversion
        · simp [hmismatch]
        · simp [hversion]
        · simp only [ne_eq, not_not] at hmismatch hversion
          simp [hmismatch, hversion]

end Step

/-! ## The whole loop -/

/-- The loop after the classes in `done`. -/
structure Planned (done : List κ) (s : PlanState) : Prop where
  resolved : Resolved currentFingerprints registry done s.resolvedFingerprints
  dirty : ∀ c ∈ registry.classes, (registry.name c ∈ s.dirtyNodes ↔
    c ∈ done ∧ Rebuilt projectId currentFingerprints cache registry c)
  marked : ∀ n, n ∈ s.dirtyNodes ↔ n ∈ s.orderedNodes
  ordered : s.orderedNodes =
    (done.filter fun c => registry.name c ∈ s.dirtyNodes).map registry.name
  unchanged : s.unchangedNodes =
    (done.filter fun c => registry.name c ∉ s.dirtyNodes).map registry.name

section Loop

variable {projectId currentFingerprints cache registry}

theorem Planned.start : Planned projectId currentFingerprints cache registry [] {} where
  resolved := by
    intro c hc
    cases hc
  dirty := by simp
  marked := by simp
  ordered := rfl
  unchanged := rfl

/-- The class after its dependencies. -/
theorem Planned.next {done : List κ} {s s' : PlanState} {cls : κ}
    (hwf : registry.WellFormed) (h : Planned projectId currentFingerprints cache registry done s)
    (hdone : done ⊆ registry.classes) (hcls : cls ∈ registry.classes) (hnew : cls ∉ done)
    (hdeps : registry.dependencies cls ⊆ done)
    (hrun : planNode projectId currentFingerprints cache registry s cls = .ok s') :
    Planned projectId currentFingerprints cache registry (done ++ [cls]) s' := by
  obtain ⟨fp, hfp, hrun⟩ := Except.bind_eq_ok_iff.mp hrun
  have hhas := hasFingerprint_of_resolve h.resolved hdeps hfp
  have hmarks : ∀ dep ∈ registry.dependencies cls, (registry.name dep ∈ s.dirtyNodes ↔
      Rebuilt projectId currentFingerprints cache registry dep) := by
    intro dep hdep
    rw [h.dirty dep (hdone (hdeps hdep))]
    exact and_iff_right (hdeps hdep)
  have hreason := dirtyReason_eq_none_iff hcls hmarks hhas
  have hname : ∀ c ∈ registry.classes, registry.name c = registry.name cls → c = cls :=
    fun c hc => List.inj_on_of_nodup_map hwf.names hc hcls
  have hold : ∀ c ∈ done, registry.name c ≠ registry.name cls := by
    intro c hc heq
    exact hnew (hname c (hdone hc) heq ▸ hc)
  have hresolved : Resolved currentFingerprints registry (done ++ [cls])
      (s.resolvedFingerprints.set (registry.name cls) fp) := by
    intro c hc
    obtain hc | hc := List.mem_append.mp hc
    · rw [OrdDict.get?_set_of_ne _ _ (hold c hc).symm]
      exact h.resolved c hc
    · rw [List.mem_singleton.mp hc, OrdDict.get?_set_self]
      exact ⟨fp, rfl, hhas⟩
  have hnot : registry.name cls ∉ s.dirtyNodes := by
    rw [h.dirty cls hcls]
    exact fun hmem => hnew hmem.1
  cases hdirty : dirtyReason projectId cache registry s.dirtyNodes cls fp with
  | none =>
      have hnone := hreason.mp hdirty
      simp only [hdirty, Except.pure_eq_ok_iff] at hrun
      subst hrun
      refine ⟨hresolved, ?_, h.marked, ?_, ?_⟩
      · intro c hc
        rw [h.dirty c hc, List.mem_append, List.mem_singleton]
        constructor
        · rintro ⟨hmem, hrebuilt⟩
          exact ⟨.inl hmem, hrebuilt⟩
        · rintro ⟨hmem | rfl, hrebuilt⟩
          · exact ⟨hmem, hrebuilt⟩
          · exact absurd hrebuilt hnone
      · rw [h.ordered, List.filter_append, List.filter_singleton]
        simp [hnot]
      · rw [h.unchanged, List.filter_append, List.filter_singleton]
        simp [hnot]
  | some reason =>
      have hsome : Rebuilt projectId currentFingerprints cache registry cls := by
        by_contra hnone
        rw [hreason.mpr hnone] at hdirty
        cases hdirty
      simp only [hdirty, Except.pure_eq_ok_iff] at hrun
      subst hrun
      have hinsert : ∀ c ∈ done, (registry.name c ∈ insert (registry.name cls) s.dirtyNodes ↔
          registry.name c ∈ s.dirtyNodes) := by
        intro c hc
        simp [hold c hc]
      have hfilter : done.filter (registry.name · ∈ insert (registry.name cls) s.dirtyNodes) =
          done.filter (registry.name · ∈ s.dirtyNodes) :=
        List.filter_congr fun c hc => decide_eq_decide.mpr (hinsert c hc)
      have hfilterNot : done.filter (registry.name · ∉ insert (registry.name cls) s.dirtyNodes) =
          done.filter (registry.name · ∉ s.dirtyNodes) :=
        List.filter_congr fun c hc => decide_eq_decide.mpr (not_congr (hinsert c hc))
      refine ⟨hresolved, ?_, ?_, ?_, ?_⟩
      · intro c hc
        rw [Finset.mem_insert, h.dirty c hc, List.mem_append, List.mem_singleton]
        constructor
        · rintro (hn | ⟨hmem, hrebuilt⟩)
          · exact ⟨.inr (hname c hc hn), hname c hc hn ▸ hsome⟩
          · exact ⟨.inl hmem, hrebuilt⟩
        · rintro ⟨hmem | rfl, hrebuilt⟩
          · exact .inr ⟨hmem, hrebuilt⟩
          · exact .inl rfl
      · intro n
        rw [Finset.mem_insert, List.mem_append, List.mem_singleton, h.marked, or_comm]
      · dsimp only
        rw [h.ordered, List.filter_append, List.filter_singleton, hfilter]
        simp
      · dsimp only
        rw [h.unchanged, List.filter_append, List.filter_singleton, hfilterNot]
        simp

/-- A class returns exactly when it has the input it needs. -/
theorem Planned.exists_next_iff {done : List κ} {s : PlanState} {cls : κ}
    (h : Planned projectId currentFingerprints cache registry done s)
    (hdeps : registry.dependencies cls ⊆ done) :
    (∃ s', planNode projectId currentFingerprints cache registry s cls = .ok s') ↔
      HasInput currentFingerprints registry cls := by
  rw [← exists_resolveFingerprint_iff h.resolved hdeps]
  constructor
  · rintro ⟨s', hrun⟩
    obtain ⟨fp, hfp, _⟩ := Except.bind_eq_ok_iff.mp hrun
    exact ⟨fp, hfp⟩
  · rintro ⟨fp, hfp⟩
    rw [planNode, hfp, Except.ok_bind_eq]
    dsimp only
    split
    · exact ⟨_, rfl⟩
    · exact ⟨_, rfl⟩

variable {order : List κ} (hwf : registry.WellFormed) (hperm : order.Perm registry.classes)
  (hfinished : Dag.Finished registry.dependencies order.reverse)
include hwf hperm hfinished

/-- In the build order, a class comes after its dependencies. -/
theorem Planned.next_in_order {done rest : List κ} {s s' : PlanState} {cls : κ}
    (h : Planned projectId currentFingerprints cache registry done s)
    (horder : order = done ++ cls :: rest)
    (hrun : planNode projectId currentFingerprints cache registry s cls = .ok s') :
    Planned projectId currentFingerprints cache registry (done ++ [cls]) s' := by
  have hnodup : (done ++ cls :: rest).Nodup := by
    rw [← horder]
    exact List.nodup_reverse.mp hfinished.nodup
  apply h.next hwf _ _ _ (fun d hd => hfinished.succ_before horder d hd) hrun
  · intro c hc
    apply hperm.mem_iff.mp
    rw [horder]
    exact List.mem_append_left _ hc
  · apply hperm.mem_iff.mp
    rw [horder]
    exact List.mem_append_right _ List.mem_cons_self
  · intro hmem
    exact (List.nodup_append.mp hnodup).2.2 cls hmem cls List.mem_cons_self rfl

/-- When the loop returns, it has planned the whole build order. -/
theorem Planned.run {done rest : List κ} {s s' : PlanState}
    (h : Planned projectId currentFingerprints cache registry done s)
    (horder : order = done ++ rest)
    (hrun : rest.foldlM (planNode projectId currentFingerprints cache registry) s = .ok s') :
    Planned projectId currentFingerprints cache registry order s' := by
  induction rest generalizing done s with
  | nil =>
      rw [List.append_nil] at horder
      rw [List.foldlM_nil, Except.pure_eq_ok_iff] at hrun
      rw [horder, ← hrun]
      exact h
  | cons cls rest ih =>
      obtain ⟨s₁, hcls, hrest⟩ := Except.bind_eq_ok_iff.mp hrun
      apply ih (h.next_in_order hwf hperm hfinished horder hcls) _ hrest
      rw [horder, List.append_assoc]
      rfl

/-- The loop returns exactly when every base projection has an input. -/
theorem Planned.exists_run_iff {done rest : List κ} {s : PlanState}
    (h : Planned projectId currentFingerprints cache registry done s)
    (horder : order = done ++ rest) :
    (∃ s', rest.foldlM (planNode projectId currentFingerprints cache registry) s = .ok s') ↔
      ∀ c ∈ rest, HasInput currentFingerprints registry c := by
  induction rest generalizing done s with
  | nil =>
      constructor
      · intro _ c hc
        cases hc
      · exact fun _ => ⟨s, rfl⟩
  | cons cls rest ih =>
      have hstep := h.exists_next_iff (fun d hd => hfinished.succ_before horder d hd)
      have htail : order = done ++ [cls] ++ rest := by
        rw [horder, List.append_assoc]
        rfl
      rw [List.forall_mem_cons, ← hstep, List.foldlM_cons]
      constructor
      · rintro ⟨s', hrun⟩
        obtain ⟨s₁, hcls, hrest⟩ := Except.bind_eq_ok_iff.mp hrun
        exact ⟨⟨s₁, hcls⟩,
          (ih (h.next_in_order hwf hperm hfinished horder hcls) htail).mp ⟨s', hrest⟩⟩
      · rintro ⟨⟨s₁, hcls⟩, hinputs⟩
        obtain ⟨s', hrest⟩ :=
          (ih (h.next_in_order hwf hperm hfinished horder hcls) htail).mpr hinputs
        exact ⟨s', Except.bind_eq_ok_iff.mpr ⟨s₁, hcls, hrest⟩⟩

end Loop

/-! ## The plan is exact -/

/-- What a plan says about the registered classes. -/
structure Exact (plan : RebuildPlan) : Prop where
  /-- The marked classes are the least set with the stale ones that every class enters with one
  of its dependencies. -/
  least : IsLeast {T : Set κ |
      (∀ c, c ∈ registry.classes ∧ Stale projectId currentFingerprints cache registry c → c ∈ T) ∧
      ∀ c d, c ∈ registry.classes ∧ d ∈ registry.dependencies c → d ∈ T → c ∈ T}
    {c | c ∈ registry.classes ∧ registry.name c ∈ plan.dirtyNodes}
  /-- The marked classes and the others are listed in one order of all registered classes in
  which dependencies come first. -/
  ordered : ∃ order : List κ, order.Perm registry.classes ∧
    (∀ before c after, order = before ++ c :: after → ∀ d ∈ registry.dependencies c,
      d ∈ before) ∧
    plan.orderedNodes =
      (order.filter fun c => registry.name c ∈ plan.dirtyNodes).map registry.name ∧
    plan.unchangedNodes =
      (order.filter fun c => registry.name c ∉ plan.dirtyNodes).map registry.name
  /-- What a class that is left unchanged depends on, directly or not, is unchanged. -/
  unchanged : ∀ c ∈ registry.classes, registry.name c ∈ plan.unchangedNodes →
    ∀ d, Relation.TransGen (fun c d => d ∈ registry.dependencies c) c d →
      registry.name d ∈ plan.unchangedNodes
  dirty : ∀ n, n ∈ plan.dirtyNodes ↔ n ∈ plan.orderedNodes

section Plan

variable {projectId currentFingerprints cache registry} {p : RebuildPlan}

theorem Planned.isLeast {order : List κ} {s : PlanState} (hperm : order.Perm registry.classes)
    (h : Planned projectId currentFingerprints cache registry order s) :
    IsLeast {T : Set κ |
        (∀ c, c ∈ registry.classes ∧ Stale projectId currentFingerprints cache registry c →
          c ∈ T) ∧
        ∀ c d, c ∈ registry.classes ∧ d ∈ registry.dependencies c → d ∈ T → c ∈ T}
      {c | c ∈ registry.classes ∧ registry.name c ∈ s.dirtyNodes} := by
  have hregistered : ∀ c, Rebuilt projectId currentFingerprints cache registry c →
      c ∈ registry.classes := by
    intro c hc
    cases hc with
    | seed hv => exact hv.1
    | spread hvd _ => exact hvd.1
  have heq : {c | c ∈ registry.classes ∧ registry.name c ∈ s.dirtyNodes} =
      {c | Rebuilt projectId currentFingerprints cache registry c} := by
    ext c
    constructor
    · rintro ⟨hc, hname⟩
      exact ((h.dirty c hc).mp hname).2
    · intro hc
      have hmem := hregistered c hc
      exact ⟨hmem, (h.dirty c hmem).mpr ⟨hperm.mem_iff.mpr hmem, hc⟩⟩
  rw [heq]
  exact Dag.marked_isLeast

/-- A class is listed as unchanged exactly when it does not have to be rebuilt. -/
theorem Planned.mem_unchanged_iff {order : List κ} {s : PlanState}
    (hperm : order.Perm registry.classes)
    (h : Planned projectId currentFingerprints cache registry order s) {c : κ}
    (hc : c ∈ registry.classes) :
    registry.name c ∈ s.unchangedNodes ↔
      ¬ Rebuilt projectId currentFingerprints cache registry c := by
  have hdirty : registry.name c ∈ s.dirtyNodes ↔
      Rebuilt projectId currentFingerprints cache registry c := by
    rw [h.dirty c hc]
    exact and_iff_right (hperm.mem_iff.mpr hc)
  rw [h.unchanged, ← hdirty, List.mem_map]
  constructor
  · rintro ⟨c', hc', heq⟩
    rw [← heq]
    simpa using (List.mem_filter.mp hc').2
  · intro hnot
    exact ⟨c, List.mem_filter.mpr ⟨hperm.mem_iff.mpr hc, by simpa using hnot⟩, rfl⟩

theorem Planned.exact {order : List κ} {s : PlanState} (hwf : registry.WellFormed)
    (hperm : order.Perm registry.classes)
    (hfinished : Dag.Finished registry.dependencies order.reverse)
    (h : Planned projectId currentFingerprints cache registry order s) (metrics : RebuildMetrics) :
    Exact projectId currentFingerprints cache registry { s with metrics := metrics } where
  least := h.isLeast hperm
  ordered := ⟨order, hperm, fun before c after horder => hfinished.succ_before horder, h.ordered,
    h.unchanged⟩
  unchanged := by
    intro c hc hname d hd
    have hstay : d ∈ registry.classes ∧
        ¬ Rebuilt projectId currentFingerprints cache registry d := by
      induction hd with
      | single hdep =>
          refine ⟨hwf.registered c hc _ hdep, fun hrebuilt => ?_⟩
          exact (h.mem_unchanged_iff hperm hc).mp hname (.spread ⟨hc, hdep⟩ hrebuilt)
      | tail _ hdep ih =>
          refine ⟨hwf.registered _ ih.1 _ hdep, fun hrebuilt => ?_⟩
          exact ih.2 (.spread ⟨ih.1, hdep⟩ hrebuilt)
    exact (h.mem_unchanged_iff hperm hstay.1).mpr hstay.2
  dirty := h.marked

variable (projectId currentFingerprints cache) in
/-- For a registry that passes validation, the planner returns exactly when every base projection
has an input, and its plan is exact. -/
theorem plan_exact [DecidableEq κ] (hvalid : registry.validate = .ok ()) :
    ((∃ p, plan projectId currentFingerprints cache registry = .ok p) ↔
      ∀ c ∈ registry.classes, HasInput currentFingerprints registry c) ∧
    ∀ p, plan projectId currentFingerprints cache registry = .ok p →
      Exact projectId currentFingerprints cache registry p := by
  have hwf := ProjectionRegistry.validate_eq_ok_iff.mp hvalid
  obtain ⟨hperm, hfinished⟩ := ProjectionRegistry.computeOrder_spec hwf
  have hsort : registry.topologicalSort = .ok registry.computeOrder :=
    ProjectionRegistry.topologicalSort_eq_ok_iff.mpr ⟨hwf, rfl⟩
  have hstart : Planned projectId currentFingerprints cache registry [] {} := .start
  have hruns : (∃ s, registry.computeOrder.foldlM
      (planNode projectId currentFingerprints cache registry) {} = .ok s) ↔
      ∀ c ∈ registry.classes, HasInput currentFingerprints registry c := by
    rw [hstart.exists_run_iff hwf hperm hfinished (List.nil_append _).symm]
    simp only [hperm.mem_iff]
  rw [plan, hsort, Except.ok_bind_eq, ← hruns]
  constructor
  · constructor
    · rintro ⟨p, hp⟩
      obtain ⟨s, hs, _⟩ := Except.bind_eq_ok_iff.mp hp
      exact ⟨s, hs⟩
    · rintro ⟨s, hs⟩
      rw [hs]
      exact ⟨_, rfl⟩
  · intro p hp
    obtain ⟨s, hrun, hp⟩ := Except.bind_eq_ok_iff.mp hp
    rw [← Except.pure_eq_ok_iff.mp hp]
    exact (hstart.run hwf hperm hfinished (List.nil_append _).symm hrun).exact hwf hperm
      hfinished _

/-- Every registered class is a hit or a miss, and what is dirty is scheduled once. -/
theorem plan_metrics [DecidableEq κ]
    (h : plan projectId currentFingerprints cache registry = .ok p) :
    p.metrics.cacheHits + p.metrics.cacheMisses = registry.classes.length ∧
      p.metrics.dirtyCount = p.metrics.scheduledCount := by
  obtain ⟨topoOrder, hsort, hrun⟩ := Except.bind_eq_ok_iff.mp h
  obtain ⟨hwf, rfl⟩ := ProjectionRegistry.topologicalSort_eq_ok_iff.mp hsort
  obtain ⟨s, hs, hp⟩ := Except.bind_eq_ok_iff.mp hrun
  obtain ⟨hperm, hfinished⟩ := ProjectionRegistry.computeOrder_spec hwf
  have hstart : Planned projectId currentFingerprints cache registry [] {} := .start
  have hplanned := hstart.run hwf hperm hfinished (List.nil_append _).symm hs
  have hnames : (registry.computeOrder.map registry.name).Nodup :=
    (hperm.map registry.name).nodup_iff.mpr hwf.names
  have hnodup : s.orderedNodes.Nodup := by
    rw [hplanned.ordered]
    exact hnames.sublist (List.filter_sublist.map _)
  have hdirty : s.dirtyNodes = s.orderedNodes.toFinset := by
    ext n
    rw [hplanned.marked, List.mem_toFinset]
  rw [← Except.pure_eq_ok_iff.mp hp]
  constructor
  · show s.unchangedNodes.length + s.orderedNodes.length = registry.classes.length
    rw [hplanned.unchanged, hplanned.ordered, List.length_map, List.length_map, Nat.add_comm,
      ← hperm.length_eq]
    have hparts := List.length_eq_length_filter_add (l := registry.computeOrder)
      fun c => decide (registry.name c ∈ s.dirtyNodes)
    simpa using hparts.symm
  · show s.dirtyNodes.card = s.orderedNodes.length
    rw [hdirty, List.toFinset_card_of_nodup hnodup]

end Plan

/-! ## Two small registries -/

/-- A base projection on its own. -/
def oneClass : ProjectionRegistry Unit where
  declared _ :=
    { className := "A", projectionName := "A", version := ⟨1, 0, 0⟩, projectionKind := .base }
  classes := [()]

theorem nodup_classes : [true, false].Nodup := by decide

/-- A composite projection `true` over the base projection `false`. -/
def twoClasses : ProjectionRegistry Bool where
  declared cls :=
    if cls then
      { className := "B", projectionName := "B", version := ⟨1, 0, 0⟩
        projectionKind := .composite, dependencies := [false] }
    else { className := "A", projectionName := "A", version := ⟨1, 0, 0⟩, projectionKind := .base }
  classes := [true, false]
  nodup := nodup_classes

def inputOfA : OrdDict String String := OrdDict.empty.set "A" "hash"

/-- A cache with the input's fingerprint in an entry of the given version. -/
def cacheOfA (version : SemVer) : ProjectionCache Unit :=
  OrdDict.empty.set ⟨"project", "A", ⟨1, 0, 0⟩⟩
    { compiledProjection := (), fingerprint := "hash", version := version }

theorem validate_oneClass : oneClass.validate = .ok () :=
  ProjectionRegistry.validate_eq_ok_iff.mpr
    { names := by decide
      registered := by decide
      base := by decide
      derived := by decide
      acyclic := ⟨fun _ => 0, by decide⟩ }

theorem validate_twoClasses : twoClasses.validate = .ok () :=
  ProjectionRegistry.validate_eq_ok_iff.mpr
    { names := by decide
      registered := by decide
      base := by decide
      derived := by decide
      acyclic := ⟨fun cls => if cls then 1 else 0, by decide⟩ }

/-- With an empty cache both classes are planned. -/
theorem plan_exact_twoClasses :
    ∃ p, plan "project" inputOfA (.empty : ProjectionCache Unit) twoClasses = .ok p ∧
      Exact "project" inputOfA (.empty : ProjectionCache Unit) twoClasses p := by
  obtain ⟨hreturns, hexact⟩ :=
    plan_exact "project" inputOfA (.empty : ProjectionCache Unit) validate_twoClasses
  have hinputs : ∀ c ∈ twoClasses.classes, HasInput inputOfA twoClasses c := by
    intro c _ hbase
    cases c with
    | false => exact ⟨"hash", rfl, by decide⟩
    | true => cases hbase
  obtain ⟨p, hp⟩ := hreturns.mpr hinputs
  exact ⟨p, hp, hexact p hp⟩

theorem sort_oneClass : oneClass.topologicalSort = .ok [()] := by
  rw [ProjectionRegistry.topologicalSort, validate_oneClass]
  rfl

/-- A fresh class is not in the ordered nodes; an entry of another version marks a class whose
fingerprint is the cached one; without an input there is no plan. -/
theorem fresh_class_not_ordered :
    oneClass.validate = .ok () ∧
    (∃ p, plan "project" inputOfA (cacheOfA ⟨1, 0, 0⟩) oneClass = .ok p ∧ p.orderedNodes = []) ∧
    (∃ p, plan "project" inputOfA (cacheOfA ⟨2, 0, 0⟩) oneClass = .ok p ∧
      ¬ IsLeast {T : Set Unit |
          (∀ c, c ∈ oneClass.classes ∧
            (∀ entry, (cacheOfA ⟨2, 0, 0⟩).get? (cacheKey "project" oneClass c) = some entry →
              ¬ HasFingerprint inputOfA oneClass c entry.fingerprint) → c ∈ T) ∧
          ∀ c d, c ∈ oneClass.classes ∧ d ∈ oneClass.dependencies c → d ∈ T → c ∈ T}
        {c | c ∈ oneClass.classes ∧ oneClass.name c ∈ p.dirtyNodes}) ∧
    plan "project" .empty (cacheOfA ⟨1, 0, 0⟩) oneClass =
      .error (.valueError "Missing input fingerprint for Base projection 'A'") := by
  refine ⟨validate_oneClass, ?_, ?_, ?_⟩
  · rw [plan, sort_oneClass]
    exact ⟨_, rfl, rfl⟩
  · rw [plan, sort_oneClass]
    refine ⟨_, rfl, fun h => ?_⟩
    have hempty : _ ⊆ (∅ : Set Unit) := h.2 ⟨fun c hc => absurd (.base rfl rfl (by decide))
      (hc.2 _ rfl), fun c d _ hd => hd⟩
    exact hempty ⟨List.mem_singleton.mpr rfl, Finset.mem_insert_self "A" ∅⟩
  · rw [plan, sort_oneClass]
    rfl

end RebuildPlanner

end RationaleVault.Projections
