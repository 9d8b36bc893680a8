import RationaleVault.Projections.Planner

/-!
# Rebuilding from a cache

A rebuild plans, compiles the scheduled classes and stores each of them under the
fingerprint that the plan has resolved. Entries can be invalidated in between,
and other projects share the cache. Whatever was done, the next plan schedules
the classes that lead to a changed input or to an entry that was lost since the
last rebuild of the project, and no others.
-/

namespace RationaleVault.Projections

namespace ProjectionCache

variable {σ : Type}

/-- `invalidate(project_id, projection_name, version)`. -/
def invalidate (cache : ProjectionCache σ) (projectId projectionName : String)
    (version : SemVer) : ProjectionCache σ :=
  cache.erase ⟨projectId, projectionName, version⟩

/-- `clear()`. -/
def clear (_ : ProjectionCache σ) : ProjectionCache σ := .empty

end ProjectionCache

namespace RebuildPlanner

/-- What is done to a cache. `built` are the projections that a rebuild compiles. -/
inductive CacheOp (κ σ : Type)
  | rebuild (projectId : String) (currentFingerprints : OrdDict String String) (built : κ → σ)
  | invalidate (projectId projectionName : String) (version : SemVer)
  | clear

variable {κ σ : Type} (registry : ProjectionRegistry κ)

/-- The entry of a class that a plan has scheduled. -/
def entryOf (p : RebuildPlan) (built : κ → σ) (cls : κ) : CacheEntry σ where
  compiledProjection := built cls
  fingerprint := (p.resolvedFingerprints.get? (registry.name cls)).getD ""
  version := (registry.declared cls).version

/-- `cache.set` for the classes of a list. -/
def store (projectId : String) (p : RebuildPlan) (built : κ → σ) (classes : List κ)
    (cache : ProjectionCache σ) : ProjectionCache σ :=
  classes.foldl (fun cache cls =>
    cache.set (cacheKey projectId registry cls) (entryOf registry p built cls)) cache

section Run

variable [DecidableEq κ]

/-- One operation. A rebuild stores what was scheduled, in the order of the plan; without a plan
there is no rebuild. -/
def step (cache : ProjectionCache σ) : CacheOp κ σ → ProjectionCache σ
  | .rebuild projectId currentFingerprints built =>
      match plan projectId currentFingerprints cache registry with
      | .ok p =>
          store registry projectId p built
            (registry.computeOrder.filter fun cls => registry.name cls ∈ p.orderedNodes) cache
      | .error _ => cache
  | .invalidate projectId projectionName version =>
      ProjectionCache.invalidate cache projectId projectionName version
  | .clear => ProjectionCache.clear cache

/-- A run on a new cache. -/
def run (ops : List (CacheOp κ σ)) : ProjectionCache σ := ops.foldl (step registry) .empty

end Run

/-! ## What happened to a project -/

/-- Every base projection has an input. -/
def HasInputs (currentFingerprints : OrdDict String String) : Prop :=
  ∀ cls ∈ registry.classes, registry.kind cls = .base →
    (currentFingerprints.get? (registry.name cls)).getD "" ≠ ""

instance (currentFingerprints : OrdDict String String) :
    Decidable (HasInputs registry currentFingerprints) :=
  inferInstanceAs (Decidable (∀ cls ∈ registry.classes, _))

/-- The inputs of the last rebuild of a project, and what was invalidated since. -/
structure History where
  inputs : Option (OrdDict String String) := none
  lost : List (String × SemVer) := []

def History.next (projectId : String) (h : History) : CacheOp κ σ → History
  | .rebuild id currentFingerprints _ =>
      if id = projectId ∧ HasInputs registry currentFingerprints then
        { inputs := some currentFingerprints }
      else h
  | .invalidate id projectionName version =>
      if id = projectId then { h with lost := (projectionName, version) :: h.lost } else h
  | .clear => {}

def history (projectId : String) (ops : List (CacheOp κ σ)) : History :=
  ops.foldl (History.next registry projectId) {}

/-- The fingerprint of a class without dependencies. -/
def sourceFingerprint (currentFingerprints : OrdDict String String) (cls : κ) : String :=
  match registry.kind cls with
  | .base => (currentFingerprints.get? (registry.name cls)).getD ""
  | _ => computeCompositeFingerprint (registry.declared cls).version .empty
      (currentFingerprints.get? (registry.name cls))

/-- A class that nothing up to date is stored for: the project was never rebuilt, the entry was
invalidated, or the class has no dependencies and its input has changed. -/
def Outdated (h : History) (currentFingerprints : OrdDict String String) (cls : κ) : Prop :=
  h.inputs = none ∨ (registry.name cls, (registry.declared cls).version) ∈ h.lost ∨
    ∃ inputs, h.inputs = some inputs ∧ registry.dependencies cls = [] ∧
      sourceFingerprint registry inputs cls ≠ sourceFingerprint registry currentFingerprints cls

/-! ## Fingerprints come from the sources -/

section Sources

variable {registry} {inputs currentFingerprints : OrdDict String String}

theorem hasFingerprint_source {cls : κ} {fp : String}
    (h : HasFingerprint inputs registry cls fp) (hdeps : registry.dependencies cls = []) :
    fp = sourceFingerprint registry inputs cls := by
  cases h with
  | base hkind hfp _ =>
      rw [sourceFingerprint, hkind, hfp]
      rfl
  | composite hkind _ =>
      rw [sourceFingerprint, hdeps, if_pos rfl, List.map_nil]
      split
      · rename_i hbase
        exact absurd hbase hkind
      · rfl

/-- A class keeps its fingerprint when the sources that it leads to keep theirs. -/
theorem HasFingerprint.of_sources (hwf : registry.WellFormed) {cls : κ} {fp : String}
    (h : HasFingerprint inputs registry cls fp) (hcls : cls ∈ registry.classes)
    (hsources : ∀ d, Relation.ReflTransGen (fun c d => d ∈ registry.dependencies c) cls d →
      registry.dependencies d = [] →
        sourceFingerprint registry inputs d = sourceFingerprint registry currentFingerprints d) :
    HasFingerprint currentFingerprints registry cls fp := by
  induction h with
  | @base cls fp hkind hfp hne =>
      have hsource := hsources cls .refl (hwf.base cls hcls hkind)
      rw [sourceFingerprint, sourceFingerprint, hkind] at hsource
      dsimp only at hsource
      rw [hfp, Option.getD_some] at hsource
      cases hcurrent : currentFingerprints.get? (registry.name cls) with
      | none =>
          rw [hcurrent] at hsource
          exact absurd hsource hne
      | some fp' =>
          rw [hcurrent, Option.getD_some] at hsource
          exact .base hkind (hsource ▸ hcurrent) hne
  | @composite cls fps hkind _ ih =>
      have hdeps : ∀ dep ∈ registry.dependencies cls,
          HasFingerprint currentFingerprints registry dep (fps dep) := by
        intro dep hdep
        exact ih dep hdep (hwf.registered cls hcls dep hdep) fun d hreach =>
          hsources d (hreach.head hdep)
      by_cases hnone : registry.dependencies cls = []
      · have hcurrent : HasFingerprint currentFingerprints registry cls _ := .composite hkind hdeps
        rw [hasFingerprint_source hcurrent hnone, ← hsources cls .refl hnone] at hcurrent
        rw [hasFingerprint_source (.composite hkind ‹_›) hnone]
        exact hcurrent
      · have hcurrent : HasFingerprint currentFingerprints registry cls _ := .composite hkind hdeps
        rw [if_neg hnone] at hcurrent ⊢
        exact hcurrent

end Sources

/-! ## Plans -/

section Plans

variable [DecidableEq κ] {registry} {projectId : String}
  {currentFingerprints : OrdDict String String} {cache : ProjectionCache σ}

omit [DecidableEq κ] in
theorem hasInputs_iff :
    HasInputs registry currentFingerprints ↔
      ∀ cls ∈ registry.classes, HasInput currentFingerprints registry cls := by
  refine forall₂_congr fun cls _ => forall_congr' fun _ => ?_
  cases currentFingerprints.get? (registry.name cls) <;> simp

/-- What a plan says: which classes it schedules, and the fingerprints that it resolves. -/
structure Schedules (projectId : String) (currentFingerprints : OrdDict String String)
    (cache : ProjectionCache σ) (registry : ProjectionRegistry κ) (p : RebuildPlan) : Prop where
  ordered : ∀ cls ∈ registry.classes, (registry.name cls ∈ p.orderedNodes ↔
    Rebuilt projectId currentFingerprints cache registry cls)
  resolved : ∀ cls ∈ registry.classes, ∃ fp,
    p.resolvedFingerprints.get? (registry.name cls) = some fp ∧
      HasFingerprint currentFingerprints registry cls fp

variable (projectId currentFingerprints cache) in
theorem plan_cases (hwf : registry.WellFormed) :
    (HasInputs registry currentFingerprints ∧ ∃ p,
      plan projectId currentFingerprints cache registry = .ok p ∧
        Schedules projectId currentFingerprints cache registry p) ∨
    (¬ HasInputs registry currentFingerprints ∧ ∃ e,
      plan projectId currentFingerprints cache registry = .error e) := by
  obtain ⟨hperm, hfinished⟩ := ProjectionRegistry.computeOrder_spec hwf
  have hsort : registry.topologicalSort = .ok registry.computeOrder :=
    ProjectionRegistry.topologicalSort_eq_ok_iff.mpr ⟨hwf, rfl⟩
  have hstart : Planned projectId currentFingerprints cache registry [] {} := .start
  have hruns : (∃ s, registry.computeOrder.foldlM
      (planNode projectId currentFingerprints cache registry) {} = .ok s) ↔
      HasInputs registry currentFingerprints := by
    rw [hstart.exists_run_iff hwf hperm hfinished (List.nil_append _).symm, hasInputs_iff]
    simp only [hperm.mem_iff]
  rw [plan, hsort, Except.ok_bind_eq, ← hruns]
  cases hrun : registry.computeOrder.foldlM
      (planNode projectId currentFingerprints cache registry) {} with
  | error e => exact .inr ⟨by simp, e, rfl⟩
  | ok s =>
      have h := hstart.run hwf hperm hfinished (List.nil_append _).symm hrun
      refine .inl ⟨⟨s, rfl⟩, _, rfl, fun cls hcls => ?_, fun cls hcls => ?_⟩
      · rw [← h.marked, h.dirty cls hcls]
        exact and_iff_right (hperm.mem_iff.mpr hcls)
      · exact h.resolved cls (hperm.mem_iff.mpr hcls)

omit [DecidableEq κ] in
/-- The classes that have to be rebuilt are those that lead to a stale one. -/
theorem rebuilt_iff_reach (hwf : registry.WellFormed) {cls : κ} (hcls : cls ∈ registry.classes) :
    Rebuilt projectId currentFingerprints cache registry cls ↔
      ∃ d ∈ registry.classes,
        Relation.ReflTransGen (fun c d => d ∈ registry.dependencies c) cls d ∧
          Stale projectId currentFingerprints cache registry d := by
  rw [Rebuilt, Dag.marked_iff_reach]
  constructor
  · rintro ⟨d, hreach, hd, hstale⟩
    exact ⟨d, hd, Relation.ReflTransGen.mono (fun _ _ h => h.2) _ _ hreach, hstale⟩
  · rintro ⟨d, hd, hreach, hstale⟩
    refine ⟨d, ?_, hd, hstale⟩
    clear hd hstale
    induction hreach using Relation.ReflTransGen.head_induction_on with
    | refl => exact .refl
    | head hdep _ ih => exact .head ⟨hcls, hdep⟩ (ih (hwf.registered _ hcls _ hdep))

/-- What lies under a key after the classes of a list have been stored. -/
theorem get?_store (hwf : registry.WellFormed) (p : RebuildPlan) (built : κ → σ)
    {classes : List κ} (hclasses : classes ⊆ registry.classes) (id : String) {cls : κ}
    (hcls : cls ∈ registry.classes) :
    (store registry projectId p built classes cache).get? (cacheKey id registry cls) =
      if projectId = id ∧ cls ∈ classes then some (entryOf registry p built cls)
      else cache.get? (cacheKey id registry cls) := by
  induction classes generalizing cache with
  | nil => simp [store]
  | cons c rest ih =>
      obtain ⟨hc, hrest⟩ := List.cons_subset.mp hclasses
      have hkey : (DictKey.norm (cacheKey projectId registry c) : CacheKey) =
          DictKey.norm (cacheKey id registry cls) ↔ projectId = id ∧ c = cls := by
        constructor
        · intro h
          obtain ⟨hid, hname, -⟩ := CacheKey.mk.inj h
          exact ⟨hid, List.inj_on_of_nodup_map hwf.names hc hcls hname⟩
        · rintro ⟨rfl, rfl⟩
          rfl
      rw [store, List.foldl_cons]
      change (store registry projectId p built rest _).get? _ = _
      rw [ih hrest, OrdDict.get?_set]
      simp only [hkey, List.mem_cons]
      by_cases hid : projectId = id
      · by_cases hmem : cls ∈ rest
        · simp [hid, hmem]
        · by_cases heq : c = cls
          · simp [hid, heq]
          · simp [hid, hmem, heq, Ne.symm heq]
      · simp [hid]

end Plans

/-! ## The cache over a run -/

/-- The entries of a project with a history: those of its last rebuild, without the lost ones. -/
structure Holds (projectId : String) (h : History) (cache : ProjectionCache σ) : Prop where
  lost : ∀ cls ∈ registry.classes,
    h.inputs = none ∨ (registry.name cls, (registry.declared cls).version) ∈ h.lost →
      cache.get? (cacheKey projectId registry cls) = none
  kept : ∀ inputs, h.inputs = some inputs → ∀ cls ∈ registry.classes,
    (registry.name cls, (registry.declared cls).version) ∉ h.lost →
      ∃ entry, cache.get? (cacheKey projectId registry cls) = some entry ∧
        HasFingerprint inputs registry cls entry.fingerprint ∧
          entry.version = (registry.declared cls).version

section Runs

variable {registry} {projectId : String} {h : History} {cache : ProjectionCache σ}
  {currentFingerprints : OrdDict String String}

theorem Holds.empty : Holds registry projectId {} (.empty : ProjectionCache σ) where
  lost := fun _ _ _ => OrdDict.get?_empty _
  kept := fun _ hinputs => by cases hinputs

/-- A stale class leads to an outdated one. -/
theorem Holds.outdated_of_stale (hh : Holds registry projectId h cache)
    (hwf : registry.WellFormed) {cls : κ} (hcls : cls ∈ registry.classes)
    (hstale : Stale projectId currentFingerprints cache registry cls) :
    ∃ d, Relation.ReflTransGen (fun c d => d ∈ registry.dependencies c) cls d ∧
      Outdated registry h currentFingerprints d := by
  by_contra hnone
  push Not at hnone
  have hself := hnone cls .refl
  rw [Outdated, not_or, not_or] at hself
  obtain ⟨hinputs, hlost, -⟩ := hself
  obtain ⟨inputs, hinputs⟩ := Option.ne_none_iff_exists'.mp hinputs
  obtain ⟨entry, hentry, hhas, hversion⟩ := hh.kept inputs hinputs cls hcls hlost
  have hcurrent : HasFingerprint currentFingerprints registry cls entry.fingerprint := by
    refine hhas.of_sources hwf hcls fun d hreach hdeps => ?_
    by_contra hne
    exact hnone d hreach (.inr (.inr ⟨inputs, hinputs, hdeps, hne⟩))
  exact (hstale entry hentry).elim (fun hnot => hnot hcurrent) fun hne => hne hversion

/-- An outdated class is stale. -/
theorem Holds.stale_of_outdated (hh : Holds registry projectId h cache) {cls : κ}
    (hcls : cls ∈ registry.classes) (houtdated : Outdated registry h currentFingerprints cls) :
    Stale projectId currentFingerprints cache registry cls := by
  intro entry hentry
  have hfound : ¬ (h.inputs = none ∨
      (registry.name cls, (registry.declared cls).version) ∈ h.lost) := by
    intro hlost
    rw [hh.lost cls hcls hlost] at hentry
    cases hentry
  obtain ⟨inputs, hinputs, hdeps, hne⟩ := (or_assoc.mpr houtdated).resolve_left hfound
  obtain ⟨entry', hentry', hhas, -⟩ := hh.kept inputs hinputs cls hcls (not_or.mp hfound).2
  obtain rfl : entry' = entry := Option.some.inj (hentry'.symm.trans hentry)
  refine .inl fun hcurrent => hne ?_
  rw [← hasFingerprint_source hhas hdeps, ← hasFingerprint_source hcurrent hdeps]

/-- What is done under other keys changes nothing. -/
theorem Holds.of_get? {cache' : ProjectionCache σ} (hh : Holds registry projectId h cache)
    (hget : ∀ cls ∈ registry.classes, cache'.get? (cacheKey projectId registry cls) =
      cache.get? (cacheKey projectId registry cls)) : Holds registry projectId h cache' where
  lost := fun cls hcls hlost => (hget cls hcls).trans (hh.lost cls hcls hlost)
  kept := by
    intro inputs hinputs cls hcls hlost
    rw [hget cls hcls]
    exact hh.kept inputs hinputs cls hcls hlost

theorem Holds.invalidate (hh : Holds registry projectId h cache) (id projectionName : String)
    (version : SemVer) :
    Holds registry projectId
      (History.next registry projectId h (.invalidate id projectionName version : CacheOp κ σ))
      (ProjectionCache.invalidate cache id projectionName version) := by
  rw [ProjectionCache.invalidate, History.next]
  split_ifs with hid
  · subst hid
    have hkey : ∀ cls, (DictKey.norm (⟨id, projectionName, version⟩ : CacheKey) : CacheKey) =
        DictKey.norm (cacheKey id registry cls) ↔
        (registry.name cls, (registry.declared cls).version) = (projectionName, version) := by
      intro cls
      constructor
      · intro heq
        obtain ⟨-, hname, hversion⟩ := CacheKey.mk.inj heq
        rw [hname, hversion]
      · intro heq
        obtain ⟨rfl, rfl⟩ := Prod.mk.inj heq
        rfl
    constructor
    · intro cls hcls hlost
      rw [OrdDict.get?_erase]
      split_ifs with hdropped
      · rfl
      · refine hh.lost cls hcls (hlost.imp_right fun hmem => ?_)
        exact (List.mem_cons.mp hmem).resolve_left fun heq => hdropped ((hkey cls).mpr heq)
    · intro inputs hinputs cls hcls hlost
      obtain ⟨hdropped, hlost⟩ := not_or.mp (mt List.mem_cons.mpr hlost)
      rw [OrdDict.get?_erase, if_neg fun heq => hdropped ((hkey cls).mp heq)]
      exact hh.kept inputs hinputs cls hcls hlost
  · refine hh.of_get? fun cls _ => ?_
    rw [OrdDict.get?_erase, if_neg]
    intro heq
    exact hid (CacheKey.mk.inj heq).1

variable [DecidableEq κ]

/-- After a rebuild every class is stored under its fingerprint. -/
theorem holds_store (hwf : registry.WellFormed) {p : RebuildPlan}
    (hp : Schedules projectId currentFingerprints cache registry p) (built : κ → σ) :
    Holds registry projectId { inputs := some currentFingerprints }
      (store registry projectId p built
        (registry.computeOrder.filter fun cls => registry.name cls ∈ p.orderedNodes) cache) := by
  obtain ⟨hperm, -⟩ := ProjectionRegistry.computeOrder_spec hwf
  have hsubset : (registry.computeOrder.filter fun cls =>
      decide (registry.name cls ∈ p.orderedNodes)) ⊆ registry.classes :=
    fun cls hcls => hperm.mem_iff.mp (List.mem_of_mem_filter hcls)
  constructor
  · intro cls _ hlost
    rcases hlost with hnone | hmem
    · cases hnone
    · cases hmem
  · intro inputs hinputs cls hcls _
    cases hinputs
    rw [get?_store hwf p built hsubset projectId hcls]
    simp only [List.mem_filter, hperm.mem_iff, hcls, true_and, decide_eq_true_eq]
    by_cases hordered : registry.name cls ∈ p.orderedNodes
    · obtain ⟨fp, hfp, hhas⟩ := hp.resolved cls hcls
      rw [if_pos hordered]
      refine ⟨_, rfl, ?_, rfl⟩
      simpa [entryOf, hfp] using hhas
    · -- What is not scheduled was stored under its fingerprint before.
      have hfresh : ¬ Stale projectId currentFingerprints cache registry cls := by
        intro hstale
        exact hordered ((hp.ordered cls hcls).mpr (.seed ⟨hcls, hstale⟩))
      rw [Stale] at hfresh
      push Not at hfresh
      rw [if_neg hordered]
      exact hfresh

theorem Holds.step (hwf : registry.WellFormed) (hh : Holds registry projectId h cache)
    (op : CacheOp κ σ) :
    Holds registry projectId (History.next registry projectId h op)
      (RebuildPlanner.step registry cache op) := by
  cases op with
  | rebuild id currentFingerprints built =>
      rw [RebuildPlanner.step, History.next]
      rcases plan_cases id currentFingerprints cache hwf with ⟨hinputs, p, hp, hs⟩ | ⟨hinputs, e, hp⟩
      · rw [hp]
        dsimp only
        by_cases hid : id = projectId
        · rw [if_pos ⟨hid, hinputs⟩]
          exact hid ▸ holds_store hwf hs built
        · rw [if_neg fun hboth => hid hboth.1]
          refine hh.of_get? fun cls hcls => ?_
          rw [get?_store hwf p built _ projectId hcls, if_neg fun hboth => hid hboth.1]
          exact fun c hc => (ProjectionRegistry.computeOrder_spec hwf).1.mem_iff.mp
            (List.mem_of_mem_filter hc)
      · rw [hp, if_neg fun hboth => hinputs hboth.2]
        exact hh
  | invalidate id projectionName version => exact hh.invalidate id projectionName version
  | clear => exact .empty

theorem holds_run (hwf : registry.WellFormed) (projectId : String) (ops : List (CacheOp κ σ)) :
    Holds registry projectId (history registry projectId ops) (run registry ops) := by
  have hall : ∀ {h : History} {cache : ProjectionCache σ}, Holds registry projectId h cache →
      Holds registry projectId (ops.foldl (History.next registry projectId) h)
        (ops.foldl (RebuildPlanner.step registry) cache) := by
    induction ops with
    | nil => exact fun hh => hh
    | cons op rest ih => exact fun hh => ih (hh.step hwf op)
  exact hall .empty

/-- After any run the next plan schedules exactly the classes that lead to one for which nothing up
to date is stored. -/
theorem scheduled_of_run (hvalid : registry.validate = .ok ()) (projectId : String)
    (ops : List (CacheOp κ σ)) {p : RebuildPlan}
    (hplan : plan projectId currentFingerprints (run registry ops) registry = .ok p) :
    ∀ cls ∈ registry.classes, (registry.name cls ∈ p.orderedNodes ↔
      ∃ d, Relation.ReflTransGen (fun c d => d ∈ registry.dependencies c) cls d ∧
        Outdated registry (history registry projectId ops) currentFingerprints d) := by
  have hwf := ProjectionRegistry.validate_eq_ok_iff.mp hvalid
  have hh := holds_run hwf projectId ops
  intro cls hcls
  rcases plan_cases projectId currentFingerprints (run registry ops) hwf with
    ⟨-, p', hp', hs⟩ | ⟨-, e, he⟩
  · obtain rfl : p' = p := Except.ok.inj (hp'.symm.trans hplan)
    rw [hs.ordered cls hcls, rebuilt_iff_reach hwf hcls]
    constructor
    · rintro ⟨d, hd, hreach, hstale⟩
      obtain ⟨d', hreach', houtdated⟩ := hh.outdated_of_stale hwf hd hstale
      exact ⟨d', hreach.trans hreach', houtdated⟩
    · rintro ⟨d, hreach, houtdated⟩
      have hd : d ∈ registry.classes := by
        clear houtdated
        induction hreach with
        | refl => exact hcls
        | tail _ hdep ih => exact hwf.registered _ ih _ hdep
      exact ⟨d, hd, hreach, hh.stale_of_outdated hd houtdated⟩
  · rw [he] at hplan
    cases hplan

end Runs

/-- A rebuild, and the loss of the composite projection. -/
def rebuiltOnce : List (CacheOp Bool Unit) :=
  [.rebuild "project" inputOfA fun _ => (), .invalidate "project" "B" ⟨1, 0, 0⟩]

/-- With the same input only the lost projection is scheduled again. -/
theorem scheduled_of_run_rebuiltOnce :
    ∃ p, plan "project" inputOfA (run twoClasses rebuiltOnce) twoClasses = .ok p ∧
      "B" ∈ p.orderedNodes ∧ "A" ∉ p.orderedNodes := by
  have hwf := ProjectionRegistry.validate_eq_ok_iff.mp validate_twoClasses
  have hhistory : history twoClasses "project" rebuiltOnce =
      { inputs := some inputOfA, lost := [("B", ⟨1, 0, 0⟩)] } := rfl
  rcases plan_cases "project" inputOfA (run twoClasses rebuiltOnce) hwf with
    ⟨-, p, hp, -⟩ | ⟨hinputs, -⟩
  · have hscheduled := scheduled_of_run validate_twoClasses "project" rebuiltOnce hp
    rw [hhistory] at hscheduled
    refine ⟨p, hp, (hscheduled true (by decide)).mpr ⟨true, .refl, ?_⟩, fun hA => ?_⟩
    · exact .inr (.inl List.mem_cons_self)
    · obtain ⟨d, hreach, houtdated⟩ := (hscheduled false (by decide)).mp hA
      obtain rfl : false = d := by
        cases hreach.cases_head with
        | inl h => exact h
        | inr h =>
            obtain ⟨c, hc, -⟩ := h
            cases hc
      rcases houtdated with hnone | hlost | ⟨inputs, hinputs, -, hne⟩
      · cases hnone
      · exact absurd hlost (by decide)
      · cases hinputs
        exact hne rfl
  · exact absurd hinputs (not_not_intro (by decide))

end RebuildPlanner

end RationaleVault.Projections
