import RationaleVault.ProjectionPlatform.Registry

/-!
# Dependency discipline of the projection compiler

The compiler compiles the dependencies of a projection before the projection
itself, unless its health table has an entry for them. The table is never
cleared and does not know projects: an entry can stem from another project or
from a compilation that failed. A run keeps the discipline when every call is
made while the entries it relies on stem from its own project.
-/

namespace RationaleVault.ProjectionPlatform

inductive ProjectionHealth
  | unknown
  | initializing
  | building
  | ready
  | stale
  | failed
  | degraded
  | shutdown
  deriving DecidableEq

/-- The event store and the snapshot manager, on a world `σ` that both keep. -/
structure PlatformServices (σ π α : Type) where
  loadValidSnapshot : σ → UUID → String → Except Exc (Option π)
  sequence : π → Int
  getLatestSequence : σ → UUID → Except Exc Int
  getEventsSince : σ → UUID → Int → Except Exc (List EventRecord)
  getProjectStream : σ → UUID → Except Exc (List EventRecord)
  saveSnapshot : σ → UUID → String → α → Int → σ

/-- What a compiler does, in order. -/
inductive CompilerEvent
  | reduced (projectionId : String) (projectId : UUID)
  | compiled (projectionId : String) (projectId : UUID)
  | missing (projectionId : String) (dep : ProjectionDependency)
  deriving DecidableEq

/-- The health table, the world and what was done so far. -/
structure CompilerState (σ : Type) where
  health : OrdDict String ProjectionHealth := .empty
  world : σ
  trace : List CompilerEvent := []

namespace CompilerState

variable {σ : Type}

def setHealth (s : CompilerState σ) (projectionId : String) (h : ProjectionHealth) :
    CompilerState σ :=
  { s with health := s.health.set projectionId h }

def record (s : CompilerState σ) (e : CompilerEvent) : CompilerState σ :=
  { s with trace := s.trace ++ [e] }

/-- `projection_id in self._health`. -/
def hasHealth (s : CompilerState σ) (projectionId : String) : Bool :=
  s.health.contains projectionId

@[simp] theorem trace_setHealth (s : CompilerState σ) (id : String) (h : ProjectionHealth) :
    (s.setHealth id h).trace = s.trace := rfl

@[simp] theorem trace_record (s : CompilerState σ) (e : CompilerEvent) :
    (s.record e).trace = s.trace ++ [e] := rfl

@[simp] theorem hasHealth_record (s : CompilerState σ) (e : CompilerEvent) (id : String) :
    (s.record e).hasHealth id = s.hasHealth id := rfl

theorem hasHealth_setHealth (s : CompilerState σ) (id id' : String) (h : ProjectionHealth) :
    (s.setHealth id h).hasHealth id' = true ↔ id' = id ∨ s.hasHealth id' = true := by
  rw [hasHealth, OrdDict.contains, setHealth, OrdDict.get?_set, hasHealth, OrdDict.contains]
  by_cases heq : id = id'
  · simp [heq]
  · simp [heq, Ne.symm heq]

end CompilerState

section Compile

variable {σ π α : Type} (services : PlatformServices σ π α) (registry : ProjectionRegistry π α)

/-- What a compilation starts from: the state of a current snapshot, or events to reduce with
the state before them and the latest sequence. -/
inductive Prepared (α : Type)
  | current (state : α)
  | replay (events : List EventRecord) (initialState : Option α) (latestSeq : Int)

def prepare (projection : Projection π α) (world : σ) (projectId : UUID) (projectionId : String) :
    Except Exc (Prepared α) := do
  let snapshotPayload ← services.loadValidSnapshot world projectId projectionId
  let snapshotSeq := (snapshotPayload.map services.sequence).getD 0
  let latestSeq ← services.getLatestSequence world projectId
  match snapshotPayload with
  | some payload =>
      if snapshotSeq ≥ latestSeq then return .current (← projection.deserialize payload)
      let events ←
        if snapshotSeq > 0 then services.getEventsSince world projectId snapshotSeq
        else services.getProjectStream world projectId
      return .replay events (some (← projection.deserialize payload)) latestSeq
  | none => return .replay (← services.getProjectStream world projectId) none latestSeq

/-- The compilation of a projection whose dependencies are resolved. -/
def compileBody (projection : Projection π α) (s : CompilerState σ) (projectId : UUID)
    (projectionId : String) : CompilerState σ × Except Exc α :=
  match prepare services projection s.world projectId projectionId with
  | .error e => (s, .error e)
  | .ok (.current state) => (s, .ok state)
  | .ok (.replay events initialState latestSeq) =>
      let s := s.record (.reduced projectionId projectId)
      match projection.reduce events initialState with
      | .error e => (s, .error e)
      | .ok state =>
          if projection.metadata.snapshotable then
            ({ s with
              world := services.saveSnapshot s.world projectId projectionId state latestSeq },
              .ok state)
          else (s, .ok state)

/-- The loop over the dependencies of `projectionId`. -/
def resolveDependencies
    (compileDep : CompilerState σ → String → CompilerState σ × Except Exc α)
    (projectionId : String) :
    List ProjectionDependency → CompilerState σ → CompilerState σ × Except Exc Unit
  | [], s => (s, .ok ())
  | dep :: rest, s =>
      if s.hasHealth dep.projectionId then
        resolveDependencies compileDep projectionId rest s
      else
        let s := if registry.isRegistered dep.projectionId then s
          else s.record (.missing projectionId dep)
        match compileDep s dep.projectionId with
        | (s, .ok _) => resolveDependencies compileDep projectionId rest s
        | (s, .error e) => (s, .error e)

/-- `compile(project_id, projection_id)`. Calls nested deeper than the limit raise. -/
def compile : Nat → CompilerState σ → UUID → String → CompilerState σ × Except Exc α
  | 0, s, _, _ => (s, .error .recursionError)
  | limit + 1, s, projectId, projectionId =>
      match registry.get projectionId with
      | .error e => (s, .error e)
      | .ok projection =>
          let s := s.setHealth projectionId .building
          match resolveDependencies registry (fun s id => compile limit s projectId id)
              projectionId projection.metadata.dependencies s with
          | (s, .error e) => (s.setHealth projectionId .failed, .error e)
          | (s, .ok _) =>
              match compileBody services projection s projectId projectionId with
              | (s, .error e) => (s.setHealth projectionId .failed, .error e)
              | (s, .ok state) =>
                  ((s.setHealth projectionId .ready).record (.compiled projectionId projectId),
                    .ok state)

/-- `compile_all(project_id)` over the ids that are left. -/
def compileEach (limit : Nat) (projectId : UUID) :
    List String → CompilerState σ → CompilerState σ × Except Exc (List (String × α))
  | [], s => (s, .ok [])
  | projectionId :: rest, s =>
      match compile services registry limit s projectId projectionId with
      | (s, .error e) => (s, .error e)
      | (s, .ok state) =>
          match compileEach limit projectId rest s with
          | (s, .error e) => (s, .error e)
          | (s, .ok results) => (s, .ok ((projectionId, state) :: results))

def compileAll (limit : Nat) (s : CompilerState σ) (projectId : UUID) :
    CompilerState σ × Except Exc (List (String × α)) :=
  compileEach services registry limit projectId
    (registry.all.map fun projection => projection.metadata.id) s

/-- A call on the compiler, or anything that happens to the stores in between. -/
inductive CompilerCall (σ : Type)
  | compile (projectId : UUID) (projectionId : String)
  | compileAll (projectId : UUID)
  | outside (world : σ)

def callStep (limit : Nat) (s : CompilerState σ) : CompilerCall σ → CompilerState σ
  | .compile projectId projectionId =>
      (compile services registry limit s projectId projectionId).1
  | .compileAll projectId => (compileAll services registry limit s projectId).1
  | .outside world => { s with world := world }

def runCalls (limit : Nat) (s : CompilerState σ) (calls : List (CompilerCall σ)) :
    CompilerState σ :=
  calls.foldl (callStep services registry limit) s

end Compile

/-! ## The discipline and the condition -/

section Discipline

variable {σ π α : Type} (services : PlatformServices σ π α) (registry : ProjectionRegistry π α)

/-- Every reduction for a project comes after a successful compilation, for that project, of
every registered dependency, and no optional dependency was missed. -/
def Discipline (trace : List CompilerEvent) : Prop :=
  (∀ before after projectionId projectId,
    trace = before ++ .reduced projectionId projectId :: after →
    ∀ dep ∈ registry.dependencies projectionId, registry.isRegistered dep.projectionId = true →
      .compiled dep.projectionId projectId ∈ before) ∧
  (∀ projectionId dep, dep.optional = true → .missing projectionId dep ∉ trace)

/-- The projections that a call for `projectionId` compiles: itself, and the dependencies of
these that have no entry in the health table. -/
inductive Compiles (s : CompilerState σ) (projectionId : String) : String → Prop
  | self : Compiles s projectionId projectionId
  | dep {id : String} {dep : ProjectionDependency} (hid : Compiles s projectionId id)
      (hdep : dep ∈ registry.dependencies id) (hhealth : s.hasHealth dep.projectionId = false) :
      Compiles s projectionId dep.projectionId

/-- Every dependency of what the call compiles is registered, and if the health table has an
entry for it, it was compiled for this project or is one of `earlier`, which the same
`compile_all` compiles before. -/
def Settled (s : CompilerState σ) (projectId : UUID) (earlier : List String)
    (projectionId : String) : Prop :=
  ∀ id, Compiles registry s projectionId id → ∀ dep ∈ registry.dependencies id,
    registry.isRegistered dep.projectionId = true ∧
      (s.hasHealth dep.projectionId = true →
        .compiled dep.projectionId projectId ∈ s.trace ∨ dep.projectionId ∈ earlier)

/-- The condition on a call in the state before it. -/
def CallSettled (s : CompilerState σ) : CompilerCall σ → Prop
  | .compile projectId projectionId => Settled registry s projectId [] projectionId
  | .compileAll projectId =>
      ∀ earlier projectionId later,
        (registry.all.map fun projection => projection.metadata.id) =
          earlier ++ projectionId :: later →
        Settled registry s projectId earlier projectionId
  | .outside _ => True

/-- Every call of the run is settled in the state before it. -/
def AllSettled (limit : Nat) : CompilerState σ → List (CompilerCall σ) → Prop
  | _, [] => True
  | s, call :: rest =>
      CallSettled registry s call ∧
        AllSettled limit (callStep services registry limit s call) rest

end Discipline

/-! ## One call -/

section Call

variable {σ π α : Type} {services : PlatformServices σ π α} {registry : ProjectionRegistry π α}

theorem discipline_nil : Discipline registry [] := by
  constructor
  · intro before after projectionId projectId h
    simp at h
  · intro projectionId dep _ h
    cases h

theorem Discipline.concat {trace : List CompilerEvent} (h : Discipline registry trace)
    {e : CompilerEvent}
    (hreduced : ∀ projectionId projectId, e = .reduced projectionId projectId →
      ∀ dep ∈ registry.dependencies projectionId, registry.isRegistered dep.projectionId = true →
        .compiled dep.projectionId projectId ∈ trace)
    (hmissing : ∀ projectionId dep, e = .missing projectionId dep → dep.optional = false) :
    Discipline registry (trace ++ [e]) := by
  constructor
  · intro before after projectionId projectId htrace
    rcases List.eq_nil_or_concat after with rfl | ⟨rest, last, rfl⟩
    · obtain ⟨rfl, he⟩ := List.append_inj' htrace rfl
      exact hreduced projectionId projectId (List.singleton_inj.mp he)
    · have hsplit : trace ++ [e] = (before ++ .reduced projectionId projectId :: rest) ++ [last] := by
        simpa using htrace
      obtain ⟨hrest, -⟩ := List.append_inj' hsplit rfl
      exact h.1 before rest projectionId projectId hrest
  · intro projectionId dep hoptional hmem
    rcases List.mem_append.mp hmem with hmem | hmem
    · exact h.2 projectionId dep hoptional hmem
    · have hfalse := hmissing projectionId dep (List.mem_singleton.mp hmem).symm
      rw [hoptional] at hfalse
      cases hfalse

/-- How a state can change while a projection is being compiled. -/
structure Progress (registry : ProjectionRegistry π α) (s s' : CompilerState σ) : Prop where
  discipline : Discipline registry s'.trace
  trace : s.trace ⊆ s'.trace
  health : ∀ id, s.hasHealth id = true → s'.hasHealth id = true

namespace Progress

variable {s s' s'' : CompilerState σ}

theorem refl (h : Discipline registry s.trace) : Progress registry s s :=
  ⟨h, List.Subset.refl _, fun _ hid => hid⟩

theorem trans (h : Progress registry s s') (h' : Progress registry s' s'') :
    Progress registry s s'' where
  discipline := h'.discipline
  trace := List.Subset.trans h.trace h'.trace
  health := fun id hid => h'.health id (h.health id hid)

theorem setHealth (h : Progress registry s s') (id : String) (health : ProjectionHealth) :
    Progress registry s (s'.setHealth id health) where
  discipline := h.discipline
  trace := h.trace
  health := by
    intro id' hid'
    rw [CompilerState.hasHealth_setHealth]
    exact .inr (h.health id' hid')

theorem record (h : Progress registry s s') {e : CompilerEvent}
    (hdiscipline : Discipline registry (s'.trace ++ [e])) : Progress registry s (s'.record e) where
  discipline := hdiscipline
  trace := List.Subset.trans h.trace (List.subset_append_left _ _)
  health := h.health

theorem compiled (h : Progress registry s s') (id : String) (projectId : UUID) :
    Progress registry s (s'.record (.compiled id projectId)) := by
  apply h.record
  apply h.discipline.concat
  · intro projectionId projectId' he
    cases he
  · intro projectionId dep he
    cases he

/-- What has no entry afterwards had none before. -/
theorem hasHealth_false (h : Progress registry s s') {id : String}
    (hid : s'.hasHealth id = false) : s.hasHealth id = false := by
  by_contra hne
  rw [h.health id (by simpa using hne)] at hid
  cases hid

end Progress

/-- What a successful call adds to the health table was compiled for its project. -/
def Fresh (projectId : UUID) (s s' : CompilerState σ) : Prop :=
  ∀ id, s'.hasHealth id = true → s.hasHealth id = true ∨ .compiled id projectId ∈ s'.trace

theorem Fresh.trans {projectId : UUID} {s s' s'' : CompilerState σ} (h : Fresh projectId s s')
    (htrace : s'.trace ⊆ s''.trace) (h' : Fresh projectId s' s'') : Fresh projectId s s'' := by
  intro id hid
  obtain hid | hnew := h' id hid
  · obtain hold | hnew := h id hid
    · exact .inl hold
    · exact .inr (htrace hnew)
  · exact .inr hnew

/-- What one compilation does to the state. -/
structure CompileSpec (registry : ProjectionRegistry π α) (projectId : UUID)
    (projectionId : String) (s s' : CompilerState σ) (result : Except Exc α) : Prop where
  progress : Progress registry s s'
  fresh : result.isOk = true → Fresh projectId s s'
  compiled : result.isOk = true → .compiled projectionId projectId ∈ s'.trace
  health : result.isOk = true → s'.hasHealth projectionId = true

/-- The state inside the loop over the dependencies of `projectionId`. -/
structure Resolving (registry : ProjectionRegistry π α) (projectId : UUID)
    (projectionId : String) (s s' : CompilerState σ) : Prop extends Progress registry s s' where
  building : s'.hasHealth projectionId = true
  known : ∀ id, s'.hasHealth id = true →
    s.hasHealth id = true ∨ id = projectionId ∨ .compiled id projectId ∈ s'.trace

theorem Resolving.start {s : CompilerState σ} (h : Discipline registry s.trace)
    (projectId : UUID) (projectionId : String) :
    Resolving registry projectId projectionId s (s.setHealth projectionId .building) where
  toProgress := (Progress.refl h).setHealth projectionId .building
  building := by
    rw [CompilerState.hasHealth_setHealth]
    exact .inl rfl
  known := by
    intro id hid
    rw [CompilerState.hasHealth_setHealth] at hid
    obtain heq | hid := hid
    · exact .inr (.inl heq)
    · exact .inl hid

theorem Resolving.next {s s₁ s₂ : CompilerState σ} {projectId : UUID} {projectionId : String}
    (h : Resolving registry projectId projectionId s s₁) (hprogress : Progress registry s₁ s₂)
    (hfresh : Fresh projectId s₁ s₂) : Resolving registry projectId projectionId s s₂ where
  toProgress := h.toProgress.trans hprogress
  building := hprogress.health projectionId h.building
  known := by
    intro id hid
    obtain hid | hnew := hfresh id hid
    · obtain hold | heq | hnew := h.known id hid
      · exact .inl hold
      · exact .inr (.inl heq)
      · exact .inr (.inr (hprogress.trace hnew))
    · exact .inr (.inr hnew)

/-- A call that is settled earlier is settled later, when it compiles no more than before and
the entries it relies on are old or were compiled for its project. -/
theorem Settled.later {s s' : CompilerState σ} {projectId : UUID} {earlier : List String}
    {projectionId projectionId' : String}
    (hsettled : Settled registry s projectId earlier projectionId)
    (htrace : s.trace ⊆ s'.trace)
    (hearlier : ∀ id ∈ earlier, .compiled id projectId ∈ s'.trace)
    (hcompiles : ∀ id, Compiles registry s' projectionId' id →
      Compiles registry s projectionId id)
    (hknown : ∀ id, Compiles registry s' projectionId' id → ∀ dep ∈ registry.dependencies id,
      s'.hasHealth dep.projectionId = true →
        s.hasHealth dep.projectionId = true ∨ .compiled dep.projectionId projectId ∈ s'.trace) :
    Settled registry s' projectId [] projectionId' := by
  intro id hid dep hdep
  obtain ⟨hregistered, hcompiled⟩ := hsettled id (hcompiles id hid) dep hdep
  refine ⟨hregistered, fun hhealth => .inl ?_⟩
  obtain hold | hnew := hknown id hid dep hdep hhealth
  · obtain hmem | hmem := hcompiled hold
    · exact htrace hmem
    · exact hearlier _ hmem
  · exact hnew

theorem isRegistered_of_mem_dependencies {id : String} {dep : ProjectionDependency}
    (h : dep ∈ registry.dependencies id) : registry.isRegistered id = true := by
  unfold ProjectionRegistry.dependencies at h
  unfold ProjectionRegistry.isRegistered OrdDict.contains
  cases hget : registry.projections.get? id with
  | none => simp [hget] at h
  | some projection => rfl

/-- Besides the world, the compilation after the dependencies touches the trace only: it is one
reduction at most. -/
theorem compileBody_spec {projection : Projection π α} {s s' : CompilerState σ}
    {projectId : UUID} {projectionId : String} {result : Except Exc α}
    (h : compileBody services projection s projectId projectionId = (s', result)) :
    s'.health = s.health ∧
      (s'.trace = s.trace ∨ s'.trace = s.trace ++ [.reduced projectionId projectId]) := by
  unfold compileBody at h
  split at h
  · obtain ⟨rfl, -⟩ := Prod.mk.inj h
    exact ⟨rfl, .inl rfl⟩
  · obtain ⟨rfl, -⟩ := Prod.mk.inj h
    exact ⟨rfl, .inl rfl⟩
  · suffices hs : s'.health = s.health ∧
        s'.trace = s.trace ++ [.reduced projectionId projectId] from ⟨hs.1, .inr hs.2⟩
    split at h
    · obtain ⟨rfl, -⟩ := Prod.mk.inj h
      exact ⟨rfl, rfl⟩
    · split at h
      · obtain ⟨rfl, -⟩ := Prod.mk.inj h
        exact ⟨rfl, rfl⟩
      · obtain ⟨rfl, -⟩ := Prod.mk.inj h
        exact ⟨rfl, rfl⟩

theorem CompileSpec.failed {s s' : CompilerState σ} {projectId : UUID} {projectionId : String}
    (h : Progress registry s s') (e : Exc) :
    CompileSpec registry projectId projectionId s s' (.error e : Except Exc α) :=
  ⟨h, nofun, nofun, nofun⟩

/-- A reduction after all dependencies were compiled stays inside the loop's invariant. -/
theorem Resolving.body {projection : Projection π α} {s s₁ s₂ : CompilerState σ}
    {projectId : UUID} {projectionId : String} {result : Except Exc α}
    (h : Resolving registry projectId projectionId s s₁)
    (hcompiled : ∀ dep ∈ registry.dependencies projectionId,
      .compiled dep.projectionId projectId ∈ s₁.trace)
    (hrun : compileBody services projection s₁ projectId projectionId = (s₂, result)) :
    Resolving registry projectId projectionId s s₂ := by
  obtain ⟨hhealth, htrace⟩ := compileBody_spec hrun
  have hhas : ∀ id, s₂.hasHealth id = s₁.hasHealth id := by
    intro id
    rw [CompilerState.hasHealth, hhealth, CompilerState.hasHealth]
  have hsub : s₁.trace ⊆ s₂.trace := by
    obtain heq | heq := htrace
    · rw [heq]
      exact List.Subset.refl _
    · rw [heq]
      exact List.subset_append_left _ _
  have hdiscipline : Discipline registry s₂.trace := by
    obtain heq | heq := htrace
    · rw [heq]
      exact h.discipline
    · rw [heq]
      apply h.discipline.concat
      · intro id p he dep hdep _
        obtain ⟨rfl, rfl⟩ := CompilerEvent.reduced.inj he
        exact hcompiled dep hdep
      · intro id dep he
        cases he
  exact {
    discipline := hdiscipline
    trace := List.Subset.trans h.trace hsub
    health := fun id hid => (hhas id).trans (h.health id hid)
    building := (hhas projectionId).trans h.building
    known := by
      intro id hid
      rw [hhas] at hid
      obtain hold | heq | hnew := h.known id hid
      · exact .inl hold
      · exact .inr (.inl heq)
      · exact .inr (.inr (hsub hnew)) }

/-- The end of a successful compilation. -/
theorem Resolving.ready {s s' : CompilerState σ} {projectId : UUID} {projectionId : String}
    (h : Resolving registry projectId projectionId s s') (state : α) :
    CompileSpec registry projectId projectionId s
      ((s'.setHealth projectionId .ready).record (.compiled projectionId projectId))
      (.ok state) where
  progress := (h.toProgress.setHealth _ _).compiled _ _
  fresh := by
    intro _ id hid
    rw [CompilerState.hasHealth_record, CompilerState.hasHealth_setHealth] at hid
    rw [CompilerState.trace_record, CompilerState.trace_setHealth]
    have hknown : s.hasHealth id = true ∨ id = projectionId ∨ .compiled id projectId ∈ s'.trace := by
      obtain rfl | hid := hid
      · exact .inr (.inl rfl)
      · exact h.known id hid
    obtain hold | rfl | hnew := hknown
    · exact .inl hold
    · exact .inr (List.mem_append_right _ (List.mem_singleton.mpr rfl))
    · exact .inr (List.mem_append_left _ hnew)
  compiled := fun _ => List.mem_append_right _ (List.mem_singleton.mpr rfl)
  health := by
    intro _
    rw [CompilerState.hasHealth_record, CompilerState.hasHealth_setHealth]
    exact .inl rfl

variable {rank : String → Nat}
  (hrank : ∀ id, registry.isRegistered id = true → ∀ d ∈ registry.successors id, rank d < rank id)
include hrank

theorem rank_lt_of_settled {s : CompilerState σ} {projectId : UUID} {projectionId id : String}
    (hsettled : Settled registry s projectId [] projectionId)
    (hid : Compiles registry s projectionId id) {dep : ProjectionDependency}
    (hdep : dep ∈ registry.dependencies id) : rank dep.projectionId < rank id :=
  hrank id (isRegistered_of_mem_dependencies hdep) _
    (ProjectionRegistry.mem_successors.mpr ⟨⟨dep, hdep, rfl⟩, (hsettled id hid dep hdep).1⟩)

/-- Inside the loop, the compilation of a dependency is settled again: an entry that was added
meanwhile is one of this project, and the projection being compiled lies above. -/
theorem Resolving.settled {s s' : CompilerState σ} {projectId : UUID} {projectionId : String}
    (h : Resolving registry projectId projectionId s s')
    (hsettled : Settled registry s projectId [] projectionId) {dep : ProjectionDependency}
    (hdep : dep ∈ registry.dependencies projectionId)
    (hhealth : s'.hasHealth dep.projectionId = false) :
    Settled registry s' projectId [] dep.projectionId := by
  have hcompiles : ∀ id, Compiles registry s' dep.projectionId id →
      Compiles registry s projectionId id ∧ rank id < rank projectionId := by
    intro id hid
    induction hid with
    | self =>
        exact ⟨.dep .self hdep (h.hasHealth_false hhealth),
          rank_lt_of_settled hrank hsettled .self hdep⟩
    | dep _ hdep' hhealth' ih =>
        exact ⟨.dep ih.1 hdep' (h.hasHealth_false hhealth'),
          (rank_lt_of_settled hrank hsettled ih.1 hdep').trans ih.2⟩
  apply hsettled.later h.trace (by simp) (fun id hid => (hcompiles id hid).1)
  intro id hid dep' hdep' hhealth'
  obtain ⟨hid, hlt⟩ := hcompiles id hid
  obtain hold | heq | hnew := h.known _ hhealth'
  · exact .inl hold
  · have hlt' := rank_lt_of_settled hrank hsettled hid hdep'
    rw [heq] at hlt'
    exact absurd hlt' (Nat.lt_asymm hlt)
  · exact .inr hnew

/-- When all dependencies have an entry, all were compiled for the project. -/
theorem Resolving.compiled {s s' : CompilerState σ} {projectId : UUID} {projectionId : String}
    (h : Resolving registry projectId projectionId s s')
    (hsettled : Settled registry s projectId [] projectionId)
    {dep : ProjectionDependency} (hdep : dep ∈ registry.dependencies projectionId)
    (hhealth : s'.hasHealth dep.projectionId = true) :
    .compiled dep.projectionId projectId ∈ s'.trace := by
  obtain hold | heq | hnew := h.known _ hhealth
  · obtain hmem | hmem := (hsettled projectionId .self dep hdep).2 hold
    · exact h.trace hmem
    · cases hmem
  · have hlt := rank_lt_of_settled hrank hsettled .self hdep
    rw [heq] at hlt
    exact absurd hlt (Nat.lt_irrefl _)
  · exact hnew

/-- The loop over the dependencies, given what a compilation does. -/
theorem resolveDependencies_spec
    {compileDep : CompilerState σ → String → CompilerState σ × Except Exc α} {projectId : UUID}
    {projectionId : String} {s : CompilerState σ}
    (hcompile : ∀ s₁ s₂ id result, Discipline registry s₁.trace →
      Settled registry s₁ projectId [] id → compileDep s₁ id = (s₂, result) →
      CompileSpec registry projectId id s₁ s₂ result)
    (hsettled : Settled registry s projectId [] projectionId)
    {deps : List ProjectionDependency} (hdeps : deps ⊆ registry.dependencies projectionId)
    {s₁ s₂ : CompilerState σ} {result : Except Exc Unit}
    (h : Resolving registry projectId projectionId s s₁)
    (hrun : resolveDependencies registry compileDep projectionId deps s₁ = (s₂, result)) :
    Progress registry s₁ s₂ ∧
      (result = .ok () → Resolving registry projectId projectionId s s₂ ∧
        ∀ dep ∈ deps, s₂.hasHealth dep.projectionId = true) := by
  induction deps generalizing s₁ with
  | nil =>
      obtain ⟨rfl, rfl⟩ := Prod.mk.inj hrun
      exact ⟨Progress.refl h.discipline, fun _ => ⟨h, by simp⟩⟩
  | cons dep rest ih =>
      obtain ⟨hdep, hrest⟩ := List.cons_subset.mp hdeps
      rw [resolveDependencies] at hrun
      by_cases hhealth : s₁.hasHealth dep.projectionId = true
      · rw [if_pos hhealth] at hrun
        obtain ⟨hprogress, hok⟩ := ih hrest h hrun
        refine ⟨hprogress, fun hresult => ⟨(hok hresult).1, ?_⟩⟩
        intro dep' hdep'
        obtain rfl | hdep' := List.mem_cons.mp hdep'
        · exact hprogress.health _ hhealth
        · exact (hok hresult).2 dep' hdep'
      · rw [if_neg hhealth, if_pos (hsettled projectionId .self dep hdep).1] at hrun
        have hnext := h.settled hrank hsettled hdep (by simpa using hhealth)
        cases hcall : compileDep s₁ dep.projectionId with
        | mk s₃ result₃ =>
            have hspec := hcompile s₁ s₃ dep.projectionId result₃ h.discipline hnext hcall
            simp only [hcall] at hrun
            cases result₃ with
            | error e =>
                obtain ⟨rfl, rfl⟩ := Prod.mk.inj hrun
                exact ⟨hspec.progress, fun hresult => by cases hresult⟩
            | ok state =>
                obtain ⟨hprogress, hok⟩ :=
                  ih hrest (h.next hspec.progress (hspec.fresh rfl)) hrun
                refine ⟨hspec.progress.trans hprogress, fun hresult => ⟨(hok hresult).1, ?_⟩⟩
                intro dep' hdep'
                obtain rfl | hdep' := List.mem_cons.mp hdep'
                · exact hprogress.health _ (hspec.health rfl)
                · exact (hok hresult).2 dep' hdep'

/-- One compilation that is settled keeps the discipline. -/
theorem compile_spec (limit : Nat) {s s' : CompilerState σ} {projectId : UUID}
    {projectionId : String} {result : Except Exc α} (hdiscipline : Discipline registry s.trace)
    (hsettled : Settled registry s projectId [] projectionId)
    (hrun : compile services registry limit s projectId projectionId = (s', result)) :
    CompileSpec registry projectId projectionId s s' result := by
  induction limit generalizing s s' projectionId result with
  | zero =>
      obtain ⟨rfl, rfl⟩ := Prod.mk.inj hrun
      exact .failed (.refl hdiscipline) _
  | succ limit ih =>
      rw [compile] at hrun
      cases hget : registry.get projectionId with
      | error e =>
          simp only [hget] at hrun
          obtain ⟨rfl, rfl⟩ := Prod.mk.inj hrun
          exact .failed (.refl hdiscipline) _
      | ok projection =>
          have hdependencies := registry.dependencies_of_get hget
          have hstart := Resolving.start hdiscipline projectId projectionId
          simp only [hget, ← hdependencies] at hrun
          cases hloop : resolveDependencies registry
              (fun s id => compile services registry limit s projectId id) projectionId
              (registry.dependencies projectionId) (s.setHealth projectionId .building) with
          | mk s₁ resolved =>
              obtain ⟨hprogress, hok⟩ := resolveDependencies_spec hrank
                (fun s₁ s₂ id result hd hs hc => ih hd hs hc) hsettled
                (List.Subset.refl _) hstart hloop
              simp only [hloop] at hrun
              cases resolved with
              | error e =>
                  obtain ⟨rfl, rfl⟩ := Prod.mk.inj hrun
                  exact .failed ((hstart.toProgress.trans hprogress).setHealth _ _) _
              | ok _ =>
                  obtain ⟨hresolving, hall⟩ := hok rfl
                  cases hbody : compileBody services projection s₁ projectId projectionId with
                  | mk s₂ compiled =>
                      have hresolved := hresolving.body
                        (fun dep hdep => hresolving.compiled hrank hsettled hdep (hall dep hdep))
                        hbody
                      simp only [hbody] at hrun
                      cases compiled with
                      | error e =>
                          obtain ⟨rfl, rfl⟩ := Prod.mk.inj hrun
                          exact .failed (hresolved.toProgress.setHealth _ _) _
                      | ok state =>
                          obtain ⟨rfl, rfl⟩ := Prod.mk.inj hrun
                          exact hresolved.ready state

/-- The calls of a `compile_all`, of which those for `earlier` have succeeded. -/
theorem compileEach_spec (limit : Nat) {projectId : UUID} (earlier : List String) {ids : List String}
    {s s₁ s₂ : CompilerState σ} {result : Except Exc (List (String × α))}
    (hsettled : ∀ before projectionId after, ids = before ++ projectionId :: after →
      Settled registry s projectId (earlier ++ before) projectionId)
    (hprogress : Progress registry s s₁) (hfresh : Fresh projectId s s₁)
    (hearlier : ∀ id ∈ earlier, .compiled id projectId ∈ s₁.trace)
    (hrun : compileEach services registry limit projectId ids s₁ = (s₂, result)) :
    Discipline registry s₂.trace := by
  induction ids generalizing earlier s₁ s₂ result with
  | nil =>
      obtain ⟨rfl, -⟩ := Prod.mk.inj hrun
      exact hprogress.discipline
  | cons projectionId rest ih =>
      have hnow : Settled registry s₁ projectId [] projectionId := by
        have hhere := hsettled [] projectionId rest rfl
        rw [List.append_nil] at hhere
        apply hhere.later hprogress.trace hearlier
        · intro id hid
          induction hid with
          | self => exact .self
          | dep _ hdep hhealth ih => exact .dep ih hdep (hprogress.hasHealth_false hhealth)
        · intro id _ dep _ hhealth
          exact hfresh _ hhealth
      have hnext : ∀ before id after, rest = before ++ id :: after →
          Settled registry s projectId (earlier ++ [projectionId] ++ before) id := by
        intro before id after hids
        rw [List.append_assoc]
        exact hsettled (projectionId :: before) id after (congrArg (projectionId :: ·) hids)
      rw [compileEach] at hrun
      cases hcall : compile services registry limit s₁ projectId projectionId with
      | mk s₃ compiled =>
          have hspec := compile_spec hrank limit hprogress.discipline hnow hcall
          simp only [hcall] at hrun
          cases compiled with
          | error e =>
              obtain ⟨rfl, -⟩ := Prod.mk.inj hrun
              exact hspec.progress.discipline
          | ok state =>
              have hearlier' : ∀ id ∈ earlier ++ [projectionId],
                  .compiled id projectId ∈ s₃.trace := by
                intro id hid
                obtain hid | hid := List.mem_append.mp hid
                · exact hspec.progress.trace (hearlier id hid)
                · rw [List.mem_singleton.mp hid]
                  exact hspec.compiled rfl
              cases hrest : compileEach services registry limit projectId rest s₃ with
              | mk s₄ results =>
                  have hdiscipline := ih (earlier ++ [projectionId]) hnext (hprogress.trans hspec.progress)
                    (hfresh.trans hspec.progress.trace (hspec.fresh rfl)) hearlier' hrest
                  simp only [hrest] at hrun
                  cases results with
                  | error e =>
                      obtain ⟨rfl, -⟩ := Prod.mk.inj hrun
                      exact hdiscipline
                  | ok results =>
                      obtain ⟨rfl, -⟩ := Prod.mk.inj hrun
                      exact hdiscipline

/-- One call of a run. -/
theorem callStep_spec (limit : Nat) {s : CompilerState σ} {call : CompilerCall σ}
    (hdiscipline : Discipline registry s.trace) (hsettled : CallSettled registry s call) :
    Discipline registry (callStep services registry limit s call).trace := by
  cases call with
  | compile projectId projectionId =>
      exact (compile_spec hrank limit hdiscipline hsettled rfl).progress.discipline
  | compileAll projectId =>
      exact compileEach_spec hrank limit [] hsettled (.refl hdiscipline)
        (fun _ hid => .inl hid) (by simp) rfl
  | outside world => exact hdiscipline

/-- All calls of a run. -/
theorem runCalls_spec (limit : Nat) {s : CompilerState σ} {calls : List (CompilerCall σ)}
    (hdiscipline : Discipline registry s.trace)
    (hsettled : AllSettled services registry limit s calls) :
    Discipline registry (runCalls services registry limit s calls).trace := by
  induction calls generalizing s with
  | nil => exact hdiscipline
  | cons call rest ih =>
      obtain ⟨hcall, hrest⟩ := hsettled
      exact ih (callStep_spec hrank limit hdiscipline hcall) hrest

end Call

/-- A dependency that is not registered raises when the compiler turns to it, optional or not. -/
theorem compile_of_not_registered {σ π α : Type} (services : PlatformServices σ π α)
    {registry : ProjectionRegistry π α} (limit : Nat) (s : CompilerState σ) (projectId : UUID)
    {projectionId : String} (h : registry.isRegistered projectionId = false) :
    compile services registry (limit + 1) s projectId projectionId =
      (s, .error (.projectionNotFoundError ("Projection '" ++ projectionId ++ "' not found"))) := by
  have hget : registry.projections.get? projectionId = none := by
    unfold ProjectionRegistry.isRegistered OrdDict.contains at h
    exact Option.isSome_eq_false_iff.mp h |> Option.isNone_iff_eq_none.mp
  rw [compile, ProjectionRegistry.get, hget]

/-- In a run over an accepted registry in which every call is settled, the discipline holds. -/
theorem dependency_discipline {σ π α : Type} (services : PlatformServices σ π α)
    {registry : ProjectionRegistry π α} (searchLimit : Nat) (ids : List String)
    (hids : ∀ id, registry.isRegistered id = true → id ∈ ids)
    (haccepted : registry.validateDependencies searchLimit ids = .ok ())
    (limit : Nat) (world : σ) (calls : List (CompilerCall σ))
    (hsettled : AllSettled services registry limit { world := world } calls) :
    Discipline registry (runCalls services registry limit { world := world } calls).trace := by
  obtain ⟨rank, hrank⟩ := ProjectionRegistry.exists_rank hids haccepted
  exact runCalls_spec hrank limit discipline_nil hsettled

/-! ## Two layers and two projects -/

def emptyServices : PlatformServices Unit Unit Unit where
  loadValidSnapshot _ _ _ := .ok none
  sequence _ := 0
  getLatestSequence _ _ := .ok 0
  getEventsSince _ _ _ := .ok []
  getProjectStream _ _ := .ok []
  saveSnapshot world _ _ _ _ := world

def unitProjection (metadata : ProjectionMetadata) : Projection Unit Unit where
  metadata := metadata
  reduce _ _ := .ok ()
  deserialize _ := .ok ()

def dependingProjection (dep : ProjectionDependency) : Projection Unit Unit :=
  unitProjection { id := "derived", dependencies := [dep] }

/-- `derived` depends on `base`, which is registered. -/
def twoLayers : ProjectionRegistry Unit Unit where
  projections := (OrdDict.empty.set "base" (unitProjection { id := "base" })).set "derived"
    (dependingProjection { projectionId := "base", kind := .state })
  ids := by decide

/-- `derived` can do without `base`, which is not registered. -/
def topLayer : ProjectionRegistry Unit Unit where
  projections := OrdDict.empty.set "derived"
    (dependingProjection { projectionId := "base", kind := .state, optional := true })
  ids := by decide

/-- The second project finds the entry of the first one; the optional dependency raises. -/
theorem second_project_skips_dependency :
    (twoLayers.validateDependencies 3 ["base", "derived"] = .ok () ∧
      ¬ Discipline twoLayers (runCalls emptyServices twoLayers 3 { world := () }
        [.compile ⟨1, by decide⟩ "derived", .compile ⟨2, by decide⟩ "derived"]).trace) ∧
    (topLayer.validateDependencies 3 ["derived"] = .ok () ∧
      (compile emptyServices topLayer 3 { world := () } ⟨1, by decide⟩ "derived").2 =
        .error (.projectionNotFoundError "Projection 'base' not found") ∧
      ¬ Discipline topLayer (runCalls emptyServices topLayer 3 { world := () }
        [.compile ⟨1, by decide⟩ "derived"]).trace) := by
  refine ⟨⟨rfl, fun h => ?_⟩, rfl, rfl, fun h => ?_⟩
  · have hbase := h.1
      [.reduced "base" ⟨1, by decide⟩, .compiled "base" ⟨1, by decide⟩,
        .reduced "derived" ⟨1, by decide⟩, .compiled "derived" ⟨1, by decide⟩]
      [.compiled "derived" ⟨2, by decide⟩] "derived" ⟨2, by decide⟩ rfl
      { projectionId := "base", kind := .state } (List.mem_singleton.mpr rfl) rfl
    revert hbase
    decide
  · apply h.2 "derived" { projectionId := "base", kind := .state, optional := true } rfl
    decide

theorem twoLayers_dependencies {id : String} {dep : ProjectionDependency}
    (h : dep ∈ twoLayers.dependencies id) : id = "derived" ∧ dep.projectionId = "base" := by
  unfold ProjectionRegistry.dependencies at h
  unfold twoLayers at h
  by_cases hderived : id = "derived"
  · subst hderived
    rw [OrdDict.get?_set_self] at h
    rw [List.mem_singleton.mp h]
    exact ⟨rfl, rfl⟩
  · rw [OrdDict.get?_set_of_ne _ _ (Ne.symm hderived)] at h
    by_cases hbase : id = "base"
    · subst hbase
      cases h
    · rw [OrdDict.get?_set_of_ne _ _ (Ne.symm hbase)] at h
      cases h

theorem settled_derived {σ : Type} {s : CompilerState σ} {projectId : UUID}
    {earlier : List String}
    (h : s.hasHealth "base" = true →
      .compiled "base" projectId ∈ s.trace ∨ "base" ∈ earlier) :
    Settled twoLayers s projectId earlier "derived" := by
  intro id _ dep hdep
  rw [(twoLayers_dependencies hdep).2]
  exact ⟨rfl, h⟩

theorem settled_base {σ : Type} (s : CompilerState σ) (projectId : UUID)
    (earlier : List String) : Settled twoLayers s projectId earlier "base" := by
  intro id hid dep hdep
  have hbase : id = "base" := by
    induction hid with
    | self => rfl
    | dep _ hdep' _ _ => exact (twoLayers_dependencies hdep').2
  rw [hbase] at hdep
  exact absurd (twoLayers_dependencies hdep).1 (by decide)

/-- A `compile_all` for the second project keeps the discipline. -/
theorem second_project_compiles_all :
    Discipline twoLayers (runCalls emptyServices twoLayers 3 { world := () }
      [.compile ⟨1, by decide⟩ "derived", .compileAll ⟨2, by decide⟩]).trace := by
  apply dependency_discipline emptyServices 3 ["base", "derived"]
  · intro id hid
    exact (OrdDict.contains_iff _ _).mp hid
  · rfl
  · refine ⟨settled_derived (by decide), ?_, trivial⟩
    intro earlier projectionId later (h : ["base", "derived"] = earlier ++ projectionId :: later)
    match earlier, h with
    | [], h =>
        obtain ⟨rfl, -⟩ := List.cons.inj h
        exact settled_base _ _ _
    | [first], h =>
        obtain ⟨rfl, htail⟩ := List.cons.inj h
        obtain ⟨rfl, -⟩ := List.cons.inj htail
        exact settled_derived fun _ => .inr (List.mem_singleton.mpr rfl)
    | first :: second :: rest, h => simp at h

end RationaleVault.ProjectionPlatform
