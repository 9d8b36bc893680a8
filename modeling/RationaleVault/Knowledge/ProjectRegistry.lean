import RationaleVault.Library.Sha256
import RationaleVault.Library.SharedCopies
import RationaleVault.Python

/-!
# The registry of projects

Every command loads the registry file, changes its copy and writes the whole
copy back; the lock is held for the writing only. Whatever the commands
interleave, no project is ever listed twice. A registration is only sure to last
if every later command loads the file after the one before has written it.
-/

namespace RationaleVault.Knowledge

structure ProjectEntry where
  id : String
  name : String
  path : String
  registeredAt : String
  tags : List String := []
  deriving DecidableEq

structure ProjectRegistry where
  projects : List ProjectEntry := []
  deriving DecidableEq

/-- What `pathlib` tells of paths. A resolved path resolves to itself. -/
structure Paths where
  resolve : String → String
  pathExists : String → Bool
  name : String → String
  resolve_resolve : ∀ p, resolve (resolve p) = resolve p

namespace ProjectRegistry

variable (paths : Paths)

/-- The id of a project by its resolved path. -/
def projectId (resolved : String) : String :=
  String.ofList ((Sha256.hexdigest resolved).toList.take 12)

/-- `register(project_path)` before the registry is saved; `now` is the time of registration. -/
def register (now : String) (registry : ProjectRegistry) (projectPath : String) :
    Except Exc (ProjectRegistry × ProjectEntry) :=
  let resolved := paths.resolve projectPath
  if paths.pathExists resolved = false then
    .error (.valueError ("Path does not exist: " ++ resolved))
  else
    match registry.projects.find? fun entry => paths.resolve entry.path = resolved with
    | some entry => .error (.valueError ("Project already registered: " ++ entry.id))
    | none =>
        let entry : ProjectEntry := {
          id := projectId resolved
          name := paths.name resolved
          path := resolved
          registeredAt := now }
        .ok (⟨registry.projects ++ [entry]⟩, entry)

/-- `unregister(project_id)`: the registry and whether it was changed and saved. -/
def unregister (registry : ProjectRegistry) (id : String) : ProjectRegistry × Bool :=
  let projects := registry.projects.filter fun p => p.id ≠ id
  (⟨projects⟩, projects.length < registry.projects.length)

/-! ## Commands -/

inductive Command
  | register (now projectPath : String)
  | unregister (id : String)

/-- What a command saves, if anything. -/
def save : Command → ProjectRegistry → Option ProjectRegistry
  | .register now projectPath, registry =>
      match registry.register paths now projectPath with
      | .ok (registry', _) => some registry'
      | .error _ => none
  | .unregister id, registry =>
      if (registry.unregister id).2 then some (registry.unregister id).1 else none

/-- The entries are of pairwise different resolved paths, each under the id of its path. -/
structure WellFormed (registry : ProjectRegistry) : Prop where
  nodup : (registry.projects.map ProjectEntry.path).Nodup
  resolved : ∀ entry ∈ registry.projects, paths.resolve entry.path = entry.path
  id : ∀ entry ∈ registry.projects, entry.id = projectId entry.path

variable {paths} {registry registry' : ProjectRegistry}

/-- What a registration adds. -/
theorem register_eq_ok {now projectPath : String} {entry : ProjectEntry}
    (h : registry.register paths now projectPath = .ok (registry', entry)) :
    (∀ e ∈ registry.projects, paths.resolve e.path ≠ paths.resolve projectPath) ∧
      entry.path = paths.resolve projectPath ∧ entry.id = projectId entry.path ∧
      registry' = ⟨registry.projects ++ [entry]⟩ := by
  rw [register] at h
  dsimp only at h
  split_ifs at h
  split at h
  · cases h
  · rename_i hfind
    obtain ⟨rfl, rfl⟩ := Prod.mk.inj (Except.ok.inj h)
    exact ⟨by simpa using hfind, rfl, rfl, rfl⟩

/-- What a command saves keeps the entries of its copy but those that are unregistered. -/
theorem save_eq_some {command : Command} (h : save paths command registry = some registry') :
    (∃ now projectPath entry, command = .register now projectPath ∧
        registry.register paths now projectPath = .ok (registry', entry)) ∨
      ∃ id, command = .unregister id ∧
        registry' = ⟨registry.projects.filter fun p => p.id ≠ id⟩ := by
  cases command with
  | register now projectPath =>
      rw [save] at h
      cases hregister : registry.register paths now projectPath with
      | error e => rw [hregister] at h; cases h
      | ok r =>
          rw [hregister] at h
          obtain rfl : r.1 = registry' := Option.some.inj h
          exact Or.inl ⟨now, projectPath, r.2, rfl, hregister⟩
  | unregister id =>
      rw [save] at h
      split_ifs at h
      exact Or.inr ⟨id, rfl, (Option.some.inj h).symm⟩

theorem wellFormed_empty : WellFormed paths {} :=
  ⟨List.nodup_nil, fun _ h => (by cases h), fun _ h => (by cases h)⟩

theorem WellFormed.save {command : Command} (h : WellFormed paths registry)
    (hsave : save paths command registry = some registry') : WellFormed paths registry' := by
  obtain ⟨now, projectPath, entry, -, hregister⟩ | ⟨id, -, rfl⟩ := save_eq_some hsave
  · obtain ⟨hnew, hpath, hid, rfl⟩ := register_eq_ok hregister
    have hentry : paths.resolve entry.path = entry.path := by rw [hpath, paths.resolve_resolve]
    refine ⟨?_, fun e he => ?_, fun e he => ?_⟩
    · rw [List.map_append, List.map_singleton]
      refine List.nodup_append_comm.mp (List.nodup_cons.mpr ⟨fun hmem => ?_, h.nodup⟩)
      obtain ⟨e, he, heq⟩ := List.mem_map.mp hmem
      exact hnew e he (by rw [heq, hentry, hpath])
    · rcases List.mem_append.mp he with he | he
      · exact h.resolved e he
      · rw [List.mem_singleton.mp he, hentry]
    · rcases List.mem_append.mp he with he | he
      · exact h.id e he
      · rw [List.mem_singleton.mp he, hid]
  · exact ⟨h.nodup.sublist (List.filter_sublist.map _),
      fun e he => h.resolved e (List.mem_of_mem_filter he),
      fun e he => h.id e (List.mem_of_mem_filter he)⟩

/-! ## Commands of many processes -/

open SharedCopies

variable {ι : Type} [DecidableEq ι]

/-- However the commands of any processes interleave, also from stale copies, neither the file nor
a copy lists a path twice, and every entry stands under the id of its resolved path. -/
theorem wellFormed_interleaved (paths : Paths) (steps : List (Step ι Command)) :
    WellFormed paths ((World.initial {}).run (save paths) steps).stored ∧
      ∀ i, WellFormed paths (((World.initial {}).run (save paths) steps).copies i) :=
  World.run_invariant (fun _ _ _ h hsave => h.save hsave) wellFormed_empty
    (fun _ => wellFormed_empty) steps

/-- An entry that is not unregistered stays. -/
theorem mem_attempt {command : Command} {entry : ProjectEntry} (h : entry ∈ registry.projects)
    (hcommand : command ≠ .unregister entry.id) :
    entry ∈ (attempt (save paths) registry command).projects := by
  rw [attempt]
  cases hsave : save paths command registry with
  | none => exact h
  | some registry' =>
      obtain ⟨now, projectPath, new, -, hregister⟩ | ⟨id, rfl, rfl⟩ := save_eq_some hsave
      · obtain ⟨-, -, -, rfl⟩ := register_eq_ok hregister
        exact List.mem_append_left _ h
      · exact List.mem_filter.mpr ⟨h, by simpa using fun heq => hcommand (by rw [heq])⟩

theorem mem_foldl_attempt {commands : List Command} {entry : ProjectEntry}
    (h : entry ∈ registry.projects) (hcommands : ∀ c ∈ commands, c ≠ .unregister entry.id) :
    entry ∈ (commands.foldl (attempt (save paths)) registry).projects := by
  induction commands generalizing registry with
  | nil => exact h
  | cons c rest ih =>
      obtain ⟨hc, hrest⟩ := List.forall_mem_cons.mp hcommands
      exact ih (mem_attempt h hc) hrest

/-- If every command starts from a copy that is current, the file is what one process would have
written, and what was registered before a run of commands that do not unregister it is still
listed after it. -/
theorem registered_of_fresh (paths : Paths) (before after : List (Step ι Command))
    (hfresh : (World.initial {}).FreshRun (save paths) (before ++ after))
    (entry : ProjectEntry)
    (hentry : entry ∈ ((World.initial {}).run (save paths) before).stored.projects)
    (hafter : ∀ c ∈ after.filterMap Step.op?, c ≠ .unregister entry.id) :
    ((World.initial {}).run (save paths) (before ++ after)).stored =
        ((before ++ after).filterMap Step.op?).foldl (attempt (save paths)) {} ∧
      entry ∈ ((World.initial {}).run (save paths) (before ++ after)).stored.projects := by
  refine ⟨World.stored_of_fresh hfresh, ?_⟩
  have hlater := World.stored_of_fresh (World.freshRun_append.mp hfresh).2
  rw [World.run, List.foldl_append]
  exact hlater ▸ mem_foldl_attempt hentry hafter

/-- Paths that are resolved and exist. -/
def plainPaths : Paths where
  resolve p := p
  pathExists _ := true
  name p := p
  resolve_resolve _ := rfl

def registerA : Step Bool Command := .change false (.register "t" "/a")

/-- The second process loads the file before it registers its project. -/
def loadAndRegisterB : List (Step Bool Command) := [.load true, .change true (.register "t" "/b")]

theorem registered_of_fresh_two :
    let w := (World.initial {}).run (save plainPaths) ([registerA] ++ loadAndRegisterB)
    w.stored = (([registerA] ++ loadAndRegisterB).filterMap Step.op?).foldl
        (attempt (save plainPaths)) {} ∧
      (⟨projectId "/a", "/a", "/a", "t", []⟩ : ProjectEntry) ∈ w.stored.projects :=
  registered_of_fresh plainPaths [registerA] loadAndRegisterB
    ⟨rfl, trivial, Function.update_self .., trivial⟩ _ (List.mem_singleton.mpr rfl)
    (by simp [loadAndRegisterB, Step.op?])

/-- Without loading, the second registration drops the first. -/
example : (⟨projectId "/a", "/a", "/a", "t", []⟩ : ProjectEntry) ∉
    ((World.initial {}).run (save plainPaths)
      [registerA, .change true (.register "t" "/b")]).stored.projects := by
  intro h
  have hpath : "/a" = plainPaths.resolve "/b" :=
    congrArg ProjectEntry.path (List.mem_singleton.mp h)
  exact absurd hpath (by decide)

end ProjectRegistry

end RationaleVault.Knowledge
