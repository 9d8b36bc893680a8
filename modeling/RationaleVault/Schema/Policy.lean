import RationaleVault.Library.Fold
import RationaleVault.Schema.Events

/-!
# Schema policy

For each event type the canonical version and the steps that lead to it. A
policy holds no code: the payloads are rewritten by the upcasters of the
resolver. Steps are arbitrary pairs of versions in arbitrary order.
-/

namespace RationaleVault

instance : DictKey EventType EventType := ⟨id⟩

@[simp] theorem norm_eventType (t : EventType) : DictKey.norm t = t := rfl

/-- One version transition. -/
structure MigrationStep where
  fromVersion : Int
  toVersion : Int
  deriving DecidableEq

/-- The version after the step; a step from another version is passed over. -/
def MigrationStep.advance (current : Json) (step : MigrationStep) : Json :=
  if current.eqInt step.fromVersion then .int step.toVersion else current

structure MigrationPath where
  steps : List MigrationStep := []
  deriving DecidableEq

/-- `path.exists()`. -/
def MigrationPath.exists (path : MigrationPath) : Bool := path.steps.length > 0

structure EventSchema where
  eventType : EventType
  latestVersion : Int
  migrationPath : MigrationPath
  deriving DecidableEq

/-- The schemas by event type. -/
structure SchemaPolicy where
  schemas : OrdDict EventType EventSchema := .empty

namespace SchemaPolicy

/-- Canonical version of an event type, 1 when there is no schema. -/
def latestVersion (policy : SchemaPolicy) (eventType : EventType) : Int :=
  match policy.schemas.get? eventType with
  | some schema => schema.latestVersion
  | none => 1

def schema (policy : SchemaPolicy) (eventType : EventType) : EventSchema :=
  match policy.schemas.get? eventType with
  | some schema => schema
  | none => ⟨eventType, 1, {}⟩

def migrationPath (policy : SchemaPolicy) (eventType : EventType) : MigrationPath :=
  (policy.schema eventType).migrationPath

def isCurrent (policy : SchemaPolicy) (event : EventRecord) : Bool :=
  event.schemaVersion.eqInt (policy.latestVersion event.eventType)

/-- The event is current, or the steps lead to the canonical version; the walk ends there. -/
def canResolve (policy : SchemaPolicy) (event : EventRecord) : Bool :=
  if policy.isCurrent event then true
  else
    let path := policy.migrationPath event.eventType
    if !path.exists then false
    else
      let target := policy.latestVersion event.eventType
      (Fold.foldUntil MigrationStep.advance (fun current => current.eqInt target) path.steps
        event.schemaVersion).1.eqInt target

/-- The steps that are left when the canonical version is reached for the first time. -/
def stepsPast (policy : SchemaPolicy) (event : EventRecord) : List MigrationStep :=
  (Fold.foldUntil MigrationStep.advance
    (fun current => current.eqInt (policy.latestVersion event.eventType))
    (policy.migrationPath event.eventType).steps event.schemaVersion).2

end SchemaPolicy

namespace MigrationPath

/-- The version after all steps, without a stop. -/
def walk (steps : List MigrationStep) (current : Json) : Json :=
  steps.foldl MigrationStep.advance current

/-- The steps that are not passed over on the way. -/
def taken : List MigrationStep → Json → List MigrationStep
  | [], _ => []
  | step :: rest, current =>
      if current.eqInt step.fromVersion then step :: taken rest (.int step.toVersion)
      else taken rest current

theorem taken_subset (steps : List MigrationStep) (current : Json) :
    taken steps current ⊆ steps := by
  induction steps generalizing current with
  | nil => simp [taken]
  | cons step rest ih =>
      rw [taken]
      split
      · exact List.cons_subset_cons _ (ih _)
      · exact List.subset_cons_of_subset _ (ih _)

/-- Steps none of which starts at the version leave it. -/
theorem walk_eq_self {steps : List MigrationStep} {current : Json}
    (h : ∀ step ∈ steps, current.eqInt step.fromVersion = false) : walk steps current = current := by
  induction steps with
  | nil => rfl
  | cons step rest ih =>
      have hstep : MigrationStep.advance current step = current := by
        simp [MigrationStep.advance, h step List.mem_cons_self]
      rw [walk, List.foldl_cons, hstep]
      exact ih fun s hs => h s (List.mem_cons_of_mem _ hs)

end MigrationPath

namespace SchemaPolicy

variable {policy : SchemaPolicy} {event : EventRecord}

/-- An outdated event that can be resolved reaches the canonical version by a step. -/
theorem foldUntil_eq_latest (hcurrent : policy.isCurrent event = false)
    (hresolve : policy.canResolve event = true) :
    (Fold.foldUntil MigrationStep.advance
      (fun current => current.eqInt (policy.latestVersion event.eventType))
      (policy.migrationPath event.eventType).steps event.schemaVersion).1 =
        .int (policy.latestVersion event.eventType) := by
  have htarget : (Fold.foldUntil MigrationStep.advance
      (fun current => current.eqInt (policy.latestVersion event.eventType))
      (policy.migrationPath event.eventType).steps event.schemaVersion).1.eqInt
        (policy.latestVersion event.eventType) = true := by
    rw [canResolve, hcurrent] at hresolve
    simp only [Bool.false_eq_true, if_false] at hresolve
    split at hresolve
    · cases hresolve
    · exact hresolve
  -- the walk is at the event's own version, which is not canonical, or behind a step
  have hint := Fold.foldUntil_invariant MigrationStep.advance
    (fun current => current.eqInt (policy.latestVersion event.eventType))
    (P := fun current => current = event.schemaVersion ∨ ∃ n : Int, current = .int n)
    (l := (policy.migrationPath event.eventType).steps) (by
      intro s step _ hs
      rw [MigrationStep.advance]
      split
      · exact Or.inr ⟨_, rfl⟩
      · exact hs) (Or.inl rfl)
  obtain hsame | ⟨n, hn⟩ := hint
  · rw [hsame] at htarget
    exact absurd (htarget.symm.trans hcurrent) (by simp)
  · rw [hn, Json.eqInt_int, decide_eq_true_iff] at htarget
    rw [hn, htarget]

/-- Walking all steps is walking on from the canonical version. -/
theorem walk_eq_walk_stepsPast (hcurrent : policy.isCurrent event = false)
    (hresolve : policy.canResolve event = true) :
    MigrationPath.walk (policy.migrationPath event.eventType).steps event.schemaVersion =
      MigrationPath.walk (policy.stepsPast event)
        (.int (policy.latestVersion event.eventType)) := by
  have hsplit := Fold.foldl_foldUntil MigrationStep.advance
    (fun current => current.eqInt (policy.latestVersion event.eventType))
    (policy.migrationPath event.eventType).steps event.schemaVersion
  rw [foldUntil_eq_latest hcurrent hresolve] at hsplit
  exact hsplit.symm

end SchemaPolicy

end RationaleVault
