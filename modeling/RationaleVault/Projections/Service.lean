import RationaleVault.Db.StreamLaw
import RationaleVault.Projections.Pipeline
import RationaleVault.Schema.Payloads

/-!
# The replay service

`load_project_events` reads a project's stream and resolves it. The default
context has no schemas, so version 1 is canonical for every event type and
there is no way from any other version. The version of a stored event is what
its payload says, and the payload classes say it in a text.
-/

namespace RationaleVault

/-- The service over a store, with the registry it was given. -/
structure ReplayService where
  store : EventDb
  registry : Option UpcasterRegistry := none

/-- `load_project_events(project_id, context)`. -/
def ReplayService.loadProjectEvents (service : ReplayService) (projectId : UUID)
    (context : Option (ReplayContext ⊕ InterpretiveContext)) :
    Except UnknownSchemaError (List EventRecord) :=
  let replayCtx := context.map (Sum.elim id InterpretiveContext.toReplayContext)
  (ReplayPipeline.make replayCtx service.registry).process
    (service.store.getProjectStream projectId 0)

/-! ## The default context -/

namespace ReplayPipeline

variable {registry : Option UpcasterRegistry}

/-- Without schemas version 1 is canonical and nothing is migrated. -/
theorem resolve_default (event : EventRecord) :
    (make none registry).resolver.resolve event =
      if event.schemaVersion.eqInt 1 then .ok event
      else .error (.noPath event.eventType event.schemaVersion event.eventSequence 1) := by
  have hlatest : (make none registry).resolver.policy.latestVersion event.eventType = 1 := rfl
  cases hcurrent : event.schemaVersion.eqInt 1 with
  | true =>
      rw [if_pos rfl]
      apply ReplayResolver.resolve_of_isCurrent
      rw [SchemaPolicy.isCurrent, hlatest, hcurrent]
  | false =>
      have hnot : (make none registry).resolver.policy.isCurrent event = false := by
        rw [SchemaPolicy.isCurrent, hlatest, hcurrent]
      rw [if_neg Bool.false_ne_true, ReplayResolver.resolve_of_not_canResolve hnot, hlatest]
      rw [SchemaPolicy.canResolve, if_neg (by simp [hnot])]
      rfl

/-- Events at version 1 are returned as they are; any other event is refused. -/
theorem process_default_eq_ok_iff (events result : List EventRecord) :
    (make none registry).process events = .ok result ↔
      result = events ∧ ∀ e ∈ events, e.schemaVersion.eqInt 1 = true := by
  have hresolve : ∀ e e' : EventRecord, (make none registry).resolver.resolve e = .ok e' ↔
      e' = e ∧ e.schemaVersion.eqInt 1 = true := by
    intro e e'
    rw [resolve_default]
    by_cases he : e.schemaVersion.eqInt 1 = true <;> simp [he, eq_comm]
  rw [process_eq_ok_iff rfl]
  simp only [hresolve]
  constructor
  · intro h
    exact ⟨(List.forall₂_eq_eq_eq ▸ h.imp fun _ _ he => he.1.symm : events = result).symm,
      (h.forall_mem_iff fun _ _ _ he => iff_of_true he.2 trivial).mpr fun _ _ => trivial⟩
  · rintro ⟨rfl, hall⟩
    exact List.forall₂_same.mpr fun e he => ⟨rfl, hall e he⟩

end ReplayPipeline

/-! ## What the program records -/

namespace EventDb

/-- A run of appends adds one record for each request of the project, in order. -/
theorem projectRows_appendAll (db : EventDb) (reqs : List AppendRequest) (p : UUID) :
    ∃ added, (db.appendAll reqs).projectRows p = db.projectRows p ++ added ∧
      List.Forall₂ EventRecord.Holds added (reqs.filter fun req => req.projectId = p) := by
  induction reqs generalizing db with
  | nil => exact ⟨[], (List.append_nil _).symm, .nil⟩
  | cons req rest ih =>
      obtain ⟨added, hrows, hholds⟩ := ih (db.appendEvent req)
      rw [projectRows_appendEvent] at hrows
      by_cases hp : req.projectId = p
      · rw [if_pos hp, List.append_assoc] at hrows
        rw [List.filter_cons_of_pos (by simpa using hp)]
        exact ⟨_, hrows, .cons ⟨rfl, rfl, rfl, rfl, rfl, rfl, rfl, rfl, rfl⟩ hholds⟩
      · rw [if_neg hp, List.append_nil] at hrows
        rw [List.filter_cons_of_neg (by simpa using hp)]
        exact ⟨added, hrows, hholds⟩

/-- The stream of a store that was written from empty holds the requests of the project. -/
theorem forall₂_holds_getProjectStream (reqs : List AppendRequest) (p : UUID) :
    List.Forall₂ EventRecord.Holds ((EventDb.empty.appendAll reqs).getProjectStream p 0)
      (reqs.filter fun req => req.projectId = p) := by
  obtain ⟨added, hrows, hholds⟩ := projectRows_appendAll EventDb.empty reqs p
  rw [getProjectStream_zero, hrows]
  exact hholds

end EventDb

namespace AppendRequest

/-- The payload is one of a class that writes a schema version. -/
def IsVersioned (req : AppendRequest) : Prop :=
  ∃ payload : EventPayload, req.payload = payload.toDict ∧ payload.cls.isVersioned = true

/-- The payload is one of the program's classes, or any dictionary without a schema version. -/
def IsProgram (req : AppendRequest) : Prop :=
  (∃ payload : EventPayload, req.payload = payload.toDict) ∨
    req.payload.lookup "schema_version" = none

/-- An event of the program is stored at version 1 unless its class writes a version. -/
theorem eqInt_schemaVersion_iff {req : AppendRequest} (h : req.IsProgram) :
    Json.eqInt (JsonObj.getD req.payload "schema_version" (.int 1)) 1 = true ↔
      ¬ req.IsVersioned := by
  constructor
  · rintro hone ⟨payload, hpayload, hversioned⟩
    rw [JsonObj.getD, hpayload, payload.lookup_schemaVersion, if_pos hversioned] at hone
    simp [Json.eqInt, DictKey.norm, Atom.norm] at hone
  · intro hnot
    have hnone : req.payload.lookup "schema_version" = none := by
      rcases h with ⟨payload, hpayload⟩ | hnone
      · rw [hpayload, payload.lookup_schemaVersion, if_neg]
        exact fun hversioned => hnot ⟨payload, hpayload, hversioned⟩
      · exact hnone
    rw [JsonObj.getD, hnone, Option.getD_none, Json.eqInt_int]
    rfl

end AppendRequest

/-- The service returns the events of a project, all of them and in order, exactly when none of
them has a payload whose class writes a schema version. -/
theorem loadProjectEvents_iff (reqs : List AppendRequest) (hreqs : ∀ req ∈ reqs, req.IsProgram)
    (registry : Option UpcasterRegistry) (p : UUID) :
    (∃ events, (⟨EventDb.empty.appendAll reqs, registry⟩ : ReplayService).loadProjectEvents p none =
        .ok events ∧
      List.Forall₂ EventRecord.Holds events (reqs.filter fun req => req.projectId = p)) ↔
      ∀ req ∈ reqs, req.projectId = p → ¬ req.IsVersioned := by
  have hstream := EventDb.forall₂_holds_getProjectStream reqs p
  have hload : ∀ events, (⟨EventDb.empty.appendAll reqs, registry⟩ : ReplayService).loadProjectEvents
      p none = .ok events ↔ events = (EventDb.empty.appendAll reqs).getProjectStream p 0 ∧
        ∀ e ∈ (EventDb.empty.appendAll reqs).getProjectStream p 0,
          e.schemaVersion.eqInt 1 = true :=
    fun events => ReplayPipeline.process_default_eq_ok_iff _ events
  have hversions : (∀ e ∈ (EventDb.empty.appendAll reqs).getProjectStream p 0,
      e.schemaVersion.eqInt 1 = true) ↔
        ∀ req ∈ reqs.filter fun req => req.projectId = p, ¬ req.IsVersioned := by
    apply hstream.forall_mem_iff
    intro e req hreq hholds
    rw [hholds.schemaVersion]
    exact AppendRequest.eqInt_schemaVersion_iff (hreqs req (List.mem_of_mem_filter hreq))
  constructor
  · rintro ⟨events, hok, -⟩ req hreq hp
    apply hversions.mp ((hload events).mp hok).2
    simpa using ⟨hreq, hp⟩
  · intro hnone
    refine ⟨_, (hload _).mpr ⟨rfl, hversions.mpr ?_⟩, hstream⟩
    intro req hreq
    rw [List.mem_filter, decide_eq_true_eq] at hreq
    exact hnone req hreq.1 hreq.2

/-- A generated reflection, as the reflection engine records it. -/
def sampleReflection : EventPayload where
  cls := .reflectionGenerated
  values := [.str "REFL-1", .str "RCAND-1", .str "active", .arr [], .str "", .arr [], .arr [],
    .str "2026-01-01T12:00:00+00:00"]
  complete := rfl

/-- One reflection in a project makes its stream unreadable. -/
theorem reflection_refused :
    (sampleRequest (.reflectionGenerated, sampleReflection.toDict)).IsProgram ∧
      (⟨sampleDb [(.reflectionGenerated, sampleReflection.toDict)], none⟩ :
        ReplayService).loadProjectEvents .zero none =
          .error (.noPath .reflectionGenerated (.str "1.0") 4 1) :=
  ⟨Or.inl ⟨sampleReflection, rfl⟩, by decide +kernel⟩

theorem loadProjectEvents_bootstrap :
    ∃ events, (⟨sampleDb [], none⟩ : ReplayService).loadProjectEvents .zero none = .ok events ∧
      List.Forall₂ EventRecord.Holds events (sampleBootstrap.map sampleRequest) := by
  have hplain : ∀ req ∈ sampleBootstrap.map sampleRequest,
      req.payload.lookup "schema_version" = none := by decide
  refine (loadProjectEvents_iff (sampleBootstrap.map sampleRequest)
    (fun req hreq => Or.inr (hplain req hreq)) none .zero).mpr ?_
  rintro req hreq - ⟨payload, hpayload, hversioned⟩
  have hnone := hplain req hreq
  rw [hpayload, payload.lookup_schemaVersion, if_pos hversioned] at hnone
  cases hnone

end RationaleVault
