import RationaleVault.Library.Fold
import RationaleVault.Transport.Negotiation

/-!
# The transport runtime

The runtime opens a session for a manifest when it is handed a negotiation that
came out compatible. It relies on the negotiation alone: the version lists of
the manifest are not read again.
-/

namespace RationaleVault.Transport

/-! ## Sessions and event payloads -/

/-- Lifecycle states of a transport session. -/
inductive TransportStatus
  | created
  | negotiating
  | ready
  | streaming
  | paused
  | disconnected
  | closed
  deriving DecidableEq

def TransportStatus.value : TransportStatus → String
  | created => "CREATED"
  | negotiating => "NEGOTIATING"
  | ready => "READY"
  | streaming => "STREAMING"
  | paused => "PAUSED"
  | disconnected => "DISCONNECTED"
  | closed => "CLOSED"

structure TransportSession where
  sessionId : String
  transportManifestId : String
  negotiationId : String
  agentSessionId : String
  workspaceId : String
  status : TransportStatus
  packagesSent : Int := 0
  bytesTransferred : Int := 0
  createdAt : String := ""
  lastActiveAt : String := ""
  closedAt : Option String := none

def TransportSession.generateSessionId
    (transportManifestId agentSessionId createdAt : String) : String :=
  "TSSN-" ++ shortHash ("transport_session:" ++ transportManifestId ++ ":" ++ agentSessionId ++
    ":" ++ createdAt)

structure ConnectorRegisteredPayload where
  schemaVersion : String := "1.0"
  manifestId : String
  transportType : String
  name : String
  version : String
  registeredAt : String

structure ConnectorNegotiatedPayload where
  schemaVersion : String := "1.0"
  negotiationId : String
  manifestId : String
  outcome : String
  matchedCapabilities : List String
  missingCapabilities : List String
  negotiatedAt : String

structure ConnectorAttachedPayload where
  schemaVersion : String := "1.0"
  sessionId : String
  transportManifestId : String
  agentSessionId : String
  workspaceId : String
  attachedAt : String

structure TransportPackageStreamedPayload where
  schemaVersion : String := "1.0"
  sessionId : String
  packageId : Json
  bytesTransferred : Int
  serializationFormat : String
  streamedAt : String

structure ConnectorDetachedPayload where
  schemaVersion : String := "1.0"
  sessionId : String
  workspaceId : String
  packagesSent : Int
  bytesTransferred : Int
  detachedAt : String

structure ConnectorUnregisteredPayload where
  schemaVersion : String := "1.0"
  manifestId : String
  reason : String
  unregisteredAt : String

/-! ## The serialization pipeline -/

/-- What a registered serializer does. -/
structure WorkspacePackageSerializer where
  serialize : OrdDict String Json → Except Exc (List UInt8)
  contentType : String

/-- The registered serializers. -/
abbrev SerializationPipeline := OrdDict String WorkspacePackageSerializer

namespace SerializationPipeline

def listSerializers (p : SerializationPipeline) : List String :=
  p.keys.insertionSort (· ≤ ·)

def serialize (ft : FormatText) (p : SerializationPipeline) (package : OrdDict String Json)
    (formatName : String) : Except Exc (List UInt8 × String) :=
  match p.get? formatName with
  | none => .error (.valueError ("Unknown serialization format: " ++ formatName ++
      ". Registered: " ++ ft.format (.arr ((listSerializers p).map .str))))
  | some serializer =>
      (serializer.serialize package).map fun bytes => (bytes, serializer.contentType)

end SerializationPipeline

/-! ## The operations -/

namespace TransportRuntime

def registerTransport (now : String) (manifest : TransportManifest) :
    TransportManifest × ConnectorRegisteredPayload :=
  (manifest, {
    manifestId := manifest.manifestId
    transportType := manifest.transportType.value
    name := manifest.name
    version := manifest.version
    registeredAt := now })

def negotiate (ft : FormatText) (now : String) (manifest : TransportManifest) :
    Except String (TransportNegotiation × ConnectorNegotiatedPayload) :=
  let negotiation := NegotiationEngine.negotiate ft now manifest none
  if negotiation.outcome = .rejected then
    .error ("Transport " ++ manifest.name ++ " rejected: " ++
      ft.format (.arr (negotiation.warnings.map .str)))
  else
    .ok (negotiation, {
      negotiationId := negotiation.negotiationId
      manifestId := manifest.manifestId
      outcome := negotiation.outcome.value
      matchedCapabilities := negotiation.matchedCapabilities
      missingCapabilities := negotiation.missingCapabilities
      negotiatedAt := negotiation.negotiatedAt })

def attach (now : String) (manifest : TransportManifest) (negotiation : TransportNegotiation)
    (agentSessionId workspaceId : String) :
    Except String (TransportSession × ConnectorAttachedPayload) :=
  if negotiation.outcome ≠ .compatible then
    .error ("Cannot attach: negotiation outcome is " ++ negotiation.outcome.value)
  else
    let session : TransportSession := {
      sessionId := TransportSession.generateSessionId manifest.manifestId agentSessionId now
      transportManifestId := manifest.manifestId
      negotiationId := negotiation.negotiationId
      agentSessionId := agentSessionId
      workspaceId := workspaceId
      status := .created
      createdAt := now
      lastActiveAt := now }
    .ok (session, {
      sessionId := session.sessionId
      transportManifestId := manifest.manifestId
      agentSessionId := agentSessionId
      workspaceId := workspaceId
      attachedAt := now })

/-- `stream_package`; the outer error is an exception, the inner one the `Error` returned. -/
def streamPackage (ft : FormatText) (pipeline : SerializationPipeline) (now : String)
    (session : TransportSession) (package : OrdDict String Json) (formatName : String) :
    Except Exc (Except String
      (TransportSession × TransportPackageStreamedPayload × List UInt8)) :=
  if session.status ∈ [.closed, .disconnected] then
    .ok (.error ("Cannot stream: session is " ++ session.status.value))
  else
    match pipeline.serialize ft package formatName with
    | .error (.valueError message) => .ok (.error message)
    | .error e => .error e
    | .ok (serialized, _) =>
        .ok (.ok ({ session with
          status := .streaming
          packagesSent := session.packagesSent + 1
          bytesTransferred := session.bytesTransferred + serialized.length
          lastActiveAt := now }, {
            sessionId := session.sessionId
            packageId := (package.get? "package_id").getD (.str "")
            bytesTransferred := serialized.length
            serializationFormat := formatName
            streamedAt := now }, serialized))

def detach (now : String) (session : TransportSession) :
    Except String (TransportSession × ConnectorDetachedPayload) :=
  if session.status = .closed then .error "Session is already closed"
  else
    .ok ({ session with status := .closed, lastActiveAt := now, closedAt := some now }, {
      sessionId := session.sessionId
      workspaceId := session.workspaceId
      packagesSent := session.packagesSent
      bytesTransferred := session.bytesTransferred
      detachedAt := now })

def unregisterTransport (now : String) (manifest : TransportManifest) (reason : String) :
    ConnectorUnregisteredPayload where
  manifestId := manifest.manifestId
  reason := reason
  unregisteredAt := now

end TransportRuntime

/-! ## Runs -/

/-- What a run has negotiated, and the sessions it has opened with the manifest each was opened
over. -/
structure ConnectorRun where
  negotiated : List (TransportManifest × TransportNegotiation)
  opened : List (TransportManifest × TransportSession)

/-- A step of a run. An attachment is handed a manifest and the negotiation at a position. -/
inductive ConnectorStep
  | register (now : String) (manifest : TransportManifest)
  | negotiate (now : String) (manifest : TransportManifest)
  | attach (now : String) (manifest : TransportManifest) (position : Nat)
      (agentSessionId workspaceId : String)
  | stream (now : String) (position : Nat) (package : OrdDict String Json) (formatName : String)
  | detach (now : String) (position : Nat)
  | unregister (now : String) (manifest : TransportManifest) (reason : String)

namespace ConnectorRun

def empty : ConnectorRun := ⟨[], []⟩

/-- The effect of a step; a step that fails does nothing. -/
def step (ft : FormatText) (pipeline : SerializationPipeline) (r : ConnectorRun) :
    ConnectorStep → ConnectorRun
  | .register _ _ => r
  | .negotiate now manifest =>
      match TransportRuntime.negotiate ft now manifest with
      | .error _ => r
      | .ok (negotiation, _) => { r with negotiated := r.negotiated ++ [(manifest, negotiation)] }
  | .attach now manifest position agentSessionId workspaceId =>
      match r.negotiated[position]? with
      | none => r
      | some (_, negotiation) =>
          match TransportRuntime.attach now manifest negotiation agentSessionId workspaceId with
          | .error _ => r
          | .ok (session, _) => { r with opened := r.opened ++ [(manifest, session)] }
  | .stream now position package formatName =>
      match r.opened[position]? with
      | none => r
      | some (manifest, session) =>
          match TransportRuntime.streamPackage ft pipeline now session package formatName with
          | .ok (.ok (session, _)) => { r with opened := r.opened.set position (manifest, session) }
          | _ => r
  | .detach now position =>
      match r.opened[position]? with
      | none => r
      | some (manifest, session) =>
          match TransportRuntime.detach now session with
          | .error _ => r
          | .ok (session, _) => { r with opened := r.opened.set position (manifest, session) }
  | .unregister _ _ _ => r

/-- No session is open over a transport that does not list the running versions. -/
def OpenedCompatible (r : ConnectorRun) : Prop :=
  ∀ x ∈ r.opened, runtimeVersion ∈ x.1.supportedRuntimeVersions ∧
    workspaceVersion ∈ x.1.supportedWorkspaceVersions

/-- An attachment is handed a manifest that lists both versions, unless what was negotiated
lacks a required capability or lists no version in a list that does not have the running one. -/
def Admits (r : ConnectorRun) : ConnectorStep → Prop
  | .attach _ manifest position _ _ =>
      ∀ negotiated negotiation, r.negotiated[position]? = some (negotiated, negotiation) →
        negotiated.capabilities.satisfies {} = true →
        ((NegotiationEngine.checkCompatibility negotiated).compatible = true ∨
          ¬ NegotiationEngine.Settled negotiated) →
        (NegotiationEngine.checkCompatibility manifest).compatible = true
  | _ => True

/-- Negotiations of a run came out of the engine for their manifests. -/
def Sound (ft : FormatText) (r : ConnectorRun) : Prop :=
  ∀ x ∈ r.negotiated, ∃ now, x.2 = NegotiationEngine.negotiate ft now x.1 none

variable {ft : FormatText} {pipeline : SerializationPipeline} {r : ConnectorRun}

theorem openedCompatible_empty : empty.OpenedCompatible := fun x hx => by cases hx

theorem sound_empty : empty.Sound ft := fun x hx => by cases hx

/-- A negotiation is added as the engine returns it, and nothing else touches them. -/
theorem Sound.step (h : r.Sound ft) (a : ConnectorStep) : (r.step ft pipeline a).Sound ft := by
  cases a with
  | negotiate now manifest =>
      rw [ConnectorRun.step, TransportRuntime.negotiate]
      split_ifs
      · exact h
      · intro x hx
        rcases List.mem_append.mp hx with hx | hx
        · exact h x hx
        · exact ⟨now, by rw [List.mem_singleton.mp hx]⟩
  | register | unregister => exact h
  | attach =>
      rw [ConnectorRun.step]
      split
      · exact h
      · split <;> exact h
  | stream =>
      rw [ConnectorRun.step]
      split
      · exact h
      · split <;> exact h
  | detach =>
      rw [ConnectorRun.step]
      split
      · exact h
      · split <;> exact h

/-- Updating a session keeps the manifests of the open ones. -/
theorem openedCompatible_set (h : r.OpenedCompatible) {position : Nat}
    {manifest : TransportManifest} {session : TransportSession}
    (hget : r.opened[position]? = some (manifest, session)) (updated : TransportSession) :
    ({ r with opened := r.opened.set position (manifest, updated) } :
      ConnectorRun).OpenedCompatible := by
  intro x hx
  rcases List.mem_or_eq_of_mem_set hx with hx | rfl
  · exact h x hx
  · exact h (manifest, session) (List.mem_of_getElem? hget)

/-- An attachment keeps the law exactly if it is admitted: the session is opened when the
negotiation at the position came out compatible. -/
theorem openedCompatible_attach (hsound : r.Sound ft) (h : r.OpenedCompatible) (now : String)
    (manifest : TransportManifest) (position : Nat) (agentSessionId workspaceId : String) :
    (r.step ft pipeline (.attach now manifest position agentSessionId workspaceId)).OpenedCompatible
      ↔ r.Admits (.attach now manifest position agentSessionId workspaceId) := by
  rw [step, Admits]
  cases hget : r.negotiated[position]? with
  | none => exact iff_of_true h fun _ _ hsome => by cases hsome
  | some x =>
      obtain ⟨negotiated, negotiation⟩ := x
      obtain ⟨time, hengine⟩ := hsound _ (List.mem_of_getElem? hget)
      obtain rfl : negotiation = NegotiationEngine.negotiate ft time negotiated none := hengine
      have houtcome := NegotiationEngine.negotiate_outcome_eq_compatible_iff ft time negotiated none
      rw [Option.getD_none] at houtcome
      simp only [TransportRuntime.attach]
      by_cases hcompatible : (NegotiationEngine.negotiate ft time negotiated none).outcome =
          .compatible
      · rw [if_neg (not_not.mpr hcompatible)]
        obtain ⟨hsatisfies, hdecided⟩ := houtcome.mp hcompatible
        constructor
        · intro hall negotiated' negotiation' hsame _ _
          exact (NegotiationEngine.compatible_iff manifest).mpr
            (hall (manifest, _) (List.mem_append_right _ (List.mem_singleton_self _)))
        · intro hadmits x hx
          rcases List.mem_append.mp hx with hx | hx
          · exact h x hx
          · rw [List.mem_singleton.mp hx]
            exact (NegotiationEngine.compatible_iff manifest).mp
              (hadmits negotiated _ rfl hsatisfies hdecided)
      · rw [if_pos hcompatible]
        refine iff_of_true h fun negotiated' negotiation' hsame hsatisfies hdecided => ?_
        cases hsame
        exact absurd (houtcome.mpr ⟨hsatisfies, hdecided⟩) hcompatible

theorem openedCompatible_step (hsound : r.Sound ft) (h : r.OpenedCompatible) (a : ConnectorStep) :
    (r.step ft pipeline a).OpenedCompatible ↔ r.Admits a := by
  cases a with
  | attach now manifest position agentSessionId workspaceId =>
      exact openedCompatible_attach hsound h _ _ _ _ _
  | register | unregister => exact iff_of_true h trivial
  | negotiate now manifest =>
      refine iff_of_true ?_ trivial
      rw [step]
      split <;> exact h
  | stream now position package formatName =>
      refine iff_of_true ?_ trivial
      rw [step]
      split
      · exact h
      · rename_i hget
        split
        · exact openedCompatible_set h hget _
        · exact h
  | detach now position =>
      refine iff_of_true ?_ trivial
      rw [step]
      split
      · exact h
      · rename_i hget
        split
        · exact h
        · exact openedCompatible_set h hget _

/-- Every state of a run has only sessions over transports that list the running versions exactly
if each attachment of the run is admitted. -/
theorem openedCompatible_iff (ft : FormatText) (pipeline : SerializationPipeline)
    (steps : List ConnectorStep) :
    (∀ pre, pre <+: steps → (pre.foldl (step ft pipeline) empty).OpenedCompatible) ↔
      ∀ pre a post, steps = pre ++ a :: post → (pre.foldl (step ft pipeline) empty).Admits a :=
  Fold.always_iff_of_invariant (Q := Sound ft) (fun _ a h => h.step a)
    (fun _ a hsound h => openedCompatible_step hsound h a) sound_empty openedCompatible_empty steps

end ConnectorRun

/-- Negotiation agrees with `check_compatibility` exactly on the manifests that lack a required
capability or have no version list that names other versions only, and the sessions of a run are
opened accordingly. -/
theorem negotiation_iff (ft : FormatText) :
    (∀ (now : String) (manifest : TransportManifest) (required : Option TransportCapabilities),
      ((NegotiationEngine.negotiate ft now manifest required).outcome = .compatible ↔
        manifest.capabilities.satisfies (required.getD {}) = true ∧
          (NegotiationEngine.checkCompatibility manifest).compatible = true) ↔
      (manifest.capabilities.satisfies (required.getD {}) = true →
        NegotiationEngine.Settled manifest)) ∧
    ∀ (pipeline : SerializationPipeline) (steps : List ConnectorStep),
      (∀ pre, pre <+: steps →
        (pre.foldl (ConnectorRun.step ft pipeline) .empty).OpenedCompatible) ↔
      ∀ pre a post, steps = pre ++ a :: post →
        (pre.foldl (ConnectorRun.step ft pipeline) .empty).Admits a := by
  refine ⟨fun now manifest required => ?_, ConnectorRun.openedCompatible_iff ft⟩
  rw [NegotiationEngine.negotiate_outcome_eq_compatible_iff]
  have hsettled : (NegotiationEngine.checkCompatibility manifest).compatible = true →
      NegotiationEngine.Settled manifest := NegotiationEngine.Settled.of_compatible
  tauto

/-- A transport for another version of the runtime. -/
def otherRuntime : TransportManifest where
  manifestId := "TMNF-1"
  name := "MCP"
  transportType := .mcp
  version := "1.0.0"
  capabilities := {}
  supportedRuntimeVersions := ["3.0.0"]
  supportedWorkspaceVersions := ["2.1.0"]

/-- It is negotiated as compatible, and a session is opened over it. -/
theorem not_negotiation_otherRuntime :
    (NegotiationEngine.negotiate .textsOnly "1" otherRuntime none).outcome = .compatible ∧
      (NegotiationEngine.checkCompatibility otherRuntime).compatible = false ∧
      ¬ ([.negotiate "1" otherRuntime, .attach "2" otherRuntime 0 "AGS-1" "WS-1"].foldl
        (ConnectorRun.step .textsOnly .empty) .empty).OpenedCompatible := by
  refine ⟨rfl, rfl, fun h => ?_⟩
  have hlisted := (h _ List.mem_cons_self).1
  revert hlisted
  decide

end RationaleVault.Transport
