import RationaleVault.Memory.Models
import RationaleVault.PythonText

/-!
# Transport negotiation

The engine compares a manifest with what the runtime requires. Missing
capabilities decide first, then warnings, then the version lists: a list that
names other versions gives a warning, an empty one gives none.
-/

namespace RationaleVault.Transport

/-! ## Contracts -/

/-- Supported transport protocols. -/
inductive TransportType
  | mcp
  | rest
  | websocket
  | cli
  | ipc
  | filesystem
  | grpc
  deriving DecidableEq

def TransportType.value : TransportType → String
  | mcp => "MCP"
  | rest => "REST"
  | websocket => "WEBSOCKET"
  | cli => "CLI"
  | ipc => "IPC"
  | filesystem => "FILESYSTEM"
  | grpc => "GRPC"

inductive NegotiationOutcome
  | compatible
  | incompatible
  | requiresMigration
  | rejected
  deriving DecidableEq

def NegotiationOutcome.value : NegotiationOutcome → String
  | compatible => "COMPATIBLE"
  | incompatible => "INCOMPATIBLE"
  | requiresMigration => "REQUIRES_MIGRATION"
  | rejected => "REJECTED"

/-- What a transport can do. -/
structure TransportCapabilities where
  supportsStreaming : Bool := false
  supportsBidirectional : Bool := false
  supportsBinary : Bool := false
  supportsIncrementalUpdates : Bool := false
  supportsResume : Bool := false
  supportsToolCalls : Bool := false
  supportsLargeContext : Bool := false
  maxPayloadSizeBytes : Int := 0
  maxConcurrentSessions : Int := 1

/-- Whether the transport has the required capabilities. -/
def TransportCapabilities.satisfies (c required : TransportCapabilities) : Bool :=
  if required.supportsStreaming && !c.supportsStreaming then false
  else if required.supportsBidirectional && !c.supportsBidirectional then false
  else if required.supportsBinary && !c.supportsBinary then false
  else if required.supportsIncrementalUpdates && !c.supportsIncrementalUpdates then false
  else if required.supportsResume && !c.supportsResume then false
  else if required.supportsToolCalls && !c.supportsToolCalls then false
  else if required.supportsLargeContext && !c.supportsLargeContext then false
  else if required.maxPayloadSizeBytes > 0 ∧
      c.maxPayloadSizeBytes < required.maxPayloadSizeBytes then false
  else if required.maxConcurrentSessions > 0 ∧
      c.maxConcurrentSessions < required.maxConcurrentSessions then false
  else true

structure TransportManifest where
  manifestId : String
  name : String
  transportType : TransportType
  version : String
  capabilities : TransportCapabilities
  supportedRuntimeVersions : List String := []
  supportedWorkspaceVersions : List String := []

structure TransportNegotiation where
  negotiationId : String
  transportManifestId : String
  runtimeVersion : String
  workspaceVersion : String
  transportVersion : String
  outcome : NegotiationOutcome
  matchedCapabilities : List String := []
  missingCapabilities : List String := []
  warnings : List String := []
  requiredMigrations : List String := []
  negotiatedAt : String := ""

def TransportNegotiation.generateNegotiationId
    (transportManifestId runtimeVersion negotiatedAt : String) : String :=
  "TNAG-" ++ shortHash ("transport_negotiation:" ++ transportManifestId ++ ":" ++
    runtimeVersion ++ ":" ++ negotiatedAt)

structure RuntimeCompatibility where
  runtimeVersion : String
  workspaceVersion : String
  sdkVersion : String
  transportVersion : String
  compatible : Bool
  warnings : List String := []
  requiredMigrations : List String := []

/-! ## The engine -/

def runtimeVersion : String := "2.3.0"

def workspaceVersion : String := "2.1.0"

def sdkVersion : String := "1.0.0"

namespace NegotiationEngine

/-- `cap_fields`, each with what `getattr` reads. -/
def capFields : List (String × (TransportCapabilities → Bool)) :=
  [("supports_streaming", (·.supportsStreaming)),
    ("supports_bidirectional", (·.supportsBidirectional)),
    ("supports_binary", (·.supportsBinary)),
    ("supports_incremental_updates", (·.supportsIncrementalUpdates)),
    ("supports_resume", (·.supportsResume)),
    ("supports_tool_calls", (·.supportsToolCalls)),
    ("supports_large_context", (·.supportsLargeContext))]

def runtimeCompatible (manifest : TransportManifest) : Bool :=
  manifest.supportedRuntimeVersions.contains runtimeVersion

def workspaceCompatible (manifest : TransportManifest) : Bool :=
  manifest.supportedWorkspaceVersions.contains workspaceVersion

/-- `warnings`; a list is written as `ft` writes it. -/
def warnings (ft : FormatText) (manifest : TransportManifest) : List String :=
  (if !runtimeCompatible manifest && !manifest.supportedRuntimeVersions.isEmpty then
    ["Runtime " ++ runtimeVersion ++ " not in supported versions: " ++
      ft.format (.arr (manifest.supportedRuntimeVersions.map .str))] else []) ++
  (if !workspaceCompatible manifest && !manifest.supportedWorkspaceVersions.isEmpty then
    ["Workspace " ++ workspaceVersion ++ " not in supported versions: " ++
      ft.format (.arr (manifest.supportedWorkspaceVersions.map .str))] else [])

/-- `matched`. -/
def matched (c required : TransportCapabilities) : List String :=
  (capFields.filter fun field => field.2 required && field.2 c).map Prod.fst

/-- `missing`. -/
def missing (c required : TransportCapabilities) : List String :=
  ((capFields.filter fun field => field.2 required && !field.2 c).map Prod.fst) ++
  (if required.maxPayloadSizeBytes > 0 ∧ c.maxPayloadSizeBytes < required.maxPayloadSizeBytes then
    ["max_payload_size_bytes"] else []) ++
  (if required.maxConcurrentSessions > 0 ∧
      c.maxConcurrentSessions < required.maxConcurrentSessions then
    ["max_concurrent_sessions"] else [])

def negotiate (ft : FormatText) (now : String) (manifest : TransportManifest)
    (requiredCapabilities : Option TransportCapabilities) : TransportNegotiation :=
  let required := requiredCapabilities.getD {}
  let missing := missing manifest.capabilities required
  let warnings := warnings ft manifest
  { negotiationId := TransportNegotiation.generateNegotiationId manifest.manifestId
      runtimeVersion now
    transportManifestId := manifest.manifestId
    runtimeVersion := runtimeVersion
    workspaceVersion := workspaceVersion
    transportVersion := manifest.version
    outcome :=
      if missing ≠ [] then .incompatible
      else if warnings ≠ [] then .compatible
      else if !runtimeCompatible manifest || !workspaceCompatible manifest then .requiresMigration
      else .compatible
    matchedCapabilities := matched manifest.capabilities required
    missingCapabilities := missing
    warnings := warnings
    negotiatedAt := now }

def checkCompatibility (manifest : TransportManifest) : RuntimeCompatibility where
  runtimeVersion := runtimeVersion
  workspaceVersion := workspaceVersion
  sdkVersion := sdkVersion
  transportVersion := manifest.version
  compatible := runtimeCompatible manifest && workspaceCompatible manifest
  warnings :=
    (if !runtimeCompatible manifest then
      ["Runtime " ++ runtimeVersion ++ " not in supported list"] else []) ++
    (if !workspaceCompatible manifest then
      ["Workspace " ++ workspaceVersion ++ " not in supported list"] else [])
  requiredMigrations :=
    (if !runtimeCompatible manifest then
      ["Transport must support runtime " ++ runtimeVersion] else []) ++
    (if !workspaceCompatible manifest then
      ["Transport must support workspace " ++ workspaceVersion] else [])

/-! ## What decides the outcome -/

/-- Nothing is missing exactly if the capabilities satisfy the required ones. -/
theorem missing_eq_nil_iff (c required : TransportCapabilities) :
    missing c required = [] ↔ c.satisfies required = true := by
  have hfields : (capFields.filter fun field => field.2 required && !field.2 c) = [] ↔
      ∀ field ∈ capFields, field.2 required = true → field.2 c = true := by
    simp [List.filter_eq_nil_iff]
  rw [missing, List.append_eq_nil_iff, List.append_eq_nil_iff, List.map_eq_nil_iff, hfields]
  simp only [capFields, List.forall_mem_cons, List.not_mem_nil, false_implies, implies_true,
    and_true, ite_eq_right_iff, List.cons_ne_nil, imp_false, TransportCapabilities.satisfies,
    Bool.and_eq_true, Bool.not_eq_true', Bool.if_false_left]
  simp only [decide_eq_false_iff_not, not_and, Bool.not_eq_false, and_assoc]

/-- No version list of the manifest names other versions only. -/
def Settled (manifest : TransportManifest) : Prop :=
  (manifest.supportedRuntimeVersions ≠ [] → runtimeCompatible manifest = true) ∧
    (manifest.supportedWorkspaceVersions ≠ [] → workspaceCompatible manifest = true)

theorem warnings_eq_nil_iff (ft : FormatText) (manifest : TransportManifest) :
    warnings ft manifest = [] ↔ Settled manifest := by
  rw [warnings, List.append_eq_nil_iff, Settled]
  simp only [ite_eq_right_iff, List.cons_ne_nil, imp_false, Bool.and_eq_true, Bool.not_eq_true',
    List.isEmpty_eq_false_iff, not_and', Bool.not_eq_false]

/-- A manifest is found compatible if it has the required capabilities and either lists both
versions or gives a warning. -/
theorem negotiate_outcome_eq_compatible_iff (ft : FormatText) (now : String)
    (manifest : TransportManifest) (required : Option TransportCapabilities) :
    (negotiate ft now manifest required).outcome = .compatible ↔
      manifest.capabilities.satisfies (required.getD {}) = true ∧
      ((checkCompatibility manifest).compatible = true ∨ ¬ Settled manifest) := by
  rw [← missing_eq_nil_iff, ← warnings_eq_nil_iff ft, negotiate, checkCompatibility]
  by_cases hmissing : missing manifest.capabilities (required.getD {}) = []
  · by_cases hwarnings : warnings ft manifest = []
    · simp only [hmissing, hwarnings, ne_eq, not_true_eq_false, if_false, true_and, or_false]
      cases runtimeCompatible manifest <;> cases workspaceCompatible manifest <;> simp
    · simp [hmissing, hwarnings]
  · simp [hmissing]

theorem compatible_iff (manifest : TransportManifest) :
    (checkCompatibility manifest).compatible = true ↔
      runtimeVersion ∈ manifest.supportedRuntimeVersions ∧
        workspaceVersion ∈ manifest.supportedWorkspaceVersions := by
  simp [checkCompatibility, runtimeCompatible, workspaceCompatible]

theorem Settled.of_compatible {manifest : TransportManifest}
    (h : (checkCompatibility manifest).compatible = true) : Settled manifest := by
  obtain ⟨hruntime, hworkspace⟩ := Bool.and_eq_true_iff.mp h
  exact ⟨fun _ => hruntime, fun _ => hworkspace⟩

end NegotiationEngine

end RationaleVault.Transport
