import RationaleVault.Schema.Events

/-!
# Event payload classes

The program's own payload classes and the dictionaries they write. All but
those of the cluster nodes put a schema version first, and it is a text. The
values are left open: any JSON value can stand under a key.
-/

namespace RationaleVault

/-- The frozen payload classes, by the file that declares them. -/
inductive PayloadClass
  | reflectionCandidateCreated | reflectionAssessed | reflectionGenerated | reflectionTraced
  | promotionCandidateCreated | promotionAssessed | promotionGated | promotionDecision
  | sessionCreated | sessionAttached | packageStreamed | sessionPaused | sessionResumed
  | sessionDetached | sessionClosed
  | workspaceCreated | workspaceSnapshotTaken | workspaceSessionOpened | workspaceContextCompiled
  | workspacePackageExported
  | connectorRegistered | connectorNegotiated | connectorAttached | transportPackageStreamed
  | connectorDetached | connectorUnregistered
  | nodeRegistered | nodeStatusChanged | sessionMigrating | sessionMigrated | sessionHandoffFailed
  | crossNodeTelemetryAggregated
  deriving DecidableEq

namespace PayloadClass

/-- The text every versioned class declares. -/
def schemaVersion : String := "1.0"

/-- Whether `to_dict()` writes a schema version. -/
def isVersioned : PayloadClass → Bool
  | .nodeRegistered | .nodeStatusChanged | .sessionMigrating | .sessionMigrated
  | .sessionHandoffFailed | .crossNodeTelemetryAggregated => false
  | _ => true

/-- The other keys of `to_dict()`, in order. -/
def keys : PayloadClass → List String
  | .reflectionCandidateCreated =>
      ["candidate_id", "source_artifact_id", "reason", "context", "created_at", "config_version"]
  | .reflectionAssessed =>
      ["assessment_id", "candidate_id", "approved", "confidence", "base_confidence",
        "recurrence_score", "contradiction_penalty", "duplicate_suppressed", "rules_evaluated",
        "supporting_record_ids", "created_at"]
  | .reflectionGenerated =>
      ["reflection_id", "candidate_id", "status", "insights", "reconstructed_rationale",
        "actionable_guidelines", "source_learning_record_ids", "created_at"]
  | .reflectionTraced =>
      ["trace_id", "reflection_id", "candidate_id", "approved", "confidence", "rules_fired",
        "contributing_learning_records", "ignored_learning_records", "duplicate_suppressed",
        "conflict_resolution", "created_at"]
  | .promotionCandidateCreated =>
      ["candidate_id", "source_reflection_ids", "promotion_type", "knowledge_type",
        "knowledge_domain", "title", "content", "confidence", "supporting_evidence",
        "contradicting_evidence", "created_at"]
  | .promotionAssessed =>
      ["assessment_id", "candidate_id", "confidence_score", "evidence_ratio", "supporting_count",
        "contradicting_count", "has_contradictions", "promotion_type_valid",
        "knowledge_type_valid", "findings", "warnings", "created_at"]
  | .promotionGated =>
      ["gate_result_id", "assessment_id", "candidate_id", "decision", "policy_version",
        "violations", "warnings", "created_at"]
  | .promotionDecision =>
      ["decision_id", "candidate_id", "gate_result_id", "decision", "knowledge_candidate_id",
        "reasons", "created_at"]
  | .sessionCreated =>
      ["session_id", "profile_id", "workspace_id", "binding_id", "protocol_version", "created_at"]
  | .sessionAttached =>
      ["session_id", "workspace_id", "binding_id", "capabilities", "attached_at"]
  | .packageStreamed =>
      ["session_id", "package_id", "context_id", "agent_id", "streamed_at"]
  | .sessionPaused =>
      ["session_id", "workspace_id", "paused_at"]
  | .sessionResumed =>
      ["session_id", "workspace_id", "resumed_at"]
  | .sessionDetached =>
      ["session_id", "workspace_id", "binding_id", "detached_at"]
  | .sessionClosed =>
      ["session_id", "workspace_id", "profile_id", "packages_streamed", "events_emitted",
        "closed_at"]
  | .workspaceCreated =>
      ["workspace_id", "name", "description", "agent_ids", "project_ids", "created_at"]
  | .workspaceSnapshotTaken =>
      ["snapshot_id", "workspace_id", "version", "active_decisions", "running_executions",
        "pending_reflections", "active_knowledge", "open_promotions", "planner_policy_id",
        "scheduler_jobs", "created_at"]
  | .workspaceSessionOpened =>
      ["session_id", "workspace_id", "agent_id", "agent_role", "snapshot_id", "created_at"]
  | .workspaceContextCompiled =>
      ["context_id", "session_id", "snapshot_id", "agent_id", "goals", "open_decisions",
        "running_executions", "pending_reflections", "recent_knowledge", "planner_policy_summary",
        "memory_focus", "lineage_summary", "created_at"]
  | .workspacePackageExported =>
      ["package_id", "workspace_id", "context_id", "snapshot_id", "agent_id", "lineage_paths",
        "exported_at"]
  | .connectorRegistered =>
      ["manifest_id", "transport_type", "name", "version", "registered_at"]
  | .connectorNegotiated =>
      ["negotiation_id", "manifest_id", "outcome", "matched_capabilities", "missing_capabilities",
        "negotiated_at"]
  | .connectorAttached =>
      ["session_id", "transport_manifest_id", "agent_session_id", "workspace_id", "attached_at"]
  | .transportPackageStreamed =>
      ["session_id", "package_id", "bytes_transferred", "serialization_format", "streamed_at"]
  | .connectorDetached =>
      ["session_id", "workspace_id", "packages_sent", "bytes_transferred", "detached_at"]
  | .connectorUnregistered =>
      ["manifest_id", "reason", "unregistered_at"]
  | .nodeRegistered =>
      ["node_id", "name", "transport_type", "endpoint", "workspace_ids", "registered_at"]
  | .nodeStatusChanged =>
      ["node_id", "old_status", "new_status", "changed_at"]
  | .sessionMigrating =>
      ["remote_session_id", "logical_session_id", "source_node_id", "target_node_id", "handoff_id",
        "handoff_type", "initiated_at"]
  | .sessionMigrated =>
      ["remote_session_id", "logical_session_id", "target_node_id", "handoff_id",
        "packages_transferred", "events_transferred", "completed_at"]
  | .sessionHandoffFailed =>
      ["remote_session_id", "source_node_id", "target_node_id", "handoff_id", "reason",
        "failed_at"]
  | .crossNodeTelemetryAggregated =>
      ["aggregation_id", "source_node_ids", "metric_type", "aggregation_method", "value",
        "sample_count", "aggregated_at"]

end PayloadClass

/-- An instance of a payload class. -/
structure EventPayload where
  cls : PayloadClass
  schemaVersion : String := PayloadClass.schemaVersion
  values : List Json
  complete : values.length = cls.keys.length

namespace EventPayload

/-- `payload.to_dict()`. -/
def toDict (payload : EventPayload) : JsonObj :=
  (if payload.cls.isVersioned then [("schema_version", .str payload.schemaVersion)] else []) ++
    payload.cls.keys.zip payload.values

theorem not_mem_keys (cls : PayloadClass) : "schema_version" ∉ cls.keys := by
  cases cls <;> decide

/-- A versioned class writes its version as a text; the other classes write none. -/
theorem lookup_schemaVersion (payload : EventPayload) :
    payload.toDict.lookup "schema_version" =
      if payload.cls.isVersioned then some (.str payload.schemaVersion) else none := by
  rw [toDict, List.lookup_append]
  cases payload.cls.isVersioned with
  | true => rfl
  | false =>
      have hnone : (payload.cls.keys.zip payload.values).lookup "schema_version" = none := by
        apply List.lookup_eq_none_iff.mpr
        intro m hm
        have hkey : m.1 ∈ payload.cls.keys := (List.of_mem_zip hm).1
        simpa using fun h : "schema_version" = m.1 => not_mem_keys _ (h ▸ hkey)
      rw [hnone]
      rfl

end EventPayload

end RationaleVault
