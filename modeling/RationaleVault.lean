import RationaleVault.Canonical.OneForm
import RationaleVault.Canonical.Serializer
import RationaleVault.Canonical.StableId
import RationaleVault.Canonical.Timestamp
import RationaleVault.CognitiveHead.Blockers
import RationaleVault.CognitiveHead.ConsistentCut
import RationaleVault.CognitiveHead.Decisions
import RationaleVault.CognitiveHead.DeltaDivergence
import RationaleVault.CognitiveHead.Incrementality
import RationaleVault.CognitiveHead.Lifecycles
import RationaleVault.CognitiveHead.ListOrder
import RationaleVault.CognitiveHead.Locality
import RationaleVault.CognitiveHead.MergedSupport
import RationaleVault.CognitiveHead.Reasoning
import RationaleVault.CognitiveHead.ReplayEngine
import RationaleVault.CognitiveHead.SnapshotPayload
import RationaleVault.CognitiveHead.SnapshotRoundTrip
import RationaleVault.CognitiveHead.Tolerance
import RationaleVault.Db.EventStore
import RationaleVault.Db.StreamLaw
import RationaleVault.Embedding.Builder
import RationaleVault.Embedding.Search
import RationaleVault.Embedding.Updates
import RationaleVault.Governance.Runtime
import RationaleVault.Knowledge.ContextCompiler
import RationaleVault.Knowledge.Contradiction
import RationaleVault.Knowledge.ContradictionCoherence
import RationaleVault.Knowledge.Graph
import RationaleVault.Knowledge.ProjectRegistry
import RationaleVault.Knowledge.PromotionPipeline
import RationaleVault.Knowledge.Resynthesis
import RationaleVault.Knowledge.Traceability
import RationaleVault.Ledger.Commit
import RationaleVault.Ledger.Concurrency
import RationaleVault.Ledger.Equivalence
import RationaleVault.Ledger.ReadOrder
import RationaleVault.Ledger.Receipts
import RationaleVault.Library.Fold
import RationaleVault.Library.Grouping
import RationaleVault.Library.Json
import RationaleVault.Library.JsonText
import RationaleVault.Library.Kahn
import RationaleVault.Library.LastWrite
import RationaleVault.Library.Numerals
import RationaleVault.Library.OrdDict
import RationaleVault.Library.Sha256
import RationaleVault.Library.Table
import RationaleVault.MarkdownProcesses
import RationaleVault.MarkdownRoundTrip
import RationaleVault.Memory.Backends
import RationaleVault.Memory.Bookkeeping
import RationaleVault.Memory.Broker
import RationaleVault.Memory.Consolidation
import RationaleVault.Memory.Isolation
import RationaleVault.Memory.Lessons
import RationaleVault.Memory.Replayed
import RationaleVault.Memory.SemanticSearch
import RationaleVault.Organization.Clusters
import RationaleVault.Organization.Graph
import RationaleVault.Organization.Recommendations
import RationaleVault.Organization.RegistrationOrder
import RationaleVault.ProjectionPlatform.Agreement
import RationaleVault.ProjectionPlatform.Cycles
import RationaleVault.ProjectionPlatform.Discipline
import RationaleVault.ProjectionPlatform.Laws
import RationaleVault.ProjectionPlatform.SnapshotLoss
import RationaleVault.Projections.AllPaths
import RationaleVault.Projections.AnalyticsAgreement
import RationaleVault.Projections.BlastRadius
import RationaleVault.Projections.Continuation
import RationaleVault.Projections.CostAllocation
import RationaleVault.Projections.DependencyChain
import RationaleVault.Projections.Fingerprint
import RationaleVault.Projections.Governance
import RationaleVault.Projections.GraphCycles
import RationaleVault.Projections.HistoricalContext
import RationaleVault.Projections.ImpactAnalysis
import RationaleVault.Projections.KnowledgeGraph
import RationaleVault.Projections.KnowledgeRecord
import RationaleVault.Projections.LastSession
import RationaleVault.Projections.Pipeline
import RationaleVault.Projections.Planner
import RationaleVault.Projections.Rebuild
import RationaleVault.Projections.ReflectionCycles
import RationaleVault.Projections.Service
import RationaleVault.Projections.Sessions
import RationaleVault.Projections.ShortestPath
import RationaleVault.Projections.TaskMigration
import RationaleVault.Projections.TimeTravel
import RationaleVault.Projections.Traversal
import RationaleVault.Recommendation.Runtime
import RationaleVault.Replay.Backends
import RationaleVault.Replay.DefaultReplayer
import RationaleVault.Retrieval.Orchestrator
import RationaleVault.Runtime.NodeRegistry
import RationaleVault.Runtime.SessionRegistry
import RationaleVault.Runtime.WorkspaceBindings
import RationaleVault.Schema.Payloads
import RationaleVault.SkillPlatform.ExecutionHistory
import RationaleVault.SkillPlatform.Gate
import RationaleVault.SkillPlatform.Outcome
import RationaleVault.SkillPlatform.Promotion
import RationaleVault.SkillPlatform.ReflectionIds
import RationaleVault.Telemetry.Metrics
import RationaleVault.Transport.Runtime
import RationaleVault.Workspace.Packages
import RationaleVault.Workspace.Sessions
