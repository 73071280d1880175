import Siralos.Text
import Siralos.Json
import Siralos.Emission
import Siralos.Provider
import Siralos.Conversation
import Siralos.Sse
import Siralos.SseMoves
import Siralos.SseCommit
import Siralos.SseTerminal
import Siralos.SseSplit
import Siralos.SseChunks
import Siralos.Approval
import Siralos.Turn
import Siralos.ToolGate
import Siralos.ToolRound
import Siralos.Transcript
import Siralos.Session
import Siralos.SessionHistory
import Siralos.SessionApprovals
import Siralos.Identity
import Siralos.Keyed
import Siralos.Contract
import Siralos.Evidence
import Siralos.TaskModel
import Siralos.TaskRuntime
import Siralos.TaskLedger
import Siralos.TaskPlanning
import Siralos.TaskCompletion
import Siralos.Replay
import Siralos.ReplayEvents
import Siralos.SseRecord
import Siralos.ReplayRecord
import Siralos.ReplayContract
import Siralos.Revision
import Siralos.Capability
import Siralos.Lifecycle
import Siralos.TaskQuiet
import Siralos.PlanBinding
import Siralos.PlanningFlow
import Siralos.Shedding
import Siralos.WorkingSet
import Siralos.WorkingSetTick
import Siralos.Workspace
import Siralos.Checkpoint
import Siralos.CheckpointStore
import Siralos.Undo
import Siralos.Mutation
import Siralos.WorkspacePath
import Siralos.EditUndo
import Siralos.EditRuns
import Siralos.Reconcile
import Siralos.ReconcileRuns
import Siralos.Matching
import Siralos.Redaction
import Siralos.StreamRedactor
import Siralos.StreamingTurn
import Siralos.LiveText
import Siralos.KnowledgePolicy
import Siralos.Knowledge
import Siralos.KnowledgeRetrieval
import Siralos.KnowledgePins
import Siralos.KnowledgeCoherence
import Siralos.KnowledgeCapacity
import Siralos.Scope
import Siralos.ScopeRuns
import Siralos.Profile
import Siralos.EffectivePolicy
import Siralos.Coding
import Siralos.Canonical
import Siralos.Segments
import Siralos.Marks
import Siralos.ReplayIdentity
import Siralos.Recorder
import Siralos.RecorderAccounts
import Siralos.RecorderRuns
import Siralos.RecorderSaturation
import Siralos.CredentialShape
import Siralos.ReplayStore
import Siralos.JsonText
import Siralos.ReplayStoreRead
import Siralos.ReplayStoreBodies
import Siralos.ReplayStoreRoundTrip
import Siralos.ReplayStoreEviction
import Siralos.KnowledgeRevisions
import Siralos.KnowledgeSecrets
import Siralos.ReferencePath
import Siralos.Reference
import Siralos.ReferenceRegistry
import Siralos.ReferenceBindings
import Siralos.ReferenceSelectors
import Siralos.StableSort
import Siralos.Decisions
import Siralos.WorkerLoop
import Siralos.WorkerCancel
import Siralos.WorkerRelay
import Siralos.Inspection
import Siralos.InspectionPaths
import Siralos.InspectionSearch
import Siralos.Listing
import Siralos.Traversal
import Siralos.Findable
import Siralos.Occurrence
import Siralos.ExactEdit
import Siralos.CheckpointCapacity
import Siralos.PlanScreen
import Siralos.PlanContent
import Siralos.PlanValidation
import Siralos.PlanCompact
import Siralos.PlanSize
import Siralos.PlanStorage
import Siralos.PlanClosure
import Siralos.PlanClosed
import Siralos.ApprovalExchange
import Siralos.CodingSync
import Siralos.RedactionForms
import Siralos.RedactionPlain
import Siralos.RedactionMarks
import Siralos.RedactionChannels
import Siralos.WorkerShutdown
import Siralos.WorkerSettled
import Siralos.Patterns
import Siralos.ClaimPatterns
import Siralos.ClaimMatchers
import Siralos.ClaimLaw
import Siralos.NameGate
import Siralos.BehavioralConfig
import Siralos.ValidationGrowth
import Siralos.Structure
import Siralos.ToolSurface
import Siralos.Trim
import Siralos.CredentialGate
import Siralos.CredentialMatches
import Siralos.EvidenceView
import Siralos.SearchSkips
import Siralos.SearchCoverage
import Siralos.SearchOrder
import Siralos.NamedProvider
import Siralos.NamedReplay
import Siralos.ResearchEvidence
import Siralos.ResearchVersion
import Siralos.Sanitize
import Siralos.Wrapping
import Siralos.Summary
import Siralos.RequestDigest
import Siralos.RouteUrl
import Siralos.Playback
import Siralos.Cursor
import Siralos.TuiSink
import Siralos.Reveal
import Siralos.ProviderForm
import Siralos.FormValid
import Siralos.FormRuns
import Siralos.FormSteps
import Siralos.Chunks
import Siralos.NewFiles
import Siralos.Eligibility
import Siralos.Globs
import Siralos.Proliferation
import Siralos.ScopeEviction
import Siralos.Assembly
import Siralos.AssemblyOrder
import Siralos.AssemblySelection
import Siralos.StaleReports
import Siralos.TaskReasons
import Siralos.CheckpointDocument
import Siralos.TruncatedBody
import Siralos.RedactedBody
import Siralos.LosslessStream
import Siralos.SplitReads
import Siralos.ToolNames
import Siralos.Calendar
import Siralos.EpochTime
import Siralos.TokenMatches
import Siralos.PrunedHistory
import Siralos.RoundPairing
import Siralos.StreamedTurn
import Siralos.ReplayAgreement
import Siralos.CrashCuts
import Siralos.CrashRecovery
import Siralos.BlockedStore
