import Veronex.Foundation.Pool
import Veronex.Foundation.Transition
import Veronex.Domain.Constants
import Veronex.Queue.Scripts
import Veronex.Queue.Accounting
import Veronex.Queue.DemandResync
import Veronex.Inference.JobEntry
import Veronex.Inference.TokenStream
import Veronex.Inference.UseCase
import Veronex.Inference.Dispatcher
import Veronex.Inference.Runner
import Veronex.Inference.Background
import Veronex.Inference.Cluster
import Veronex.Properties.RunningCounter
import Veronex.Inference.Invariants
import Veronex.Properties.HandedJob
import Veronex.Properties.Recovery
import Veronex.Properties.Leases
import Veronex.Inference.Places
import Veronex.Properties.PendingCounter
import Veronex.Capacity.VramPool
import Veronex.Foundation.Trace
import Veronex.Persistence.JobTable
import Veronex.Capacity.LoadedWeight
import Veronex.Capacity.LoadedModels
import Veronex.Capacity.ConcurrencyLimit
import Veronex.Capacity.Permits
import Veronex.Capacity.Overcommit
import Veronex.Capacity.VramLeases
import Veronex.Properties.TerminalStatus
import Veronex.Inference.Homes
import Veronex.Inference.Readers
import Veronex.Properties.FailedRows
import Veronex.Inference.Made
import Veronex.Inference.RateLimiter
import Veronex.Properties.TpmBooks
import Veronex.Properties.TpmBuckets
import Veronex.Dispatch.CircuitBreaker
import Veronex.Dispatch.Scoring
import Veronex.Foundation.Utf8Lossy
import Veronex.Ollama.Stream
import Veronex.Mcp.Bridge
import Veronex.Mcp.Rounds
import Veronex.Properties.McpLoop
import Veronex.Properties.ConversationTurns
import Veronex.Conversation.Record
import Veronex.Properties.StoredTurns
import Veronex.Foundation.FairShare
import Veronex.Capacity.Governor
import Veronex.Capacity.SyncProvider
import Veronex.Capacity.SyncCalls
import Veronex.Foundation.Program
import Veronex.Capacity.DispatchBlocks
import Veronex.Capacity.SyncLimits
import Veronex.Dispatch.RampUp
import Veronex.Dispatch.Planner
import Veronex.Dispatch.Eligibility
import Veronex.Properties.AcceptedJobs
import Veronex.Foundation.KeyChains
import Veronex.Conversation.SessionGrouping
import Veronex.Foundation.SlidingWindow
import Veronex.Inference.RpmWindow
import Veronex.Dispatch.GeminiLimits
import Veronex.Auth.Sessions
import Veronex.Auth.Revocation
import Veronex.Auth.Refresh
import Veronex.Mcp.ToolCache
import Veronex.Mcp.ToolNames
import Veronex.Mcp.ToolDispatch
import Veronex.Mcp.ToolAccess
import Veronex.Foundation.PrefixCode
import Veronex.Mcp.CanonicalJson
import Veronex.Mcp.ResultCache
import Veronex.Properties.CachedRecords
import Veronex.Conversation.Context
import Veronex.Conversation.Handoffs
import Veronex.Foundation.Lockstep
import Veronex.Properties.OwnerIsolation
import Veronex.Inference.ReaderQueues
import Veronex.Properties.ReaderWakeups
import Veronex.Agent.Shard
import Veronex.Agent.Membership
import Veronex.Agent.Scrape
import Veronex.Agent.OrphanSweep
import Veronex.Capacity.MeasuredWeight
import Veronex.Mcp.KeyAccess
import Veronex.Mcp.SessionManager
import Veronex.Ollama.Lifecycle
import Veronex.Properties.ReadyModels
import Veronex.Inference.Faults
import Veronex.Properties.QueuedJobs
import Veronex.Agent.Cleanup
import Veronex.Properties.CrashedJobs
import Veronex.Foundation.TtlLocks
import Veronex.Dispatch.PreloadLocks
import Veronex.Capacity.PreloadFlags
import Veronex.Dispatch.PlannerPreloads
import Veronex.Properties.Preloads
import Veronex.Dispatch.HealthChecker
import Veronex.Mcp.ToolRequests
import Veronex.Mcp.CircuitBreaker
import Veronex.Foundation.Positions
import Veronex.Http.ChatCompletion
import Veronex.Persistence.TtlCache
import Veronex.Persistence.ApiKeyCache
import Veronex.Foundation.FixedDigits
import Veronex.Telemetry.Otlp
import Veronex.Telemetry.Handlers
import Veronex.Telemetry.Ingest
import Veronex.Telemetry.Columns
import Veronex.Properties.EventRoundTrip
import Veronex.Foundation.BlockStore
import Veronex.Telemetry.Consumer
import Veronex.Properties.StoredRows
import Veronex.Properties.CommittedRows
import Veronex.Foundation.Blocks
import Veronex.Inference.ThinkFilter
import Veronex.Inference.StreamReads
import Veronex.Properties.StreamEnds
import Veronex.Properties.ToolCalls
import Veronex.Capacity.WeightAdmission
import Veronex.Properties.DemandCounts
import Veronex.Mcp.Weather
import Veronex.Properties.WeatherFetches
import Veronex.Properties.SharedContext
import Veronex.Properties.McpPassthrough
import Veronex.Conversation.Pruner
import Veronex.Dispatch.Overheating
import Veronex.Conversation.CompressedCounts
import Veronex.Properties.LoopDetection
import Veronex.Queue.Promotion
import Veronex.Dispatch.WaitCredit
import Veronex.Dispatch.PlannerRoom
import Veronex.Inference.DirectSpawn
import Veronex.Properties.WeatherReplicas
import Veronex.Capacity.KvEstimate
import Veronex.Http.GeminiContents
import Veronex.Http.GeminiAnswers
import Veronex.Http.OllamaChat
import Veronex.Http.ChatImages
import Veronex.Ollama.ProbeStall
import Veronex.Agent.Exposition
import Veronex.Dispatch.GpuReadings
import Veronex.Dispatch.ProviderUrl
import Veronex.Telemetry.FlowStats
import Veronex.Auth.AccountRoles
import Veronex.Gemini.Adapter
import Veronex.Http.EventFeed
import Veronex.Telemetry.EventRelay
import Veronex.Mcp.ToolServer
import Veronex.Persistence.ProviderKeys
