import TokenProxy.AccountLocks.Safety
import TokenProxy.Admission.AccountLease
import TokenProxy.Admission.Fairness
import TokenProxy.Admission.Guarantees
import TokenProxy.Admission.LeaseConservation
import TokenProxy.Admission.LeaseGuarantees
import TokenProxy.Admission.LeaseSystem
import TokenProxy.Admission.ProviderAdmission
import TokenProxy.Billing.Agreement
import TokenProxy.Billing.Conventions
import TokenProxy.Capacity.History
import TokenProxy.Capacity.Trimming
import TokenProxy.ChatAdmission.Guarantees
import TokenProxy.Claude.CacheAnchors
import TokenProxy.Cloaking.Renaming
import TokenProxy.Cloaking.ToolNames
import TokenProxy.Combos.ComboGraph
import TokenProxy.Combos.Ordering
import TokenProxy.Combos.Rotation
import TokenProxy.Compaction.ContextCompactor
import TokenProxy.Compaction.DietPrune
import TokenProxy.Compaction.EpochCompact
import TokenProxy.Compaction.EpochCut
import TokenProxy.Compaction.PairDropper
import TokenProxy.Compaction.ToolPruner
import TokenProxy.Compaction.PrunedTwice
import TokenProxy.Compaction.ToolTiers
import TokenProxy.Compression.Elide
import TokenProxy.Compression.JsonCompact
import TokenProxy.Compression.SchemaDistillation
import TokenProxy.Compression.SchemaDistiller
import TokenProxy.Compression.SchemaMeaning
import TokenProxy.Compression.ToolSchemas
import TokenProxy.Configuration.Concurrency
import TokenProxy.Configuration.Diff
import TokenProxy.Context.Pressure
import TokenProxy.Credentials.CompareAndSwap
import TokenProxy.Critical.Faults
import TokenProxy.Critical.Safety
import TokenProxy.Cursor.AgentValue
import TokenProxy.Cursor.Composer
import TokenProxy.Cursor.Frames
import TokenProxy.Cursor.McpNames
import TokenProxy.Cursor.Protobuf
import TokenProxy.Cursor.WireFields
import TokenProxy.Diagnostics.LogSink
import TokenProxy.Disclosure.AppendOnly
import TokenProxy.Disclosure.ToolDisclosure
import TokenProxy.FrontOutcome.Applying
import TokenProxy.FrontOutcome.Confluence
import TokenProxy.FrontOutcome.Import
import TokenProxy.FrontOutcome.Ingest
import TokenProxy.FrontOutcome.Marks
import TokenProxy.FrontOutcome.Reading
import TokenProxy.FrontOutcome.Requests
import TokenProxy.FrontOutcome.Schedules
import TokenProxy.KeyLifecycle.ApiKeys
import TokenProxy.KeyLifecycle.Rotation
import TokenProxy.KeyLifecycle.RotationRuns
import TokenProxy.KeyLifecycle.RotationSafety
import TokenProxy.Lib.AppendCons
import TokenProxy.Lib.Arena
import TokenProxy.Lib.Batches
import TokenProxy.Lib.Buckets
import TokenProxy.Lib.CanonicalJson
import TokenProxy.Lib.Chunks
import TokenProxy.Lib.CommonPrefix
import TokenProxy.Lib.Compare
import TokenProxy.Lib.DepthFirst
import TokenProxy.Lib.Double
import TokenProxy.Lib.Emitter
import TokenProxy.Lib.EventStream
import TokenProxy.Lib.Framing
import TokenProxy.Lib.Greedy
import TokenProxy.Lib.IpText
import TokenProxy.Lib.JsonPlaces
import TokenProxy.Lib.JsonPrefix
import TokenProxy.Lib.JsonPrint
import TokenProxy.Lib.JsonRow
import TokenProxy.Lib.JsonText
import TokenProxy.Lib.Lines
import TokenProxy.Lib.Placement
import TokenProxy.Lib.Positions
import TokenProxy.Lib.Prefixes
import TokenProxy.Lib.Run
import TokenProxy.Lib.Runs
import TokenProxy.Lib.Scan
import TokenProxy.Lib.Spans
import TokenProxy.Lib.Table
import TokenProxy.Lib.Transaction
import TokenProxy.Lib.UnitText
import TokenProxy.Lib.Utf8
import TokenProxy.Notifications.Evaluate
import TokenProxy.Notifications.EvaluateSpec
import TokenProxy.Notifications.Outbox
import TokenProxy.Notifications.OutboxSafety
import TokenProxy.Notifications.Remediation
import TokenProxy.Notifications.RemediationSafety
import TokenProxy.Priority.Reorder
import TokenProxy.Privacy.Deltas
import TokenProxy.Privacy.Redaction
import TokenProxy.QuotaCheck.Lease
import TokenProxy.QuotaGuard.Cache
import TokenProxy.QuotaGuard.Evidence
import TokenProxy.QuotaGuard.Refreshes
import TokenProxy.QuotaGuard.Safety
import TokenProxy.Ranking.Dispatch
import TokenProxy.Ranking.Order
import TokenProxy.Ranking.Rank
import TokenProxy.Ranking.Repin
import TokenProxy.Ranking.Scope
import TokenProxy.Ranking.Windows
import TokenProxy.RateLimit.Window
import TokenProxy.Relevance.EmbedReorder
import TokenProxy.Relevance.QueryCompress
import TokenProxy.Relevance.Replay
import TokenProxy.RowCache.Cache
import TokenProxy.RowCache.Transparency
import TokenProxy.Scheduler.Atomicity
import TokenProxy.Scheduler.EarliestReset
import TokenProxy.Scheduler.PinCommands
import TokenProxy.Scheduler.PinLifecycle
import TokenProxy.Scheduler.Pins
import TokenProxy.Scheduler.SelectAndReserve
import TokenProxy.Ssrf.Guard
import TokenProxy.Statistics.Series
import TokenProxy.Streaming.Peek
import TokenProxy.Streaming.PeekSafety
import TokenProxy.Streaming.Replay
import TokenProxy.Streaming.StreamContent
import TokenProxy.Streaming.Terminal
import TokenProxy.TokenRefresh.Entries
import TokenProxy.TokenRefresh.Once
import TokenProxy.TokenRefresh.Sharing
import TokenProxy.Translator.ChatStream
import TokenProxy.Translator.Chunk
import TokenProxy.Translator.ClaudeMessage
import TokenProxy.Translator.ClaudePivot
import TokenProxy.Translator.ClaudeStream
import TokenProxy.Translator.ResponsesRequest
import TokenProxy.Translator.ResponsesStream
import TokenProxy.Translator.ResponsesTools
import TokenProxy.Translator.ThinkTags
import TokenProxy.Translator.ToolArguments
import TokenProxy.Transport.Pools
import TokenProxy.UsageProbes.Gate
import TokenProxy.Writer.Exclusion
