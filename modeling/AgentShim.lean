import AgentShim.Config.Schema
import AgentShim.Config.Validation
import AgentShim.Core.Content
import AgentShim.Core.Doubles
import AgentShim.Core.EffortClamp
import AgentShim.Core.Json
import AgentShim.Core.Request
import AgentShim.Core.Rounding
import AgentShim.Frontends.AnthropicDecode
import AgentShim.Frontends.AnthropicRoundTrip
import AgentShim.Frontends.AnthropicStream
import AgentShim.Frontends.ChatDecode
import AgentShim.Frontends.ChatRoundTrip
import AgentShim.Frontends.ChatStream
import AgentShim.Frontends.ChatToolIndices
import AgentShim.Frontends.CountTokens
import AgentShim.Frontends.Keepalive
import AgentShim.Frontends.PreludeLaw
import AgentShim.Frontends.ResponsesDecode
import AgentShim.Frontends.ResponsesItems
import AgentShim.Frontends.ResponsesRequest
import AgentShim.Frontends.ResponsesRoundTrip
import AgentShim.Frontends.ResponsesStream
import AgentShim.Frontends.ToolUseStop
import AgentShim.Frontends.UnaryEncode
import AgentShim.Gateway.AnonymousBucket
import AgentShim.Gateway.AnthropicAnswer
import AgentShim.Gateway.AnthropicRelay
import AgentShim.Gateway.BucketCharges
import AgentShim.Gateway.BucketRuns
import AgentShim.Gateway.ChatAnswer
import AgentShim.Gateway.ChatRelay
import AgentShim.Gateway.Collect
import AgentShim.Gateway.Dispatch
import AgentShim.Gateway.HeaderPaths
import AgentShim.Gateway.KeepaliveSetting
import AgentShim.Gateway.KeyBuckets
import AgentShim.Gateway.LatencyProbe
import AgentShim.Gateway.Passthrough
import AgentShim.Gateway.PluginRoutes
import AgentShim.Gateway.PolicySnapshot
import AgentShim.Gateway.RegisteredNames
import AgentShim.Gateway.Reload
import AgentShim.Gateway.RequestRelay
import AgentShim.Gateway.ResponseHooks
import AgentShim.Gateway.RouteBuckets
import AgentShim.Gateway.RouteEntries
import AgentShim.Gateway.SerialCollect
import AgentShim.Gateway.State
import AgentShim.Gateway.StreamRelay
import AgentShim.Gateway.StreamedAnswer
import AgentShim.Gateway.TokenCharges
import AgentShim.Gateway.ToolArguments
import AgentShim.Gateway.UnaryPath
import AgentShim.Gateway.UnaryRelay
import AgentShim.Gateway.UsageReports
import AgentShim.Lib.Checks
import AgentShim.Lib.Cursor
import AgentShim.Lib.FirstWins
import AgentShim.Lib.JsonText
import AgentShim.Lib.Ledger
import AgentShim.Lib.Lists
import AgentShim.Lib.Mailbox
import AgentShim.Lib.Optimum
import AgentShim.Lib.Precedence
import AgentShim.Lib.Runs
import AgentShim.Lib.Saturating
import AgentShim.Lib.Scan
import AgentShim.Lib.Tiling
import AgentShim.Lib.TokenBucket
import AgentShim.Lib.Transducer
import AgentShim.Lib.Upserts
import AgentShim.Lib.Utf8
import AgentShim.Plugins.Compressor
import AgentShim.Plugins.CompressorBudget
import AgentShim.Plugins.CompressorPairs
import AgentShim.Plugins.CompressorSummary
import AgentShim.Plugins.Invoke
import AgentShim.Plugins.PiiScrubber
import AgentShim.Plugins.Registry
import AgentShim.Plugins.RequestHooks
import AgentShim.Plugins.ScrubChain
import AgentShim.Plugins.ScrubPlan
import AgentShim.Plugins.ScrubStructure
import AgentShim.Plugins.StreamWrap
import AgentShim.Plugins.Supervisor
import AgentShim.Providers.AnthropicEnvelope
import AgentShim.Providers.AnthropicSse
import AgentShim.Providers.AnthropicUnary
import AgentShim.Providers.Capabilities
import AgentShim.Providers.ChatAdjacency
import AgentShim.Providers.ChatSse
import AgentShim.Providers.ChatSseLifecycle
import AgentShim.Providers.ChatUnary
import AgentShim.Providers.CopilotToken
import AgentShim.Providers.DeepSeekAgreement
import AgentShim.Providers.DeepSeekLifecycle
import AgentShim.Providers.DeepSeekReadings
import AgentShim.Providers.DeepSeekSse
import AgentShim.Providers.DeepSeekUnary
import AgentShim.Providers.GeminiAgreement
import AgentShim.Providers.GeminiEncode
import AgentShim.Providers.GeminiLifecycle
import AgentShim.Providers.GeminiReplay
import AgentShim.Providers.GeminiScanner
import AgentShim.Providers.GeminiUnary
import AgentShim.Providers.Interleaver
import AgentShim.Providers.InterleaverBlocks
import AgentShim.Providers.ModelRewrite
import AgentShim.Providers.ModelScanner
import AgentShim.Providers.ResponsesEncode
import AgentShim.Providers.ResponsesLifecycle
import AgentShim.Providers.ResponsesSse
import AgentShim.Router.Admission
import AgentShim.Router.Auth
import AgentShim.Router.BreakerRuns
import AgentShim.Router.BreakerWindow
import AgentShim.Router.Catalog
import AgentShim.Router.CatalogOrder
import AgentShim.Router.CatalogSpec
import AgentShim.Router.ChainWalk
import AgentShim.Router.CostEstimate
import AgentShim.Router.CostFilter
import AgentShim.Router.ExactModels
import AgentShim.Router.FuzzyModels
import AgentShim.Router.ModelIndex
import AgentShim.Router.RateLimit
import AgentShim.Router.RequestLog
import AgentShim.Router.ResilientCaller
import AgentShim.Router.Resolver
import AgentShim.Router.Retry
import AgentShim.Router.RetryBudget
import AgentShim.Router.RouteSelection
import AgentShim.Router.StaticRoutes
import AgentShim.Stream.Blocks
import AgentShim.Stream.Calls
import AgentShim.Stream.Closing
import AgentShim.Stream.Envelope
import AgentShim.Stream.Lifecycle
import AgentShim.Stream.Readings
import AgentShim.Stream.Serial
