import AgentShim.Core.Types
import AgentShim.Lib.OrdMap

/-
  The gateway configuration

  The configuration as the rest of the gateway receives it, after parsing. A
  `BTreeMap` is an `OrdMap`; a `u16`, `u32` or `u64` is a natural number; the
  redacting wrapper of API keys is dropped. Fields that no modelled function
  reads (logging, metrics, header maps, resource attributes, the Copilot
  credential path) are left out.

  Correspondence (Rust ↔ Lean):
    `schema::GatewayConfig` and its blocks ↔ the structures below
    `schema::UpstreamConfig`               ↔ `UpstreamConfig`; the five
      HTTP upstreams share `ApiUpstream`, Anthropic's adds its version
    `plugins::{PluginEntry, TimeoutMs, RoutePluginsBlock}` ↔ the same names
    `upstream_accessors`                   ↔ `upstreamTier`, `upstreamCost`,
                                             `upstreamLatencyBudget`
-/

namespace AgentShim.Config

structure ServerConfig where
  bind : String
  port : Nat
  keepaliveSecs : Nat
  deriving DecidableEq, Repr

/-- The admin listener; its absence disables the listener. -/
@[ext] structure AdminConfig where
  bind : String
  port : Nat
  deriving DecidableEq, Repr

structure OtelConfig where
  endpoint : Option String
  sampleRatio : F64
  deriving DecidableEq, Repr

structure ShutdownConfig where
  pluginFlushSecs : Nat
  deriving DecidableEq, Repr

/-- Service tier of an upstream, economy < standard < premium. -/
inductive Tier
  | economy
  | standard
  | premium
  deriving DecidableEq, Repr

/-- The position of a tier in the order. -/
def Tier.rank : Tier → Nat
  | economy => 0
  | standard => 1
  | premium => 2

structure UpstreamCost where
  inputPerMillionUsd : F64
  outputPerMillionUsd : F64
  deriving DecidableEq, Repr

/-- The fields the HTTP upstreams share. -/
structure ApiUpstream where
  baseUrl : String
  apiKey : String
  requestTimeoutSecs : Nat
  tier : Tier
  cost : Option UpstreamCost
  p95LatencyBudgetMs : Option Nat
  deriving DecidableEq, Repr

structure AnthropicUpstream extends ApiUpstream where
  anthropicVersion : String
  deriving DecidableEq, Repr

/-- A subscription upstream: no URL and no key in the configuration. -/
structure GithubCopilotUpstream where
  tier : Tier
  cost : Option UpstreamCost
  p95LatencyBudgetMs : Option Nat
  deriving DecidableEq, Repr

inductive UpstreamConfig
  | openAiCompatible (c : ApiUpstream)
  | githubCopilot (c : GithubCopilotUpstream)
  | anthropic (c : AnthropicUpstream)
  | deepseek (c : ApiUpstream)
  | gemini (c : ApiUpstream)
  | glm (c : ApiUpstream)
  deriving DecidableEq, Repr

namespace UpstreamConfig

def isGithubCopilot : UpstreamConfig → Bool
  | githubCopilot _ => true
  | _ => false

def upstreamTier : UpstreamConfig → Tier
  | openAiCompatible c => c.tier
  | githubCopilot c => c.tier
  | anthropic c => c.tier
  | deepseek c => c.tier
  | gemini c => c.tier
  | glm c => c.tier

def upstreamCost : UpstreamConfig → Option UpstreamCost
  | openAiCompatible c => c.cost
  | githubCopilot c => c.cost
  | anthropic c => c.cost
  | deepseek c => c.cost
  | gemini c => c.cost
  | glm c => c.cost

def upstreamLatencyBudget : UpstreamConfig → Option Nat
  | openAiCompatible c => c.p95LatencyBudgetMs
  | githubCopilot c => c.p95LatencyBudgetMs
  | anthropic c => c.p95LatencyBudgetMs
  | deepseek c => c.p95LatencyBudgetMs
  | gemini c => c.p95LatencyBudgetMs
  | glm c => c.p95LatencyBudgetMs

end UpstreamConfig

/-- One upstream of a fallback chain. -/
structure UpstreamRef where
  name : String
  model : String
  deriving DecidableEq, Repr

/-- Per-route retry policy. -/
structure RetryConfig where
  maxAttempts : Nat
  initialBackoffMs : Nat
  multiplier : F64
  jitterPct : F64
  totalBudgetMs : Nat
  retryOn : List String
  deriving DecidableEq, Repr

def RetryConfig.default : RetryConfig where
  maxAttempts := 2
  initialBackoffMs := 100
  multiplier := .finite 2
  jitterPct := .finite 25
  totalBudgetMs := 5000
  retryOn := ["network", "upstream_5xx", "upstream_429"]

/-- Per-route circuit-breaker policy. -/
structure BreakerConfig where
  enabled : Bool
  failureThresholdPct : Nat
  minRequests : Nat
  windowSecs : Nat
  openCooldownSecs : Nat
  deriving DecidableEq, Repr

def BreakerConfig.default : BreakerConfig where
  enabled := true
  failureThresholdPct := 50
  minRequests := 20
  windowSecs := 60
  openCooldownSecs := 30

/-- One row of a route's effort rewrite table, before parsing. -/
structure MappingRuleConfig where
  «match» : String
  set : String
  deriving DecidableEq, Repr

/-- Per-route plugin lists, one per hook. -/
structure RoutePluginsBlock where
  onDecodedRequest : List String
  onResolved : List String
  onStreamEvent : List String
  onResponseComplete : List String
  deriving DecidableEq, Repr

namespace RoutePluginsBlock

def isEmpty (b : RoutePluginsBlock) : Bool :=
  b.onDecodedRequest.isEmpty && b.onResolved.isEmpty && b.onStreamEvent.isEmpty &&
    b.onResponseComplete.isEmpty

/-- Every `(hook, plugin)` pair, in hook order. -/
def iterReferences (b : RoutePluginsBlock) : List (String × String) :=
  b.onDecodedRequest.map (fun n => ("on_decoded_request", n)) ++
    b.onResolved.map (fun n => ("on_resolved", n)) ++
    b.onStreamEvent.map (fun n => ("on_stream_event", n)) ++
    b.onResponseComplete.map (fun n => ("on_response_complete", n))

end RoutePluginsBlock

/-- One route: the inbound model pattern of a frontend, the upstream (singular
form) or the upstreams (array form) it goes to, and its policies. -/
structure RouteEntry where
  frontend : String
  model : String
  upstream : Option String
  upstreamModel : Option String
  upstreams : List UpstreamRef
  reasoningEffort : Option String
  anthropicBeta : Option String
  retry : RetryConfig
  breaker : BreakerConfig
  minTier : Option Tier
  maxCostUsd : Option F64
  plugins : Option RoutePluginsBlock
  reasoningMapping : List MappingRuleConfig
  deriving DecidableEq, Repr

/-- A singular-form route with every policy at its default. -/
def RouteEntry.singular (frontend model upstream upstreamModel : String) : RouteEntry where
  frontend := frontend
  model := model
  upstream := some upstream
  upstreamModel := some upstreamModel
  upstreams := []
  reasoningEffort := none
  anthropicBeta := none
  retry := .default
  breaker := .default
  minTier := none
  maxCostUsd := none
  plugins := none
  reasoningMapping := []

inductive OnErrorYaml
  | skip
  | fail
  deriving DecidableEq, Repr

/-- A plugin's timeouts: one for all hooks, or one per hook over a default. -/
inductive TimeoutMs
  | uniform (ms : Nat)
  | perHook (default onDecodedRequest onResolved onStreamEvent onResponseComplete : Option Nat)
  deriving DecidableEq, Repr

/-- One plugin declaration. -/
structure PluginEntry where
  kind : String
  config : Json
  onError : OnErrorYaml
  timeoutMs : Option TimeoutMs
  enabled : Bool

structure AuthConfig where
  enabled : Bool
  required : Bool
  keys : OrdMap String

structure BucketConfigYaml where
  ratePerSec : Nat
  burst : Nat
  deriving DecidableEq, Repr

structure PerKeyConfig where
  default : Option BucketConfigYaml
  anonymous : Option BucketConfigYaml
  overrides : OrdMap BucketConfigYaml

structure PerIpConfig where
  enabled : Bool
  ratePerSec : Nat
  burst : Nat
  deriving DecidableEq, Repr

structure RateLimitConfig where
  enabled : Bool
  perKey : PerKeyConfig
  perRoute : OrdMap BucketConfigYaml
  perUpstream : OrdMap BucketConfigYaml
  perIp : PerIpConfig

structure GatewayConfig where
  server : ServerConfig
  upstreams : OrdMap UpstreamConfig
  routes : List RouteEntry
  plugins : OrdMap PluginEntry
  auth : AuthConfig
  rateLimit : RateLimitConfig
  admin : Option AdminConfig
  otel : Option OtelConfig
  shutdown : ShutdownConfig

end AgentShim.Config
