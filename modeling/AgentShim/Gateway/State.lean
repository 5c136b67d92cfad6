import AgentShim.Gateway.RouteEntries
import AgentShim.Plugins.Registry
import AgentShim.Router.RateLimit
import AgentShim.Router.Resolver
import Mathlib.Data.Finset.Dedup

/-
  The application state

  Handles built once at startup (`AppCore`) beside the policy snapshot a reload
  replaces (`AppSnapshot`). The rate limiter sits on the core in a cell of its
  own, which a reload replaces too.

  What the process finds outside the repository, or builds from parts that hold
  no routing state, is the environment: the plugin factories, the construction
  of one provider and its model listing, Unicode lower-casing, the buckets of
  the rate limiter and the YAML parser.

  What is proved:
    1. `build_eq_ok`, `build_router` — what startup puts where.
    2. `one_le_maxAttempts` — under a validated configuration every routed
       request may be attempted.

  Correspondence (Rust ↔ Lean):
    `AppState::build`        ↔ `AppState.build`, with the configuration path that
                               `run_core` pins afterwards
    `reload::build`          ↔ `AppSnapshot.ofConfig`, whose fields `AppState::build`
                               computes the same way
    the routing lines of `pipeline::dispatch_inner` ↔ `routeRequest`
-/

namespace AgentShim.Gateway

open AgentShim.Config AgentShim.CircuitBreaker AgentShim.ModelIndexing AgentShim.Plugins
  AgentShim.RateLimit AgentShim.Resolver AgentShim.RouteEntries AgentShim.StaticRoutes

/-- The surroundings of the process. A provider that cannot be built, or lists
no models, answers none. -/
structure Env (P Prov M L : Type) where
  builtinPlugins : List (PluginFactory P Prov)
  buildProvider : String → UpstreamConfig → Option Prov
  listModels : Prov → Option (OrdMap M)
  lower : String → String
  governor : Governor L
  parse : String → Except String GatewayConfig

/-- Immutable handles, and the cell of the rate limiter. -/
structure AppCore (Prov M L : Type) where
  configPath : Option String
  serverConfig : ServerConfig
  adminConfig : Option AdminConfig
  providers : OrdMap Prov
  resolver : ModelResolver M
  breakerRegistry : BreakerRegistry
  limiterRegistry : LimiterRegistry L

/-- The policy a request captures at its start. -/
structure AppSnapshot (P : Type) where
  config : GatewayConfig
  authEnabled : Bool
  authRequired : Bool
  configuredKeyHashes : Finset String
  plugins : PluginRegistry P

def AppSnapshot.ofConfig {P : Type} (cfg : GatewayConfig) (plugins : PluginRegistry P) :
    AppSnapshot P where
  config := cfg
  authEnabled := cfg.auth.enabled
  authRequired := cfg.auth.required
  configuredKeyHashes := cfg.auth.keys.keys.toFinset
  plugins := plugins

structure AppState (P Prov M L : Type) where
  core : AppCore Prov M L
  snapshot : AppSnapshot P

/-- What stops the construction: the plugin registry's error, or the panic of
the route table. -/
inductive StartError
  | pluginRegistry (e : RegistryBuildError)
  | routePanic
  deriving DecidableEq, Repr

variable {P Prov M L : Type} [Plugin P]

/-- The limiter of a configuration. -/
def limiterFor (cfg : RateLimitConfig) : LimiterRegistry L :=
  if cfg.enabled then .fromConfig cfg else .disabled

/-- The plugin registry of a configuration over the given providers. -/
def pluginsFor (env : Env P Prov M L) (providers : OrdMap Prov) (cfg : GatewayConfig) :
    Except RegistryBuildError (PluginRegistry P) :=
  PluginRegistry.build env.builtinPlugins cfg.plugins.entries cfg.routes providers

/-- The models the providers list at startup, by provider name. -/
def discovered (env : Env P Prov M L) (providers : OrdMap Prov) : List (String × OrdMap M) :=
  (providers.filterMapEntries fun _ p => env.listModels p).entries

def AppState.build (env : Env P Prov M L) (configPath : Option String) (cfg : GatewayConfig) :
    Except StartError (AppState P Prov M L) :=
  let providers := cfg.upstreams.filterMapEntries env.buildProvider
  match pluginsFor env providers cfg with
  | .error e => .error (.pluginRegistry e)
  | .ok plugins =>
    match StaticRouter.fromConfig cfg with
    | none => .error .routePanic
    | some router =>
      .ok
        { core :=
            { configPath := configPath
              serverConfig := cfg.server
              adminConfig := cfg.admin
              providers := providers
              resolver :=
                { staticRouter := router
                  modelIndex := .withMetadata env.lower (discovered env providers) }
              breakerRegistry := BreakerRegistry.new
              limiterRegistry := limiterFor cfg.rateLimit }
          snapshot := .ofConfig cfg plugins }

/-- What startup puts where: the snapshot and the limiter of the configuration,
its immutable fields on the core. -/
theorem build_eq_ok {env : Env P Prov M L} {path : Option String} {cfg : GatewayConfig}
    {s : AppState P Prov M L} (h : AppState.build env path cfg = .ok s) :
    (∃ plugins, pluginsFor env s.core.providers cfg = .ok plugins ∧
        s.snapshot = .ofConfig cfg plugins) ∧
      s.core.limiterRegistry = limiterFor cfg.rateLimit ∧
      s.core.serverConfig = cfg.server ∧ s.core.adminConfig = cfg.admin := by
  unfold AppState.build at h
  dsimp only at h
  split at h
  · cases h
  · rename_i plugins hplugins
    split at h
    · cases h
    · cases h
      exact ⟨⟨plugins, hplugins, rfl⟩, rfl, rfl, rfl⟩

/-- The route table startup puts on the core is that of the configuration. -/
theorem build_router {env : Env P Prov M L} {path : Option String} {cfg : GatewayConfig}
    {s : AppState P Prov M L} (h : AppState.build env path cfg = .ok s) :
    StaticRouter.fromConfig cfg = some s.core.resolver.staticRouter := by
  unfold AppState.build at h
  dsimp only at h
  split at h
  · cases h
  · split at h
    · cases h
    · rename_i router hrouter
      cases h
      exact hrouter

/-! ## The route of a request -/

/-- The route and the route entry a request goes on with, or the refusal. -/
def routeRequest (lower : String → String) (resolver : ModelResolver M) (cfg : GatewayConfig)
    (frontend : FrontendKind) (modelAlias : String) :
    Except RouteError (ResolvedRoute × RouteEntry) :=
  match resolver.resolveRoute lower frontend modelAlias with
  | .error e => .error e
  | .ok resolved =>
    match findRouteEntry cfg frontend modelAlias with
    | none => .error (.noRoute frontend modelAlias)
    | some entry => .ok (resolved, entry)

/-- The route of a request that arrives in a state. -/
def AppState.routeRequest (env : Env P Prov M L) (s : AppState P Prov M L)
    (frontend : FrontendKind) (modelAlias : String) :
    Except RouteError (ResolvedRoute × RouteEntry) :=
  Gateway.routeRequest env.lower s.core.resolver s.snapshot.config frontend modelAlias

/-- Under a validated configuration a routed request has a positive number of
attempts. -/
theorem one_le_maxAttempts {env : Env P Prov M L} {path : Option String} {cfg : GatewayConfig}
    {s : AppState P Prov M L} (hvalid : validate cfg = .ok ())
    (h : AppState.build env path cfg = .ok s) {frontend : FrontendKind} {modelAlias : String}
    {resolved : ResolvedRoute} {entry : RouteEntry}
    (hroute : s.routeRequest env frontend modelAlias = .ok (resolved, entry)) :
    1 ≤ resolved.retry.maxAttempts := by
  unfold AppState.routeRequest Gateway.routeRequest at hroute
  split at hroute
  · cases hroute
  · rename_i upgraded hupgraded
    split at hroute
    · cases hroute
    · cases hroute
      obtain ⟨static, hstatic, -, hretry, -⟩ := resolveRoute_eq_ok env.lower hupgraded
      obtain ⟨e, hformed, he, -⟩ := resolveRoute_wellFormed hvalid (build_router h) hstatic
      rw [hretry, he]
      exact hformed.maxAttempts

end AgentShim.Gateway
