import AgentShim.Gateway.State
import Mathlib.Data.List.Basic

/-
  Configuration reload

  A reload attempt reads a candidate from the disk or its own body, parses it,
  checks it against the running state, builds its plugin registry and only then
  replaces the snapshot and, from the committed snapshot, the rate limiter.
  Between attempts requests take tokens from the limiter.

  A run is watched by an observer who sees outcomes and candidates only: the
  last accepted candidate, and the rate-limit checks made since.

  What is proved:
    1. `handleReload_of_rejected` — a refused attempt leaves the whole state as
       it was, whichever of the exits it takes.
    2. `handleReload_of_accepted` — an accepted one installs the candidate and
       what is built from it, and the candidate agrees with the running state
       on every immutable field.
    3. `reload_coherence` — after any run the snapshot, the plugin registry, the
       key set and the limiter are those of the last accepted configuration,
       whose immutable fields are the startup ones.
    4. `routeRequest_after_reloads` — the routes-table reload split: requests
       are resolved as by a process started on the startup configuration, and
       get the route entry a process started on the last accepted one gives.

  Correspondence (Rust ↔ Lean):
    `ReloadSource`, `ReloadOutcome` ↔ the same names; an outcome keeps the error
      its text is formatted from
    `handle_reload`                 ↔ `handleReload` (`readYaml` its first match)
-/

namespace AgentShim.Gateway

open AgentShim.Config AgentShim.Plugins AgentShim.RateLimit AgentShim.Resolver
  AgentShim.RouteEntries AgentShim.StaticRoutes

inductive ReloadSource
  | path (p : String)
  | yaml (body : String)
  | sighup
  deriving DecidableEq, Repr

inductive ReloadOutcome
  | ok (diff : ReloadDiff)
  | validationError (e : ReloadValidationError)
  | immutableField (e : ReloadValidationError)
  | io (message : String)
  | parse (message : String)
  | pluginValidation (e : RegistryBuildError)
  deriving DecidableEq, Repr

/-- One reload request, and what the disk answers while it is served. -/
structure Attempt where
  source : ReloadSource
  readToString : String → Except String String

def readYaml (configPath : Option String) (a : Attempt) : Except String String :=
  match a.source with
  | .path p => a.readToString p
  | .yaml body => .ok body
  | .sighup =>
    match configPath with
    | some p => a.readToString p
    | none => .error "no config path; SIGHUP can't re-read"

variable {P Prov M L : Type} [Plugin P]

/-- The running state as the reload check sees it: the live snapshot's upstreams
and endpoint, the core's server and admin blocks. -/
def AppState.baseline (s : AppState P Prov M L) : ReloadBaseline where
  upstreamNames := s.snapshot.config.upstreams.keys
  server := s.core.serverConfig
  admin := s.core.adminConfig
  otelEndpoint := s.snapshot.config.otelEndpoint

def AppState.storeSnapshot (s : AppState P Prov M L) (snapshot : AppSnapshot P) :
    AppState P Prov M L :=
  { s with snapshot := snapshot }

/-- The same core with another registry in the limiter's cell. -/
def AppCore.withLimiter (c : AppCore Prov M L) (limiter : LimiterRegistry L) : AppCore Prov M L :=
  { c with limiterRegistry := limiter }

@[simp] theorem AppCore.withLimiter_withLimiter (c : AppCore Prov M L) (l l' : LimiterRegistry L) :
    (c.withLimiter l).withLimiter l' = c.withLimiter l' := rfl

def AppState.storeLimiter (s : AppState P Prov M L) (limiter : LimiterRegistry L) :
    AppState P Prov M L :=
  { s with core := s.core.withLimiter limiter }

def handleReload (env : Env P Prov M L) (s : AppState P Prov M L) (a : Attempt) :
    AppState P Prov M L × ReloadOutcome :=
  match readYaml s.core.configPath a with
  | .error e => (s, .io e)
  | .ok yaml =>
    match env.parse yaml with
    | .error e => (s, .parse e)
    | .ok candidate =>
      match validateForReload candidate s.baseline with
      | .error (.immutableFieldChanged field old new) =>
        (s, .immutableField (.immutableFieldChanged field old new))
      | .error (.upstreamSetChanged added removed) =>
        (s, .immutableField (.upstreamSetChanged added removed))
      | .error other => (s, .validationError other)
      | .ok diff =>
        match pluginsFor env s.core.providers candidate with
        | .error e => (s, .pluginValidation e)
        | .ok plugins =>
          let stored := s.storeSnapshot (.ofConfig candidate plugins)
          -- the limiter is rebuilt from the snapshot just committed
          let committed := stored.snapshot
          (stored.storeLimiter (limiterFor committed.config.rateLimit), .ok diff)

/-- The configuration an attempt offers, if it can be read and parsed. -/
def candidateOf (env : Env P Prov M L) (configPath : Option String) (a : Attempt) :
    Option GatewayConfig :=
  match readYaml configPath a with
  | .error _ => none
  | .ok yaml =>
    match env.parse yaml with
    | .error _ => none
    | .ok candidate => some candidate

def ReloadOutcome.accepted : ReloadOutcome → Bool
  | ok _ => true
  | _ => false

/-- **A refused attempt changes nothing.** -/
theorem handleReload_of_rejected {env : Env P Prov M L} {s : AppState P Prov M L} {a : Attempt}
    (h : (handleReload env s a).2.accepted = false) : (handleReload env s a).1 = s := by
  unfold handleReload at h ⊢
  split
  · rfl
  · rename_i yaml hyaml
    rw [hyaml] at h
    split
    · rfl
    · rename_i candidate hparse
      simp only [hparse] at h
      split
      · rfl
      · rfl
      · rfl
      · rename_i diff hvalid
        simp only [hvalid] at h
        split
        · rfl
        · rename_i plugins hplugins
          simp only [hplugins] at h
          cases h

/-- **What an accepted attempt does.** -/
theorem handleReload_of_accepted {env : Env P Prov M L} {s : AppState P Prov M L} {a : Attempt}
    (h : (handleReload env s a).2.accepted = true) :
    ∃ candidate plugins, candidateOf env s.core.configPath a = some candidate ∧
      Immutable candidate s.baseline ∧ validate candidate = .ok () ∧
      pluginsFor env s.core.providers candidate = .ok plugins ∧
      (handleReload env s a).1 =
        (s.storeSnapshot (.ofConfig candidate plugins)).storeLimiter
          (limiterFor candidate.rateLimit) := by
  unfold handleReload at h ⊢
  unfold candidateOf
  split at h
  · cases h
  · rename_i yaml hyaml
    split at h
    · cases h
    · rename_i candidate hparse
      split at h
      · cases h
      · cases h
      · cases h
      · rename_i diff hvalid
        split at h
        · cases h
        · rename_i plugins hplugins
          obtain ⟨himm, hok⟩ := immutable_of_validateForReload hvalid
          exact ⟨candidate, plugins, rfl, himm, hok, hplugins, rfl⟩

/-- An attempt whose candidate reads, parses, validates and builds. -/
theorem handleReload_eq {env : Env P Prov M L} {s : AppState P Prov M L} {a : Attempt}
    {candidate : GatewayConfig} {diff : ReloadDiff} {plugins : PluginRegistry P}
    (hc : candidateOf env s.core.configPath a = some candidate)
    (hv : validateForReload candidate s.baseline = .ok diff)
    (hp : pluginsFor env s.core.providers candidate = .ok plugins) :
    handleReload env s a =
      ((s.storeSnapshot (.ofConfig candidate plugins)).storeLimiter
        (limiterFor candidate.rateLimit), .ok diff) := by
  unfold candidateOf at hc
  unfold handleReload
  split at hc
  · cases hc
  · split at hc
    · cases hc
    · cases hc
      simp only [hv, hp]
      rfl

/-! ## Runs of the gateway -/

/-- What can happen to the state: a reload attempt, or one of a request's two
kinds of rate-limit check. -/
inductive GatewayOp
  | reload (a : Attempt)
  | preChain (clock : RateLimitDimension → Reading) (identity : AgentIdentity)
      (frontendModel clientIp : String)
  | perUpstream (t : Reading) (upstream : String)

/-- What an operation does to the limiter. -/
def runCheck (g : Governor L) (r : LimiterRegistry L) : GatewayOp → LimiterRegistry L
  | .reload _ => r
  | .preChain clock identity frontendModel clientIp =>
    (r.checkPreChain g clock identity frontendModel clientIp).1
  | .perUpstream t upstream => (r.checkPerUpstream g t upstream).1

def step (env : Env P Prov M L) (s : AppState P Prov M L) : GatewayOp → AppState P Prov M L
  | .reload a => (handleReload env s a).1
  | check => s.storeLimiter (runCheck env.governor s.core.limiterRegistry check)

/-- The candidate an operation gets accepted, if it is an accepted attempt. -/
def acceptedCandidate (env : Env P Prov M L) (s : AppState P Prov M L) :
    GatewayOp → Option GatewayConfig
  | .reload a =>
    if (handleReload env s a).2.accepted then candidateOf env s.core.configPath a else none
  | _ => none

/-- A running gateway with the observer's record: the last accepted
configuration, and the operations since. -/
structure Observed (P Prov M L : Type) where
  state : AppState P Prov M L
  lastAccepted : GatewayConfig
  since : List GatewayOp

def Observed.next (env : Env P Prov M L) (o : Observed P Prov M L) (op : GatewayOp) :
    Observed P Prov M L :=
  match acceptedCandidate env o.state op with
  | some candidate => { state := step env o.state op, lastAccepted := candidate, since := [] }
  | none => { o with state := step env o.state op, since := o.since ++ [op] }

theorem Observed.next_of_accepted {env : Env P Prov M L} {o : Observed P Prov M L} {a : Attempt}
    {candidate : GatewayConfig} (ha : (handleReload env o.state a).2.accepted = true)
    (hc : candidateOf env o.state.core.configPath a = some candidate) :
    o.next env (.reload a) =
      { state := (handleReload env o.state a).1, lastAccepted := candidate, since := [] } := by
  rw [Observed.next, acceptedCandidate, if_pos ha, hc, step]

/-- A run from a freshly started process. -/
def observe (env : Env P Prov M L) (startup : GatewayConfig) (s₀ : AppState P Prov M L)
    (ops : List GatewayOp) : Observed P Prov M L :=
  ops.foldl (Observed.next env) { state := s₀, lastAccepted := startup, since := [] }

/-- The immutable fields of a configuration are those of the startup one. -/
def ImmutableSince (startup cfg : GatewayConfig) : Prop :=
  Immutable cfg
    { upstreamNames := startup.upstreams.keys
      server := startup.server
      admin := startup.admin
      otelEndpoint := startup.otelEndpoint }

/-- The state holds what is built from the last accepted configuration, on the
handles built at startup. -/
structure Coherent (env : Env P Prov M L) (startup : GatewayConfig) (s₀ : AppState P Prov M L)
    (o : Observed P Prov M L) : Prop where
  snapshot : ∃ plugins, pluginsFor env s₀.core.providers o.lastAccepted = .ok plugins ∧
    o.state.snapshot = .ofConfig o.lastAccepted plugins
  limiter : o.state.core.limiterRegistry =
    o.since.foldl (runCheck env.governor) (limiterFor o.lastAccepted.rateLimit)
  core : ∃ limiter, o.state.core = s₀.core.withLimiter limiter
  immutable : ImmutableSince startup o.lastAccepted

section Invariant

variable {env : Env P Prov M L} {startup : GatewayConfig} {path : Option String}
  {s₀ : AppState P Prov M L}

theorem coherent_start (h : AppState.build env path startup = .ok s₀) :
    Coherent env startup s₀ { state := s₀, lastAccepted := startup, since := [] } where
  snapshot := (build_eq_ok h).1
  limiter := (build_eq_ok h).2.1
  core := ⟨s₀.core.limiterRegistry, rfl⟩
  immutable := ⟨rfl, rfl, rfl, rfl, fun _ => Iff.rfl⟩

theorem Coherent.immutable_of_baseline {o : Observed P Prov M L} (h : Coherent env startup s₀ o)
    (hb : AppState.build env path startup = .ok s₀) {candidate : GatewayConfig}
    (hc : Immutable candidate o.state.baseline) : ImmutableSince startup candidate := by
  obtain ⟨_, _, hserver, hadmin⟩ := build_eq_ok hb
  obtain ⟨plugins, _, hsnapshot⟩ := h.snapshot
  obtain ⟨limiter, hcore⟩ := h.core
  -- the baseline reads the core, which never moved, and the last accepted config
  have hbaseline : o.state.baseline =
      { upstreamNames := o.lastAccepted.upstreams.keys
        server := startup.server
        admin := startup.admin
        otelEndpoint := o.lastAccepted.otelEndpoint } := by
    rw [AppState.baseline, hsnapshot, hcore, ← hserver, ← hadmin]
    rfl
  rw [hbaseline] at hc
  exact {
    bind := hc.bind
    port := hc.port
    admin := hc.admin
    endpoint := hc.endpoint.trans h.immutable.endpoint
    upstreams := fun n => (hc.upstreams n).trans (h.immutable.upstreams n) }

theorem Coherent.accept {o : Observed P Prov M L} (h : Coherent env startup s₀ o)
    (hb : AppState.build env path startup = .ok s₀) {a : Attempt}
    (ha : (handleReload env o.state a).2.accepted = true) :
    Coherent env startup s₀ (o.next env (.reload a)) := by
  obtain ⟨candidate, plugins, hcand, himm, _, hplugins, hstate⟩ := handleReload_of_accepted ha
  obtain ⟨limiter, hcore⟩ := h.core
  rw [Observed.next_of_accepted ha hcand, hstate]
  rw [hcore] at hplugins
  exact {
    snapshot := ⟨plugins, hplugins, rfl⟩
    limiter := rfl
    core := ⟨limiterFor candidate.rateLimit, by
      show o.state.core.withLimiter _ = _
      rw [hcore, AppCore.withLimiter_withLimiter]⟩
    immutable := h.immutable_of_baseline hb himm }

theorem Coherent.reject {o : Observed P Prov M L} (h : Coherent env startup s₀ o) {a : Attempt}
    (ha : (handleReload env o.state a).2.accepted = false) :
    Coherent env startup s₀ (o.next env (.reload a)) := by
  have hnext : o.next env (.reload a) = { o with since := o.since ++ [.reload a] } := by
    rw [Observed.next, acceptedCandidate, ha, step, handleReload_of_rejected ha]
    rfl
  rw [hnext]
  refine ⟨h.snapshot, ?_, h.core, h.immutable⟩
  show o.state.core.limiterRegistry = _
  rw [List.foldl_append, ← h.limiter]
  rfl

theorem Coherent.check {o : Observed P Prov M L} (h : Coherent env startup s₀ o) {op : GatewayOp}
    (hop : acceptedCandidate env o.state op = none)
    (hstep : step env o.state op =
      o.state.storeLimiter (runCheck env.governor o.state.core.limiterRegistry op)) :
    Coherent env startup s₀ (o.next env op) := by
  obtain ⟨limiter, hcore⟩ := h.core
  rw [Observed.next, hop, hstep]
  refine ⟨h.snapshot, ?_, ⟨runCheck env.governor o.state.core.limiterRegistry op, ?_⟩, h.immutable⟩
  · show runCheck env.governor o.state.core.limiterRegistry op = _
    rw [List.foldl_append, ← h.limiter]
    rfl
  · show o.state.core.withLimiter _ = _
    rw [hcore, AppCore.withLimiter_withLimiter]

theorem coherent_next {o : Observed P Prov M L} (h : Coherent env startup s₀ o)
    (hb : AppState.build env path startup = .ok s₀) (op : GatewayOp) :
    Coherent env startup s₀ (o.next env op) := by
  cases op with
  | reload a =>
    cases ha : (handleReload env o.state a).2.accepted with
    | true => exact h.accept hb ha
    | false => exact h.reject ha
  | preChain clock identity frontendModel clientIp => exact h.check rfl rfl
  | perUpstream t upstream => exact h.check rfl rfl

theorem coherent_observe (h : AppState.build env path startup = .ok s₀) (ops : List GatewayOp) :
    Coherent env startup s₀ (observe env startup s₀ ops) :=
  List.foldlRecOn ops (Observed.next env) (coherent_start h) fun _ ho op _ =>
    coherent_next ho h op

end Invariant

/-- **Reload coherence.** After any run the snapshot, with its plugin registry
and key set, and the limiter are those of the last accepted configuration, the
immutable fields are the startup ones, and a refused attempt changes nothing. -/
theorem reload_coherence (env : Env P Prov M L) (path : Option String) (startup : GatewayConfig)
    (s₀ : AppState P Prov M L) (h : AppState.build env path startup = .ok s₀)
    (ops : List GatewayOp) :
    Coherent env startup s₀ (observe env startup s₀ ops) ∧
      ∀ a, (handleReload env (observe env startup s₀ ops).state a).2.accepted = false →
        (handleReload env (observe env startup s₀ ops).state a).1 =
          (observe env startup s₀ ops).state :=
  ⟨coherent_observe h ops, fun _ ha => handleReload_of_rejected ha⟩

/-- Surroundings without plugins or model listings, whose parser knows one
document. -/
def bareEnv (document : String) (cfg : GatewayConfig) : Env Empty Unit Unit Unit where
  builtinPlugins := []
  buildProvider := fun _ _ => some ()
  listModels := fun _ => none
  lower := Text.toAsciiLowercase
  governor := { direct := fun _ _ => (), check := fun _ _ => ((), none) }
  parse := fun yaml => if yaml == document then .ok cfg else .error "unexpected document"

instance : Plugin Empty where
  kindName := Empty.elim
  hooks := Empty.elim

/-- One route, to the given upstream model. -/
def modelConfig (upstreamModel : String) : GatewayConfig :=
  plainConfig [.singular "openai" "gpt-4o" "openai" upstreamModel]

def miniDocument : String :=
  "upstreams:\n  openai:\n    type: open_ai_compatible\n" ++
    "    base_url: https://api.openai.com/v1\n    api_key: sk-1\n    tier: standard\n" ++
    "routes:\n  - frontend: openai\n    model: gpt-4o\n    upstream: openai\n" ++
    "    upstream_model: gpt-4o-mini\n"

def miniEnv : Env Empty Unit Unit Unit := bareEnv miniDocument (modelConfig "gpt-4o-mini")

def datedConfig : GatewayConfig := modelConfig "gpt-4o-2024-11-20"

/-- The attempt to reload the document in a request body. -/
def miniAttempt : Attempt where
  source := .yaml miniDocument
  readToString := fun _ => .error "not found"

theorem candidateOf_miniAttempt (path : Option String) :
    candidateOf miniEnv path miniAttempt = some (modelConfig "gpt-4o-mini") := by
  simp [candidateOf, readYaml, miniAttempt, miniEnv, bareEnv]

/-- The state after the attempt, from a fresh process on the dated model. -/
theorem observe_miniAttempt {s : AppState Empty Unit Unit Unit}
    (h : AppState.build miniEnv none datedConfig = .ok s) :
    observe miniEnv datedConfig s [.reload miniAttempt] =
      { state := (s.storeSnapshot (.ofConfig (modelConfig "gpt-4o-mini")
          { plugins := ∅, plans := fun _ => none })).storeLimiter .disabled
        lastAccepted := modelConfig "gpt-4o-mini"
        since := [] } := by
  have hb : s.baseline =
      { upstreamNames := ["openai"], server := datedConfig.server, admin := none,
        otelEndpoint := none } := by
    cases h
    rfl
  have hv : validateForReload (modelConfig "gpt-4o-mini") s.baseline =
      .ok { ReloadDiff.default with routesTotal := 1 } := by
    rw [hb]
    rfl
  have hp : pluginsFor miniEnv s.core.providers (modelConfig "gpt-4o-mini") =
      .ok { plugins := ∅, plans := fun _ => none } := rfl
  have hc := candidateOf_miniAttempt s.core.configPath
  have hreload := handleReload_eq hc hv hp
  have haccepted : (handleReload miniEnv s miniAttempt).2.accepted = true := by
    rw [hreload]
    rfl
  have hnext : (⟨s, datedConfig, []⟩ : Observed Empty Unit Unit Unit).next miniEnv
      (.reload miniAttempt) = ⟨(handleReload miniEnv s miniAttempt).1, _, []⟩ :=
    Observed.next_of_accepted haccepted hc
  rw [observe, List.foldl_cons, List.foldl_nil, hnext, hreload]
  rfl

theorem reload_coherence_miniReload :
    ∃ s₀, AppState.build miniEnv none datedConfig = .ok s₀ ∧
      Coherent miniEnv datedConfig s₀ (observe miniEnv datedConfig s₀ [.reload miniAttempt]) :=
  ⟨_, rfl, (reload_coherence miniEnv none datedConfig _ rfl [.reload miniAttempt]).1⟩

/-! ## The routes-table reload split -/

/-- **Routing after reloads.** Requests are resolved, to the chain with its
models and policies and to the retry and breaker policy, as by the process at
startup; the route entry is the one of a process started on the last accepted
configuration. -/
theorem routeRequest_after_reloads (env : Env P Prov M L) (path path' : Option String)
    (startup : GatewayConfig) (s₀ fresh : AppState P Prov M L)
    (h : AppState.build env path startup = .ok s₀) (ops : List GatewayOp)
    (hf : AppState.build env path' (observe env startup s₀ ops).lastAccepted = .ok fresh)
    (frontend : FrontendKind) (modelAlias : String) :
    (observe env startup s₀ ops).state.routeRequest env frontend modelAlias =
      routeRequest env.lower s₀.core.resolver fresh.snapshot.config frontend modelAlias := by
  have hc := coherent_observe h ops
  obtain ⟨plugins, _, hsnapshot⟩ := hc.snapshot
  obtain ⟨limiter, hcore⟩ := hc.core
  obtain ⟨⟨plugins', _, hfresh⟩, _⟩ := build_eq_ok hf
  rw [AppState.routeRequest, hsnapshot, hcore, hfresh]
  rfl

theorem routeRequest_after_miniAttempt :
    ∃ s₀ fresh, AppState.build miniEnv none datedConfig = .ok s₀ ∧
      AppState.build miniEnv none
        (observe miniEnv datedConfig s₀ [.reload miniAttempt]).lastAccepted = .ok fresh ∧
      (observe miniEnv datedConfig s₀ [.reload miniAttempt]).state.routeRequest
          miniEnv .openAiChat "gpt-4o" =
        routeRequest miniEnv.lower s₀.core.resolver fresh.snapshot.config .openAiChat "gpt-4o" := by
  obtain ⟨s₀, hs₀⟩ : ∃ s₀, AppState.build miniEnv none datedConfig = .ok s₀ := ⟨_, rfl⟩
  obtain ⟨fresh, hfresh⟩ : ∃ fresh, AppState.build miniEnv none
      (observe miniEnv datedConfig s₀ [.reload miniAttempt]).lastAccepted = .ok fresh := by
    rw [observe_miniAttempt hs₀]
    exact ⟨_, rfl⟩
  exact ⟨s₀, fresh, hs₀, hfresh, routeRequest_after_reloads miniEnv none none datedConfig s₀ fresh
    hs₀ [.reload miniAttempt] hfresh .openAiChat "gpt-4o"⟩

theorem reload_keeps_startup_models :
    ∃ s₀ fresh, AppState.build miniEnv none datedConfig = .ok s₀ ∧
      (observe miniEnv datedConfig s₀ [.reload miniAttempt]).lastAccepted =
        modelConfig "gpt-4o-mini" ∧
      AppState.build miniEnv none (modelConfig "gpt-4o-mini") = .ok fresh ∧
      (observe miniEnv datedConfig s₀ [.reload miniAttempt]).state.routeRequest
          miniEnv .openAiChat "gpt-4o" ≠
        fresh.routeRequest miniEnv .openAiChat "gpt-4o" := by
  refine ⟨_, _, rfl, ?_, rfl, ?_⟩
  · rw [observe_miniAttempt rfl]
  · rw [observe_miniAttempt rfl]
    decide

end AgentShim.Gateway
