import AgentShim.Config.Schema
import AgentShim.Lib.Checks

/-
  Configuration validation, at startup and at reload

  `validate` is the startup check and `validateForReload` the reload check: the
  immutable fields first, then `validate`. Both refuse with the first rule that
  fails, in the order of the source.

  What is proved:
    1. `wellFormedRoute_of_validate` — what an accepted configuration promises
       of every route: a known frontend, exactly one upstream form with its
       fields, configured upstreams, sane retry and breaker policies, and a
       `*` only as the whole model or at its end.
    2. `routeKeys_nodup_of_validate` — no two routes share frontend string and
       model.
    3. `immutable_of_validateForReload` — an accepted reload candidate agrees
       with the baseline on every immutable field, and passes `validate`.

  A message is kept as the pieces it is formatted from; a double stands for its
  own printed form. `IncompleteCost`, `InvalidTier` and `UnknownUpstreamModel`
  are never produced by these functions.

  Correspondence (Rust ↔ Lean):
    `validate`, `validate_routes`, `validate_rate_limit`, `validate_auth`,
    `validate_plugins`, `validate_for_reload` ↔ the same names; the loop bodies
    are `checkReferences`, `checkUpstream`, `validateRoute`, `checkCost`,
    `checkMinTier`, `checkTimeouts`, `checkPluginReferences`
-/

namespace AgentShim.Config

open Checks

/-- A piece of a formatted message. -/
inductive Piece
  | text (s : String)
  | float (x : F64)
  deriving DecidableEq, Repr

abbrev Message := List Piece

inductive ValidationError
  | zeroPort
  | unknownUpstream (name : String)
  | duplicateAlias (frontend model : String)
  | unknownFrontend (frontend : String)
  | invalidUpstream (name message : String)
  | invalidRoute (message : Message)
  | portCollision (admin server : Nat) (bind : String)
  | negativeCost (upstream field : String)
  | impossibleMinTier (route : String) (minTier : Tier) (chainTiers : List (String × Tier))
  | undeclaredPlugin (route plugin hook : String)
  | zeroTimeoutMs (plugin slot : String)
  | duplicatePluginName (name : String)
  deriving DecidableEq, Repr

/-- An error of a route or of a bucket, in words only. -/
def words (s : String) : Message := [.text s]

def validFrontends : List String :=
  ["anthropic_messages", "anthropic", "openai_chat", "openai", "openai_responses", "responses"]

/-- Whether the name resolves to an upstream block: by its key, or as the
virtual name `copilot` when any Copilot block is configured. -/
def upstreamIsConfigured (cfg : GatewayConfig) (name : String) : Bool :=
  cfg.upstreams.containsKey name ||
    (name == "copilot" && cfg.upstreams.values.any UpstreamConfig.isGithubCopilot)

/-! ## The rules -/

def checkAdmin (cfg : GatewayConfig) : Except ValidationError Unit :=
  match cfg.admin with
  | none => .ok ()
  | some admin =>
    all
      [ensure (admin.port != 0) .zeroPort,
        ensure (!(admin.port == cfg.server.port && admin.bind == cfg.server.bind))
          (.portCollision admin.port cfg.server.port admin.bind)]

def checkOtel (cfg : GatewayConfig) : Except ValidationError Unit :=
  match cfg.otel with
  | none => .ok ()
  | some otel =>
    ensure (F64.le (.finite 0) otel.sampleRatio && F64.le otel.sampleRatio (.finite 1))
      (.invalidRoute
        [.text "otel.sample_ratio ", .float otel.sampleRatio, .text " must be in [0.0, 1.0]"])

def checkShutdown (cfg : GatewayConfig) : Except ValidationError Unit :=
  ensure (cfg.shutdown.pluginFlushSecs ≤ 300)
    (.invalidRoute (words
      s!"shutdown.plugin_flush_secs {cfg.shutdown.pluginFlushSecs} must be <= 300 seconds"))

/-- The upstream names a route refers to, by either form. -/
def referenced (route : RouteEntry) : List String :=
  if !route.upstreams.isEmpty then route.upstreams.map UpstreamRef.name
  else route.upstream.toList

def checkReferences (cfg : GatewayConfig) (route : RouteEntry) : Except ValidationError Unit :=
  andThen (ensure (validFrontends.contains route.frontend) (.unknownFrontend route.frontend)) <|
    each (fun name => ensure (upstreamIsConfigured cfg name) (.unknownUpstream name))
      (referenced route)

/-- The shared rule of the HTTP upstreams with an API key. -/
def validateOaiStyleUpstream (name : String) (c : ApiUpstream) : Except ValidationError Unit :=
  all
    [ensure (!Text.isEmpty c.apiKey) (.invalidUpstream name "api_key must be non-empty"),
      ensure (!Text.isEmpty c.baseUrl) (.invalidUpstream name "base_url must be non-empty"),
      ensure (Text.startsWith c.baseUrl "http://" || Text.startsWith c.baseUrl "https://")
        (.invalidUpstream name "base_url must start with http:// or https://"),
      ensure (c.requestTimeoutSecs != 0)
        (.invalidUpstream name "request_timeout_secs must be greater than 0")]

def checkUpstream (entry : String × UpstreamConfig) : Except ValidationError Unit :=
  match entry.2 with
  | .anthropic a =>
    andThen (validateOaiStyleUpstream entry.1 a.toApiUpstream)
      (ensure (!Text.isEmpty a.anthropicVersion)
        (.invalidUpstream entry.1 "anthropic_version must be non-empty"))
  | .deepseek d => validateOaiStyleUpstream entry.1 d
  | .gemini g => validateOaiStyleUpstream entry.1 g
  | .glm g => validateOaiStyleUpstream entry.1 g
  | .openAiCompatible _ | .githubCopilot _ => .ok ()

/-- Rule 1 and 2: exactly one upstream form, and both fields of the singular
one. -/
def checkShape (i : Nat) (route : RouteEntry) : Except Message Unit :=
  let hasSingular := route.upstream.isSome || route.upstreamModel.isSome
  let hasArray := !route.upstreams.isEmpty
  match hasSingular, hasArray with
  | true, true =>
    .error (words (s!"route[{i}] '{route.frontend}/{route.model}' specifies both " ++
      "`upstream`/`upstream_model` and `upstreams`; pick one form"))
  | false, false =>
    .error (words (s!"route[{i}] '{route.frontend}/{route.model}' has no upstream configured; " ++
      "provide either `upstream`+`upstream_model` or `upstreams`"))
  | true, false =>
    ensure (route.upstream.isSome && route.upstreamModel.isSome)
      (words (s!"route[{i}] '{route.frontend}/{route.model}' singular form requires both " ++
        "`upstream` and `upstream_model`"))
  | false, true => .ok ()

/-- Rule 3: the names are configured. -/
def checkNames (cfg : GatewayConfig) (i : Nat) (route : RouteEntry) : Except Message Unit :=
  each (fun name => ensure (upstreamIsConfigured cfg name)
      (words s!"route[{i}] '{route.frontend}/{route.model}' references unknown upstream '{name}'"))
    (referenced route)

/-- Rules 4 and 5: the retry policy. -/
def checkRetry (i : Nat) (r : RetryConfig) : Except Message Unit :=
  all
    [ensure (r.maxAttempts != 0) (words s!"route[{i}] retry.max_attempts must be >= 1"),
      ensure (r.initialBackoffMs ≤ r.totalBudgetMs)
        (words (s!"route[{i}] retry.total_budget_ms ({r.totalBudgetMs}) must be >= " ++
          s!"initial_backoff_ms ({r.initialBackoffMs})")),
      ensure (r.multiplier.isFinite && !F64.le r.multiplier (.finite 1))
        [.text s!"route[{i}] retry.multiplier (", .float r.multiplier,
          .text ") must be > 1.0 for exponential backoff"],
      ensure (r.jitterPct.isFinite && !F64.lt r.jitterPct (.finite 0) &&
          !F64.lt (.finite 100) r.jitterPct)
        [.text s!"route[{i}] retry.jitter_pct (", .float r.jitterPct,
          .text ") must be in 0.0..=100.0 (finite, non-negative)"]]

/-- Rule 6: the breaker policy. -/
def checkBreaker (i : Nat) (b : BreakerConfig) : Except Message Unit :=
  all
    [ensure (1 ≤ b.failureThresholdPct && b.failureThresholdPct ≤ 100)
        (words (s!"route[{i}] breaker.failure_threshold_pct ({b.failureThresholdPct}) " ++
          "must be in 1..=100")),
      ensure (b.minRequests != 0) (words s!"route[{i}] breaker.min_requests must be >= 1")]

def unknownEffort (i : Nat) (route : RouteEntry) (idx : Nat) (slot effort : String) : Message :=
  words (s!"route[{i}] '{route.frontend}/{route.model}' reasoning_mapping[{idx}].{slot} has " ++
    s!"unknown effort '{effort}' (expected one of: minimal, low, medium, high, xhigh, max)")

/-- Rule 7: the efforts of the rewrite table. -/
def checkMapping (i : Nat) (route : RouteEntry) : Except Message Unit :=
  eachIdx (fun idx (rule : MappingRuleConfig) =>
      all
        [ensure (ReasoningEffort.parse rule.match).isSome
            (unknownEffort i route idx "match" rule.match),
          ensure (ReasoningEffort.parse rule.set).isSome
            (unknownEffort i route idx "set" rule.set)])
    0 route.reasoningMapping

/-- Rule 8: where `*` may stand in the model. -/
def checkStar (i : Nat) (route : RouteEntry) : Except Message Unit :=
  let starCount := Text.countChar route.model '*'
  let starAtEnd := Text.endsWithChar route.model '*'
  let prefixNonEmpty := decide (1 < Text.len route.model)
  ensure (route.model == "*" || starCount == 0 || (starCount == 1 && starAtEnd && prefixNonEmpty))
    (words (s!"route[{i}] '{route.frontend}/{route.model}': '*' is only allowed at the end of " ++
      "the model pattern (e.g. \"claude-*\") or as the sole character (\"*\")"))

def validateRoute (cfg : GatewayConfig) (i : Nat) (route : RouteEntry) : Except Message Unit :=
  all
    [checkShape i route, checkNames cfg i route, checkRetry i route.retry,
      checkBreaker i route.breaker, checkMapping i route, checkStar i route]

def validateRoutes (cfg : GatewayConfig) : Except Message Unit :=
  eachIdx (validateRoute cfg) 0 cfg.routes

/-- A key must be `sha256:` and 64 hex digits. -/
def checkSha256Key (ctx key : String) : Except Message Unit :=
  match Text.stripStart key "sha256:" with
  | none =>
    .error (words (s!"{ctx} key '{key}' must start with 'sha256:'; " ++
      "do not paste plaintext API keys here"))
  | some hex =>
    ensure (Text.len hex == 64 && hex.toList.all Text.isAsciiHexdigit)
      (words (s!"{ctx} key '{key}' has malformed hash; expected 'sha256:' " ++
        "followed by 64 lowercase hex characters"))

def validateBucket (ctx : String) (b : BucketConfigYaml) : Except Message Unit :=
  all
    [ensure (b.ratePerSec != 0) (words s!"{ctx} rate_per_sec must be > 0"),
      ensure (b.burst != 0) (words s!"{ctx} burst must be >= 1")]

def checkPerRouteKey (cfg : GatewayConfig) (key : String) : Except Message Unit :=
  match Text.splitOnce key '/' with
  | none =>
    .error (words s!"rate_limit.per_route key '{key}' must be '<frontend>/<model>'")
  | some (frontend, model) =>
    ensure (cfg.routes.any fun r => r.frontend == frontend && r.model == model)
      (words s!"rate_limit.per_route key '{key}' references non-existent route")

def validateRateLimit (cfg : GatewayConfig) : Except Message Unit :=
  let rl := cfg.rateLimit
  if !rl.enabled then .ok ()
  else
    all
      [each (checkPerRouteKey cfg) rl.perRoute.keys,
        each (fun key => ensure (cfg.upstreams.containsKey key)
            (words s!"rate_limit.per_upstream key '{key}' references non-existent upstream"))
          rl.perUpstream.keys,
        each (checkSha256Key "rate_limit.per_key.overrides") rl.perKey.overrides.keys,
        each (validateBucket "rate_limit.per_key.default") rl.perKey.default.toList,
        each (validateBucket "rate_limit.per_key.anonymous") rl.perKey.anonymous.toList,
        each (fun e => validateBucket s!"rate_limit.per_key.overrides[{e.1}]" e.2)
          rl.perKey.overrides.entries,
        each (fun e => validateBucket s!"rate_limit.per_route[{e.1}]" e.2) rl.perRoute.entries,
        each (fun e => validateBucket s!"rate_limit.per_upstream[{e.1}]" e.2)
          rl.perUpstream.entries,
        ensure (!(rl.perIp.enabled && rl.perIp.ratePerSec == 0))
          (words "rate_limit.per_ip.rate_per_sec must be > 0"),
        ensure (!(rl.perIp.enabled && rl.perIp.burst == 0))
          (words "rate_limit.per_ip.burst must be >= 1")]

def validateAuth (cfg : GatewayConfig) : Except Message Unit :=
  andThen (ensure (!(cfg.auth.required && !cfg.auth.enabled))
      (words "auth.required=true requires auth.enabled=true"))
    (each (checkSha256Key "auth.keys") cfg.auth.keys.keys)

/-- Rule 15: no negative cost. -/
def checkCost (entry : String × UpstreamConfig) : Except ValidationError Unit :=
  match entry.2.upstreamCost with
  | none => .ok ()
  | some cost =>
    all
      [ensure (!F64.lt cost.inputPerMillionUsd (.finite 0))
          (.negativeCost entry.1 "input_per_million_usd"),
        ensure (!F64.lt cost.outputPerMillionUsd (.finite 0))
          (.negativeCost entry.1 "output_per_million_usd")]

/-- The upstream block a name stands for, the virtual name included. -/
def upstreamByName (cfg : GatewayConfig) (name : String) : Option UpstreamConfig :=
  (cfg.upstreams.get? name).or
    (if name == "copilot" then cfg.upstreams.values.find? UpstreamConfig.isGithubCopilot else none)

/-- Rule 17: some upstream of the chain meets the route's `min_tier`. -/
def checkMinTier (cfg : GatewayConfig) (route : RouteEntry) : Except ValidationError Unit :=
  match route.minTier with
  | none => .ok ()
  | some minTier =>
    let chainTiers := (referenced route).filterMap fun n =>
      (upstreamByName cfg n).map fun u => (n, u.upstreamTier)
    ensure (chainTiers.isEmpty || chainTiers.any fun t => minTier.rank ≤ t.2.rank)
      (.impossibleMinTier s!"{route.frontend}/{route.model}" minTier chainTiers)

def checkTimeouts (entry : String × PluginEntry) : Except ValidationError Unit :=
  match entry.2.timeoutMs with
  | none => .ok ()
  | some (.uniform ms) => ensure (ms != 0) (.zeroTimeoutMs entry.1 "uniform")
  | some (.perHook dflt decoded resolved stream complete) =>
    each (fun slot => ensure (slot.2 != some 0) (.zeroTimeoutMs entry.1 slot.1))
      [("default", dflt), ("on_decoded_request", decoded), ("on_resolved", resolved),
        ("on_stream_event", stream), ("on_response_complete", complete)]

def checkPluginReferences (cfg : GatewayConfig) (route : RouteEntry) :
    Except ValidationError Unit :=
  match route.plugins with
  | none => .ok ()
  | some block =>
    each (fun ref => ensure (cfg.plugins.containsKey ref.2)
        (.undeclaredPlugin s!"{route.frontend}/{route.model}" ref.2 ref.1))
      block.iterReferences

def validatePlugins (cfg : GatewayConfig) : Except ValidationError Unit :=
  all
    [eachDistinct id .duplicatePluginName (fun _ => .ok ()) [] cfg.plugins.keys,
      each checkTimeouts cfg.plugins.entries,
      each (checkPluginReferences cfg) cfg.routes]

def validate (cfg : GatewayConfig) : Except ValidationError Unit :=
  all
    [ensure (cfg.server.port != 0) .zeroPort,
      checkAdmin cfg,
      checkOtel cfg,
      checkShutdown cfg,
      eachDistinct (fun r : RouteEntry => (r.frontend, r.model))
        (fun k => .duplicateAlias k.1 k.2) (checkReferences cfg) [] cfg.routes,
      each checkUpstream cfg.upstreams.entries,
      relabel .invalidRoute (validateRoutes cfg),
      relabel .invalidRoute (validateRateLimit cfg),
      relabel .invalidRoute (validateAuth cfg),
      each checkCost cfg.upstreams.entries,
      each (checkMinTier cfg) cfg.routes,
      validatePlugins cfg]

/-! ## Reload validation -/

/-- What a reload may not change. -/
structure ReloadBaseline where
  upstreamNames : List String
  server : ServerConfig
  admin : Option AdminConfig
  otelEndpoint : Option String
  deriving DecidableEq, Repr

structure ReloadDiff where
  routesTotal : Nat
  routesAdded : Nat
  routesRemoved : Nat
  routesModified : Nat
  policiesChanged : List String
  authKeysAdded : Nat
  authKeysRemoved : Nat
  warnings : List String
  deriving DecidableEq, Repr

def ReloadDiff.default : ReloadDiff where
  routesTotal := 0
  routesAdded := 0
  routesRemoved := 0
  routesModified := 0
  policiesChanged := []
  authKeysAdded := 0
  authKeysRemoved := 0
  warnings := []

/-- The value of an immutable field in a message: its text, or an endpoint in
its debug form. -/
inductive FieldValue
  | text (s : String)
  | endpoint (e : Option String)
  deriving DecidableEq, Repr

inductive ReloadValidationError
  | upstreamSetChanged (added removed : List String)
  | immutableFieldChanged (field : String) (old new : FieldValue)
  | startupError (e : ValidationError)
  deriving DecidableEq, Repr

/-- A field that must keep its baseline value. -/
def unchanged (field : String) (show' : α → FieldValue) [DecidableEq α] (old new : α) :
    Except ReloadValidationError Unit :=
  ensure (new == old) (.immutableFieldChanged field (show' old) (show' new))

def checkAdminUnchanged (old new : Option AdminConfig) : Except ReloadValidationError Unit :=
  match old, new with
  | some b, some c =>
    andThen (unchanged "admin.bind" .text b.bind c.bind)
      (unchanged "admin.port" (fun n => .text (toString n)) b.port c.port)
  | none, some _ =>
    .error (.immutableFieldChanged "admin" (.text "absent") (.text "present"))
  | some _, none =>
    .error (.immutableFieldChanged "admin" (.text "present") (.text "absent"))
  | none, none => .ok ()

def checkUpstreamSet (old new : List String) : Except ReloadValidationError Unit :=
  let added := new.filter (fun n => !old.contains n)
  let removed := old.filter (fun n => !new.contains n)
  ensure (added.isEmpty && removed.isEmpty) (.upstreamSetChanged added removed)

/-- The otel endpoint of a configuration. -/
def GatewayConfig.otelEndpoint (cfg : GatewayConfig) : Option String :=
  cfg.otel.bind OtelConfig.endpoint

/-- The checks of a reload candidate: rules 13, 14 and 12, then `validate`. -/
def checkReload (candidate : GatewayConfig) (baseline : ReloadBaseline) :
    Except ReloadValidationError Unit :=
  all
    [unchanged "server.bind" .text baseline.server.bind candidate.server.bind,
      unchanged "server.port" (fun n => .text (toString n)) baseline.server.port
        candidate.server.port,
      checkAdminUnchanged baseline.admin candidate.admin,
      unchanged "otel.endpoint" .endpoint baseline.otelEndpoint candidate.otelEndpoint,
      checkUpstreamSet baseline.upstreamNames candidate.upstreams.keys,
      relabel .startupError (validate candidate)]

def validateForReload (candidate : GatewayConfig) (baseline : ReloadBaseline) :
    Except ReloadValidationError ReloadDiff :=
  (checkReload candidate baseline).map fun _ =>
    { ReloadDiff.default with routesTotal := candidate.routes.length }

/-! ## What an accepted configuration promises -/

/-- `*` is absent, the whole model, or its last character after a non-empty
literal. -/
def StarGrammar (model : String) : Prop :=
  model = "*" ∨ '*' ∉ model.toList ∨
    ∃ literal : List Char, literal ≠ [] ∧ '*' ∉ literal ∧ model.toList = literal ++ ['*']

/-- The singular form with both fields, or the array form alone. -/
def OneForm (route : RouteEntry) : Prop :=
  (∃ u m, route.upstream = some u ∧ route.upstreamModel = some m ∧ route.upstreams = []) ∨
    (route.upstream = none ∧ route.upstreamModel = none ∧ route.upstreams ≠ [])

structure WellFormedRoute (cfg : GatewayConfig) (route : RouteEntry) : Prop where
  frontend : route.frontend ∈ validFrontends
  form : OneForm route
  names : ∀ name ∈ referenced route, upstreamIsConfigured cfg name = true
  maxAttempts : 1 ≤ route.retry.maxAttempts
  minRequests : 1 ≤ route.breaker.minRequests
  threshold : 1 ≤ route.breaker.failureThresholdPct ∧ route.breaker.failureThresholdPct ≤ 100
  star : StarGrammar route.model

theorem oneForm_of_checkShape {i : Nat} {route : RouteEntry} (h : checkShape i route = .ok ()) :
    OneForm route := by
  unfold checkShape at h
  cases hu : route.upstream with
  | none =>
    cases hm : route.upstreamModel with
    | none =>
      cases hl : route.upstreams with
      | nil => simp [hu, hm, hl] at h
      | cons r rs => exact Or.inr ⟨hu, hm, by simp [hl]⟩
    | some m => cases hl : route.upstreams <;> simp [hu, hm, hl] at h
  | some u =>
    cases hm : route.upstreamModel with
    | none => cases hl : route.upstreams <;> simp [hu, hm, hl] at h
    | some m =>
      cases hl : route.upstreams with
      | nil => exact Or.inl ⟨u, m, hu, hm, hl⟩
      | cons r rs => simp [hu, hm, hl] at h

theorem starGrammar_of_checkStar {i : Nat} {route : RouteEntry}
    (h : checkStar i route = .ok ()) : StarGrammar route.model := by
  simp only [checkStar, ensure_eq_ok, Bool.or_eq_true, Bool.and_eq_true, beq_iff_eq,
    decide_eq_true_eq] at h
  rcases h with (hall | hnone) | ⟨⟨hone, hend⟩, _⟩
  · exact Or.inl hall
  · exact Or.inr (Or.inl (List.count_eq_zero.mp hnone))
  · have hsplit := Text.endsWithChar_iff.mp hend
    by_cases hempty : route.model.toList.dropLast = []
    · -- nothing before the star: the model is the star itself
      left
      rw [hempty] at hsplit
      exact String.ext hsplit
    · right; right
      refine ⟨_, hempty, ?_, hsplit⟩
      rw [Text.countChar, hsplit, List.count_append] at hone
      apply List.count_eq_zero.mp
      have hlast : List.count '*' ['*'] = 1 := rfl
      omega

theorem wellFormedRoute_of_validate {cfg : GatewayConfig} (h : validate cfg = .ok ())
    {route : RouteEntry} (hr : route ∈ cfg.routes) : WellFormedRoute cfg route := by
  simp only [validate, all_cons_eq_ok, all_nil, and_true, relabel_eq_ok] at h
  obtain ⟨_, _, _, _, hrefs, _, hroutes, _⟩ := h
  have href := (eachDistinct_eq_ok.mp hrefs).1 route hr
  simp only [checkReferences, andThen_eq_ok, ensure_eq_ok, each_eq_ok] at href
  obtain ⟨i, hroute⟩ := eachIdx_eq_ok hroutes route hr
  simp only [validateRoute, all_cons_eq_ok, all_nil, and_true] at hroute
  obtain ⟨hshape, _, hretry, hbreaker, _, hstar⟩ := hroute
  simp only [checkRetry, all_cons_eq_ok, ensure_eq_ok, bne_iff_ne] at hretry
  simp only [checkBreaker, all_cons_eq_ok, ensure_eq_ok, bne_iff_ne, Bool.and_eq_true,
    decide_eq_true_eq] at hbreaker
  exact {
    frontend := List.contains_iff_mem.mp href.1
    form := oneForm_of_checkShape hshape
    names := href.2
    maxAttempts := Nat.one_le_iff_ne_zero.mpr hretry.1
    minRequests := Nat.one_le_iff_ne_zero.mpr hbreaker.2.1
    threshold := hbreaker.1
    star := starGrammar_of_checkStar hstar }

theorem routeKeys_nodup_of_validate {cfg : GatewayConfig} (h : validate cfg = .ok ()) :
    (cfg.routes.map fun r => (r.frontend, r.model)).Nodup := by
  simp only [validate, all_cons_eq_ok] at h
  exact (eachDistinct_eq_ok.mp h.2.2.2.2.1).2.1

/-- The immutable part of a configuration agrees with the baseline. -/
structure Immutable (cfg : GatewayConfig) (b : ReloadBaseline) : Prop where
  bind : cfg.server.bind = b.server.bind
  port : cfg.server.port = b.server.port
  admin : cfg.admin = b.admin
  endpoint : cfg.otelEndpoint = b.otelEndpoint
  upstreams : ∀ n, n ∈ cfg.upstreams.keys ↔ n ∈ b.upstreamNames

theorem admin_eq_of_checkAdminUnchanged {old new : Option AdminConfig}
    (h : checkAdminUnchanged old new = .ok ()) : new = old := by
  cases old with
  | none =>
    cases new with
    | none => rfl
    | some c => cases h
  | some b =>
    cases new with
    | none => cases h
    | some c =>
      simp only [checkAdminUnchanged, unchanged, andThen_eq_ok, ensure_eq_ok, beq_iff_eq] at h
      obtain ⟨hbind, hport⟩ := h
      exact congrArg some (AdminConfig.ext hbind hport)

theorem mem_iff_of_checkUpstreamSet {old new : List String}
    (h : checkUpstreamSet old new = .ok ()) (n : String) : n ∈ new ↔ n ∈ old := by
  simp only [checkUpstreamSet, ensure_eq_ok, Bool.and_eq_true, List.isEmpty_iff,
    List.filter_eq_nil_iff, Bool.not_eq_true', Bool.not_eq_false, List.contains_iff_mem] at h
  exact ⟨h.1 n, h.2 n⟩

theorem immutable_of_validateForReload {candidate : GatewayConfig} {b : ReloadBaseline}
    {diff : ReloadDiff} (h : validateForReload candidate b = .ok diff) :
    Immutable candidate b ∧ validate candidate = .ok () := by
  have hok : checkReload candidate b = .ok () := by
    unfold validateForReload at h
    cases hc : checkReload candidate b with
    | ok u => rfl
    | error e =>
      rw [hc] at h
      cases h
  simp only [checkReload, all_cons_eq_ok, all_nil, and_true, relabel_eq_ok, unchanged,
    ensure_eq_ok, beq_iff_eq] at hok
  obtain ⟨hbind, hport, hadmin, hendpoint, hset, hvalid⟩ := hok
  exact ⟨⟨hbind, hport, admin_eq_of_checkAdminUnchanged hadmin, hendpoint,
    mem_iff_of_checkUpstreamSet hset⟩, hvalid⟩

end AgentShim.Config
