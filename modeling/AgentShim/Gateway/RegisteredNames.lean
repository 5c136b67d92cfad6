import AgentShim.Gateway.Reload
import AgentShim.Router.ChainWalk
import AgentShim.Router.RouteSelection

/-
  Which upstream names reach a provider

  A route names its upstreams. Validation accepts a name that is a key of the
  upstreams, or `copilot` where some Copilot block is configured. Startup builds a
  provider for every block and registers it under the block's own key; a build
  that fails is logged and the block left out.

  What is proved:
    1. `registry_get?` — a name is registered iff it is a key whose block builds.
    2. `completeInner_unknownProvider` — over registered targets the walk reports
       an unknown provider only where an upstream answered so.
    3. `noUnknownProvider_iff` — a request's targets are all registered iff every
       name its route gives is a key whose block builds.
    4. `unregistered_cases` — the names validation accepts that are not: the
       virtual name, and a block without a provider.

  Correspondence (Rust ↔ Lean):
    the registration loop of `AppState::new_with_plugins` ↔ the providers of
      `AppState.build`, over `Env.buildProvider`
    `upstream_is_configured`, `check_capability` ↔ `upstreamIsConfigured`,
      `checkCapability`
-/

namespace AgentShim.Gateway

open AgentShim.Config AgentShim.Plugins AgentShim.RequestAdmission AgentShim.ResilientCaller
  AgentShim.Resolver AgentShim.Retrying AgentShim.StaticRoutes

variable {P Prov M L : Type} [Plugin P]

/-! The registry. -/

/-- The name is the key of an upstream block that a provider is built from. -/
def Built (env : Env P Prov M L) (cfg : GatewayConfig) (name : String) : Prop :=
  ∃ block provider, cfg.upstreams.get? name = some block ∧
    env.buildProvider name block = some provider

theorem build_providers {env : Env P Prov M L} {path : Option String} {cfg : GatewayConfig}
    {s : AppState P Prov M L} (h : AppState.build env path cfg = .ok s) :
    s.core.providers = cfg.upstreams.filterMapEntries env.buildProvider := by
  unfold AppState.build at h
  dsimp only at h
  split at h
  · cases h
  · split at h
    · cases h
    · cases h
      rfl

/-- The names in the registry. -/
theorem registry_get? {env : Env P Prov M L} {path : Option String} {cfg : GatewayConfig}
    {s : AppState P Prov M L} (h : AppState.build env path cfg = .ok s) (name : String) :
    (∃ provider, s.core.providers.get? name = some provider) ↔ Built env cfg name := by
  rw [build_providers h, OrdMap.get?_filterMapEntries]
  constructor
  · intro hsome
    obtain ⟨provider, hprovider⟩ := hsome
    obtain ⟨block, hblock, hbuild⟩ := Option.bind_eq_some_iff.mp hprovider
    exact ⟨block, provider, hblock, hbuild⟩
  · intro hbuilt
    obtain ⟨block, provider, hblock, hbuild⟩ := hbuilt
    exact ⟨provider, by rw [hblock]; exact hbuild⟩

/-! The walk. -/

/-- The provider error a walk ends with. -/
def reportedError : WalkEnd → Option ProviderError
  | .failed (.noUpstreamSucceeded _ e) => some e
  | .failed (.terminalError e _) => some e
  | _ => none

/-- An exhausted chain without an attempt reports no unknown provider. -/
theorem reportedError_exhausted {p : Progress} (hp : p.tried = []) (name : String) :
    reportedError (exhausted p) ≠ some (.unknownProvider name) := by
  intro h
  rw [exhausted, hp] at h
  simp only [List.isEmpty_nil, Bool.not_true, Bool.false_eq_true, if_false] at h
  split at h
  · cases h
  · cases h

/-- Over registered targets the walk passes on what the upstreams answer. -/
theorem completeInner_unknownProvider {providers : OrdMap Prov} {up : Upstreams}
    {t : AdmissionTicket} (hregistered : ∀ target ∈ t.filteredChain,
      ∃ provider, providers.get? target.provider = some provider) {name : String}
    (h : reportedError (completeInner providers up t).2 = some (.unknownProvider name)) :
    ∃ i n, (retryWithPolicy up t.resolved.retry i).2 =
      .done (.error (.unknownProvider name)) n := by
  rw [completeInner, walk_eq 0 t.filteredChain .start hregistered] at h
  simp only [endOf] at h
  split at h
  · exact absurd h (reportedError_exhausted rfl name)
  · rename_i i target hlast
    split at h
    · cases h
    · cases h
    · rename_i e n hresult
      refine ⟨i, n, ?_⟩
      split at h
      · obtain rfl := Option.some.inj h
        exact hresult
      · obtain rfl := Option.some.inj h
        exact hresult

/-! The targets of a request. -/

/-- The registry has a provider for every target of the route, so that neither the capability
    gate nor the walk of a ticket over its targets meets an unknown name. -/
structure NoUnknownProvider (providers : OrdMap Prov) (resolved : ResolvedRoute) : Prop where
  registered : ∀ t ∈ resolved.chain, ∃ provider, providers.get? t.provider = some provider
  gate : ∀ {L : Type} (adm : Admission Prov L) (facts : CostFilter.RequestFacts),
    adm.providers = providers → ∀ t ∈ resolved.chain, ∀ name,
      checkCapability adm facts t ≠ .error (.provider (.unknownProvider name))
  walk : ∀ (up : Upstreams) (ticket : AdmissionTicket),
    (∀ t ∈ ticket.filteredChain, t ∈ resolved.chain) → ∀ name,
      reportedError (completeInner providers up ticket).2 = some (.unknownProvider name) →
        ∃ i n, (retryWithPolicy up ticket.resolved.retry i).2 =
          .done (.error (.unknownProvider name)) n

theorem noUnknownProvider_of_registered {providers : OrdMap Prov} {resolved : ResolvedRoute}
    (h : ∀ t ∈ resolved.chain, ∃ provider, providers.get? t.provider = some provider) :
    NoUnknownProvider providers resolved where
  registered := h
  gate := by
    intro L adm facts hsame t ht name hgate
    obtain ⟨provider, hprovider⟩ := h t ht
    rw [checkCapability, hsame, hprovider] at hgate
    dsimp only at hgate
    split at hgate
    · cases hgate
    · cases hgate
  walk := by
    intro up ticket hsub name hreported
    exact completeInner_unknownProvider (fun t ht => h t (hsub t ht)) hreported

/-- The upstreams a route sends requests to: all it lists, or a catch-all's first. -/
def routedUpstreams (e : RouteEntry) : List UpstreamRef :=
  if e.model = "*" then (listedUpstreams e).take 1 else listedUpstreams e

/-- The targets of a request are the upstreams of the route it takes. -/
theorem resolved_providers {env : Env P Prov M L} {path : Option String} {cfg : GatewayConfig}
    {s : AppState P Prov M L} (hvalid : validate cfg = .ok ())
    (h : AppState.build env path cfg = .ok s) {k : FrontendKind} {m : String}
    {resolved : ResolvedRoute}
    (hresolved : s.core.resolver.resolveRoute env.lower k m = .ok resolved) :
    ∃ e, Selects cfg.routes k m e ∧
      resolved.chain.map BackendTarget.provider = (routedUpstreams e).map UpstreamRef.name := by
  obtain ⟨static, hstatic, hchain, -⟩ := resolveRoute_eq_ok env.lower hresolved
  obtain ⟨r, hr, htargets⟩ := resolveRoute_targets cfg hvalid
  have hrouter := build_router h
  rw [hr] at hrouter
  obtain rfl := Option.some.inj hrouter
  have hsource := hstatic
  rw [resolveRoute_eq hr] at hsource
  split at hsource
  · rename_i e he
    have hsel := selects_of_sourceEntry hr k m he
    obtain ⟨static', hstatic', ⟨hproviders, -⟩, -⟩ := htargets k m e hsel
    rw [hstatic] at hstatic'
    cases hstatic'
    refine ⟨e, hsel, ?_⟩
    calc resolved.chain.map BackendTarget.provider
        = (resolved.chain.map fun t => (t.provider, t.policy)).map Prod.fst := by
          rw [List.map_map]
          rfl
      _ = static.chain.map BackendTarget.provider := by
          rw [hchain, List.map_map]
          rfl
      _ = (routedUpstreams e).map UpstreamRef.name := hproviders
  · cases hsource

/-- **Names that reach a provider.** Under a validated configuration a request that resolves has
    a provider for every target iff every name its route gives is a key whose block builds. -/
theorem noUnknownProvider_iff (env : Env P Prov M L) (path : Option String) {cfg : GatewayConfig}
    {s : AppState P Prov M L} (hvalid : validate cfg = .ok ())
    (h : AppState.build env path cfg = .ok s) {k : FrontendKind} {m : String}
    {resolved : ResolvedRoute}
    (hresolved : s.core.resolver.resolveRoute env.lower k m = .ok resolved) :
    ∃ e, Selects cfg.routes k m e ∧
      (NoUnknownProvider s.core.providers resolved ↔
        ∀ u ∈ routedUpstreams e, Built env cfg u.name) := by
  obtain ⟨e, hsel, hproviders⟩ := resolved_providers hvalid h hresolved
  have hnames : (∀ t ∈ resolved.chain, ∃ provider,
        s.core.providers.get? t.provider = some provider) ↔
      ∀ name ∈ resolved.chain.map BackendTarget.provider, Built env cfg name := by
    rw [List.forall_mem_map]
    constructor
    · intro hall t ht
      exact (registry_get? h t.provider).mp (hall t ht)
    · intro hall t ht
      exact (registry_get? h t.provider).mpr (hall t ht)
  refine ⟨e, hsel, ?_⟩
  rw [← List.forall_mem_map (P := fun name => Built env cfg name), ← hproviders, ← hnames]
  constructor
  · intro hno
    exact hno.registered
  · exact noUnknownProvider_of_registered

theorem routedUpstreams_referenced {e : RouteEntry} {u : UpstreamRef}
    (hu : u ∈ routedUpstreams e) : u.name ∈ referenced e := by
  have hlisted : u ∈ listedUpstreams e := by
    unfold routedUpstreams at hu
    split at hu
    · exact List.mem_of_mem_take hu
    · exact hu
  unfold listedUpstreams at hlisted
  unfold referenced
  split at hlisted
  · rename_i harray
    rw [if_pos harray]
    exact List.mem_map_of_mem hlisted
  · rename_i hsingular
    rw [if_neg hsingular]
    split at hlisted
    · rename_i name model hname hmodel
      obtain rfl := List.mem_singleton.mp hlisted
      rw [hname]
      exact List.mem_singleton_self name
    · cases hlisted

omit [Plugin P] in
/-- The names validation lets through without a provider. -/
theorem unregistered_cases {env : Env P Prov M L} {cfg : GatewayConfig}
    (hvalid : validate cfg = .ok ()) {e : RouteEntry} (he : e ∈ cfg.routes) {u : UpstreamRef}
    (hu : u ∈ routedUpstreams e) (hno : ¬ Built env cfg u.name) :
    (∃ block, cfg.upstreams.get? u.name = some block ∧ env.buildProvider u.name block = none) ∨
      (u.name = "copilot" ∧ cfg.upstreams.get? u.name = none ∧
        cfg.upstreams.values.any UpstreamConfig.isGithubCopilot = true) := by
  have hconfigured :=
    (wellFormedRoute_of_validate hvalid he).names u.name (routedUpstreams_referenced hu)
  cases hblock : cfg.upstreams.get? u.name with
  | some block =>
    refine Or.inl ⟨block, rfl, ?_⟩
    apply Option.eq_none_iff_forall_ne_some.mpr
    intro provider hprovider
    exact hno ⟨block, provider, hblock, hprovider⟩
  | none =>
    rw [upstreamIsConfigured, OrdMap.containsKey, hblock] at hconfigured
    simp only [Option.isSome_none, Bool.false_or, Bool.and_eq_true, beq_iff_eq] at hconfigured
    exact Or.inr ⟨hconfigured.1, rfl, hconfigured.2⟩

/-! The virtual name. -/

/-- A Copilot block under a key, and one route to an upstream name. -/
def copilotConfig (key name : String) : GatewayConfig :=
  { RouteEntries.plainConfig [.singular "openai" "gpt-4o" name "gpt-4o"] with
    upstreams :=
      { entries := [(key, .githubCopilot
          { tier := .standard, cost := none, p95LatencyBudgetMs := none })]
        sorted := List.pairwise_singleton _ _ } }

/-- The process that builds every provider. -/
def buildingEnv (cfg : GatewayConfig) : Env Empty Unit Unit Unit := bareEnv "" cfg

theorem copilot_selected :
    Selects (copilotConfig "copilot" "copilot").routes .openAiChat "gpt-4o"
      (.singular "openai" "gpt-4o" "copilot" "gpt-4o") :=
  selects_of_sourceEntry
    (rfl : StaticRouter.fromConfig (copilotConfig "copilot" "copilot") = some _) _ _ rfl

/-- A route to the block's own key. -/
theorem noUnknownProvider_ownKey :
    let cfg := copilotConfig "copilot" "copilot"
    ∃ s resolved, AppState.build (buildingEnv cfg) none cfg = .ok s ∧
      s.core.resolver.resolveRoute (buildingEnv cfg).lower .openAiChat "gpt-4o" = .ok resolved ∧
      NoUnknownProvider s.core.providers resolved := by
  intro cfg
  refine ⟨_, _, rfl, rfl, ?_⟩
  obtain ⟨e, hsel, hiff⟩ := noUnknownProvider_iff (buildingEnv cfg) none
    (rfl : validate cfg = .ok ()) rfl (k := .openAiChat) (m := "gpt-4o") rfl
  obtain rfl := hsel.unique copilot_selected
  refine hiff.mpr ?_
  intro u hu
  obtain rfl := List.mem_singleton.mp hu
  exact ⟨_, (), rfl, rfl⟩

/-- A route to the virtual name passes validation, and its target has no provider. -/
theorem virtualName_unregistered :
    let cfg := copilotConfig "github_copilot" "copilot"
    validate cfg = .ok () ∧
      ∃ s resolved, AppState.build (buildingEnv cfg) none cfg = .ok s ∧
        s.core.resolver.resolveRoute (buildingEnv cfg).lower .openAiChat "gpt-4o" = .ok resolved ∧
        resolved.chain.map BackendTarget.provider = ["copilot"] ∧
        s.core.providers.keys = ["github_copilot"] ∧
        (∀ facts, ∀ t ∈ resolved.chain,
          checkCapability
            { governor := (buildingEnv cfg).governor
              providers := s.core.providers
              vision := fun _ => true
              recentP95Ms := fun _ => none } facts t =
            .error (.provider (.unknownProvider "copilot"))) ∧
        ¬ NoUnknownProvider s.core.providers resolved := by
  intro cfg
  refine ⟨rfl, _, _, rfl, rfl, rfl, rfl, ?_, ?_⟩
  · intro facts t ht
    obtain rfl := List.mem_singleton.mp ht
    rfl
  intro h
  obtain ⟨provider, hprovider⟩ := h.registered _ List.mem_cons_self
  cases hprovider

end AgentShim.Gateway
