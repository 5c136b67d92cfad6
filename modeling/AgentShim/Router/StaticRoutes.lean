import AgentShim.Config.Validation
import AgentShim.Lib.Precedence
import AgentShim.Lib.Runs
import Mathlib.Data.List.AList

/-
  The static router

  The route table built once from the configuration: exact routes, prefix
  routes (`claude-*`) by frontend, longest first, and one catch-all (`*`) per
  frontend. Building it panics on a route without an upstream, which is `none`
  here; `resolveRoute` is then a lookup in the three tiers.

  What is proved:
    1. `tables_fromConfig` — the tables as functions of the route list: the
       last exact route of each key, the last prefix route of each literal,
       the last catch-all of each frontend.
    2. `fromConfig_isSome` — a validated configuration never panics.
    3. `resolveRoute_eq` — a resolved route is built from one source entry,
       `sourceEntry`, and nothing else.
    4. `sourceEntry_of_named`, `sourceEntry_of_unnamed` — which entry that is,
       read off the route list.
    5. `resolveRoute_wellFormed` — under a validated configuration its retry and
       breaker policies are in their ranges.

  Correspondence (Rust ↔ Lean):
    `StaticRouter::from_config`    ↔ `StaticRouter.fromConfig` (`addRoute` per
                                     entry, then the sort of the buckets)
    `StaticRouter::resolve_route`  ↔ `StaticRouter.resolveRoute`
    `retry_config_for_*`, `breaker_config_for_*` ↔ `retryConfig`, `breakerConfig`
    `list_routes`                  ↔ `StaticRouter.listRoutes`
  A map keyed by the frontend is a function of the frontend.
-/

namespace AgentShim.StaticRoutes

open AgentShim.Config Precedence Runs

inductive RouteError
  | noRoute (frontend : FrontendKind) (model : String)
  deriving DecidableEq, Repr

structure ResolvedRoute where
  chain : List BackendTarget
  retry : RetryConfig
  breaker : BreakerConfig
  routeLabel : String
  deriving DecidableEq, Repr

structure RouteKey where
  frontend : FrontendKind
  model : String
  deriving DecidableEq, Repr

structure WildcardTarget where
  provider : String
  upstreamModel : String
  policy : RoutePolicy
  deriving DecidableEq, Repr

/-- A prefix route: the model pattern without its star, and the source entry. -/
structure PrefixRoute where
  literal : String
  chain : List BackendTarget
  upstreamModelPassthrough : Bool
  entry : RouteEntry
  deriving DecidableEq, Repr

structure StaticRouter where
  exact : AList fun _ : RouteKey => List BackendTarget
  exactEntries : AList fun _ : RouteKey => RouteEntry
  prefixes : FrontendKind → List PrefixRoute
  wildcards : FrontendKind → Option WildcardTarget
  wildcardEntries : FrontendKind → Option RouteEntry

def StaticRouter.empty : StaticRouter where
  exact := ∅
  exactEntries := ∅
  prefixes := fun _ => []
  wildcards := fun _ => none
  wildcardEntries := fun _ => none

def parseFrontend (s : String) : Option FrontendKind :=
  match s with
  | "anthropic_messages" | "anthropic" => some .anthropicMessages
  | "openai_chat" | "openai" => some .openAiChat
  | "openai_responses" | "responses" => some .openAiResponses
  | _ => none

def routePolicy (entry : RouteEntry) : RoutePolicy where
  defaultReasoningEffort := entry.reasoningEffort.bind ReasoningEffort.parse
  defaultAnthropicBeta := entry.anthropicBeta
  reasoningMapping := entry.reasoningMapping.filterMap fun rule =>
    (ReasoningEffort.parse rule.match).bind fun m =>
      (ReasoningEffort.parse rule.set).map fun s => { «match» := m, set := s }

/-- The targets of a route; none where the source panics on a missing upstream
or upstream model. -/
def routeTargets (entry : RouteEntry) : Option (List BackendTarget) :=
  let policy := routePolicy entry
  if !entry.upstreams.isEmpty then
    some (entry.upstreams.map fun u => { provider := u.name, model := u.model, policy := policy })
  else
    entry.upstream.bind fun provider =>
      entry.upstreamModel.map fun model =>
        [{ provider := provider, model := model, policy := policy }]

namespace StaticRouter

def addRoute (r : StaticRouter) (entry : RouteEntry) : Option StaticRouter :=
  match parseFrontend entry.frontend with
  | none => some r
  | some frontend =>
    match routeTargets entry with
    | none => none
    | some targets =>
      if entry.model == "*" then
        targets.head?.map fun head =>
          { r with
            wildcards := Function.update r.wildcards frontend
              (some { provider := head.provider, upstreamModel := head.model,
                      policy := routePolicy entry })
            wildcardEntries := Function.update r.wildcardEntries frontend (some entry) }
      else
        match Text.stripSuffixChar entry.model '*' with
        | some literal =>
          let route : PrefixRoute :=
            { literal := literal
              chain := targets
              upstreamModelPassthrough :=
                entry.upstreams.isEmpty && entry.upstreamModel == some "*"
              entry := entry }
          some { r with
            prefixes := Function.update r.prefixes frontend
              (replaceLast PrefixRoute.literal (r.prefixes frontend) route) }
        | none =>
          let key : RouteKey := { frontend := frontend, model := entry.model }
          some { r with
            exact := r.exact.insert key targets
            exactEntries := r.exactEntries.insert key entry }

/-- Every bucket sorted by literal length, longest first. -/
def sortBuckets (r : StaticRouter) : StaticRouter :=
  { r with prefixes := fun k => sortDesc (fun pr => Text.len pr.literal) (r.prefixes k) }

def fromConfig (cfg : GatewayConfig) : Option StaticRouter :=
  (exec addRoute .empty cfg.routes).map sortBuckets

end StaticRouter

def frontendKindStr : FrontendKind → String
  | .anthropicMessages => "anthropic_messages"
  | .openAiChat => "openai_chat"
  | .openAiResponses => "openai_responses"

def routeLabel (frontend : FrontendKind) (model : String) : String :=
  s!"{frontendKindStr frontend}/{model}"

/-- The retry policy of a source entry, the default without one. -/
def retryConfig (entry : Option RouteEntry) : RetryConfig :=
  match entry with
  | some entry => entry.retry
  | none => .default

/-- The breaker policy of a source entry, the default without one. -/
def breakerConfig (entry : Option RouteEntry) : BreakerConfig :=
  match entry with
  | some entry => entry.breaker
  | none => .default

/-- Writes the inbound model into the head of a chain. -/
def setHeadModel (model : String) (chain : List BackendTarget) : List BackendTarget :=
  chain.modifyHead fun t => { t with model := model }

namespace StaticRouter

/-- The longest prefix route of the frontend that the model starts with. -/
def findPrefix (r : StaticRouter) (frontend : FrontendKind) (model : String) :
    Option PrefixRoute :=
  (r.prefixes frontend).find? fun pr => Text.startsWith model pr.literal

def resolveRoute (r : StaticRouter) (frontend : FrontendKind) (model : String) :
    Except RouteError ResolvedRoute :=
  let key : RouteKey := { frontend := frontend, model := model }
  match r.exact.lookup key with
  | some targets =>
    .ok { chain := targets
          retry := retryConfig (r.exactEntries.lookup key)
          breaker := breakerConfig (r.exactEntries.lookup key)
          routeLabel := routeLabel frontend model }
  | none =>
    match r.findPrefix frontend model with
    | some pr =>
      .ok { chain := if pr.upstreamModelPassthrough then setHeadModel model pr.chain else pr.chain
            retry := pr.entry.retry
            breaker := pr.entry.breaker
            routeLabel := routeLabel frontend model }
    | none =>
      match r.wildcards frontend with
      | some wc =>
        .ok { chain :=
                [{ provider := wc.provider
                   model := if wc.upstreamModel == "*" then model else wc.upstreamModel
                   policy := wc.policy }]
              retry := retryConfig (r.wildcardEntries frontend)
              breaker := breakerConfig (r.wildcardEntries frontend)
              routeLabel := routeLabel frontend model }
      | none => .error (.noRoute frontend model)

def listRoutes (r : StaticRouter) : List (FrontendKind × String) :=
  r.exactEntries.keys.map fun k => (k.frontend, k.model)

/-- The configuration entry a request is resolved from: the source entry of the
tier that answers. -/
def sourceEntry (r : StaticRouter) (frontend : FrontendKind) (model : String) :
    Option RouteEntry :=
  ((r.exactEntries.lookup { frontend := frontend, model := model }).or
    ((r.findPrefix frontend model).map PrefixRoute.entry)).or
    (r.wildcardEntries frontend)

end StaticRouter

/-! ## The tables, as functions of the route list -/

/-- The routes of the frontend whose `model` field is `m`. -/
def routesFor (k : FrontendKind) (m : String) (routes : List RouteEntry) : List RouteEntry :=
  routes.filter fun e => parseFrontend e.frontend == some k && e.model == m

/-- The entry as a prefix route of the frontend. -/
def asPrefix (k : FrontendKind) (e : RouteEntry) : Option PrefixRoute :=
  if parseFrontend e.frontend = some k ∧ e.model ≠ "*" then
    (Text.stripSuffixChar e.model '*').bind fun literal =>
      (routeTargets e).map fun targets =>
        { literal := literal
          chain := targets
          upstreamModelPassthrough := e.upstreams.isEmpty && e.upstreamModel == some "*"
          entry := e }
  else none

/-- The catch-all target of an entry. -/
def asWildcard (e : RouteEntry) : Option WildcardTarget :=
  ((routeTargets e).bind List.head?).map fun head =>
    { provider := head.provider, upstreamModel := head.model, policy := routePolicy e }

/-- What the tables hold after the routes `es`. -/
structure Tables (es : List RouteEntry) (r : StaticRouter) : Prop where
  exactEntries : ∀ k m, r.exactEntries.lookup { frontend := k, model := m } =
    if Text.endsWithChar m '*' then none else (routesFor k m es).getLast?
  exact : ∀ key, r.exact.lookup key = (r.exactEntries.lookup key).bind routeTargets
  prefixes : ∀ k, r.prefixes k = keepLast PrefixRoute.literal (es.filterMap (asPrefix k))
  wildcardEntries : ∀ k, r.wildcardEntries k = (routesFor k "*" es).getLast?
  wildcards : ∀ k, r.wildcards k = (r.wildcardEntries k).bind asWildcard
  targets : ∀ e ∈ es, (parseFrontend e.frontend).isSome → ∃ ts, routeTargets e = some ts

theorem tables_empty : Tables [] .empty where
  exactEntries k m := by
    rw [StaticRouter.empty, routesFor]
    split <;> rfl
  exact _ := rfl
  prefixes _ := rfl
  wildcardEntries _ := rfl
  wildcards _ := rfl
  targets := by simp

theorem routesFor_concat (k : FrontendKind) (m : String) (es : List RouteEntry) (e : RouteEntry) :
    routesFor k m (es ++ [e]) =
      routesFor k m es ++
        if parseFrontend e.frontend = some k ∧ e.model = m then [e] else [] := by
  rw [routesFor, List.filter_append, List.filter_singleton]
  by_cases h : parseFrontend e.frontend = some k ∧ e.model = m
  · simp [routesFor, h]
  · have hb : (parseFrontend e.frontend == some k && e.model == m) = false := by simpa using h
    rw [if_neg h, hb]
    rfl

theorem filterMap_asPrefix_concat (k : FrontendKind) (es : List RouteEntry) (e : RouteEntry) :
    (es ++ [e]).filterMap (asPrefix k) = es.filterMap (asPrefix k) ++ (asPrefix k e).toList := by
  rw [List.filterMap_append]
  cases h : asPrefix k e <;> simp [h]

/-! ## Building the tables -/

/-- An entry of an unknown frontend is skipped. -/
theorem tables_skip {es : List RouteEntry} {e : RouteEntry} {r : StaticRouter}
    (hI : Tables es r) (hf : parseFrontend e.frontend = none) : Tables (es ++ [e]) r where
  exactEntries k m := by rw [hI.exactEntries, routesFor_concat]; simp [hf]
  exact := hI.exact
  prefixes k := by rw [hI.prefixes, filterMap_asPrefix_concat]; simp [asPrefix, hf]
  wildcardEntries k := by rw [hI.wildcardEntries, routesFor_concat]; simp [hf]
  wildcards := hI.wildcards
  targets := by
    intro e' he'
    rcases List.mem_append.mp he' with h | h
    · exact hI.targets e' h
    · obtain rfl := List.mem_singleton.mp h
      rw [hf]
      intro h'
      cases h'

theorem endsWithStar_of_strip {m literal : String}
    (h : Text.stripSuffixChar m '*' = some literal) : Text.endsWithChar m '*' = true := by
  unfold Text.stripSuffixChar at h
  split at h
  · assumption
  · cases h

theorem tables_targets {es : List RouteEntry} {e : RouteEntry} {r : StaticRouter}
    (hI : Tables es r) {ts : List BackendTarget} (ht : routeTargets e = some ts) :
    ∀ e' ∈ es ++ [e], (parseFrontend e'.frontend).isSome → ∃ ts, routeTargets e' = some ts := by
  intro e' he'
  rcases List.mem_append.mp he' with h | h
  · exact hI.targets e' h
  · obtain rfl := List.mem_singleton.mp h
    exact fun _ => ⟨ts, ht⟩

/-- An exact route replaces the one under its key. -/
theorem tables_exact {es : List RouteEntry} {e : RouteEntry} {r : StaticRouter}
    (hI : Tables es r) {f : FrontendKind} (hf : parseFrontend e.frontend = some f)
    {ts : List BackendTarget} (ht : routeTargets e = some ts) (hne : e.model ≠ "*")
    (hs : Text.stripSuffixChar e.model '*' = none) :
    Tables (es ++ [e]) { r with
      exact := r.exact.insert { frontend := f, model := e.model } ts
      exactEntries := r.exactEntries.insert { frontend := f, model := e.model } e } where
  exactEntries k m := by
    have hend : Text.endsWithChar e.model '*' = false := by
      unfold Text.stripSuffixChar at hs
      split at hs
      · cases hs
      · rename_i h
        exact Bool.eq_false_iff.mpr h
    rw [routesFor_concat]
    -- the key of the new route, or another one
    by_cases hkm : f = k ∧ e.model = m
    · obtain ⟨rfl, rfl⟩ := hkm
      simp [AList.lookup_insert, hf, hend]
    · have hkey : ({ frontend := k, model := m } : RouteKey) ≠
          { frontend := f, model := e.model } := by
        intro h
        injection h with h1 h2
        exact hkm ⟨h1.symm, h2.symm⟩
      have hno : ¬ (parseFrontend e.frontend = some k ∧ e.model = m) := by
        rw [hf]
        rintro ⟨h1, h2⟩
        exact hkm ⟨Option.some.inj h1, h2⟩
      rw [AList.lookup_insert_ne hkey, hI.exactEntries, if_neg hno, List.append_nil]
  exact key := by
    by_cases hkey : key = { frontend := f, model := e.model }
    · subst hkey
      simp [AList.lookup_insert, ht]
    · simp only
      rw [AList.lookup_insert_ne hkey, AList.lookup_insert_ne hkey, hI.exact]
  prefixes k := by
    rw [hI.prefixes, filterMap_asPrefix_concat, asPrefix, hs]
    simp
  wildcardEntries k := by
    rw [hI.wildcardEntries, routesFor_concat]
    simp [hne]
  wildcards := hI.wildcards
  targets := tables_targets hI ht

/-- A prefix route replaces the one under its literal. -/
theorem tables_prefix {es : List RouteEntry} {e : RouteEntry} {r : StaticRouter}
    (hI : Tables es r) {f : FrontendKind} (hf : parseFrontend e.frontend = some f)
    {ts : List BackendTarget} (ht : routeTargets e = some ts) (hne : e.model ≠ "*")
    {route : PrefixRoute} (hroute : asPrefix f e = some route)
    (hend : Text.endsWithChar e.model '*' = true) :
    Tables (es ++ [e]) { r with
      prefixes := Function.update r.prefixes f
        (replaceLast PrefixRoute.literal (r.prefixes f) route) } where
  exactEntries k m := by
    rw [hI.exactEntries, routesFor_concat]
    by_cases hm : e.model = m
    · subst hm
      simp [hend]
    · simp [hm]
  exact := hI.exact
  prefixes k := by
    rw [filterMap_asPrefix_concat]
    by_cases hk : k = f
    · subst hk
      show Function.update r.prefixes k _ k = _
      rw [Function.update_self, hroute, Option.toList_some, keepLast_concat, hI.prefixes]
    · have hnone : asPrefix k e = none := by
        rw [asPrefix, if_neg]
        rw [hf]
        rintro ⟨h, _⟩
        exact hk (Option.some.inj h).symm
      show Function.update r.prefixes f _ k = _
      rw [Function.update_of_ne hk, hnone, Option.toList_none, List.append_nil, hI.prefixes]
  wildcardEntries k := by
    rw [hI.wildcardEntries, routesFor_concat]
    simp [hne]
  wildcards := hI.wildcards
  targets := tables_targets hI ht

/-- A catch-all replaces the frontend's. -/
theorem tables_wildcard {es : List RouteEntry} {e : RouteEntry} {r : StaticRouter}
    (hI : Tables es r) {f : FrontendKind} (hf : parseFrontend e.frontend = some f)
    {head : BackendTarget} {rest : List BackendTarget}
    (ht : routeTargets e = some (head :: rest)) (hm : e.model = "*") :
    Tables (es ++ [e]) { r with
      wildcards := Function.update r.wildcards f
        (some { provider := head.provider, upstreamModel := head.model, policy := routePolicy e })
      wildcardEntries := Function.update r.wildcardEntries f (some e) } where
  exactEntries k m := by
    rw [hI.exactEntries, routesFor_concat]
    by_cases hem : e.model = m
    · have hend : Text.endsWithChar m '*' = true := by
        rw [← hem, hm]
        rfl
      simp [hend]
    · simp [hem]
  exact := hI.exact
  prefixes k := by
    rw [hI.prefixes, filterMap_asPrefix_concat, asPrefix]
    simp [hm]
  wildcardEntries k := by
    rw [routesFor_concat]
    by_cases hk : k = f
    · subst hk
      simp [hf, hm]
    · have hne : f ≠ k := fun h => hk h.symm
      simp [Function.update_of_ne hk, hI.wildcardEntries, hf, hne]
  wildcards k := by
    by_cases hk : k = f
    · subst hk
      simp [asWildcard, ht]
    · simp only [Function.update_of_ne hk, hI.wildcards]
  targets := tables_targets hI ht

theorem tables_addRoute {es : List RouteEntry} {e : RouteEntry} {r r' : StaticRouter}
    (hI : Tables es r) (h : r.addRoute e = some r') : Tables (es ++ [e]) r' := by
  unfold StaticRouter.addRoute at h
  split at h
  · rename_i hf
    cases h
    exact tables_skip hI hf
  · rename_i f hf
    split at h
    · cases h
    · rename_i ts ht
      split at h
      · rename_i hm
        obtain ⟨head, hhead, rfl⟩ := Option.map_eq_some_iff.mp h
        obtain ⟨rest, rfl⟩ := List.head?_eq_some_iff.mp hhead
        exact tables_wildcard hI hf ht (eq_of_beq hm)
      · rename_i hm
        have hne : e.model ≠ "*" := fun h' => hm (by rw [h']; rfl)
        split at h
        · rename_i literal hs
          cases h
          refine tables_prefix hI hf ht hne ?_ (endsWithStar_of_strip hs)
          simp [asPrefix, hf, hne, hs, ht]
        · rename_i hs
          cases h
          exact tables_exact hI hf ht hne hs

/-- The tables of a router that was built. -/
theorem tables_fromConfig {cfg : GatewayConfig} {r : StaticRouter}
    (h : StaticRouter.fromConfig cfg = some r) :
    ∃ r₀, Tables cfg.routes r₀ ∧ r = r₀.sortBuckets := by
  obtain ⟨r₀, hr₀, rfl⟩ := Option.map_eq_some_iff.mp h
  exact ⟨r₀, exec_history tables_empty (fun _ _ _ _ hI hstep => tables_addRoute hI hstep) hr₀, rfl⟩

theorem routeTargets_of_oneForm {e : RouteEntry} (h : OneForm e) :
    ∃ t ts, routeTargets e = some (t :: ts) := by
  rcases h with ⟨u, m, hu, hm, hl⟩ | ⟨_, _, hl⟩
  · exact ⟨_, [], by rw [routeTargets, hu, hm, hl]; rfl⟩
  · obtain ⟨u, us, hus⟩ := List.exists_cons_of_ne_nil hl
    exact ⟨_, _, by rw [routeTargets, hus]; rfl⟩

theorem addRoute_isSome (r : StaticRouter) {e : RouteEntry} (h : OneForm e) :
    ∃ r', r.addRoute e = some r' := by
  obtain ⟨t, ts, ht⟩ := routeTargets_of_oneForm h
  unfold StaticRouter.addRoute
  split
  · exact ⟨r, rfl⟩
  · rw [ht]
    simp only [List.head?_cons, Option.map_some]
    split
    · exact ⟨_, rfl⟩
    · split <;> exact ⟨_, rfl⟩

/-- A validated configuration builds a router. -/
theorem fromConfig_isSome {cfg : GatewayConfig} (h : validate cfg = .ok ()) :
    ∃ r, StaticRouter.fromConfig cfg = some r := by
  have hforms : ∀ e ∈ cfg.routes, OneForm e := fun e he => (wellFormedRoute_of_validate h he).form
  have build : ∀ (routes : List RouteEntry) (r : StaticRouter), (∀ e ∈ routes, OneForm e) →
      ∃ r', exec StaticRouter.addRoute r routes = some r' := by
    intro routes
    induction routes with
    | nil => exact fun r _ => ⟨r, rfl⟩
    | cons e routes ih =>
      intro r hall
      obtain ⟨m, hm⟩ := addRoute_isSome r (hall e List.mem_cons_self)
      obtain ⟨r', hr'⟩ := ih m fun e' he' => hall e' (List.mem_cons_of_mem _ he')
      exact ⟨r', exec_cons_eq_some.mpr ⟨m, hm, hr'⟩⟩
  obtain ⟨r, hr⟩ := build cfg.routes .empty hforms
  exact ⟨r.sortBuckets, by rw [StaticRouter.fromConfig, hr]; rfl⟩

/-! ## Resolution from one source entry -/

/-- The chain a route gives a request: a catch-all keeps its first target only,
and `*` as the upstream model passes the inbound model through. -/
def chainOf (e : RouteEntry) (targets : List BackendTarget) (model : String) :
    List BackendTarget :=
  if e.model == "*" then
    (targets.take 1).map fun t => { t with model := if t.model == "*" then model else t.model }
  else if Text.endsWithChar e.model '*' && e.upstreams.isEmpty &&
      e.upstreamModel == some "*" then
    setHeadModel model targets
  else targets

/-- The route a request is given by its source entry. -/
def routeOf (e : RouteEntry) (frontend : FrontendKind) (model : String) : ResolvedRoute where
  chain := chainOf e ((routeTargets e).getD []) model
  retry := e.retry
  breaker := e.breaker
  routeLabel := routeLabel frontend model

theorem asPrefix_eq_some {k : FrontendKind} {e : RouteEntry} {pr : PrefixRoute}
    (h : asPrefix k e = some pr) :
    parseFrontend e.frontend = some k ∧ e.model ≠ "*" ∧
      Text.stripSuffixChar e.model '*' = some pr.literal ∧ routeTargets e = some pr.chain ∧
      pr.upstreamModelPassthrough = (e.upstreams.isEmpty && e.upstreamModel == some "*") ∧
      pr.entry = e := by
  unfold asPrefix at h
  split at h
  · rename_i hc
    obtain ⟨literal, hlit, h⟩ := Option.bind_eq_some_iff.mp h
    obtain ⟨ts, hts, rfl⟩ := Option.map_eq_some_iff.mp h
    exact ⟨hc.1, hc.2, hlit, hts, rfl, rfl⟩
  · cases h

/-- The entry of a prefix route is the route it was made from. -/
theorem mem_prefixes {k : FrontendKind} {es : List RouteEntry} {pr : PrefixRoute}
    (h : pr ∈ keepLast PrefixRoute.literal (es.filterMap (asPrefix k))) :
    pr.entry ∈ es ∧ asPrefix k pr.entry = some pr := by
  obtain ⟨e, he, hpr⟩ := List.mem_filterMap.mp (mem_of_mem_keepLast h)
  obtain rfl := (asPrefix_eq_some hpr).2.2.2.2.2
  exact ⟨he, hpr⟩

theorem mem_routesFor {k : FrontendKind} {m : String} {es : List RouteEntry} {e : RouteEntry} :
    e ∈ routesFor k m es ↔ e ∈ es ∧ parseFrontend e.frontend = some k ∧ e.model = m := by
  simp [routesFor]

theorem targets_of_getLast? {es : List RouteEntry} {r : StaticRouter} (hI : Tables es r)
    {k : FrontendKind} {m : String} {e : RouteEntry}
    (h : (routesFor k m es).getLast? = some e) : e.model = m ∧ ∃ ts, routeTargets e = some ts := by
  obtain ⟨he, hf, hm⟩ := mem_routesFor.mp (List.mem_of_getLast? h)
  exact ⟨hm, hI.targets e he (by rw [hf]; rfl)⟩

theorem routeTargets_policy {e : RouteEntry} {ts : List BackendTarget}
    (h : routeTargets e = some ts) : ∀ t ∈ ts, t.policy = routePolicy e := by
  unfold routeTargets at h
  intro t ht
  split at h
  · cases h
    obtain ⟨u, _, rfl⟩ := List.mem_map.mp ht
    rfl
  · obtain ⟨provider, _, h⟩ := Option.bind_eq_some_iff.mp h
    obtain ⟨model, _, rfl⟩ := Option.map_eq_some_iff.mp h
    obtain rfl := List.mem_singleton.mp ht
    rfl

theorem routeTargets_ne_nil {e : RouteEntry} : routeTargets e ≠ some [] := by
  intro h
  unfold routeTargets at h
  split at h
  · rename_i hne
    rw [Option.some.injEq, List.map_eq_nil_iff] at h
    rw [h] at hne
    exact absurd hne (by decide)
  · obtain ⟨provider, _, h⟩ := Option.bind_eq_some_iff.mp h
    obtain ⟨model, _, h⟩ := Option.map_eq_some_iff.mp h
    cases h

/-- **Resolution.** A request is answered from its source entry, or not at
all. -/
theorem resolveRoute_eq {cfg : GatewayConfig} {r : StaticRouter}
    (h : StaticRouter.fromConfig cfg = some r) (k : FrontendKind) (m : String) :
    r.resolveRoute k m =
      match r.sourceEntry k m with
      | some e => .ok (routeOf e k m)
      | none => .error (.noRoute k m) := by
  obtain ⟨r₀, hI, rfl⟩ := tables_fromConfig h
  have hexact := hI.exact { frontend := k, model := m }
  unfold StaticRouter.resolveRoute StaticRouter.sourceEntry
  simp only [StaticRouter.sortBuckets] at *
  cases hx : r₀.exactEntries.lookup { frontend := k, model := m } with
  | some e =>
    -- an exact route
    have hlast := hI.exactEntries k m
    rw [hx] at hlast
    split at hlast
    · cases hlast
    · rename_i hend
      obtain ⟨hm, ts, hts⟩ := targets_of_getLast? hI hlast.symm
      have hne : m ≠ "*" := by
        rintro rfl
        exact hend rfl
      rw [hx] at hexact
      simp [hexact, hts, retryConfig, breakerConfig, routeOf, chainOf, hne, hm, hend]
  | none =>
    rw [hx] at hexact
    simp only [hexact, Option.bind_none, Option.none_or]
    cases hp : StaticRouter.findPrefix
        { r₀ with prefixes := fun k => sortDesc (fun pr => Text.len pr.literal) (r₀.prefixes k) }
        k m with
    | some pr =>
      -- a prefix route
      have hmem := (find?_sortDesc_eq_some hp).1
      rw [hI.prefixes] at hmem
      obtain ⟨_, hne, hlit, hts, hpass, _⟩ := asPrefix_eq_some (mem_prefixes hmem).2
      have hend := endsWithStar_of_strip hlit
      simp [routeOf, chainOf, hne, hend, hts, hpass]
    | none =>
      have hw := hI.wildcards k
      cases hwe : r₀.wildcardEntries k with
      | none =>
        rw [hwe] at hw
        simp [hw]
      | some e =>
        -- the catch-all
        have hlast := hI.wildcardEntries k
        rw [hwe] at hlast
        obtain ⟨hm, ts, hts⟩ := targets_of_getLast? hI hlast.symm
        cases ts with
        | nil => exact absurd hts routeTargets_ne_nil
        | cons t ts =>
          have hpol := routeTargets_policy hts t List.mem_cons_self
          rw [hwe, Option.bind_some, asWildcard, hts] at hw
          simp [hw, retryConfig, breakerConfig, routeOf, chainOf, hm, hts, hpol]

/-! ## Which entry that is -/

/-- The prefix routes of a literal are the routes of its pattern, in order. -/
theorem prefixes_of_literal {es : List RouteEntry} {k : FrontendKind} {literal m : String}
    (hes : ∀ e ∈ es, (parseFrontend e.frontend).isSome → ∃ ts, routeTargets e = some ts)
    (hm : Text.stripSuffixChar m '*' = some literal) (hne : m ≠ "*") :
    ((es.filterMap (asPrefix k)).filter fun pr => pr.literal = literal).map PrefixRoute.entry =
      routesFor k m es := by
  induction es with
  | nil => rfl
  | cons e es ih =>
    have ih := ih fun e' he' => hes e' (List.mem_cons_of_mem _ he')
    by_cases he : parseFrontend e.frontend = some k ∧ e.model = m
    · obtain ⟨hf, rfl⟩ := he
      obtain ⟨ts, hts⟩ := hes e List.mem_cons_self (by rw [hf]; rfl)
      simp [asPrefix, routesFor, hf, hne, hm, hts] at *
      exact ih
    · have hb : (parseFrontend e.frontend == some k && e.model == m) = false := by simpa using he
      rw [routesFor, List.filter_cons, hb, ← routesFor]
      simp only [Bool.false_eq_true, if_false]
      rw [← ih]
      cases hp : asPrefix k e with
      | none => rw [List.filterMap_cons_none hp]
      | some pr =>
        -- a prefix route of another model has another literal
        obtain ⟨hf, _, hlit, _⟩ := asPrefix_eq_some hp
        have hother : pr.literal ≠ literal := by
          rintro rfl
          apply he
          refine ⟨hf, String.ext ?_⟩
          rw [Text.stripSuffixChar_eq_some.mp hlit, Text.stripSuffixChar_eq_some.mp hm]
        rw [List.filterMap_cons_some hp, List.filter_cons]
        simp [hother]

/-- A validated route's literal holds no star. -/
theorem literal_no_star {e : RouteEntry} {literal : String} (hstar : StarGrammar e.model)
    (hne : e.model ≠ "*") (h : Text.stripSuffixChar e.model '*' = some literal) :
    literal.toList ≠ [] ∧ '*' ∉ literal.toList := by
  have hsplit := Text.stripSuffixChar_eq_some.mp h
  rcases hstar with hall | hnone | ⟨l, hl, hlstar, hsplit'⟩
  · exact absurd hall hne
  · exact absurd (by rw [hsplit]; simp) hnone
  · rw [hsplit] at hsplit'
    have := List.append_inj_left' hsplit' rfl
    rw [this]
    exact ⟨hl, hlstar⟩

section

variable {cfg : GatewayConfig} {r : StaticRouter} (h : StaticRouter.fromConfig cfg = some r)
  (k : FrontendKind) (m : String)

include h

theorem wildcardEntries_eq : r.wildcardEntries k = (routesFor k "*" cfg.routes).getLast? := by
  obtain ⟨r₀, hI, rfl⟩ := tables_fromConfig h
  exact hI.wildcardEntries k

theorem exactEntries_eq :
    r.exactEntries.lookup { frontend := k, model := m } =
      if Text.endsWithChar m '*' then none else (routesFor k m cfg.routes).getLast? := by
  obtain ⟨r₀, hI, rfl⟩ := tables_fromConfig h
  exact hI.exactEntries k m

theorem targets_isSome {e : RouteEntry} (he : e ∈ cfg.routes)
    (hf : (parseFrontend e.frontend).isSome) : ∃ ts, routeTargets e = some ts := by
  obtain ⟨r₀, hI, rfl⟩ := tables_fromConfig h
  exact hI.targets e he hf

/-- The prefix route found matches, and no matching one is longer. -/
theorem findPrefix_some {pr : PrefixRoute} (hp : r.findPrefix k m = some pr) :
    pr ∈ keepLast PrefixRoute.literal (cfg.routes.filterMap (asPrefix k)) ∧
      Text.startsWith m pr.literal = true ∧
      ∀ e ∈ cfg.routes, ∀ pr', asPrefix k e = some pr' → Text.startsWith m pr'.literal = true →
        Text.len pr'.literal ≤ Text.len pr.literal := by
  obtain ⟨r₀, hI, rfl⟩ := tables_fromConfig h
  obtain ⟨hmem, hmatch, hlongest⟩ := find?_sortDesc_eq_some hp
  rw [hI.prefixes] at hmem hlongest
  refine ⟨hmem, hmatch, fun e he pr' hpr' hmatch' => ?_⟩
  obtain ⟨pr₁, hmem₁, hlit⟩ : ∃ y ∈ keepLast PrefixRoute.literal _, y.literal = pr'.literal :=
    exists_mem_keepLast (List.mem_filterMap.mpr ⟨e, he, hpr'⟩)
  rw [← hlit] at hmatch' ⊢
  exact hlongest pr₁ hmem₁ hmatch'

/-- Where none is found, no prefix route of the frontend matches. -/
theorem findPrefix_none (hp : r.findPrefix k m = none) {e : RouteEntry} (he : e ∈ cfg.routes)
    {pr : PrefixRoute} (hpr : asPrefix k e = some pr) : Text.startsWith m pr.literal = false := by
  obtain ⟨r₀, hI, rfl⟩ := tables_fromConfig h
  have hnone := find?_sortDesc_eq_none.mp hp
  rw [hI.prefixes] at hnone
  obtain ⟨pr', hmem, hlit⟩ : ∃ y ∈ keepLast PrefixRoute.literal _, y.literal = pr.literal :=
    exists_mem_keepLast (List.mem_filterMap.mpr ⟨e, he, hpr⟩)
  rw [← hlit]
  exact hnone pr' hmem

variable (hv : validate cfg = .ok ())

include hv

/-- A pattern asked for by its own name is answered by the last route of that
pattern: no longer literal can match it. -/
theorem findPrefix_of_pattern {literal : String} (hlit : Text.stripSuffixChar m '*' = some literal)
    (hne : m ≠ "*") (hroutes : routesFor k m cfg.routes ≠ []) :
    (r.findPrefix k m).map PrefixRoute.entry = (routesFor k m cfg.routes).getLast? := by
  obtain ⟨e, es, hes⟩ := List.exists_cons_of_ne_nil hroutes
  obtain ⟨he, hf, rfl⟩ := mem_routesFor.mp (hes ▸ List.mem_cons_self : e ∈ routesFor k m cfg.routes)
  obtain ⟨ts, hts⟩ := targets_isSome h he (by rw [hf]; rfl)
  obtain ⟨own, hown, hownlit⟩ : ∃ pr, asPrefix k e = some pr ∧ pr.literal = literal :=
    ⟨_, by rw [asPrefix, if_pos ⟨hf, hne⟩, hlit, Option.bind_some, hts, Option.map_some], rfl⟩
  have hsplit := Text.stripSuffixChar_eq_some.mp hlit
  have hmatch : Text.startsWith e.model literal = true := by
    rw [Text.startsWith_iff, hsplit]
    exact List.prefix_append _ _
  cases hp : r.findPrefix k e.model with
  | none =>
    have := findPrefix_none h k e.model hp he hown
    rw [hownlit, hmatch] at this
    cases this
  | some pr =>
    obtain ⟨hmem, hstart, hlongest⟩ := findPrefix_some h k e.model hp
    have hlen := hlongest e he own hown (hownlit ▸ hmatch)
    rw [hownlit] at hlen
    -- the literal found starts with ours, starts the pattern, and has no star
    have hle : pr.literal = literal := by
      obtain ⟨he', hpr'⟩ := mem_prefixes hmem
      obtain ⟨_, hne', hlit', _⟩ := asPrefix_eq_some hpr'
      have hno := (literal_no_star (wellFormedRoute_of_validate hv he').star hne' hlit').2
      obtain ⟨rest, hrest⟩ := Text.startsWith_iff.mp hstart
      obtain ⟨mid, hmid⟩ := Text.startsWith_iff.mp (Text.startsWith_of_len_le hmatch hstart hlen)
      rw [← hmid, hsplit, List.append_assoc, List.append_cancel_left_eq] at hrest
      rcases List.append_eq_singleton_iff.mp hrest with ⟨hnil, _⟩ | ⟨hstar, _⟩
      · exact String.ext (by rw [← hmid, hnil, List.append_nil])
      · exact absurd (by rw [← hmid, hstar]; simp) hno
    have hlast := mem_keepLast_iff.mp hmem
    rw [hle] at hlast
    rw [Option.map_some, ← prefixes_of_literal (fun _ => targets_isSome h) hlit hne,
      List.getLast?_map, hlast, Option.map_some]

/-- **Named routes first.** With a route of the very model asked for, the last
such route is the source. -/
theorem sourceEntry_of_named (hroutes : routesFor k m cfg.routes ≠ []) :
    r.sourceEntry k m = (routesFor k m cfg.routes).getLast? := by
  obtain ⟨e, he⟩ : ∃ e, (routesFor k m cfg.routes).getLast? = some e :=
    ⟨_, List.getLast?_eq_some_getLast hroutes⟩
  rw [StaticRouter.sourceEntry, exactEntries_eq h]
  cases hend : Text.endsWithChar m '*' with
  | false =>
    simp only [Bool.false_eq_true, if_false]
    rw [he]
    rfl
  | true =>
    rw [if_pos rfl, Option.none_or]
    have hlit : Text.stripSuffixChar m '*' = some (String.ofList m.toList.dropLast) := by
      rw [Text.stripSuffixChar, if_pos hend]
    by_cases hne : m = "*"
    · -- the catch-all asked for by name: no literal matches the star
      subst hne
      cases hp : r.findPrefix k "*" with
      | none => rw [wildcardEntries_eq h]; rfl
      | some pr =>
        obtain ⟨hmem, hstart, _⟩ := findPrefix_some h k "*" hp
        obtain ⟨he', hpr'⟩ := mem_prefixes hmem
        obtain ⟨_, hne', hlit', _⟩ := asPrefix_eq_some hpr'
        obtain ⟨hnil, hno⟩ := literal_no_star (wellFormedRoute_of_validate hv he').star hne' hlit'
        obtain ⟨rest, hrest⟩ := Text.startsWith_iff.mp hstart
        have hone : pr.literal.toList ++ rest = ['*'] := hrest
        rcases List.append_eq_singleton_iff.mp hone with ⟨hnil', _⟩ | ⟨hstar, _⟩
        · exact absurd hnil' hnil
        · exact absurd (by rw [hstar]; simp) hno
    · rw [findPrefix_of_pattern h k m hv hlit hne hroutes, he]
      rfl

end

/-- **Then the longest prefix, then the catch-all.** Without a route of the
model asked for, the source is the prefix route found, or else the last
catch-all. -/
theorem sourceEntry_of_unnamed {cfg : GatewayConfig} {r : StaticRouter}
    (h : StaticRouter.fromConfig cfg = some r) (k : FrontendKind) (m : String)
    (hroutes : routesFor k m cfg.routes = []) :
    r.sourceEntry k m =
      ((r.findPrefix k m).map PrefixRoute.entry).or (routesFor k "*" cfg.routes).getLast? := by
  rw [StaticRouter.sourceEntry, exactEntries_eq h, hroutes, wildcardEntries_eq h]
  split <;> rfl

/-- The source entry is a route of the configuration. -/
theorem mem_of_sourceEntry {cfg : GatewayConfig} (hvalid : validate cfg = .ok ())
    {r : StaticRouter} (h : StaticRouter.fromConfig cfg = some r) {k : FrontendKind}
    {m : String} {e : RouteEntry}
    (he : r.sourceEntry k m = some e) : e ∈ cfg.routes := by
  have hlast : ∀ m', (routesFor k m' cfg.routes).getLast? = some e → e ∈ cfg.routes :=
    fun m' hm' => (mem_routesFor.mp (List.mem_of_getLast? hm')).1
  by_cases hroutes : routesFor k m cfg.routes = []
  · rw [sourceEntry_of_unnamed h k m hroutes, Option.or_eq_some_iff] at he
    rcases he with he | ⟨-, he⟩
    · obtain ⟨pr, hpr, rfl⟩ := Option.map_eq_some_iff.mp he
      exact (mem_prefixes (findPrefix_some h k m hpr).1).1
    · exact hlast "*" he
  · rw [sourceEntry_of_named h k m hvalid hroutes] at he
    exact hlast m he

/-- A route resolved from a validated configuration comes from a well-formed
entry. -/
theorem resolveRoute_wellFormed {cfg : GatewayConfig} (hvalid : validate cfg = .ok ())
    {r : StaticRouter} (h : StaticRouter.fromConfig cfg = some r) {k : FrontendKind} {m : String}
    {resolved : ResolvedRoute} (hresolved : r.resolveRoute k m = .ok resolved) :
    ∃ e, WellFormedRoute cfg e ∧ resolved.retry = e.retry ∧ resolved.breaker = e.breaker := by
  rw [resolveRoute_eq h] at hresolved
  split at hresolved
  · rename_i e he
    cases hresolved
    exact ⟨e, wellFormedRoute_of_validate hvalid (mem_of_sourceEntry hvalid h he), rfl, rfl⟩
  · cases hresolved

end AgentShim.StaticRoutes
