import AgentShim.Router.StaticRoutes

/-
  The route entry of a request

  The pipeline looks the request's route entry up in the live configuration a
  second time, beside the router: `find_route_entry` scans the route list for
  the model and then for `*`. Its entry is what admission reads the cost and
  tier limits from, and a request without one is refused as unrouted. Its
  documentation has it mirror the router's resolution order.

  What is proved:
    1. `routeEntryAgrees_iff` — on a validated configuration the scan gives the
       entry the router resolved from exactly where one route names the model,
       or none does, no prefix route matches and at most one catch-all applies.
    2. `prefix_route_has_no_entry` — a request on a prefix route, which the
       router resolves and the scan does not find.

  Correspondence (Rust ↔ Lean):
    `pipeline::find_route_entry` ↔ `findRouteEntry`
-/

namespace AgentShim.RouteEntries

open AgentShim.Config AgentShim.StaticRoutes Precedence

def frontendStr : FrontendKind → String
  | .anthropicMessages => "anthropic_messages"
  | .openAiChat => "openai_chat"
  | .openAiResponses => "openai_responses"

def frontendAlt : FrontendKind → String
  | .anthropicMessages => "anthropic"
  | .openAiChat => "openai"
  | .openAiResponses => "responses"

/-- The first route of the frontend for the model, else its first catch-all. -/
def findRouteEntry (cfg : GatewayConfig) (frontend : FrontendKind) (model : String) :
    Option RouteEntry :=
  let specific := cfg.routes.find? fun r =>
    (r.frontend == frontendStr frontend || r.frontend == frontendAlt frontend) && r.model == model
  if specific.isSome then specific
  else
    cfg.routes.find? fun r =>
      (r.frontend == frontendStr frontend || r.frontend == frontendAlt frontend) && r.model == "*"

/-! ## The two lookups -/

/-- Whatever the router resolves was built from one entry, and the scan finds
that entry. -/
def RouteEntryAgrees (cfg : GatewayConfig) (r : StaticRouter) (k : FrontendKind) (m : String) :
    Prop :=
  ∀ route, r.resolveRoute k m = .ok route →
    ∃ e, r.sourceEntry k m = some e ∧ route = routeOf e k m ∧ findRouteEntry cfg k m = some e

/-- The route is a prefix route of the frontend and its literal starts the
model. -/
def prefixMatches (k : FrontendKind) (m : String) (e : RouteEntry) : Bool :=
  parseFrontend e.frontend == some k && e.model != "*" &&
    (Text.stripSuffixChar e.model '*').any fun literal => Text.startsWith m literal

/-- One route names the model; or none does, no prefix route matches it and at
most one catch-all applies. -/
def Unambiguous (cfg : GatewayConfig) (k : FrontendKind) (m : String) : Prop :=
  (routesFor k m cfg.routes).length = 1 ∨
    (routesFor k m cfg.routes = [] ∧ (∀ e ∈ cfg.routes, prefixMatches k m e = false) ∧
      (routesFor k "*" cfg.routes).length ≤ 1)

theorem parseFrontend_eq_some_iff (s : String) (k : FrontendKind) :
    parseFrontend s = some k ↔ s = frontendStr k ∨ s = frontendAlt k := by
  constructor
  · intro h
    unfold parseFrontend at h
    split at h <;> cases h <;> simp [frontendStr, frontendAlt]
  · rintro (rfl | rfl) <;> cases k <;> rfl

theorem frontend_test (s : String) (k : FrontendKind) :
    (s == frontendStr k || s == frontendAlt k) = (parseFrontend s == some k) := by
  rw [Bool.eq_iff_iff, Bool.or_eq_true, beq_iff_eq, beq_iff_eq, beq_iff_eq,
    parseFrontend_eq_some_iff]

theorem findRouteEntry_eq (cfg : GatewayConfig) (k : FrontendKind) (m : String) :
    findRouteEntry cfg k m =
      (routesFor k m cfg.routes).head?.or (routesFor k "*" cfg.routes).head? := by
  unfold findRouteEntry routesFor
  simp only [frontend_test, List.head?_filter]
  cases List.find? (fun e => parseFrontend e.frontend == some k && e.model == m) cfg.routes <;> rfl

theorem prefixMatches_iff {cfg : GatewayConfig} {r : StaticRouter}
    (h : StaticRouter.fromConfig cfg = some r) {k : FrontendKind} {m : String} {e : RouteEntry}
    (he : e ∈ cfg.routes) :
    prefixMatches k m e = true ↔
      ∃ pr, asPrefix k e = some pr ∧ Text.startsWith m pr.literal = true := by
  simp only [prefixMatches, Bool.and_eq_true, beq_iff_eq, bne_iff_ne, Option.any_eq_true]
  constructor
  · rintro ⟨⟨hf, hne⟩, literal, hlit, hmatch⟩
    obtain ⟨ts, hts⟩ := targets_isSome h he (by rw [hf]; rfl)
    exact ⟨_, by rw [asPrefix, if_pos ⟨hf, hne⟩, hlit, Option.bind_some, hts, Option.map_some],
      hmatch⟩
  · rintro ⟨pr, hpr, hmatch⟩
    obtain ⟨hf, hne, hlit, _⟩ := asPrefix_eq_some hpr
    exact ⟨⟨hf, hne⟩, pr.literal, hlit, hmatch⟩

/-- The router finds no prefix route exactly when no prefix pattern matches. -/
theorem findPrefix_eq_none_iff {cfg : GatewayConfig} {r : StaticRouter}
    (h : StaticRouter.fromConfig cfg = some r) (k : FrontendKind) (m : String) :
    r.findPrefix k m = none ↔ ∀ e ∈ cfg.routes, prefixMatches k m e = false := by
  constructor
  · intro hp e he
    rw [← Bool.not_eq_true, prefixMatches_iff h he]
    rintro ⟨pr, hpr, hmatch⟩
    rw [findPrefix_none h k m hp he hpr] at hmatch
    cases hmatch
  · intro hno
    cases hp : r.findPrefix k m with
    | none => rfl
    | some pr =>
      obtain ⟨hmem, hmatch, _⟩ := findPrefix_some h k m hp
      obtain ⟨he, hpr⟩ := mem_prefixes hmem
      have hyes := (prefixMatches_iff h he).mpr ⟨pr, hpr, hmatch⟩
      rw [hno _ he] at hyes
      cases hyes

theorem nodup_routesFor {cfg : GatewayConfig} (hv : validate cfg = .ok ()) (k : FrontendKind)
    (m : String) : (routesFor k m cfg.routes).Nodup :=
  (List.Nodup.of_map _ (routeKeys_nodup_of_validate hv)).filter _

/-- The lookups agree where the router resolves nothing, or both give the same
entry. -/
theorem routeEntryAgrees_iff_eq {cfg : GatewayConfig} {r : StaticRouter}
    (h : StaticRouter.fromConfig cfg = some r) (k : FrontendKind) (m : String) :
    RouteEntryAgrees cfg r k m ↔
      r.sourceEntry k m = none ∨ findRouteEntry cfg k m = r.sourceEntry k m := by
  unfold RouteEntryAgrees
  rw [resolveRoute_eq h]
  cases hs : r.sourceEntry k m with
  | none => simp
  | some e =>
    simp only [reduceCtorEq, false_or]
    constructor
    · intro hall
      obtain ⟨e', hes, _, hfind⟩ := hall _ rfl
      rw [hfind, hes]
    · intro hfind route hroute
      cases hroute
      exact ⟨e, rfl, rfl, hfind⟩

/-- **Route-entry agreement.** On a validated configuration, the entry the scan
finds is the one the router resolved from, for every request it resolves,
exactly where the routes are unambiguous. -/
theorem routeEntryAgrees_iff (cfg : GatewayConfig) (hv : validate cfg = .ok ())
    (r : StaticRouter) (h : StaticRouter.fromConfig cfg = some r) (k : FrontendKind) (m : String) :
    RouteEntryAgrees cfg r k m ↔ Unambiguous cfg k m := by
  rw [routeEntryAgrees_iff_eq h, findRouteEntry_eq, Unambiguous]
  have hnodup := nodup_routesFor hv k m
  by_cases hroutes : routesFor k m cfg.routes = []
  · -- no route names the model: the router goes on to prefixes and catch-alls
    rw [sourceEntry_of_unnamed h k m hroutes, hroutes, List.head?_nil, Option.none_or]
    have hstar := head?_eq_getLast?_iff (nodup_routesFor hv k "*")
    rw [← findPrefix_eq_none_iff h]
    cases hp : r.findPrefix k m with
    | none =>
      rw [Option.map_none, Option.none_or, hstar, List.getLast?_eq_none_iff]
      constructor
      · rintro (hnil | hle)
        · exact Or.inr ⟨rfl, rfl, by rw [hnil]; exact Nat.zero_le _⟩
        · exact Or.inr ⟨rfl, rfl, hle⟩
      · rintro (hone | ⟨_, _, hle⟩)
        · cases hone
        · exact Or.inr hle
    | some pr =>
      constructor
      · rintro (hnone | heq)
        · cases hnone
        · -- the scan can only have found a catch-all
          have hin := mem_routesFor.mp (List.mem_of_head? heq)
          have hpr := (mem_prefixes (findPrefix_some h k m hp).1).2
          exact absurd hin.2.2 (asPrefix_eq_some hpr).2.1
      · rintro (hone | ⟨_, hnone, _⟩)
        · cases hone
        · cases hnone
  · obtain ⟨e, es, hes⟩ := List.exists_cons_of_ne_nil hroutes
    have hlast : (routesFor k m cfg.routes).getLast? ≠ none := by
      rw [Ne, List.getLast?_eq_none_iff]
      exact hroutes
    have hpos : 0 < (routesFor k m cfg.routes).length := List.length_pos_iff.mpr hroutes
    have hor : (routesFor k m cfg.routes).head?.or (routesFor k "*" cfg.routes).head? =
        (routesFor k m cfg.routes).head? := by
      rw [hes]
      rfl
    rw [sourceEntry_of_named h k m hv hroutes, hor, head?_eq_getLast?_iff hnodup]
    constructor
    · rintro (hnone | hle)
      · exact absurd hnone hlast
      · exact Or.inl (by omega)
    · rintro (hone | ⟨hnil, _⟩)
      · exact Or.inr (by omega)
      · exact absurd hnil hroutes

/-- A gateway with one OpenAI-compatible upstream and the given routes, every
optional block absent. -/
def plainConfig (routes : List RouteEntry) : GatewayConfig where
  server := { bind := "127.0.0.1", port := 8787, keepaliveSecs := 15 }
  upstreams :=
    { entries := [("openai", .openAiCompatible
        { baseUrl := "https://api.openai.com/v1", apiKey := "sk-1", requestTimeoutSecs := 30,
          tier := .standard, cost := none, p95LatencyBudgetMs := none })]
      sorted := List.pairwise_singleton _ _ }
  routes := routes
  plugins := .empty
  auth := { enabled := false, required := false, keys := .empty }
  rateLimit :=
    { enabled := false
      perKey := { default := none, anonymous := none, overrides := .empty }
      perRoute := .empty
      perUpstream := .empty
      perIp := { enabled := false, ratePerSec := 5, burst := 20 } }
  admin := none
  otel := none
  shutdown := { pluginFlushSecs := 5 }

/-- An exact route on one frontend and a catch-all on another. -/
def exactConfig : GatewayConfig :=
  plainConfig
    [.singular "openai" "gpt-4o" "openai" "gpt-4o-2024-11-20",
      .singular "anthropic_messages" "*" "openai" "*"]

theorem routeEntryAgrees_exactConfig :
    ∃ r, StaticRouter.fromConfig exactConfig = some r ∧
      RouteEntryAgrees exactConfig r .openAiChat "gpt-4o" := by
  obtain ⟨r, hr⟩ := fromConfig_isSome (rfl : validate exactConfig = .ok ())
  exact ⟨r, hr, (routeEntryAgrees_iff exactConfig rfl r hr .openAiChat "gpt-4o").mpr
    (Or.inl (by decide))⟩

/-- One prefix route. -/
def prefixConfig : GatewayConfig :=
  plainConfig [.singular "anthropic_messages" "claude-*" "openai" "gpt-4o"]

theorem prefix_route_has_no_entry :
    validate prefixConfig = .ok () ∧
      ∃ r, StaticRouter.fromConfig prefixConfig = some r ∧
        (∃ route, r.resolveRoute .anthropicMessages "claude-opus-4" = .ok route) ∧
        findRouteEntry prefixConfig .anthropicMessages "claude-opus-4" = none ∧
        ¬ RouteEntryAgrees prefixConfig r .anthropicMessages "claude-opus-4" := by
  refine ⟨rfl, _, rfl, ⟨_, rfl⟩, by decide, fun hagree => ?_⟩
  obtain ⟨e, _, _, hfind⟩ := hagree _ rfl
  have hnone : findRouteEntry prefixConfig .anthropicMessages "claude-opus-4" = none := by decide
  rw [hnone] at hfind
  cases hfind

end AgentShim.RouteEntries
