import AgentShim.Gateway.BucketCharges
import AgentShim.Router.RouteSelection

/-
  Whether the bucket of a route is asked

  A per-route key names a configured route by the route's own frontend string and model
  pattern. The check before the chain looks the bucket up under the label of the request:
  the canonical name of the frontend and the model asked for.

  What is proved:
    1. `exists_named_route` — an accepted key names a configured route.
    2. `splitOnce_routeLabel` — a label names its frontend and its model.
    3. `chargesRoute_iff` — a request of the named route charges its bucket exactly if
       the key has the frontend's canonical name and no pattern, or the pattern is asked
       for by its own text.

  Correspondence (Rust ↔ Lean):
    `validate_rate_limit` rule 7 ↔ `checkPerRouteKey`
    `route_label`                ↔ `routeLabel`
-/

namespace AgentShim.Gateway

open AgentShim.Config AgentShim.RateLimit AgentShim.StaticRoutes Checks

/-! ## Keys and labels -/

theorem exists_named_route {cfg : GatewayConfig} (hvalid : validate cfg = .ok ())
    (henabled : cfg.rateLimit.enabled = true) {key : String}
    (hkey : key ∈ cfg.rateLimit.perRoute.keys) :
    ∃ e ∈ cfg.routes, Text.splitOnce key '/' = some (e.frontend, e.model) := by
  have hlimits : validateRateLimit cfg = .ok () := by
    simp only [validate, all_cons_eq_ok, relabel_eq_ok] at hvalid
    exact hvalid.2.2.2.2.2.2.2.1
  unfold validateRateLimit at hlimits
  dsimp only at hlimits
  rw [henabled, Bool.not_true, if_neg Bool.false_ne_true, all_cons_eq_ok, each_eq_ok] at hlimits
  have hnamed := hlimits.1 key hkey
  unfold checkPerRouteKey at hnamed
  cases hsplit : Text.splitOnce key '/' with
  | none =>
    rw [hsplit] at hnamed
    cases hnamed
  | some parts =>
    rw [hsplit] at hnamed
    dsimp only at hnamed
    rw [ensure_eq_ok, List.any_eq_true] at hnamed
    obtain ⟨e, he, hsame⟩ := hnamed
    rw [Bool.and_eq_true, beq_iff_eq, beq_iff_eq] at hsame
    exact ⟨e, he, by rw [hsame.1, hsame.2]⟩

theorem splitOnce_routeLabel (k : FrontendKind) (model : String) :
    Text.splitOnce (routeLabel k model) '/' = some (frontendKindStr k, model) := by
  have hno : '/' ∉ (frontendKindStr k).toList := by
    cases k <;> decide
  exact Text.splitOnce_append hno model

/-- A key is the label of the requests for the model it names on the frontend it names. -/
theorem routeLabel_eq_iff {key front back : String}
    (hsplit : Text.splitOnce key '/' = some (front, back)) (k : FrontendKind) (model : String) :
    routeLabel k model = key ↔ front = frontendKindStr k ∧ back = model := by
  constructor
  · intro h
    rw [← h, splitOnce_routeLabel] at hsplit
    obtain ⟨rfl, rfl⟩ := Prod.mk.inj (Option.some.inj hsplit)
    exact ⟨rfl, rfl⟩
  · rintro ⟨rfl, rfl⟩
    exact (Text.splitOnce_eq_some hsplit).symm

/-! ## The requests of a route -/

theorem parseFrontend_frontendKindStr (k : FrontendKind) :
    parseFrontend (frontendKindStr k) = some k := by
  cases k <;> rfl

theorem frontend_of_selects {routes : List RouteEntry} {k : FrontendKind} {m : String}
    {e : RouteEntry} (h : Selects routes k m e) : parseFrontend e.frontend = some k := by
  cases h with
  | exact last => exact last.mem.2.1
  | byPrefix _ last => exact last.mem.2.1
  | catchAll _ _ last => exact last.mem.2.1

/-- A route without a star takes the requests for its own model only. -/
theorem model_of_selects {routes : List RouteEntry} {k : FrontendKind} {m : String}
    {e : RouteEntry} (h : Selects routes k m e) (hstar : Text.endsWithChar e.model '*' = false) :
    m = e.model := by
  cases h with
  | exact last => exact last.mem.2.2.1.symm
  | byPrefix _ last =>
    rw [endsWithStar_of_strip last.mem.2.2.2] at hstar
    cases hstar
  | catchAll _ _ last =>
    rw [last.mem.2.2] at hstar
    cases hstar

/-- The request's label is spelled like its route's own strings exactly if the frontend
string is canonical, and the model is no pattern or the pattern itself is asked for. -/
theorem label_iff {routes : List RouteEntry} {k : FrontendKind} {m : String} {e : RouteEntry}
    (h : Selects routes k m e) :
    (e.frontend = frontendKindStr k ∧ e.model = m) ↔
      (∃ k', e.frontend = frontendKindStr k') ∧
        (Text.endsWithChar e.model '*' = false ∨ m = e.model) := by
  constructor
  · rintro ⟨hfrontend, hmodel⟩
    exact ⟨⟨k, hfrontend⟩, Or.inr hmodel.symm⟩
  · rintro ⟨⟨k', hfrontend⟩, hmodel⟩
    have hparse := frontend_of_selects h
    rw [hfrontend, parseFrontend_frontendKindStr] at hparse
    obtain rfl := Option.some.inj hparse
    refine ⟨hfrontend, ?_⟩
    rcases hmodel with hstar | hmodel
    · exact (model_of_selects h hstar).symm
    · exact hmodel.symm

/-- **When a route's bucket is asked.** An accepted key names a configured route. A
request that is resolved through a route it names charges the bucket under the key
exactly if the key's frontend string is canonical, and its model is no pattern or the
very model asked for. -/
theorem chargesRoute_iff {cfg : GatewayConfig} (hvalid : validate cfg = .ok ())
    (henabled : cfg.rateLimit.enabled = true) {router : StaticRouter}
    (hrouter : StaticRouter.fromConfig cfg = some router) {key : String} {b : BucketConfigYaml}
    (hkey : cfg.rateLimit.perRoute.get? key = some b) :
    (∃ e ∈ cfg.routes, Text.splitOnce key '/' = some (e.frontend, e.model)) ∧
      ∀ e, Text.splitOnce key '/' = some (e.frontend, e.model) →
        ∀ k m resolved, router.resolveRoute k m = .ok resolved → Selects cfg.routes k m e →
          (ChargesRoute cfg.rateLimit resolved.routeLabel key (.ofYaml b) ↔
            (∃ k', e.frontend = frontendKindStr k') ∧
              (Text.endsWithChar e.model '*' = false ∨ m = e.model)) := by
  have hmem : key ∈ cfg.rateLimit.perRoute.keys := OrdMap.mem_keys_iff.mpr ⟨b, hkey⟩
  refine ⟨exists_named_route hvalid henabled hmem, ?_⟩
  intro e hsplit k m resolved hresolved hselects
  have hlabel : resolved.routeLabel = routeLabel k m := by
    rw [resolveRoute_of_selects hrouter k m hselects] at hresolved
    cases hresolved
    rfl
  rw [hlabel, ← label_iff hselects, ← routeLabel_eq_iff hsplit]
  constructor
  · intro hcharges
    exact (eq_of_chargesRoute hcharges).2
  · intro heq
    rw [heq]
    exact chargesRoute_of_eq henabled hkey

/-! ## Two configurations -/

def oneASecond : BucketConfigYaml where
  ratePerSec := 1
  burst := 1

/-- Rate limits of routes only. -/
def routeLimits (routes : List RouteEntry) (perRoute : OrdMap BucketConfigYaml) : GatewayConfig :=
  { RouteEntries.plainConfig routes with
    rateLimit :=
      { enabled := true
        perKey := { default := none, anonymous := none, overrides := .empty }
        perRoute := perRoute
        perUpstream := .empty
        perIp := { enabled := false, ratePerSec := 5, burst := 20 } } }

def chatRoute : RouteEntry := .singular "openai_chat" "gpt-4o" "openai" "gpt-4o"

def chatLimits : GatewayConfig :=
  routeLimits [chatRoute]
    { entries := [("openai_chat/gpt-4o", oneASecond)], sorted := List.pairwise_singleton _ _ }

theorem chargesRoute_chat :
    ChargesRoute chatLimits.rateLimit "openai_chat/gpt-4o" "openai_chat/gpt-4o"
      (.ofYaml oneASecond) := by
  have hvalid : validate chatLimits = .ok () := rfl
  obtain ⟨router, hrouter⟩ := fromConfig_isSome hvalid
  have hkey : chatLimits.rateLimit.perRoute.get? "openai_chat/gpt-4o" = some oneASecond := rfl
  have hsplit : Text.splitOnce "openai_chat/gpt-4o" '/' =
      some (chatRoute.frontend, chatRoute.model) := by
    decide
  have hcharges := (chargesRoute_iff hvalid rfl hrouter hkey).2 chatRoute hsplit
  have hselects : Selects chatLimits.routes .openAiChat "gpt-4o" chatRoute :=
    .exact ⟨[], [], rfl, ⟨rfl, rfl, rfl⟩, fun _ h => by cases h⟩
  exact (hcharges _ _ _ (resolveRoute_of_selects hrouter _ _ hselects) hselects).mpr
    ⟨⟨.openAiChat, rfl⟩, Or.inl rfl⟩

def aliasRoute : RouteEntry := .singular "openai" "gpt-4o" "openai" "gpt-4o"

def patternRoute : RouteEntry := .singular "anthropic_messages" "claude-*" "openai" "gpt-4o"

/-- A key with a frontend's alias, and one with a pattern. -/
def spelledLimits : GatewayConfig :=
  routeLimits [aliasRoute, patternRoute]
    { entries := [("anthropic_messages/claude-*", oneASecond), ("openai/gpt-4o", oneASecond)]
      sorted := show ["anthropic_messages/claude-*", "openai/gpt-4o"].Pairwise (· < ·) by decide }

/-- Both keys are accepted, and the requests of their routes are not charged to them. -/
theorem spelled_not_charged :
    validate spelledLimits = .ok () ∧
    ∃ router, StaticRouter.fromConfig spelledLimits = some router ∧
      (∃ resolved, router.resolveRoute .openAiChat "gpt-4o" = .ok resolved ∧
        Selects spelledLimits.routes .openAiChat "gpt-4o" aliasRoute ∧
        ¬ ChargesRoute spelledLimits.rateLimit resolved.routeLabel "openai/gpt-4o"
          (.ofYaml oneASecond)) ∧
      ∃ resolved, router.resolveRoute .anthropicMessages "claude-opus-4" = .ok resolved ∧
        Selects spelledLimits.routes .anthropicMessages "claude-opus-4" patternRoute ∧
        ¬ ChargesRoute spelledLimits.rateLimit resolved.routeLabel "anthropic_messages/claude-*"
          (.ofYaml oneASecond) := by
  have hrouter : StaticRouter.fromConfig spelledLimits = some _ := rfl
  refine ⟨rfl, _, hrouter, ⟨_, rfl, (sourceEntry_eq_some_iff hrouter _ _).mp rfl, ?_⟩,
    _, rfl, (sourceEntry_eq_some_iff hrouter _ _).mp rfl, ?_⟩
  · intro hcharges
    have hlabel : routeLabel .openAiChat "gpt-4o" = "openai/gpt-4o" :=
      (eq_of_chargesRoute hcharges).2
    exact absurd hlabel (by decide)
  · intro hcharges
    have hlabel : routeLabel .anthropicMessages "claude-opus-4" = "anthropic_messages/claude-*" :=
      (eq_of_chargesRoute hcharges).2
    exact absurd hlabel (by decide)

end AgentShim.Gateway
