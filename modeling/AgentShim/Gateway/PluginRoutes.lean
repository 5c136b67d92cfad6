import AgentShim.Gateway.RouteEntries
import AgentShim.Plugins.PiiScrubber

/-
  The plugins of a routed request

  The registry files the hook lists of a route under the model string of the
  route, as it is written, and looks a request up by its own model string: the
  specific plan, else the frontend's wildcard plan. The router has a third tier
  between these two, and a route that declares no plugins still resolves. The
  plan of a request is that of its route entry where both lookups come to the
  same entry.

  What is proved:
    1. `planTables_addRoute`, `lookup_eq` — the tables of a built registry as
       functions of the route list: the plan found is that of the last declaring
       route of the model, else of the last declaring catch-all.
    2. `planAgrees_iff` — on a validated configuration the plan of a request is
       the one its route entry declares iff that entry declares plugins and is no
       prefix route reached by its pattern, or the entry whose plan is found
       lists the same enabled plugins.

  Correspondence (Rust ↔ Lean):
    the plan a hook runs (`lookup`, or nothing) ↔ `planFor`
-/

namespace AgentShim.PluginRoutes

open AgentShim.Config AgentShim.Plugins AgentShim.RouteEntries AgentShim.StaticRoutes Checks

variable {P Prov : Type}

/-- The plan without plugins. -/
def emptyPlan : RouteHookPlan P where
  onDecodedRequest := []
  onResolved := []
  onStreamEvent := []
  onResponseComplete := []

/-- The hook lists a request is run with. -/
def planFor (registry : PluginRegistry P) (frontend : FrontendKind) (model : String) :
    RouteHookPlan P :=
  (registry.lookup frontend model).getD emptyPlan

/-! ## What an entry declares -/

/-- The entry has a plugins block that names a plugin. -/
def declares (e : RouteEntry) : Bool := e.plugins.any fun block => !block.isEmpty

/-- The declared instances of a hook list that are enabled. -/
def enabledEntries (plugins : PluginMap P) (names : List String) : List (Plugins.PluginEntry P) :=
  names.filterMap fun name => (plugins.lookup name).filter Plugins.PluginEntry.enabled

def blockPlan (plugins : PluginMap P) (block : RoutePluginsBlock) : RouteHookPlan P where
  onDecodedRequest := enabledEntries plugins block.onDecodedRequest
  onResolved := enabledEntries plugins block.onResolved
  onStreamEvent := enabledEntries plugins block.onStreamEvent
  onResponseComplete := enabledEntries plugins block.onResponseComplete

/-- The hook lists an entry declares, none without a plugins block. -/
def declaredPlan (plugins : PluginMap P) (e : RouteEntry) : RouteHookPlan P :=
  match e.plugins with
  | none => emptyPlan
  | some block => blockPlan plugins block

/-- The last route of the frontend for the model string that declares plugins. -/
def lastDeclaring (k : FrontendKind) (m : String) (routes : List RouteEntry) : Option RouteEntry :=
  ((routesFor k m routes).filter declares).getLast?

/-- The entry whose plan a request finds. -/
def filedEntry (routes : List RouteEntry) (k : FrontendKind) (m : String) : Option RouteEntry :=
  (lastDeclaring k m routes).or (lastDeclaring k "*" routes)

/-! ## The tables, as functions of the route list -/

/-- What the plan tables hold after the routes `es`. -/
structure PlanTables (plugins : PluginMap P) (es : List RouteEntry) (plans : PlanMap P) : Prop where
  specific : ∀ k m, m ≠ "*" → ((plans k).bind fun fp => fp.specific.lookup m) =
    (lastDeclaring k m es).map (declaredPlan plugins)
  star : ∀ k, ((plans k).bind fun fp => fp.specific.lookup "*") = none
  wildcard : ∀ k, ((plans k).bind FrontendRoutePlans.wildcard) =
    (lastDeclaring k "*" es).map (declaredPlan plugins)
  filled : ∀ k fp, plans k = some fp → fp.isEmpty = false

theorem planTables_empty (plugins : PluginMap P) : PlanTables plugins [] fun _ => none where
  specific _ _ _ := rfl
  star _ := rfl
  wildcard _ := rfl
  filled _ _ h := by cases h

theorem lastDeclaring_concat (k : FrontendKind) (m : String) (es : List RouteEntry)
    (e : RouteEntry) :
    lastDeclaring k m (es ++ [e]) =
      if declares e = true ∧ parseFrontend e.frontend = some k ∧ e.model = m then some e
      else lastDeclaring k m es := by
  rw [lastDeclaring, routesFor_concat, List.filter_append]
  by_cases hroute : parseFrontend e.frontend = some k ∧ e.model = m
  · rw [if_pos hroute]
    cases hdeclares : declares e <;> simp [hdeclares, hroute, lastDeclaring]
  · rw [if_neg hroute, if_neg fun h => hroute h.2]
    simp [lastDeclaring]

/-- A route without plugins leaves the tables as they are. -/
theorem planTables_skip {plugins : PluginMap P} {es : List RouteEntry} {e : RouteEntry}
    {plans : PlanMap P} (hI : PlanTables plugins es plans) (h : declares e = false) :
    PlanTables plugins (es ++ [e]) plans := by
  have hsame : ∀ k m, lastDeclaring k m (es ++ [e]) = lastDeclaring k m es := by
    intro k m
    rw [lastDeclaring_concat, h]
    rfl
  exact
    { hI with
      specific := fun k m hm => by rw [hI.specific k m hm, hsame]
      wildcard := fun k => by rw [hI.wildcard k, hsame] }

/-- The plans of a frontend before a route is filed: none are as empty ones. -/
theorem lookup_getD (plans : PlanMap P) (k : FrontendKind) (m : String) :
    ((plans k).getD { specific := ∅, wildcard := none, isEmpty := false }).specific.lookup m =
      (plans k).bind fun fp => fp.specific.lookup m := by
  cases plans k <;> rfl

theorem wildcard_getD (plans : PlanMap P) (k : FrontendKind) :
    ((plans k).getD { specific := ∅, wildcard := none, isEmpty := false }).wildcard =
      (plans k).bind FrontendRoutePlans.wildcard := by
  cases plans k <;> rfl

/-- Filing a plan under a model string changes the specific plan of that one only. -/
theorem specific_filePlan (plans : PlanMap P) (frontend : FrontendKind) (model : String)
    (plan : RouteHookPlan P) (k : FrontendKind) (m : String) :
    ((filePlan plans frontend model plan k).bind fun fp => fp.specific.lookup m) =
      if k = frontend ∧ m = model ∧ model ≠ "*" then some plan
      else (plans k).bind fun fp => fp.specific.lookup m := by
  by_cases hk : k = frontend
  · subst hk
    have hhere : filePlan plans k model plan k = some _ := Function.update_self ..
    rw [hhere, Option.bind_some]
    by_cases hstar : model = "*"
    · rw [if_pos (by rw [hstar]; rfl), if_neg fun h => h.2.2 hstar]
      exact lookup_getD plans k m
    · rw [if_neg (by simpa using hstar)]
      by_cases hmodel : m = model
      · rw [if_pos ⟨rfl, hmodel, hstar⟩, hmodel]
        exact AList.lookup_insert _
      · rw [if_neg fun h => hmodel h.2.1, ← lookup_getD]
        exact AList.lookup_insert_ne hmodel
  · have hother : filePlan plans frontend model plan k = plans k := Function.update_of_ne hk _ _
    rw [hother, if_neg fun h => hk h.1]

/-- The catch-all's plan is the wildcard plan. -/
theorem wildcard_filePlan (plans : PlanMap P) (frontend : FrontendKind) (model : String)
    (plan : RouteHookPlan P) (k : FrontendKind) :
    ((filePlan plans frontend model plan k).bind FrontendRoutePlans.wildcard) =
      if k = frontend ∧ model = "*" then some plan
      else (plans k).bind FrontendRoutePlans.wildcard := by
  by_cases hk : k = frontend
  · subst hk
    have hhere : filePlan plans k model plan k = some _ := Function.update_self ..
    rw [hhere, Option.bind_some]
    by_cases hstar : model = "*"
    · rw [if_pos (by rw [hstar]; rfl), if_pos ⟨rfl, hstar⟩]
    · rw [if_neg (by simpa using hstar), if_neg fun h => hstar h.2]
      exact wildcard_getD plans k
  · have hother : filePlan plans frontend model plan k = plans k := Function.update_of_ne hk _ _
    rw [hother, if_neg fun h => hk h.1]

/-- A route with plugins replaces the plan of its model string. -/
theorem planTables_file {plugins : PluginMap P} {es : List RouteEntry} {e : RouteEntry}
    {plans : PlanMap P} {frontend : FrontendKind} (hI : PlanTables plugins es plans)
    (hf : parseFrontend e.frontend = some frontend) (h : declares e = true) :
    PlanTables plugins (es ++ [e])
      (filePlan plans frontend e.model (declaredPlan plugins e)) := by
  have hlast (k : FrontendKind) (m : String) :
      (lastDeclaring k m (es ++ [e])).map (declaredPlan plugins) =
        if k = frontend ∧ m = e.model then some (declaredPlan plugins e)
        else (lastDeclaring k m es).map (declaredPlan plugins) := by
    have hcond : (declares e = true ∧ parseFrontend e.frontend = some k ∧ e.model = m) ↔
        k = frontend ∧ m = e.model := by
      rw [hf, Option.some.injEq]
      exact ⟨fun hc => ⟨hc.2.1.symm, hc.2.2.symm⟩, fun hc => ⟨h, hc.1.symm, hc.2.symm⟩⟩
    rw [lastDeclaring_concat, if_congr hcond rfl rfl]
    split <;> rfl
  constructor
  · intro k m hm
    have hcond : (k = frontend ∧ m = e.model ∧ e.model ≠ "*") ↔ k = frontend ∧ m = e.model :=
      ⟨fun hc => ⟨hc.1, hc.2.1⟩, fun hc => ⟨hc.1, hc.2, fun hstar => hm (hc.2.trans hstar)⟩⟩
    rw [specific_filePlan, hlast, if_congr hcond rfl rfl, hI.specific k m hm]
  · intro k
    rw [specific_filePlan, if_neg fun hc => hc.2.2 hc.2.1.symm, hI.star k]
  · intro k
    rw [wildcard_filePlan, hlast, if_congr (and_congr_right fun _ => eq_comm) rfl rfl,
      hI.wildcard k]
  · intro k fp hfp
    by_cases hk : k = frontend
    · subst hk
      have hhere : filePlan plans k e.model (declaredPlan plugins e) k = some _ :=
        Function.update_self ..
      rw [hhere] at hfp
      cases hfp
      rfl
    · have hother : filePlan plans frontend e.model (declaredPlan plugins e) k = plans k :=
        Function.update_of_ne hk _ _
      rw [hother] at hfp
      exact hI.filled k fp hfp

section Build

variable [Plugin P]

theorem resolveHook_eq {plugins : PluginMap P} {route : RouteEntry} {frontend : FrontendKind}
    {hook : Hook} {names : List String} {out : List (Plugins.PluginEntry P)}
    (h : resolveHook plugins route frontend hook names = .ok out) :
    out = enabledEntries plugins names := by
  induction names generalizing out with
  | nil =>
    cases h
    rfl
  | cons name names ih =>
    rw [resolveHook] at h
    split at h
    · cases h
    · rename_i entry hlookup
      split at h
      · cases h
      · obtain ⟨rest, hrest, rfl⟩ := map_eq_ok.mp h
        rw [ih hrest]
        rw [enabledEntries, enabledEntries, List.filterMap_cons, hlookup, Option.filter_some]
        cases henabled : entry.enabled <;> rfl

theorem routePlan_eq {plugins : PluginMap P} {route : RouteEntry} {frontend : FrontendKind}
    {block : RoutePluginsBlock} {plan : RouteHookPlan P}
    (h : routePlan plugins route frontend block = .ok plan) : plan = blockPlan plugins block := by
  obtain ⟨h2, hh2, h⟩ := bind_eq_ok.mp h
  obtain ⟨h3, hh3, h⟩ := bind_eq_ok.mp h
  obtain ⟨h5, hh5, h⟩ := bind_eq_ok.mp h
  obtain ⟨h7, hh7, h⟩ := bind_eq_ok.mp h
  cases h
  rw [resolveHook_eq hh2, resolveHook_eq hh3, resolveHook_eq hh5, resolveHook_eq hh7]
  rfl

/-- The registry and the router read a frontend's name alike. -/
theorem parseFrontend_of_frontendKind {s : String} {k : FrontendKind}
    (h : frontendKind s = .ok k) : parseFrontend s = some k := by
  unfold frontendKind at h
  split at h <;> cases h <;> rfl

theorem planTables_addRoute {plugins : PluginMap P} {es : List RouteEntry} {e : RouteEntry}
    {plans plans' : PlanMap P} (hI : PlanTables plugins es plans)
    (h : addRoute plugins plans e = .ok plans') : PlanTables plugins (es ++ [e]) plans' := by
  obtain ⟨frontend, hfrontend, h⟩ := bind_eq_ok.mp h
  have hf := parseFrontend_of_frontendKind hfrontend
  split at h
  · rename_i hnone
    cases h
    exact planTables_skip hI (by rw [declares, hnone]; rfl)
  · rename_i block hblock
    split at h
    · rename_i hempty
      cases h
      exact planTables_skip hI (by rw [declares, hblock]; simp [hempty])
    · rename_i hne
      obtain ⟨plan, hplan, h⟩ := bind_eq_ok.mp h
      cases h
      have hdeclared : plan = declaredPlan plugins e := by
        rw [routePlan_eq hplan, declaredPlan, hblock]
      rw [hdeclared]
      exact planTables_file hI hf (by rw [declares, hblock]; simp [hne])

/-- **One table.** A built registry finds the plan of the last declaring route of
the model, else of the frontend's last declaring catch-all. -/
theorem lookup_eq {factories : List (PluginFactory P Prov)}
    {specs : List (String × Config.PluginEntry)} {routes : List RouteEntry}
    {providers : OrdMap Prov} {registry : PluginRegistry P}
    (h : PluginRegistry.build factories specs routes providers = .ok registry)
    (k : FrontendKind) (m : String) :
    registry.lookup k m = (filedEntry routes k m).map (declaredPlan registry.plugins) := by
  obtain ⟨factoryMap, -, h⟩ := bind_eq_ok.mp h
  obtain ⟨plugins, -, h⟩ := bind_eq_ok.mp h
  obtain ⟨plans, hplans, h⟩ := bind_eq_ok.mp h
  cases h
  have hI : PlanTables plugins ([] ++ routes) plans :=
    foldlM_history (fun _ _ _ _ hI hstep => planTables_addRoute hI hstep)
      (planTables_empty plugins) hplans
  rw [List.nil_append] at hI
  have hlookup : PluginRegistry.lookup { plugins := plugins, plans := plans } k m =
      ((plans k).bind fun fp => fp.specific.lookup m).or
        ((plans k).bind FrontendRoutePlans.wildcard) := by
    rw [PluginRegistry.lookup]
    dsimp only
    cases hk : plans k with
    | none => rfl
    | some fp =>
      dsimp only
      rw [hI.filled k fp hk]
      cases hspecific : fp.specific.lookup m <;> simp [hspecific]
  rw [hlookup, hI.wildcard, filedEntry]
  by_cases hm : m = "*"
  · subst hm
    rw [hI.star, Option.none_or, Option.or_self]
  · rw [hI.specific k m hm]
    cases lastDeclaring k m routes <;> rfl

end Build

/-! ## Against the router -/

/-- The hook lists of a request are those of the entry it resolved from. -/
def PlanAgrees (registry : PluginRegistry P) (r : StaticRouter) (k : FrontendKind) (m : String) :
    Prop :=
  ∀ route, r.resolveRoute k m = .ok route →
    ∃ e, r.sourceEntry k m = some e ∧ route = routeOf e k m ∧
      planFor registry k m = declaredPlan registry.plugins e

/-- A source entry that declares plugins under the model asked for, or under the
star, is the entry whose plan is found. -/
theorem filedEntry_of_declares {cfg : GatewayConfig} (hv : validate cfg = .ok ())
    {r : StaticRouter} (h : StaticRouter.fromConfig cfg = some r) {k : FrontendKind} {m : String}
    {e : RouteEntry} (he : r.sourceEntry k m = some e) (hdeclares : declares e = true)
    (hmodel : e.model = m ∨ e.model = "*") : filedEntry cfg.routes k m = some e := by
  have hlast : ∀ m', (routesFor k m' cfg.routes).getLast? = some e →
      lastDeclaring k m' cfg.routes = some e := by
    intro m' hm'
    obtain ⟨before, hbefore⟩ := List.getLast?_eq_some_iff.mp hm'
    rw [lastDeclaring, hbefore, List.filter_append, List.filter_singleton, hdeclares]
    simp
  by_cases hroutes : routesFor k m cfg.routes = []
  · have hnone : lastDeclaring k m cfg.routes = none := by rw [lastDeclaring, hroutes]; rfl
    rw [filedEntry, hnone, Option.none_or]
    rw [sourceEntry_of_unnamed h k m hroutes, Option.or_eq_some_iff] at he
    rcases he with hprefix | ⟨-, hstar⟩
    · -- a prefix route is neither named by the request nor a catch-all
      obtain ⟨pr, hpr, rfl⟩ := Option.map_eq_some_iff.mp hprefix
      obtain ⟨hmem, hentry⟩ := mem_prefixes (findPrefix_some h k m hpr).1
      obtain ⟨hf, hne, -⟩ := asPrefix_eq_some hentry
      rcases hmodel with hm | hm
      · have hin := mem_routesFor.mpr ⟨hmem, hf, hm⟩
        rw [hroutes] at hin
        cases hin
      · exact absurd hm hne
    · exact hlast "*" hstar
  · rw [sourceEntry_of_named h k m hv hroutes] at he
    rw [filedEntry, hlast m he]
    rfl

/-- **Plan agreement.** On a validated configuration, a request is run with the
hook lists of the entry it resolved from iff that entry declares plugins and was
not reached by its prefix pattern, or the entry whose plan is found lists the
same enabled plugins. -/
theorem planAgrees_iff [Plugin P] (cfg : GatewayConfig) (hv : validate cfg = .ok ())
    (r : StaticRouter) (h : StaticRouter.fromConfig cfg = some r)
    (factories : List (PluginFactory P Prov)) (providers : OrdMap Prov)
    (registry : PluginRegistry P)
    (hbuild : PluginRegistry.build factories cfg.plugins.entries cfg.routes providers =
      .ok registry) (k : FrontendKind) (m : String) :
    PlanAgrees registry r k m ↔
      ∀ e, r.sourceEntry k m = some e →
        (declares e = true ∧ (e.model = m ∨ e.model = "*")) ∨
          ((filedEntry cfg.routes k m).map (declaredPlan registry.plugins)).getD emptyPlan =
            declaredPlan registry.plugins e := by
  unfold PlanAgrees planFor
  rw [resolveRoute_eq h, lookup_eq hbuild]
  cases hs : r.sourceEntry k m with
  | none => simp
  | some e =>
    constructor
    · intro hall e' he'
      cases he'
      obtain ⟨e₁, he₁, -, hplan⟩ := hall _ rfl
      cases he₁
      exact Or.inr hplan
    · intro hcond route hroute
      cases hroute
      refine ⟨e, rfl, rfl, ?_⟩
      rcases hcond e rfl with ⟨hdeclares, hmodel⟩ | hplan
      · rw [filedEntry_of_declares hv h hs hdeclares hmodel]
        rfl
      · exact hplan

/-! ## A prefix route with a scrubber -/

/-- One plugin kind, subscribed to the request and the stream. -/
def scrubberFactory : PluginFactory PiiScrubber Unit where
  kindName := "pii_scrubber"
  instantiate := fun _ _ _ => .ok { inbound := [neverRule], outbound := [neverRule] }

def scrubberSpec : Config.PluginEntry where
  kind := "pii_scrubber"
  config := .null
  onError := .fail
  timeoutMs := none
  enabled := true

/-- A route that scrubs its stream with one plugin. -/
def scrubbedRoute (model plugin : String) : RouteEntry :=
  { RouteEntry.singular "anthropic_messages" model "openai" "gpt-4o" with
    plugins := some
      { onDecodedRequest := [], onResolved := [], onStreamEvent := [plugin],
        onResponseComplete := [] } }

/-- A prefix route with a strict scrubber, an exact one without plugins, and a
catch-all with a lenient scrubber. -/
def tieredConfig : GatewayConfig :=
  { plainConfig
      [scrubbedRoute "claude-*" "strict",
        .singular "anthropic_messages" "gpt-4o" "openai" "gpt-4o",
        scrubbedRoute "*" "lenient"] with
    plugins :=
      { entries := [("lenient", scrubberSpec), ("strict", scrubberSpec)], sorted := by decide } }

/-- The prefix route runs the catch-all's scrubber in place of its own, and the
route without plugins runs one it does not declare. -/
theorem tieredConfig_crossed :
    validate tieredConfig = .ok () ∧
      ∃ r registry, StaticRouter.fromConfig tieredConfig = some r ∧
        PluginRegistry.build [scrubberFactory] tieredConfig.plugins.entries tieredConfig.routes
          .empty = .ok registry ∧
        (∃ route, r.resolveRoute .anthropicMessages "claude-opus-4" = .ok route) ∧
        r.sourceEntry .anthropicMessages "claude-opus-4" =
          some (scrubbedRoute "claude-*" "strict") ∧
        (planFor registry .anthropicMessages "claude-opus-4").onStreamEvent.map
          Plugins.PluginEntry.name = ["lenient"] ∧
        (planFor registry .anthropicMessages "gpt-4o").onStreamEvent.map
          Plugins.PluginEntry.name = ["lenient"] ∧
        ¬ PlanAgrees registry r .anthropicMessages "claude-opus-4" ∧
        ¬ PlanAgrees registry r .anthropicMessages "gpt-4o" := by
  refine ⟨rfl, _, _, rfl, rfl, ⟨_, rfl⟩, rfl, rfl, rfl, fun hagree => ?_, fun hagree => ?_⟩
  · obtain ⟨e, he, -, hplan⟩ := hagree _ rfl
    cases he
    have hnames : ["lenient"] = ["strict"] :=
      congrArg (fun plan => plan.onStreamEvent.map Plugins.PluginEntry.name) hplan
    simp at hnames
  · obtain ⟨e, he, -, hplan⟩ := hagree _ rfl
    cases he
    cases congrArg (fun plan => plan.onStreamEvent.map Plugins.PluginEntry.name) hplan

theorem planAgrees_tieredConfig :
    ∃ r registry, StaticRouter.fromConfig tieredConfig = some r ∧
      PluginRegistry.build [scrubberFactory] tieredConfig.plugins.entries tieredConfig.routes
        .empty = .ok registry ∧
      PlanAgrees registry r .anthropicMessages "gemini-pro" := by
  refine ⟨_, _, rfl, rfl, ?_⟩
  apply (planAgrees_iff tieredConfig rfl _ rfl [scrubberFactory] .empty _ rfl
    .anthropicMessages "gemini-pro").mpr
  intro e he
  cases he
  exact Or.inl ⟨rfl, Or.inr rfl⟩

end AgentShim.PluginRoutes
