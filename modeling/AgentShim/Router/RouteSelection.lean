import AgentShim.Gateway.RouteEntries

/-
  Which route a request takes

  A route list read as a table: an exact route names one model, a prefix route
  (`claude-*`) every model that starts with its literal, a catch-all (`*`) every
  model of its frontend. Later routes replace earlier ones of the same key.

  What is proved:
    1. `Selects.unique` — the rule names at most one route.
    2. `sourceEntry_eq_some_iff` — the router's source entry is the route the
       rule names.
    3. `resolveRoute_selects` — a request is resolved from that route alone, its
       chain and both its policies, or refused where there is none.
    4. `resolveRoute_targets` — the upstreams and models of the chain, as that
       route configures them.
-/

namespace AgentShim.StaticRoutes

open AgentShim.Config Precedence

/-! The three kinds of route, and the rule. -/

def IsExact (k : FrontendKind) (m : String) (e : RouteEntry) : Prop :=
  parseFrontend e.frontend = some k ∧ e.model = m ∧ Text.endsWithChar e.model '*' = false

/-- The pattern is the literal with a star after it. -/
def IsPrefix (k : FrontendKind) (literal : String) (e : RouteEntry) : Prop :=
  parseFrontend e.frontend = some k ∧ e.model ≠ "*" ∧
    Text.stripSuffixChar e.model '*' = some literal

def IsCatchAll (k : FrontendKind) (e : RouteEntry) : Prop :=
  parseFrontend e.frontend = some k ∧ e.model = "*"

/-- A prefix route of the frontend, with a literal the model starts with. -/
def Matches (k : FrontendKind) (m literal : String) (e : RouteEntry) : Prop :=
  IsPrefix k literal e ∧ Text.startsWith m literal = true

/-- The route of the list that answers the model: the last exact route, else the last route of
    the longest matching literal, else the last catch-all. -/
inductive Selects (routes : List RouteEntry) (k : FrontendKind) (m : String) : RouteEntry → Prop
  | exact {e : RouteEntry} (last : LastOf (IsExact k m) routes e) : Selects routes k m e
  | byPrefix {e : RouteEntry} {literal : String} (noExact : ∀ e' ∈ routes, ¬ IsExact k m e')
      (last : LastOf (IsPrefix k literal) routes e) (starts : Text.startsWith m literal = true)
      (longest : ∀ e' ∈ routes, ∀ literal', Matches k m literal' e' →
        Text.len literal' ≤ Text.len literal) : Selects routes k m e
  | catchAll {e : RouteEntry} (noExact : ∀ e' ∈ routes, ¬ IsExact k m e')
      (noPrefix : ∀ e' ∈ routes, ∀ literal, ¬ Matches k m literal e')
      (last : LastOf (IsCatchAll k) routes e) : Selects routes k m e

/-- Two beginnings of one string of one length are the same. -/
theorem literal_unique {m a b : String} (ha : Text.startsWith m a = true)
    (hb : Text.startsWith m b = true) (h : Text.len a = Text.len b) : a = b := by
  have hab := Text.startsWith_iff.mp (Text.startsWith_of_len_le ha hb (Nat.le_of_eq h))
  have hba := Text.startsWith_iff.mp (Text.startsWith_of_len_le hb ha (Nat.le_of_eq h.symm))
  apply String.ext
  exact hab.eq_of_length (Nat.le_antisymm hab.length_le hba.length_le)

theorem Selects.unique {routes : List RouteEntry} {k : FrontendKind} {m : String}
    {e e' : RouteEntry} (h : Selects routes k m e) (h' : Selects routes k m e') : e = e' := by
  cases h with
  | exact last =>
    cases h' with
    | exact last' => exact last.unique last'
    | byPrefix noExact' => exact absurd last.mem.2 (noExact' e last.mem.1)
    | catchAll noExact' => exact absurd last.mem.2 (noExact' e last.mem.1)
  | byPrefix noExact last starts longest =>
    cases h' with
    | exact last' => exact absurd last'.mem.2 (noExact e' last'.mem.1)
    | byPrefix _ last' starts' longest' =>
      have hle := longest e' last'.mem.1 _ ⟨last'.mem.2, starts'⟩
      have hge := longest' e last.mem.1 _ ⟨last.mem.2, starts⟩
      obtain rfl := literal_unique starts starts' (Nat.le_antisymm hge hle)
      exact last.unique last'
    | catchAll _ noPrefix' => exact absurd ⟨last.mem.2, starts⟩ (noPrefix' e last.mem.1 _)
  | catchAll noExact noPrefix last =>
    cases h' with
    | exact last' => exact absurd last'.mem.2 (noExact e' last'.mem.1)
    | byPrefix _ last' starts' => exact absurd ⟨last'.mem.2, starts'⟩ (noPrefix e' last'.mem.1 _)
    | catchAll _ _ last' => exact last.unique last'

/-! The three tables hold the last route of each kind. -/

/-- The last route of one model pattern, as the tables find it. -/
theorem lastOf_iff_routesFor {p : RouteEntry → Prop} {routes : List RouteEntry} {k : FrontendKind}
    {m : String} (hp : ∀ e, p e ↔ parseFrontend e.frontend = some k ∧ e.model = m)
    {e : RouteEntry} : LastOf p routes e ↔ (routesFor k m routes).getLast? = some e := by
  classical
  rw [lastOf_iff]
  have hsame : routes.filter (fun e => decide (p e)) = routesFor k m routes := by
    apply List.filter_congr
    intro e _
    rw [Bool.eq_iff_iff]
    simp [hp]
  rw [hsame]

theorem isExact_iff {k : FrontendKind} {m : String} (hm : Text.endsWithChar m '*' = false)
    (e : RouteEntry) : IsExact k m e ↔ parseFrontend e.frontend = some k ∧ e.model = m := by
  constructor
  · intro h
    exact ⟨h.1, h.2.1⟩
  · intro h
    exact ⟨h.1, h.2, by rw [h.2]; exact hm⟩

theorem isPrefix_iff {k : FrontendKind} {m literal : String} (hne : m ≠ "*")
    (hm : Text.stripSuffixChar m '*' = some literal) (e : RouteEntry) :
    IsPrefix k literal e ↔ parseFrontend e.frontend = some k ∧ e.model = m := by
  constructor
  · intro h
    refine ⟨h.1, String.ext ?_⟩
    rw [Text.stripSuffixChar_eq_some.mp h.2.2, Text.stripSuffixChar_eq_some.mp hm]
  · intro h
    obtain ⟨hf, rfl⟩ := h
    exact ⟨hf, hne, hm⟩

theorem isPrefix_of_asPrefix {k : FrontendKind} {e : RouteEntry} {pr : PrefixRoute}
    (h : asPrefix k e = some pr) : IsPrefix k pr.literal e := by
  obtain ⟨hf, hne, hlit, -⟩ := asPrefix_eq_some h
  exact ⟨hf, hne, hlit⟩

section

variable {cfg : GatewayConfig} {r : StaticRouter} (h : StaticRouter.fromConfig cfg = some r)
  (k : FrontendKind) (m : String)

include h

theorem exists_asPrefix {e : RouteEntry} (he : e ∈ cfg.routes) {literal : String}
    (hp : IsPrefix k literal e) : ∃ pr, asPrefix k e = some pr ∧ pr.literal = literal := by
  obtain ⟨hf, hne, hlit⟩ := hp
  obtain ⟨ts, hts⟩ := targets_isSome h he (by rw [hf]; rfl)
  have hpr : asPrefix k e = some
      { literal := literal
        chain := ts
        upstreamModelPassthrough := e.upstreams.isEmpty && e.upstreamModel == some "*"
        entry := e } := by
    rw [asPrefix, if_pos ⟨hf, hne⟩, hlit, Option.bind_some, hts, Option.map_some]
  exact ⟨_, hpr, rfl⟩

theorem exactEntries_lookup_some {e : RouteEntry}
    (he : r.exactEntries.lookup { frontend := k, model := m } = some e) :
    LastOf (IsExact k m) cfg.routes e := by
  rw [exactEntries_eq h] at he
  cases hm : Text.endsWithChar m '*' with
  | true =>
    rw [hm] at he
    cases he
  | false =>
    rw [hm] at he
    exact (lastOf_iff_routesFor (isExact_iff hm)).mpr he

theorem exactEntries_lookup_none
    (hnone : r.exactEntries.lookup { frontend := k, model := m } = none) :
    ∀ e ∈ cfg.routes, ¬ IsExact k m e := by
  intro e he hexact
  have hm : Text.endsWithChar m '*' = false := hexact.2.1 ▸ hexact.2.2
  rw [exactEntries_eq h, hm] at hnone
  obtain ⟨last, hlast⟩ := exists_lastOf he hexact
  have hsome := (lastOf_iff_routesFor (isExact_iff hm)).mp hlast
  simp only [Bool.false_eq_true, if_false, hsome] at hnone
  cases hnone

/-- The prefix route found is the last of its literal, the longest that matches. -/
theorem findPrefix_selects {pr : PrefixRoute} (hp : r.findPrefix k m = some pr) :
    LastOf (IsPrefix k pr.literal) cfg.routes pr.entry ∧
      Text.startsWith m pr.literal = true ∧
      ∀ e ∈ cfg.routes, ∀ literal, Matches k m literal e →
        Text.len literal ≤ Text.len pr.literal := by
  obtain ⟨hmem, hstarts, hlongest⟩ := findPrefix_some h k m hp
  obtain ⟨hne, hlit⟩ := (isPrefix_of_asPrefix (mem_prefixes hmem).2).2
  refine ⟨?_, hstarts, ?_⟩
  · apply (lastOf_iff_routesFor (isPrefix_iff hne hlit)).mpr
    have hlast := mem_keepLast_iff.mp hmem
    rw [← prefixes_of_literal (fun _ => targets_isSome h) hlit hne, List.getLast?_map, hlast,
      Option.map_some]
  · intro e he literal hmatch
    obtain ⟨pr', hpr', rfl⟩ := exists_asPrefix h k he hmatch.1
    exact hlongest e he pr' hpr' hmatch.2

theorem findPrefix_none_matches (hp : r.findPrefix k m = none) :
    ∀ e ∈ cfg.routes, ∀ literal, ¬ Matches k m literal e := by
  intro e he literal hmatch
  obtain ⟨pr, hpr, rfl⟩ := exists_asPrefix h k he hmatch.1
  have hno := findPrefix_none h k m hp he hpr
  rw [hmatch.2] at hno
  cases hno

theorem selects_of_sourceEntry {e : RouteEntry} (he : r.sourceEntry k m = some e) :
    Selects cfg.routes k m e := by
  rw [StaticRouter.sourceEntry] at he
  cases hx : r.exactEntries.lookup { frontend := k, model := m } with
  | some e' =>
    rw [hx] at he
    obtain rfl := Option.some.inj he
    exact .exact (exactEntries_lookup_some h k m hx)
  | none =>
    have hno := exactEntries_lookup_none h k m hx
    cases hp : r.findPrefix k m with
    | some pr =>
      rw [hx, hp] at he
      obtain rfl := Option.some.inj he
      obtain ⟨hlast, hstarts, hlongest⟩ := findPrefix_selects h k m hp
      exact .byPrefix hno hlast hstarts hlongest
    | none =>
      rw [hx, hp] at he
      have hwild : (routesFor k "*" cfg.routes).getLast? = some e := by
        rw [← wildcardEntries_eq h]
        exact he
      refine .catchAll hno (findPrefix_none_matches h k m hp) ?_
      exact (lastOf_iff_routesFor fun _ => Iff.rfl).mpr hwild

theorem not_selects_of_sourceEntry (hnone : r.sourceEntry k m = none) (e : RouteEntry) :
    ¬ Selects cfg.routes k m e := by
  rw [StaticRouter.sourceEntry, Option.or_eq_none_iff, Option.or_eq_none_iff,
    Option.map_eq_none_iff, wildcardEntries_eq h] at hnone
  obtain ⟨⟨hx, hp⟩, hw⟩ := hnone
  intro hsel
  cases hsel with
  | exact last => exact exactEntries_lookup_none h k m hx e last.mem.1 last.mem.2
  | byPrefix _ last starts =>
    exact findPrefix_none_matches h k m hp e last.mem.1 _ ⟨last.mem.2, starts⟩
  | catchAll _ _ last =>
    have hsome : (routesFor k "*" cfg.routes).getLast? = some e :=
      (lastOf_iff_routesFor fun _ => Iff.rfl).mp last
    rw [hw] at hsome
    cases hsome

theorem sourceEntry_eq_some_iff {e : RouteEntry} :
    r.sourceEntry k m = some e ↔ Selects cfg.routes k m e := by
  constructor
  · exact selects_of_sourceEntry h k m
  · intro hsel
    cases hs : r.sourceEntry k m with
    | none => exact absurd hsel (not_selects_of_sourceEntry h k m hs e)
    | some e' => rw [(selects_of_sourceEntry h k m hs).unique hsel]

theorem resolveRoute_of_selects {e : RouteEntry} (hsel : Selects cfg.routes k m e) :
    r.resolveRoute k m = .ok (routeOf e k m) := by
  rw [resolveRoute_eq h, (sourceEntry_eq_some_iff h k m).mpr hsel]

end

/-- **Route selection.** A request is resolved from the one route the rule names: the chain and
    both policies are that route's. Where the rule names none there is no route. -/
theorem resolveRoute_selects (cfg : GatewayConfig) (hvalid : validate cfg = .ok ()) :
    ∃ r, StaticRouter.fromConfig cfg = some r ∧ ∀ k m,
      (∀ e, Selects cfg.routes k m e → ∃ resolved, r.resolveRoute k m = .ok resolved ∧
        resolved.chain = chainOf e ((routeTargets e).getD []) m ∧
        resolved.retry = e.retry ∧ resolved.breaker = e.breaker) ∧
      ((∀ e, ¬ Selects cfg.routes k m e) → r.resolveRoute k m = .error (.noRoute k m)) ∧
      ∀ e e', Selects cfg.routes k m e → Selects cfg.routes k m e' → e = e' := by
  obtain ⟨r, hr⟩ := fromConfig_isSome hvalid
  refine ⟨r, hr, fun k m => ⟨?_, ?_, ?_⟩⟩
  · intro e hsel
    exact ⟨_, resolveRoute_of_selects hr k m hsel, rfl, rfl, rfl⟩
  · intro hno
    have hnone : r.sourceEntry k m = none := by
      apply Option.eq_none_iff_forall_ne_some.mpr
      intro e he
      exact hno e (selects_of_sourceEntry hr k m he)
    rw [resolveRoute_eq hr, hnone]
  · intro e e' hsel hsel'
    exact hsel.unique hsel'

/-! The targets of the chain. -/

/-- The upstreams a route lists, in either form. -/
def listedUpstreams (e : RouteEntry) : List UpstreamRef :=
  if !e.upstreams.isEmpty then e.upstreams
  else
    match e.upstream, e.upstreamModel with
    | some name, some model => [{ name := name, model := model }]
    | _, _ => []

/-- The forms of route whose `*` as an upstream model stands for the inbound model. -/
def passesThrough (e : RouteEntry) : Bool :=
  e.model == "*" || (Text.endsWithChar e.model '*' && e.upstreams.isEmpty)

/-- The model a target is sent: the configured one, or the inbound one. -/
def sentModel (e : RouteEntry) (model configured : String) : String :=
  if passesThrough e && configured == "*" then model else configured

theorem routeTargets_eq_listed {e : RouteEntry} {ts : List BackendTarget}
    (h : routeTargets e = some ts) :
    ts = (listedUpstreams e).map fun u =>
      { provider := u.name, model := u.model, policy := routePolicy e } := by
  unfold routeTargets at h
  unfold listedUpstreams
  split at h
  · rename_i harray
    rw [if_pos harray]
    exact (Option.some.inj h).symm
  · rename_i hsingular
    rw [if_neg hsingular]
    obtain ⟨provider, hprovider, h⟩ := Option.bind_eq_some_iff.mp h
    obtain ⟨model, hmodel, rfl⟩ := Option.map_eq_some_iff.mp h
    rw [hprovider, hmodel]
    rfl

/-- What a route sends where, one target of it or all of them. -/
theorem chainOf_eq_listed {e : RouteEntry} {ts : List BackendTarget}
    (h : routeTargets e = some ts) (model : String) :
    chainOf e ts model =
      (if e.model = "*" then (listedUpstreams e).take 1 else listedUpstreams e).map fun u =>
        { provider := u.name, model := sentModel e model u.model, policy := routePolicy e } := by
  obtain rfl := routeTargets_eq_listed h
  unfold chainOf
  by_cases hall : e.model = "*"
  · -- the catch-all
    simp only [hall, beq_self_eq_true, if_true, ← List.map_take, List.map_map]
    apply List.map_congr_left
    intro u _
    simp [sentModel, passesThrough, hall]
  · rw [if_neg hall, if_neg (by simpa using hall)]
    by_cases hpass : (Text.endsWithChar e.model '*' && e.upstreams.isEmpty &&
        e.upstreamModel == some "*") = true
    · -- a prefix route in the singular form: its one target takes the inbound model
      rw [if_pos hpass]
      simp only [Bool.and_eq_true, beq_iff_eq] at hpass
      obtain ⟨⟨hend, hform⟩, hstar⟩ := hpass
      cases hup : e.upstream with
      | none => simp [listedUpstreams, hform, hup, setHeadModel]
      | some provider =>
        simp [listedUpstreams, hform, hup, hstar, setHeadModel, sentModel, passesThrough, hend]
    · rw [if_neg hpass]
      apply List.map_congr_left
      intro u hu
      have hsent : sentModel e model u.model = u.model := by
        unfold sentModel
        apply if_neg
        intro hboth
        simp only [passesThrough, hall, beq_iff_eq, Bool.or_eq_true, Bool.and_eq_true,
          false_or] at hboth
        obtain ⟨⟨hend, hform⟩, hstar⟩ := hboth
        -- the one upstream of the singular form is the one with the star
        have hmodel : e.upstreamModel = some "*" := by
          unfold listedUpstreams at hu
          rw [hform] at hu
          split at hu
          · rename_i habs
            cases habs
          · split at hu
            · rename_i name configured hname hconfigured
              obtain rfl := List.mem_singleton.mp hu
              rw [hconfigured, ← hstar]
            · cases hu
        apply hpass
        simp [hend, hform, hmodel]
      rw [hsent]

theorem sentModel_ne_star {e : RouteEntry} (hpass : passesThrough e = true) {m configured : String}
    (h : sentModel e m configured = "*") : m = "*" := by
  unfold sentModel at h
  rw [hpass, Bool.true_and] at h
  split at h
  · exact h
  · rename_i hne
    exact absurd h (by simpa using hne)

/-- **The chain of a route.** An exact or a prefix route gives every upstream it lists, in
    order, and a catch-all its first one. Each target is sent the configured model, where a
    catch-all and a prefix route in the singular form put the inbound model for `*`. -/
theorem resolveRoute_targets (cfg : GatewayConfig) (hvalid : validate cfg = .ok ()) :
    ∃ r, StaticRouter.fromConfig cfg = some r ∧
      ∀ k m e, Selects cfg.routes k m e → ∃ resolved, r.resolveRoute k m = .ok resolved ∧
        (let listed := if e.model = "*" then (listedUpstreams e).take 1 else listedUpstreams e
         resolved.chain.map BackendTarget.provider = listed.map UpstreamRef.name ∧
         resolved.chain.map BackendTarget.model = listed.map fun u => sentModel e m u.model) ∧
        (passesThrough e = true → ∀ t ∈ resolved.chain, t.model = "*" → m = "*") := by
  obtain ⟨r, hr⟩ := fromConfig_isSome hvalid
  refine ⟨r, hr, fun k m e hsel => ?_⟩
  have he : e ∈ cfg.routes :=
    mem_of_sourceEntry hvalid hr ((sourceEntry_eq_some_iff hr k m).mpr hsel)
  obtain ⟨t, ts, hts⟩ := routeTargets_of_oneForm (wellFormedRoute_of_validate hvalid he).form
  refine ⟨_, resolveRoute_of_selects hr k m hsel, ?_⟩
  have hchain : (routeOf e k m).chain = chainOf e (t :: ts) m := by
    rw [routeOf, hts]
    rfl
  rw [hchain, chainOf_eq_listed hts m]
  refine ⟨⟨?_, ?_⟩, ?_⟩
  · simp
  · simp
  · intro hpass target htarget hstar
    obtain ⟨u, _, rfl⟩ := List.mem_map.mp htarget
    exact sentModel_ne_star hpass hstar

/-- A catch-all with a fallback, an exact route and a prefix route with `*` as the upstream
    model. -/
def starredConfig : GatewayConfig :=
  { RouteEntries.plainConfig
      [{ RouteEntry.singular "openai_responses" "*" "" "" with
          upstream := none
          upstreamModel := none
          upstreams :=
            [{ name := "openai", model := "gpt-4o" }, { name := "backup", model := "gpt-4o" }] },
        .singular "openai_chat" "fast" "openai" "*",
        .singular "anthropic_messages" "claude-*" "openai" "*"] with
    upstreams :=
      { entries := [("backup", .githubCopilot
            { tier := .standard, cost := none, p95LatencyBudgetMs := none }),
          ("openai", .githubCopilot
            { tier := .standard, cost := none, p95LatencyBudgetMs := none })]
        sorted := by decide } }

theorem claude_selected :
    Selects starredConfig.routes .anthropicMessages "claude-opus-4"
      (.singular "anthropic_messages" "claude-*" "openai" "*") :=
  selects_of_sourceEntry (rfl : StaticRouter.fromConfig starredConfig = some _) _ _ rfl

theorem resolveRoute_selects_claude :
    ∃ r, StaticRouter.fromConfig starredConfig = some r ∧
      ∃ resolved, r.resolveRoute .anthropicMessages "claude-opus-4" = .ok resolved ∧
        resolved.retry = .default := by
  obtain ⟨r, hr, h⟩ := resolveRoute_selects starredConfig rfl
  obtain ⟨resolved, hresolved, _, hretry, _⟩ :=
    (h .anthropicMessages "claude-opus-4").1 _ claude_selected
  exact ⟨r, hr, resolved, hresolved, hretry⟩

theorem resolveRoute_targets_claude :
    ∃ r, StaticRouter.fromConfig starredConfig = some r ∧
      ∃ resolved, r.resolveRoute .anthropicMessages "claude-opus-4" = .ok resolved ∧
        resolved.chain.map BackendTarget.provider = ["openai"] ∧
        resolved.chain.map BackendTarget.model = ["claude-opus-4"] := by
  obtain ⟨r, hr, h⟩ := resolveRoute_targets starredConfig rfl
  obtain ⟨resolved, hresolved, ⟨hproviders, hmodels⟩, _⟩ := h _ _ _ claude_selected
  exact ⟨r, hr, resolved, hresolved, hproviders, hmodels⟩

/-- The catch-all loses its fallback, and the exact route sends the star as a model name. -/
theorem catchAll_loses_fallback :
    validate starredConfig = .ok () ∧
    ∃ r, StaticRouter.fromConfig starredConfig = some r ∧
      (∃ e resolved, Selects starredConfig.routes .openAiResponses "gpt-5" e ∧
        (listedUpstreams e).map UpstreamRef.name = ["openai", "backup"] ∧
        r.resolveRoute .openAiResponses "gpt-5" = .ok resolved ∧
        resolved.chain.map BackendTarget.provider = ["openai"]) ∧
      ∃ resolved, r.resolveRoute .openAiChat "fast" = .ok resolved ∧
        resolved.chain.map BackendTarget.model = ["*"] := by
  have hr : StaticRouter.fromConfig starredConfig = some _ := rfl
  refine ⟨rfl, _, hr, ⟨_, _, selects_of_sourceEntry hr _ _ rfl, rfl, rfl, rfl⟩, _, rfl, rfl⟩

end AgentShim.StaticRoutes
