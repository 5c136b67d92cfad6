import AgentShim.Config.Schema

/-
  The cost filter

  Filters the chain of a route by tier, latency budget and cost cap. The first
  axis that rejects an upstream is the one reported; an upstream without
  configuration survives, for the caller to report.

  What is proved:
    1. `survivors_sublist` — the survivors keep the order of the chain.
    2. `survivors_length_add_skipped` — every target survives or is skipped.
    3. `filterChain_partition` — who survives, which axis a skip names, and that
       weaker bounds keep every survivor.

  Correspondence (Rust ↔ Lean):
    `FilterReason`, `Skip`, `Note`, `FilterOutcome` ↔ the same names
    the loop body of `filter_chain` ↔ `verdict`, one target's
    `filter_chain`                  ↔ `filterChain`
    `estimate_request_cost`         ↔ `RequestFacts.estimateCost`, a double the
                                      token counts and prices give; it is asked
                                      only where the upstream has a cost
-/

namespace AgentShim.CostFilter

open AgentShim.Config

inductive FilterReason
  | tier
  | latency
  | cap
  /-- The probe has no data: noted, never a reason to skip. -/
  | latencyUnknown
  deriving DecidableEq, Repr

def FilterReason.asStr : FilterReason → String
  | tier => "tier"
  | latency => "latency"
  | cap => "cap"
  | latencyUnknown => "latency_unknown"

structure Skip where
  upstream : String
  reason : FilterReason
  deriving DecidableEq, Repr

structure Note where
  upstream : String
  reason : FilterReason
  deriving DecidableEq, Repr

structure FilterOutcome where
  survivors : List BackendTarget
  skipped : List Skip
  notes : List Note
  deriving DecidableEq, Repr

/-- What admission reads of a request: its images and its estimated cost. -/
structure RequestFacts where
  hasImage : Bool
  estimateCost : UpstreamCost → F64

/-- What the filter decides about one target. -/
structure Verdict where
  skip : Option FilterReason
  latencyUnknown : Bool
  deriving DecidableEq, Repr

/-- Axis 3: the estimated cost is above the route's cap. -/
def overCap (route : RouteEntry) (request : RequestFacts) (upstream : UpstreamConfig) : Bool :=
  match route.maxCostUsd, upstream.upstreamCost with
  | some cap, some cost => cap.lt (request.estimateCost cost)
  | _, _ => false

def verdict (route : RouteEntry) (request : RequestFacts) (config : GatewayConfig)
    (recentP95Ms : String → Option Nat) (target : BackendTarget) : Verdict :=
  match config.upstreams.get? target.provider with
  | none => { skip := none, latencyUnknown := false }
  | some upstream =>
    if route.minTier.any fun m => upstream.upstreamTier.rank < m.rank then
      { skip := some .tier, latencyUnknown := false }
    else
      let capped := if overCap route request upstream then some .cap else none
      match upstream.upstreamLatencyBudget with
      | none => { skip := capped, latencyUnknown := false }
      | some budget =>
        match recentP95Ms target.provider with
        | none => { skip := capped, latencyUnknown := true }
        | some measured =>
          if budget < measured then { skip := some .latency, latencyUnknown := false }
          else { skip := capped, latencyUnknown := false }

def filterChain (route : RouteEntry) (request : RequestFacts) (config : GatewayConfig)
    (recentP95Ms : String → Option Nat) : List BackendTarget → FilterOutcome
  | [] => { survivors := [], skipped := [], notes := [] }
  | target :: rest =>
    let v := verdict route request config recentP95Ms target
    let out := filterChain route request config recentP95Ms rest
    let notes :=
      if v.latencyUnknown then
        { upstream := target.provider, reason := .latencyUnknown } :: out.notes
      else out.notes
    match v.skip with
    | some reason =>
      { out with
        skipped := { upstream := target.provider, reason := reason } :: out.skipped
        notes := notes }
    | none => { out with survivors := target :: out.survivors, notes := notes }

variable {route : RouteEntry} {request : RequestFacts} {config : GatewayConfig}
  {recentP95Ms : String → Option Nat}

theorem survivors_sublist (chain : List BackendTarget) :
    (filterChain route request config recentP95Ms chain).survivors.Sublist chain := by
  induction chain with
  | nil => exact List.Sublist.slnil
  | cons target rest ih =>
    rw [filterChain]
    split
    · exact ih.cons target
    · exact ih.cons_cons target

theorem survivors_length_add_skipped (chain : List BackendTarget) :
    (filterChain route request config recentP95Ms chain).survivors.length +
      (filterChain route request config recentP95Ms chain).skipped.length = chain.length := by
  induction chain with
  | nil => rfl
  | cons target rest ih =>
    rw [filterChain]
    split <;> simp only [List.length_cons] <;> omega

/-! The axes as a specification, and what relaxing one of them does. -/

/-- One axis rejects the target: its upstream's tier is below the route's floor, its measured
    latency is above its budget, its estimated cost is above the route's cap. -/
def failsOn (route : RouteEntry) (request : RequestFacts) (config : GatewayConfig)
    (recentP95Ms : String → Option Nat) (target : BackendTarget) : FilterReason → Bool
  | .tier => (config.upstreams.get? target.provider).any fun upstream =>
      route.minTier.any fun m => upstream.upstreamTier.rank < m.rank
  | .latency => (config.upstreams.get? target.provider).any fun upstream =>
      upstream.upstreamLatencyBudget.any fun budget =>
        (recentP95Ms target.provider).any fun measured => budget < measured
  | .cap => (config.upstreams.get? target.provider).any fun upstream =>
      overCap route request upstream
  | .latencyUnknown => false

/-- The axes that can reject, in the order they are asked. -/
def axes : List FilterReason := [.tier, .latency, .cap]

theorem verdict_skip (target : BackendTarget) :
    (verdict route request config recentP95Ms target).skip =
      axes.find? (failsOn route request config recentP95Ms target) := by
  simp only [axes, List.find?_cons, List.find?_nil, failsOn, verdict]
  cases config.upstreams.get? target.provider with
  | none => rfl
  | some upstream =>
    simp only [Option.any_some]
    cases route.minTier.any fun m => upstream.upstreamTier.rank < m.rank with
    | true => rfl
    | false =>
      cases upstream.upstreamLatencyBudget with
      | none => cases overCap route request upstream <;> rfl
      | some budget =>
        cases recentP95Ms target.provider with
        | none => cases overCap route request upstream <;> rfl
        | some measured =>
          by_cases hover : budget < measured
          · simp [hover]
          · cases overCap route request upstream <;> simp [hover]

theorem survivors_eq (chain : List BackendTarget) :
    (filterChain route request config recentP95Ms chain).survivors =
      chain.filter fun t => (verdict route request config recentP95Ms t).skip.isNone := by
  induction chain with
  | nil => rfl
  | cons target rest ih =>
    rw [filterChain, List.filter_cons]
    cases hskip : (verdict route request config recentP95Ms target).skip with
    | some reason => simpa using ih
    | none => simp [ih]

theorem skipped_eq (chain : List BackendTarget) :
    (filterChain route request config recentP95Ms chain).skipped =
      chain.filterMap fun t =>
        (verdict route request config recentP95Ms t).skip.map (Skip.mk t.provider) := by
  induction chain with
  | nil => rfl
  | cons target rest ih =>
    rw [filterChain, List.filterMap_cons]
    cases hskip : (verdict route request config recentP95Ms target).skip with
    | some reason => simp [ih]
    | none => simpa using ih

/-- Without data the latency axis is silent, as with a measured latency of zero. -/
theorem failsOn_unknown (target : BackendTarget) (axis : FilterReason) :
    failsOn route request config (fun name => some ((recentP95Ms name).getD 0)) target axis =
      failsOn route request config recentP95Ms target axis := by
  cases axis with
  | latency =>
    simp only [failsOn]
    cases recentP95Ms target.provider <;> simp
  | tier => rfl
  | cap => rfl
  | latencyUnknown => rfl

/-- An optional bound made weaker: dropped, or moved along `le`, or left as it is. -/
def Weaker {α : Type} (le : α → α → Prop) (old new : Option α) : Prop :=
  new = none ∨ new = old ∨ ∃ a b, old = some a ∧ new = some b ∧ le a b

/-- The second route asks no more than the first: its tier floor is no higher and its cost cap
    no lower. -/
structure RelaxedRoute (old new : RouteEntry) : Prop where
  minTier : Weaker (fun a b => b.rank ≤ a.rank) old.minTier new.minTier
  maxCostUsd : Weaker (fun a b => a.le b = true) old.maxCostUsd new.maxCostUsd

/-- The same upstream with a latency budget that is no smaller. -/
structure RelaxedUpstream (old new : UpstreamConfig) : Prop where
  tier : new.upstreamTier = old.upstreamTier
  cost : new.upstreamCost = old.upstreamCost
  budget : Weaker (· ≤ ·) old.upstreamLatencyBudget new.upstreamLatencyBudget

/-- The same upstream names, each with a latency budget that is no smaller. -/
def RelaxedUpstreams (old new : GatewayConfig) : Prop :=
  ∀ name : String, match old.upstreams.get? name, new.upstreams.get? name with
    | none, none => True
    | some a, some b => RelaxedUpstream a b
    | _, _ => False

theorem Weaker.any_imp {α : Type} {le : α → α → Prop} {old new : Option α} {p : α → Bool}
    (h : Weaker le old new) (hp : ∀ a b, le a b → p b = true → p a = true)
    (hnew : new.any p = true) : old.any p = true := by
  rcases h with rfl | rfl | ⟨a, b, rfl, rfl, hle⟩
  · cases hnew
  · exact hnew
  · exact hp a b hle hnew

theorem overCap_eq (upstream : UpstreamConfig) :
    overCap route request upstream =
      route.maxCostUsd.any fun cap =>
        upstream.upstreamCost.any fun cost => cap.lt (request.estimateCost cost) := by
  rw [overCap]
  cases route.maxCostUsd <;> cases upstream.upstreamCost <;> rfl

variable {route' : RouteEntry} {config' : GatewayConfig}

/-- An axis that rejects under the relaxed bounds rejects under the strict ones. -/
theorem failsOn_of_relaxed (hroute : RelaxedRoute route route')
    (hconfig : RelaxedUpstreams config config') {target : BackendTarget} {axis : FilterReason}
    (h : failsOn route' request config' recentP95Ms target axis = true) :
    failsOn route request config recentP95Ms target axis = true := by
  have hname := hconfig target.provider
  cases hold : config.upstreams.get? target.provider with
  | none =>
    cases hnew : config'.upstreams.get? target.provider with
    | none => cases axis <;> simp [failsOn, hnew] at h
    | some new => simp [hold, hnew] at hname
  | some old =>
    cases hnew : config'.upstreams.get? target.provider with
    | none => simp [hold, hnew] at hname
    | some new =>
      simp only [hold, hnew] at hname
      cases axis with
      | tier =>
        simp only [failsOn, hold, hnew, Option.any_some, hname.tier] at h ⊢
        apply hroute.minTier.any_imp _ h
        intro a b hle hb
        simp only [decide_eq_true_eq] at hb ⊢
        omega
      | latency =>
        simp only [failsOn, hold, hnew, Option.any_some] at h ⊢
        apply hname.budget.any_imp _ h
        intro a b hle hb
        cases hmeasured : recentP95Ms target.provider with
        | none => simp [hmeasured] at hb
        | some measured =>
          simp only [hmeasured, Option.any_some, decide_eq_true_eq] at hb ⊢
          omega
      | cap =>
        simp only [failsOn, hold, hnew, Option.any_some, overCap_eq, hname.cost] at h ⊢
        apply hroute.maxCostUsd.any_imp _ h
        intro a b hle hb
        cases hcost : old.upstreamCost with
        | none => simp [hcost] at hb
        | some cost =>
          simp only [hcost, Option.any_some] at hb ⊢
          exact F64.lt_of_le_of_lt hle hb
      | latencyUnknown => cases h

theorem verdict_skip_of_relaxed (hroute : RelaxedRoute route route')
    (hconfig : RelaxedUpstreams config config') {target : BackendTarget}
    (h : (verdict route request config recentP95Ms target).skip = none) :
    (verdict route' request config' recentP95Ms target).skip = none := by
  rw [verdict_skip, List.find?_eq_none] at h ⊢
  intro axis hmem hfails
  exact h axis hmem (failsOn_of_relaxed hroute hconfig hfails)

theorem survivors_sublist_of_relaxed (hroute : RelaxedRoute route route')
    (hconfig : RelaxedUpstreams config config') (chain : List BackendTarget) :
    (filterChain route request config recentP95Ms chain).survivors.Sublist
      (filterChain route' request config' recentP95Ms chain).survivors := by
  rw [survivors_eq, survivors_eq]
  apply List.monotone_filter_right
  intro target h
  rw [Option.isNone_iff_eq_none] at h ⊢
  exact verdict_skip_of_relaxed hroute hconfig h

/-- **The filter partitions the chain.** The survivors are the targets no axis rejects, in the
    order of the chain; every other target is skipped under its first failing axis. A latency
    that is not known counts as none at all, and weaker bounds keep every survivor. -/
theorem filterChain_partition (route : RouteEntry) (request : RequestFacts)
    (config : GatewayConfig) (recentP95Ms : String → Option Nat) (chain : List BackendTarget) :
    let out := filterChain route request config recentP95Ms chain
    let fails := failsOn route request config recentP95Ms
    let known := fun name => some ((recentP95Ms name).getD 0)
    out.survivors.Sublist chain ∧
    out.survivors = chain.filter (fun t => axes.all fun axis => !fails t axis) ∧
    out.skipped = chain.filterMap (fun t => (axes.find? (fails t)).map (Skip.mk t.provider)) ∧
    out.survivors = (filterChain route request config known chain).survivors ∧
    out.skipped = (filterChain route request config known chain).skipped ∧
    ∀ route' config', RelaxedRoute route route' → RelaxedUpstreams config config' →
      out.survivors.Sublist (filterChain route' request config' recentP95Ms chain).survivors := by
  intro out fails known
  have hverdict : ∀ t, (verdict route request config recentP95Ms t).skip = axes.find? (fails t) :=
    fun t => verdict_skip t
  have hknown : ∀ t, (verdict route request config known t).skip = axes.find? (fails t) := by
    intro t
    rw [verdict_skip]
    exact congrArg (fun f => axes.find? f) (funext (failsOn_unknown t))
  refine ⟨survivors_sublist chain, ?_, ?_, ?_, ?_, ?_⟩
  · simp only [out, survivors_eq, hverdict]
    apply List.filter_congr
    intro t _
    rw [Bool.eq_iff_iff, Option.isNone_iff_eq_none, List.find?_eq_none, List.all_eq_true]
    simp only [Bool.not_eq_true', Bool.not_eq_true]
  · simp only [out, skipped_eq, hverdict]
  · simp only [out, survivors_eq, hverdict, hknown]
  · simp only [out, skipped_eq, hverdict, hknown]
  · intro route' config' hroute hconfig
    exact survivors_sublist_of_relaxed hroute hconfig chain

theorem RelaxedUpstreams.refl (config : GatewayConfig) : RelaxedUpstreams config config := by
  intro name
  cases config.upstreams.get? name with
  | none => trivial
  | some upstream => exact ⟨rfl, rfl, Or.inr (Or.inl rfl)⟩

/-- One upstream whose requests cost something, and a route with a cap of one dollar. -/
def pricedConfig : GatewayConfig where
  server := { bind := "127.0.0.1", port := 8787, keepaliveSecs := 15 }
  upstreams :=
    { entries := [("openai", .openAiCompatible
        { baseUrl := "https://api.openai.com/v1", apiKey := "sk-1", requestTimeoutSecs := 30,
          tier := .standard, p95LatencyBudgetMs := none,
          cost := some { inputPerMillionUsd := .finite 5, outputPerMillionUsd := .finite 15 } })]
      sorted := List.pairwise_singleton _ _ }
  routes := [{ RouteEntry.singular "openai_chat" "gpt-4o" "openai" "gpt-4o" with
    maxCostUsd := some (.finite 1) }]
  plugins := .empty
  auth := { enabled := false, required := false, keys := .empty }
  rateLimit :=
    { enabled := false
      perKey := { default := none, anonymous := none, overrides := .empty }
      perRoute := .empty
      perUpstream := .empty
      perIp := { enabled := false, ratePerSec := 5, burst := 20 } }
  admin := none
  otel := none
  shutdown := { pluginFlushSecs := 5 }

/-- The two-dollar request is skipped, and survives a cap of three. -/
theorem filterChain_partition_capRaised :
    let target : BackendTarget :=
      { provider := "openai"
        model := "gpt-4o"
        policy :=
          { defaultReasoningEffort := none
            defaultAnthropicBeta := none
            reasoningMapping := [] } }
    let capped (cap : Rat) : RouteEntry :=
      { RouteEntry.singular "openai_chat" "gpt-4o" "openai" "gpt-4o" with
        maxCostUsd := some (.finite cap) }
    let request : RequestFacts := { hasImage := false, estimateCost := fun _ => .finite 2 }
    let out (cap : Rat) := filterChain (capped cap) request pricedConfig (fun _ => none) [target]
    (out 1).skipped = [{ upstream := "openai", reason := .cap }] ∧
      (out 1).survivors.Sublist (out 3).survivors ∧ (out 3).survivors = [target] := by
  intro target capped request out
  have hparts := filterChain_partition (capped 1) request pricedConfig (fun _ => none) [target]
  refine ⟨hparts.2.2.1, hparts.2.2.2.2.2 (capped 3) pricedConfig ?_ (.refl _), rfl⟩
  exact ⟨Or.inr (Or.inl rfl), Or.inr (Or.inr ⟨_, _, rfl, rfl, by decide⟩)⟩

end AgentShim.CostFilter
