import AgentShim.Lib.Checks
import AgentShim.Router.CostFilter
import AgentShim.Router.RequestLog
import AgentShim.Router.StaticRoutes

/-
  Admission

  `admit` composes the rate limits, the cost filter, the capability gate and
  the breaker holds into one ticket: it takes a hold on every element of the
  filtered chain whose breaker allows, and refuses the request when none does.
  The ticket releases its holds once, when it is consumed or dropped.

  What is proved:
    1. `gates_eq_ok` — the chain that passes the gates is the filter's, is not
       empty and has a registered provider at every element.
    2. `holdChain_adds`, `holdChain_length` — taking the holds of a chain logs
       one answer per element.
    3. `admitRequest_eq_ok`, `admitRequest_eq_error` — an admitted request has
       a well-formed ticket over the holds in the log; a refused one was
       granted none.
    4. `consume_adds`, `drop_adds` — a ticket's end records all its holds, and
       nothing after that.

  Correspondence (Rust ↔ Lean):
    `AdmissionTicket`, `AdmissionError`, `Admission` ↔ the same names; the
      limiter and the breakers are in the `World`
    `AdmissionTicket::consume`, its drop glue ↔ `AdmissionTicket.consume`, `drop`
    `Admission::admit` ↔ `gates`, then `holdChain` and the ticket in `admitRequest`
    `check_capability` ↔ `checkCapability`
  Rate-limit reservations do nothing and are left out.
-/

namespace AgentShim.RequestAdmission

open AgentShim.CircuitBreaker AgentShim.Config AgentShim.CostFilter AgentShim.RateLimit
  AgentShim.RequestLog AgentShim.StaticRoutes

/-- Proof that a request passed admission, with its breaker holds. A consumed
ticket has none. -/
structure AdmissionTicket where
  filteredChain : List BackendTarget
  resolved : ResolvedRoute
  identity : AgentIdentity
  breakerHolds : List (Option BreakerHold)
  consumed : Bool
  released : consumed = true → breakerHolds = []
  deriving DecidableEq, Repr

inductive AdmissionError
  | rateLimited (dimension : RateLimitDimension) (retryAfterSecs : Nat)
  | noEligibleUpstream (filtered : List Skip)
  | capabilityMismatch (message : String)
  | allBreakersOpen (tried : List String)
  | provider (e : ProviderError)
  deriving DecidableEq, Repr

/-- `BreakerPolicy::from`. -/
def breakerPolicy (c : BreakerConfig) : BreakerPolicy where
  enabled := c.enabled
  failureThresholdPct := c.failureThresholdPct
  minRequests := c.minRequests
  window := fromSecs c.windowSecs
  openCooldown := fromSecs c.openCooldownSecs

/-- What admission shares between requests. -/
structure Admission (Prov L : Type) where
  governor : Governor L
  providers : OrdMap Prov
  vision : Prov → Bool
  recentP95Ms : String → Option Nat

/-- The readings of the clock during one request: after each event of its log,
and at the rate limits. -/
structure Clock where
  now : Nat → Instant
  preChain : RateLimitDimension → Reading
  perUpstream : Nat → Reading

/-- What a request brings to admission. -/
structure AdmitRequest where
  resolved : ResolvedRoute
  routeEntry : RouteEntry
  config : GatewayConfig
  facts : RequestFacts
  identity : AgentIdentity
  clientIp : String

namespace AdmissionTicket

/-- Whether the ticket holds the breaker's permission for an element. -/
def breakerAllowed (t : AdmissionTicket) (chainIndex : Nat) : Bool :=
  (t.breakerHolds[chainIndex]?.bind id).isSome

variable {L : Type}

/-- Commits the outcome of one element; the other holds are dropped. Idempotent. -/
def consume (clock : Nat → Instant) (chainIndex : Nat) (succeeded : Bool) (t : AdmissionTicket)
    (w : World L) : AdmissionTicket × World L :=
  if t.consumed then (t, w)
  else
    ({ t with breakerHolds := [], consumed := true, released := fun _ => rfl },
      release clock (some (chainIndex, succeeded)) 0 t.breakerHolds w)

/-- Dropping the ticket drops the holds it still has. -/
def drop (clock : Nat → Instant) (t : AdmissionTicket) (w : World L) : World L :=
  release clock none 0 t.breakerHolds w

theorem consume_adds (t : AdmissionTicket) (clock : Nat → Instant) (chainIndex : Nat)
    (succeeded : Bool) (w : World L) :
    (t.consume clock chainIndex succeeded w).1.breakerHolds = [] ∧
      Adds w (t.consume clock chainIndex succeeded w).2
        (releaseEvents (some (chainIndex, succeeded)) 0 t.breakerHolds) := by
  unfold consume
  split
  · rename_i hconsumed
    refine ⟨t.released hconsumed, ?_⟩
    rw [t.released hconsumed]
    exact Adds.refl w
  · exact ⟨rfl, release_adds clock _ 0 t.breakerHolds w⟩

theorem drop_adds (t : AdmissionTicket) (clock : Nat → Instant) (w : World L) :
    Adds w (t.drop clock w) (releaseEvents none 0 t.breakerHolds) :=
  release_adds clock none 0 t.breakerHolds w

/-- Dropping a ticket without holds changes nothing. -/
theorem drop_of_no_holds {t : AdmissionTicket} (h : t.breakerHolds = []) (clock : Nat → Instant)
    (w : World L) : t.drop clock w = w := by
  rw [drop, h, release]

end AdmissionTicket

variable {Prov L : Type}

/-! ## The gates before the holds -/

/-- The per-upstream limits of a chain, in order. -/
def checkUpstreams (g : Governor L) (reading : Nat → Reading) :
    Nat → List BackendTarget → LimiterRegistry L →
      LimiterRegistry L × Except LimiterRegistry.Rejection Unit
  | _, [], r => (r, .ok ())
  | i, target :: rest, r =>
    LimiterRegistry.next (r.checkPerUpstream g (reading i) target.provider)
      (checkUpstreams g reading (i + 1) rest)

def checkCapability (adm : Admission Prov L) (facts : RequestFacts) (target : BackendTarget) :
    Except AdmissionError Unit :=
  match adm.providers.get? target.provider with
  | none => .error (.provider (.unknownProvider target.provider))
  | some provider =>
    if facts.hasImage && !adm.vision provider then
      .error (.capabilityMismatch
        "target provider does not support vision (image blocks present in request)")
    else .ok ()

/-- Everything admission asks before the breakers: the chain that remains. -/
def gates (adm : Admission Prov L) (clock : Clock) (a : AdmitRequest) (r : LimiterRegistry L) :
    LimiterRegistry L × Except AdmissionError (List BackendTarget) :=
  match r.checkPreChain adm.governor clock.preChain a.identity a.resolved.routeLabel a.clientIp with
  | (r, .error (dimension, secs)) => (r, .error (.rateLimited dimension secs))
  | (r, .ok ()) =>
    let outcome := filterChain a.routeEntry a.facts a.config adm.recentP95Ms a.resolved.chain
    if outcome.survivors.isEmpty then (r, .error (.noEligibleUpstream outcome.skipped))
    else
      match checkUpstreams adm.governor clock.perUpstream 0 outcome.survivors r with
      | (r, .error (dimension, secs)) => (r, .error (.rateLimited dimension secs))
      | (r, .ok ()) =>
        match Checks.each (checkCapability adm a.facts) outcome.survivors with
        | .error e => (r, .error e)
        | .ok () => (r, .ok outcome.survivors)

theorem checkCapability_eq_ok {adm : Admission Prov L} {facts : RequestFacts}
    {target : BackendTarget} (h : checkCapability adm facts target = .ok ()) :
    ∃ provider, adm.providers.get? target.provider = some provider ∧
      (facts.hasImage = true → adm.vision provider = true) := by
  unfold checkCapability at h
  split at h
  · cases h
  · rename_i provider hprovider
    split at h
    · cases h
    · rename_i hvision
      refine ⟨provider, hprovider, fun himage => ?_⟩
      simpa [himage] using hvision

theorem gates_eq_ok {adm : Admission Prov L} {clock : Clock} {a : AdmitRequest}
    {r r' : LimiterRegistry L} {chain : List BackendTarget}
    (h : gates adm clock a r = (r', .ok chain)) :
    chain = (filterChain a.routeEntry a.facts a.config adm.recentP95Ms a.resolved.chain).survivors ∧
      chain ≠ [] ∧
      ∀ target ∈ chain, ∃ provider, adm.providers.get? target.provider = some provider ∧
        (a.facts.hasImage = true → adm.vision provider = true) := by
  unfold gates at h
  split at h
  · cases h
  · dsimp only at h
    split at h
    · cases h
    · rename_i hne
      split at h
      · cases h
      · split at h
        · cases h
        · rename_i hcap
          cases h
          refine ⟨rfl, fun hnil => hne (by rw [hnil]; rfl), fun target ht => ?_⟩
          exact checkCapability_eq_ok (Checks.each_eq_ok.mp hcap target ht)

/-! ## The holds -/

/-- Asks every breaker of the chain for a hold. -/
def holdChain (clock : Nat → Instant) (policy : BreakerPolicy) :
    Nat → List BackendTarget → World L → List (Option BreakerHold) × World L
  | _, [], w => ([], w)
  | i, target :: rest, w =>
    let head := w.tryHold clock policy i target
    let tail := holdChain clock policy (i + 1) rest head.2
    (head.1 :: tail.1, tail.2)

theorem holdChain_length (clock : Nat → Instant) (policy : BreakerPolicy) (i : Nat)
    (chain : List BackendTarget) (w : World L) :
    (holdChain clock policy i chain w).1.length = chain.length := by
  induction chain generalizing i w with
  | nil => rfl
  | cons target rest ih => exact congrArg (· + 1) (ih (i + 1) _)

theorem holdChain_adds (clock : Nat → Instant) (policy : BreakerPolicy) (i : Nat)
    (chain : List BackendTarget) (w : World L) :
    Adds w (holdChain clock policy i chain w).2
      (holdEvents i (holdChain clock policy i chain w).1) := by
  induction chain generalizing i w with
  | nil => exact Adds.refl w
  | cons target rest ih => exact (adds_tryHold clock policy i target w).trans (ih (i + 1) _)

/-- A hold at a position is on the key of the target there. -/
theorem holdChain_key {clock : Nat → Instant} {policy : BreakerPolicy} {i j : Nat}
    {chain : List BackendTarget} {w : World L} {hold : BreakerHold}
    (h : (holdChain clock policy i chain w).1[j]? = some (some hold)) :
    ∃ target, chain[j]? = some target ∧ hold.key = (target.provider, target.model) := by
  induction chain generalizing i j w with
  | nil => cases h
  | cons target rest ih =>
    cases j with
    | succ j => exact ih h
    | zero =>
      refine ⟨target, rfl, ?_⟩
      have hhead : (w.tryHold clock policy i target).1 = some hold := Option.some.inj h
      rw [World.tryHold] at hhead
      rw [BreakerRegistry.tryHold_some hhead]
      rfl

/-! ## Admission -/

def admitRequest (adm : Admission Prov L) (clock : Clock) (a : AdmitRequest) (w : World L) :
    Except AdmissionError AdmissionTicket × World L :=
  match gates adm clock a w.limiter with
  | (r, .error e) => (.error e, { w with limiter := r })
  | (r, .ok chain) =>
    let held := holdChain clock.now (breakerPolicy a.resolved.breaker) 0 chain
      { w with limiter := r }
    if held.1.any Option.isSome then
      (.ok
        { filteredChain := chain
          resolved := a.resolved
          identity := a.identity
          breakerHolds := held.1
          consumed := false
          released := fun h => Bool.noConfusion h }, held.2)
    else (.error (.allBreakersOpen (chain.map BackendTarget.provider)), held.2)

/-- What admission guarantees of a ticket. -/
structure WellFormed (adm : Admission Prov L) (t : AdmissionTicket) : Prop where
  chain_ne_nil : t.filteredChain ≠ []
  holds_length : t.breakerHolds.length = t.filteredChain.length
  some_hold : ∃ i, t.breakerAllowed i = true
  registered : ∀ target ∈ t.filteredChain, ∃ provider,
    adm.providers.get? target.provider = some provider
  hold_key : ∀ (i : Nat) (hold : BreakerHold), t.breakerHolds[i]? = some (some hold) →
    ∃ target : BackendTarget, t.filteredChain[i]? = some target ∧
      hold.key = (target.provider, target.model)

theorem admitRequest_eq_ok {adm : Admission Prov L} {clock : Clock} {a : AdmitRequest}
    {w w' : World L} {t : AdmissionTicket} (h : admitRequest adm clock a w = (.ok t, w')) :
    WellFormed adm t ∧ t.resolved = a.resolved ∧ Adds w w' (holdEvents 0 t.breakerHolds) := by
  unfold admitRequest at h
  split at h
  · cases h
  · rename_i r chain hgates
    dsimp only at h
    split at h
    · rename_i hany
      obtain ⟨-, hne, hregistered⟩ := gates_eq_ok hgates
      cases h
      refine ⟨⟨hne, holdChain_length .., ?_, ?_, fun i hold hhold => holdChain_key hhold⟩,
        rfl, ?_⟩
      · obtain ⟨hold, hmem, hsome⟩ := List.any_eq_true.mp hany
        obtain ⟨i, hi⟩ := List.mem_iff_getElem?.mp hmem
        refine ⟨i, ?_⟩
        rw [AdmissionTicket.breakerAllowed, hi]
        exact hsome
      · intro target htarget
        obtain ⟨provider, hprovider, -⟩ := hregistered target htarget
        exact ⟨provider, hprovider⟩
      · exact (adds_limiter w r).trans (holdChain_adds ..)
    · cases h

/-- Holds that are all refused. -/
theorem holdEvents_of_none {i : Nat} {holds : List (Option BreakerHold)}
    (h : holds.any Option.isSome = false) : ∀ e ∈ holdEvents i holds, ∃ j, e = .refused j := by
  induction holds generalizing i with
  | nil =>
    intro e he
    cases he
  | cons hold rest ih =>
    rw [List.any_cons, Bool.or_eq_false_iff] at h
    cases hold with
    | some hold => cases h.1
    | none =>
      intro e he
      rcases List.mem_cons.mp he with rfl | he
      · exact ⟨i, rfl⟩
      · exact ih h.2 e he

/-- A refused request was granted no hold. -/
theorem admitRequest_eq_error {adm : Admission Prov L} {clock : Clock} {a : AdmitRequest}
    {w w' : World L} {e : AdmissionError} (h : admitRequest adm clock a w = (.error e, w')) :
    ∃ es, Adds w w' es ∧ ∀ ev ∈ es, ∃ i, ev = .refused i := by
  unfold admitRequest at h
  split at h
  · rename_i r _ _
    cases h
    exact ⟨[], adds_limiter w r, fun ev hev => by cases hev⟩
  · rename_i r chain _
    dsimp only at h
    split at h
    · cases h
    · rename_i hnone
      cases h
      refine ⟨_, (adds_limiter w r).trans (holdChain_adds ..), ?_⟩
      exact holdEvents_of_none (Bool.eq_false_iff.mpr hnone)

/-- The head of a well-formed ticket's chain, with its provider. -/
theorem WellFormed.head {adm : Admission Prov L} {t : AdmissionTicket} (h : WellFormed adm t) :
    ∃ target rest provider, t.filteredChain = target :: rest ∧
      adm.providers.get? target.provider = some provider := by
  cases hchain : t.filteredChain with
  | nil => exact absurd hchain h.chain_ne_nil
  | cons target rest =>
    obtain ⟨provider, hprovider⟩ := h.registered target (by rw [hchain]; exact List.mem_cons_self)
    exact ⟨target, rest, provider, rfl, hprovider⟩

end AgentShim.RequestAdmission
