import AgentShim.Gateway.Dispatch

/-
  Which upstreams an admission charges

  Admission asks the per-upstream bucket of every element of the filtered chain
  before it asks any breaker. The tokens it takes are read off the buckets: an
  element is charged when its check leaves its bucket with one more token spent.
  An element whose breaker refuses is charged like the others, whenever the
  rate limits reach it.

  What is proved:
    1. `spentOn_checkPerUpstream`, `spentOn_checkPreChain` — what one check
       spends, and of which bucket.
    2. `spentOn_checkUpstreams`, `mem_charged` — the charged elements account
       for everything the chain spends; they are the limited ones the rate
       limits admit.
    3. `admitRequest_charges_iff` — admission charges allowed elements only iff
       every limited element whose breaker refuses is refused or not reached by
       the rate limits.

  The bucket is any `governor` whose check takes one token iff it allows; the
  tokens it has given out are a ghost count over its state.
-/

namespace AgentShim.RequestAdmission

open AgentShim.CircuitBreaker AgentShim.Config AgentShim.CostFilter AgentShim.RateLimit
  AgentShim.RequestLog

variable {Prov L : Type}

/-- A token bucket: a check takes one token iff it allows. `spent` counts the
tokens a bucket has given out. -/
structure TokenBucket (g : Governor L) (spent : L → Nat) : Prop where
  direct : ∀ quota now, spent (g.direct quota now) = 0
  allowed : ∀ l now l', g.check l now = (l', none) → spent l' = spent l + 1
  refused : ∀ l now l' earliest, g.check l now = (l', some earliest) → spent l' = spent l

/-- The tokens the bucket of an upstream has given out. -/
def spentOn (spent : L → Nat) (r : LimiterRegistry L) (upstream : String) : Nat :=
  match r.buckets.lookup (.perUpstream, upstream) with
  | some l => spent l
  | none => 0

/-- The upstream has a bucket policy in force. -/
def limited (r : LimiterRegistry L) (upstream : String) : Bool :=
  r.enabled && (r.perUpstream.get? upstream).isSome

/-- The elements of the chain, with their positions, whose check spends a token of
their upstream. -/
def charged (g : Governor L) (spent : L → Nat) (reading : Nat → Reading) :
    Nat → List BackendTarget → LimiterRegistry L → List (Nat × BackendTarget)
  | _, [], _ => []
  | i, target :: rest, r =>
    let answer := r.checkPerUpstream g (reading i) target.provider
    let here :=
      if spentOn spent r target.provider < spentOn spent answer.1 target.provider then
        [(i, target)]
      else []
    match answer.2 with
    | .error _ => here
    | .ok () => here ++ charged g spent reading (i + 1) rest answer.1

/-! ## One check -/

section Check

variable {g : Governor L} {spent : L → Nat}

theorem spentOn_insert_self (r : LimiterRegistry L) (upstream : String) (l : L) :
    spentOn spent { r with buckets := r.buckets.insert (.perUpstream, upstream) l } upstream =
      spent l := by
  simp [spentOn]

theorem spentOn_insert_of_ne (r : LimiterRegistry L) (key : RateLimitDimension × String) (l : L)
    {upstream : String} (h : key ≠ (.perUpstream, upstream)) :
    spentOn spent { r with buckets := r.buckets.insert key l } upstream =
      spentOn spent r upstream := by
  simp [spentOn, AList.lookup_insert_ne h.symm]

/-- A bucket that is opened now has given out nothing. -/
theorem spent_getOrCreate (hg : TokenBucket g spent) (r : LimiterRegistry L) (upstream : String)
    (cfg : BucketConfig) (now : Instant) :
    spent (r.getOrCreate g .perUpstream upstream cfg now) = spentOn spent r upstream := by
  unfold LimiterRegistry.getOrCreate spentOn
  cases r.buckets.lookup (.perUpstream, upstream) with
  | some l => rfl
  | none => exact hg.direct cfg.quota now

/-- A gate of another bucket spends nothing of this one. -/
theorem spentOn_gate_of_ne (r : LimiterRegistry L) (dim : RateLimitDimension) (key : String)
    (cfg : Option BucketConfig) (t : Reading) {upstream : String}
    (h : (dim, key) ≠ (.perUpstream, upstream)) :
    spentOn spent (r.gate g dim key cfg t).1 upstream = spentOn spent r upstream := by
  cases cfg with
  | none => rfl
  | some cfg =>
    have hbucket : spentOn spent (r.checkBucket g dim key cfg t).1 upstream =
        spentOn spent r upstream := spentOn_insert_of_ne r (dim, key) _ h
    rw [LimiterRegistry.gate]
    split <;> rename_i heq <;> rw [heq] at hbucket <;> exact hbucket

/-- The gate of an upstream spends one token iff there is a policy and it admits. -/
theorem spentOn_gate_self (hg : TokenBucket g spent) (r : LimiterRegistry L) (upstream : String)
    (cfg : Option BucketConfig) (t : Reading) :
    spentOn spent (r.gate g .perUpstream upstream cfg t).1 upstream =
      spentOn spent r upstream +
        if cfg.isSome ∧ (r.gate g .perUpstream upstream cfg t).2 = .ok () then 1 else 0 := by
  cases cfg with
  | none => simp [LimiterRegistry.gate]
  | some cfg =>
    have hopened := spent_getOrCreate hg r upstream cfg t.asked
    rcases hcheck : g.check (r.getOrCreate g .perUpstream upstream cfg t.asked) t.asked with
      ⟨l, answer⟩
    cases answer with
    | none =>
      have hgate : r.gate g .perUpstream upstream (some cfg) t =
          ({ r with buckets := r.buckets.insert (.perUpstream, upstream) l }, .ok ()) := by
        simp only [LimiterRegistry.gate, LimiterRegistry.checkBucket, hcheck]
      rw [hgate, spentOn_insert_self, hg.allowed _ _ _ hcheck, hopened]
      simp
    | some earliest =>
      have hgate : r.gate g .perUpstream upstream (some cfg) t =
          ({ r with buckets := r.buckets.insert (.perUpstream, upstream) l },
            .error (.perUpstream, LimiterRegistry.retryAfterSecs earliest t.answered)) := by
        simp only [LimiterRegistry.gate, LimiterRegistry.checkBucket, hcheck]
      rw [hgate, spentOn_insert_self, hg.refused _ _ _ _ hcheck, hopened]
      simp

/-- The check of an element spends one token of its upstream iff the upstream is
limited and the check admits; it spends nothing else. -/
theorem spentOn_checkPerUpstream (hg : TokenBucket g spent) (r : LimiterRegistry L) (t : Reading)
    (upstream u : String) :
    spentOn spent (r.checkPerUpstream g t upstream).1 u =
      spentOn spent r u +
        if u = upstream ∧ limited r upstream = true ∧ (r.checkPerUpstream g t upstream).2 = .ok ()
        then 1 else 0 := by
  unfold LimiterRegistry.checkPerUpstream limited
  cases r.enabled with
  | false => simp
  | true =>
    simp only [Bool.not_true, Bool.false_eq_true, if_false, Bool.true_and]
    by_cases hu : u = upstream
    · subst hu
      rw [spentOn_gate_self hg]
      simp
    · rw [spentOn_gate_of_ne r _ _ _ _ fun h => hu (Prod.mk.inj h).2.symm]
      simp [hu]

theorem spentOn_next {a : LimiterRegistry L × Except LimiterRegistry.Rejection Unit}
    {rest : LimiterRegistry L → LimiterRegistry L × Except LimiterRegistry.Rejection Unit}
    {upstream : String} {n : Nat} (ha : spentOn spent a.1 upstream = n)
    (hrest : ∀ r, spentOn spent r upstream = n → spentOn spent (rest r).1 upstream = n) :
    spentOn spent (LimiterRegistry.next a rest).1 upstream = n := by
  obtain ⟨r, answer⟩ := a
  cases answer with
  | error e => exact ha
  | ok u => exact hrest r ha

/-- The gates before the chain spend no upstream's token. -/
theorem spentOn_checkPreChain (r : LimiterRegistry L) (clock : RateLimitDimension → Reading)
    (identity : AgentIdentity) (frontendModel clientIp upstream : String) :
    spentOn spent (r.checkPreChain g clock identity frontendModel clientIp).1 upstream =
      spentOn spent r upstream := by
  unfold LimiterRegistry.checkPreChain
  split
  · rfl
  · apply spentOn_next (spentOn_gate_of_ne r _ _ _ _ (by simp))
    intro r₁ h₁
    apply spentOn_next ((spentOn_gate_of_ne r₁ _ _ _ _ (by simp)).trans h₁)
    intro r₂ h₂
    exact (spentOn_gate_of_ne r₂ _ _ _ _ (by simp)).trans h₂

theorem limited_of_policy {r r' : LimiterRegistry L} (h : r'.policy = r.policy)
    (upstream : String) : limited r' upstream = limited r upstream := by
  have henabled : r'.policy.enabled = r.policy.enabled := by rw [h]
  have hpolicies : r'.policy.perUpstream = r.policy.perUpstream := by rw [h]
  show (r'.policy.enabled && (r'.policy.perUpstream.get? upstream).isSome) = _
  rw [henabled, hpolicies]
  rfl

end Check

/-! ## The chain -/

section Chain

variable {g : Governor L} {spent : L → Nat} {reading : Nat → Reading}

/-- The first element is charged iff it is limited and its check admits. -/
theorem charged_cons (hg : TokenBucket g spent) (i : Nat) (target : BackendTarget)
    (rest : List BackendTarget) (r : LimiterRegistry L) :
    charged g spent reading i (target :: rest) r =
      match (r.checkPerUpstream g (reading i) target.provider).2 with
      | .error _ => []
      | .ok () =>
        (if limited r target.provider then [(i, target)] else []) ++
          charged g spent reading (i + 1) rest
            (r.checkPerUpstream g (reading i) target.provider).1 := by
  have hspent := spentOn_checkPerUpstream hg r (reading i) target.provider target.provider
  rw [charged]
  cases hanswer : (r.checkPerUpstream g (reading i) target.provider).2 with
  | error e =>
    rw [hanswer] at hspent
    simp only [reduceCtorEq, and_false, if_false, Nat.add_zero] at hspent
    simp [hspent]
  | ok u =>
    rw [hanswer] at hspent
    cases hlimited : limited r target.provider <;> simp [hlimited] at hspent <;> simp [hspent]

/-- A chain spends of an upstream one token for each charged element of it. -/
theorem spentOn_checkUpstreams (hg : TokenBucket g spent) (i : Nat) (chain : List BackendTarget)
    (r : LimiterRegistry L) (u : String) :
    spentOn spent (checkUpstreams g reading i chain r).1 u =
      spentOn spent r u +
        (charged g spent reading i chain r).countP fun c => c.2.provider == u := by
  induction chain generalizing i r with
  | nil => rfl
  | cons target rest ih =>
    have hhead := spentOn_checkPerUpstream hg r (reading i) target.provider u
    rw [charged_cons hg, checkUpstreams]
    rcases hcheck : r.checkPerUpstream g (reading i) target.provider with ⟨r', answer⟩
    rw [hcheck] at hhead
    cases answer with
    | error e => simpa [LimiterRegistry.next] using hhead
    | ok _ =>
      have htail := ih (i + 1) r'
      show spentOn spent (checkUpstreams g reading (i + 1) rest r').1 u = _
      rw [htail, hhead, List.countP_append, Nat.add_assoc]
      congr 2
      by_cases hu : u = target.provider
      · subst hu
        cases limited r target.provider <;> simp
      · cases limited r target.provider <;> simp [hu, Ne.symm hu]

theorem le_of_mem_charged (hg : TokenBucket g spent) {i : Nat} {chain : List BackendTarget}
    {r : LimiterRegistry L} {c : Nat × BackendTarget}
    (h : c ∈ charged g spent reading i chain r) : i ≤ c.1 := by
  induction chain generalizing i r with
  | nil => cases h
  | cons target rest ih =>
    rw [charged_cons hg] at h
    split at h
    · cases h
    · rcases List.mem_append.mp h with hhere | hlater
      · split at hhere
        · rw [List.mem_singleton.mp hhere]
        · cases hhere
      · exact Nat.le_of_succ_le (ih hlater)

/-- The charged elements are the limited ones that the rate limits reach and admit. -/
theorem mem_charged (hg : TokenBucket g spent) (i : Nat) (chain : List BackendTarget)
    (r : LimiterRegistry L) (k : Nat) (target : BackendTarget) :
    (i + k, target) ∈ charged g spent reading i chain r ↔
      chain[k]? = some target ∧ limited r target.provider = true ∧
        (checkUpstreams g reading i (chain.take (k + 1)) r).2 = .ok () := by
  induction chain generalizing i k r with
  | nil => simp [charged]
  | cons head rest ih =>
    rw [charged_cons hg, List.take_succ_cons, checkUpstreams]
    have hpolicy := LimiterRegistry.checkPerUpstream_policy g r (reading i) head.provider
    rcases hcheck : r.checkPerUpstream g (reading i) head.provider with ⟨r', answer⟩
    rw [hcheck] at hpolicy
    cases answer with
    | error e => simp [LimiterRegistry.next]
    | ok _ =>
      cases k with
      | zero =>
        have hlater : (i, target) ∉ charged g spent reading (i + 1) rest r' :=
          fun hmem => Nat.not_succ_le_self i (le_of_mem_charged hg hmem)
        show (i, target) ∈ (if limited r head.provider then [(i, head)] else []) ++
          charged g spent reading (i + 1) rest r' ↔ _
        rw [List.mem_append, or_iff_left hlater]
        cases hlimited : limited r head.provider with
        | false =>
          simp only [List.getElem?_cons_zero, Option.some.injEq]
          constructor
          · intro hmem
            cases hmem
          · rintro ⟨rfl, htrue, -⟩
            rw [hlimited] at htrue
            cases htrue
        | true =>
          simp only [if_true, List.mem_singleton, List.getElem?_cons_zero, Option.some.injEq]
          constructor
          · rintro ⟨-, rfl⟩
            exact ⟨rfl, hlimited, rfl⟩
          · rintro ⟨rfl, -, -⟩
            rfl
      | succ k =>
        have hhere : (i + (k + 1), target) ∉
            (if limited r head.provider then [(i, head)] else []) := by
          split <;> simp
        have htail := ih (i + 1) r' k
        rw [Nat.add_right_comm, Nat.add_assoc, limited_of_policy hpolicy] at htail
        show (i + (k + 1), target) ∈ (if limited r head.provider then [(i, head)] else []) ++
          charged g spent reading (i + 1) rest r' ↔ _
        rw [List.mem_append, or_iff_right hhere]
        exact htail

end Chain

/-! ## Admission -/

section Admit

variable (adm : Admission Prov L) (spent : L → Nat) (clock : Clock) (a : AdmitRequest)

/-- The chain that the cost filter leaves. -/
def eligible : List BackendTarget :=
  (filterChain a.routeEntry a.facts a.config adm.recentP95Ms a.resolved.chain).survivors

/-- The elements that admission charges. -/
def admitCharges (r : LimiterRegistry L) : List (Nat × BackendTarget) :=
  match r.checkPreChain adm.governor clock.preChain a.identity a.resolved.routeLabel a.clientIp with
  | (_, .error _) => []
  | (r, .ok ()) => charged adm.governor spent clock.perUpstream 0 (eligible adm a) r

/-- The rate limits before the chain and those of its first `n` elements admit. -/
def limitsAdmit (r : LimiterRegistry L) (n : Nat) : Prop :=
  match r.checkPreChain adm.governor clock.preChain a.identity a.resolved.routeLabel a.clientIp with
  | (_, .error _) => False
  | (r, .ok ()) =>
    (checkUpstreams adm.governor clock.perUpstream 0 ((eligible adm a).take n) r).2 = .ok ()

/-- The breaker of an element allows, when the breakers that admission finds are
asked in the order of the chain. -/
def breakerAllows (w : World L) (i : Nat) : Bool :=
  ((holdChain clock.now (breakerPolicy a.resolved.breaker) 0 (eligible adm a) w).1[i]?.bind
    id).isSome

theorem holdChain_limiter (now : Nat → Instant) (policy : BreakerPolicy) (i : Nat)
    (chain : List BackendTarget) (w : World L) (r : LimiterRegistry L) :
    holdChain now policy i chain { w with limiter := r } =
      ((holdChain now policy i chain w).1,
        { (holdChain now policy i chain w).2 with limiter := r }) := by
  induction chain generalizing i w with
  | nil => rfl
  | cons target rest ih =>
    have htail := ih (i + 1) (w.tryHold now policy i target).2
    exact congrArg (fun held => ((w.tryHold now policy i target).1 :: held.1, held.2)) htail

/-- The buckets after admission: those the gates leave. -/
theorem admitRequest_limiter (w : World L) :
    (admitRequest adm clock a w).2.limiter = (gates adm clock a w.limiter).1 := by
  unfold admitRequest
  cases hgates : gates adm clock a w.limiter with
  | mk r answer =>
    cases answer with
    | error e => rfl
    | ok chain =>
      have hlimiter := congrArg (fun held => held.2.limiter)
        (holdChain_limiter clock.now (breakerPolicy a.resolved.breaker) 0 chain w r)
      dsimp only at hlimiter ⊢
      split <;> exact hlimiter

theorem gates_limiter (r : LimiterRegistry L) :
    (gates adm clock a r).1 =
      match r.checkPreChain adm.governor clock.preChain a.identity a.resolved.routeLabel
        a.clientIp with
      | (r, .error _) => r
      | (r, .ok ()) =>
        (checkUpstreams adm.governor clock.perUpstream 0 (eligible adm a) r).1 := by
  unfold gates
  cases r.checkPreChain adm.governor clock.preChain a.identity a.resolved.routeLabel a.clientIp with
  | mk r₁ pre =>
    cases pre with
    | error e => rfl
    | ok u =>
      dsimp only
      rw [← eligible]
      split
      · rename_i hempty
        rw [List.isEmpty_iff.mp hempty]
        rfl
      · cases checkUpstreams adm.governor clock.perUpstream 0 (eligible adm a) r₁ with
        | mk r₂ answer =>
          cases answer with
          | error e => rfl
          | ok u =>
            dsimp only
            split <;> rfl

/-- The holds of a ticket are the breakers' answers to the world before it. -/
theorem breakerAllowed_eq {w w' : World L} {t : AdmissionTicket}
    (h : admitRequest adm clock a w = (.ok t, w')) (i : Nat) :
    t.breakerAllowed i = breakerAllows adm clock a w i := by
  unfold admitRequest at h
  split at h
  · cases h
  · rename_i r chain hgates
    obtain ⟨rfl, -, -⟩ := gates_eq_ok hgates
    have hholds := congrArg Prod.fst (holdChain_limiter clock.now
      (breakerPolicy a.resolved.breaker) 0 (eligible adm a) w r)
    dsimp only at h
    split at h
    · cases h
      rw [breakerAllows, ← hholds]
      rfl
    · cases h

/-- Admission spends of an upstream one token for each charged element of it. -/
theorem spentOn_admitRequest (hg : TokenBucket adm.governor spent) (w : World L) (u : String) :
    spentOn spent (admitRequest adm clock a w).2.limiter u =
      spentOn spent w.limiter u +
        (admitCharges adm spent clock a w.limiter).countP fun c => c.2.provider == u := by
  have hpre : spentOn spent (w.limiter.checkPreChain adm.governor clock.preChain a.identity
      a.resolved.routeLabel a.clientIp).1 u = spentOn spent w.limiter u :=
    spentOn_checkPreChain w.limiter clock.preChain a.identity a.resolved.routeLabel a.clientIp u
  rw [admitRequest_limiter, gates_limiter, admitCharges]
  rcases hcheck : w.limiter.checkPreChain adm.governor clock.preChain a.identity
    a.resolved.routeLabel a.clientIp with ⟨r₁, pre⟩
  rw [hcheck] at hpre
  cases pre with
  | error e => simpa using hpre
  | ok _ =>
    dsimp only at hpre ⊢
    rw [spentOn_checkUpstreams hg, hpre]

theorem mem_admitCharges (hg : TokenBucket adm.governor spent) (r : LimiterRegistry L) (i : Nat)
    (target : BackendTarget) :
    (i, target) ∈ admitCharges adm spent clock a r ↔
      (eligible adm a)[i]? = some target ∧ limited r target.provider = true ∧
        limitsAdmit adm clock a r (i + 1) := by
  have hpolicy := LimiterRegistry.checkPreChain_policy adm.governor r clock.preChain a.identity
    a.resolved.routeLabel a.clientIp
  unfold admitCharges limitsAdmit
  rcases hcheck : r.checkPreChain adm.governor clock.preChain a.identity a.resolved.routeLabel
    a.clientIp with ⟨r₁, pre⟩
  rw [hcheck] at hpolicy
  cases pre with
  | error e => simp
  | ok _ =>
    have hmem : (0 + i, target) ∈
        charged adm.governor spent clock.perUpstream 0 (eligible adm a) r₁ ↔ _ :=
      mem_charged hg 0 (eligible adm a) r₁ i target
    rw [Nat.zero_add, limited_of_policy hpolicy] at hmem
    exact hmem

/-- The charged elements account for all tokens that admission takes. They are
all allowed iff no limited element whose breaker refuses is admitted by the rate
limits up to its own. -/
theorem admitRequest_charges_iff (hg : TokenBucket adm.governor spent) (w : World L) :
    (∀ u, spentOn spent (admitRequest adm clock a w).2.limiter u =
      spentOn spent w.limiter u +
        (admitCharges adm spent clock a w.limiter).countP fun c => c.2.provider == u) ∧
    ((∀ c ∈ admitCharges adm spent clock a w.limiter, breakerAllows adm clock a w c.1 = true) ↔
      ∀ i target, (eligible adm a)[i]? = some target → breakerAllows adm clock a w i = false →
        limited w.limiter target.provider = true →
          ¬ limitsAdmit adm clock a w.limiter (i + 1)) := by
  refine ⟨spentOn_admitRequest adm spent clock a hg w, ?_⟩
  constructor
  · intro hallowed i target hget hrefused hlimited hadmit
    have hcharged := (mem_admitCharges adm spent clock a hg w.limiter i target).mpr
      ⟨hget, hlimited, hadmit⟩
    have htrue := hallowed (i, target) hcharged
    rw [hrefused] at htrue
    cases htrue
  · intro hspared c hcharged
    obtain ⟨i, target⟩ := c
    obtain ⟨hget, hlimited, hadmit⟩ :=
      (mem_admitCharges adm spent clock a hg w.limiter i target).mp hcharged
    by_contra hrefused
    exact hspared i target hget (Bool.eq_false_iff.mpr hrefused) hlimited hadmit

end Admit

/-! ## A limited upstream with an open breaker -/

/-- A bucket of the `governor` crate: the theoretical arrival time of its next
token and the tokens given out. -/
structure Cell where
  period : Nat
  capacity : Nat
  arrival : Instant
  given : Nat
  deriving DecidableEq, Repr

/-- The generic cell rate algorithm. -/
def cellRate : Governor Cell where
  direct quota now :=
    { period := 1000000000 / quota.perSecond
      capacity := 1000000000 / quota.perSecond * quota.burst
      arrival := now + 1000000000 / quota.perSecond
      given := 0 }
  check cell now :=
    let earliest := cell.arrival - cell.capacity
    if now < earliest then (cell, some earliest)
    else
      ({ cell with arrival := max cell.arrival now + cell.period, given := cell.given + 1 }, none)

theorem tokenBucket_cellRate : TokenBucket cellRate Cell.given where
  direct _ _ := rfl
  allowed cell now cell' h := by
    simp only [cellRate] at h
    split at h
    · cases h
    · cases h
      rfl
  refused cell now cell' earliest h := by
    simp only [cellRate] at h
    split at h
    · cases h
      rfl
    · cases h

open Gateway

/-- One request a second to `openai`. -/
def limitedConfig : GatewayConfig :=
  { chainConfig "openai_chat" with
    rateLimit :=
      { (chainConfig "openai_chat").rateLimit with
        enabled := true
        perUpstream :=
          { entries := [("openai", { ratePerSec := 1, burst := 1 })]
            sorted := List.pairwise_singleton _ _ } } }

def limitedAdmission : Admission Unit Cell :=
  { governor := cellRate
    providers := chainAdmission.providers
    vision := fun _ => false
    recentP95Ms := fun _ => none }

def limitedRequest : AdmitRequest := { chainRequest "openai_chat" with config := limitedConfig }

/-- The breaker of `openai` opened a second ago. -/
def openHead : World Cell :=
  .start (.fromConfig limitedConfig.rateLimit)
    (Function.update BreakerRegistry.new ("openai", "gpt-4o")
      { samples := [(5, false)], openSince := some 5, probeInFlight := false })

example : validate limitedConfig = .ok () := rfl

/-- The request is admitted for the fallback alone, and the bucket of the head
whose breaker is open has given out its token. -/
theorem openBreaker_charged :
    (∃ t w, admitRequest limitedAdmission (stillClock 1000000005) limitedRequest openHead =
      (.ok t, w) ∧ t.breakerAllowed 0 = false ∧ t.breakerAllowed 1 = true ∧
        spentOn Cell.given openHead.limiter "openai" = 0 ∧
        spentOn Cell.given w.limiter "openai" = 1) ∧
    ¬ ∀ c ∈ admitCharges limitedAdmission Cell.given (stillClock 1000000005) limitedRequest
        openHead.limiter,
      breakerAllows limitedAdmission (stillClock 1000000005) limitedRequest openHead c.1 =
        true := by
  refine ⟨⟨_, _, rfl, rfl, rfl, rfl, rfl⟩, fun h => ?_⟩
  have hhead := h (0, { provider := "openai", model := "gpt-4o", policy := chainPolicy })
    (List.mem_singleton.mpr rfl)
  cases hhead

/-- With every breaker closed. -/
def closedHead : World Cell := .start (.fromConfig limitedConfig.rateLimit) .new

/-- The condition holds of the same request, which spends a token of its head. -/
theorem closedBreakers_charged :
    spentOn Cell.given
        (admitRequest limitedAdmission (stillClock 1000000005) limitedRequest closedHead).2.limiter
        "openai" = 1 ∧
      ∀ c ∈ admitCharges limitedAdmission Cell.given (stillClock 1000000005) limitedRequest
          closedHead.limiter,
        breakerAllows limitedAdmission (stillClock 1000000005) limitedRequest closedHead c.1 =
          true := by
  refine ⟨rfl, (admitRequest_charges_iff limitedAdmission Cell.given (stillClock 1000000005)
    limitedRequest tokenBucket_cellRate closedHead).2.mpr ?_⟩
  intro i target hget hrefused
  match i with
  | 0 => cases hrefused
  | 1 => cases hrefused
  | i + 2 => cases hget

end AgentShim.RequestAdmission
