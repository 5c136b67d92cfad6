import AgentShim.Gateway.Collect
import AgentShim.Gateway.State
import AgentShim.Lib.TokenBucket
import AgentShim.Router.Auth

/-
  Who shares the anonymous bucket

  A request is authenticated, and its identity names the bucket the per-key rate
  limit asks. Where authentication is on and not required, a request with a key
  that is not configured goes on under the hash of that key.

  What is proved:
    1. `checkPreChain_charge` — the per-key gate asks the bucket of the identity.
    2. `admittedTimes_sublist` — what the anonymous bucket admits, in a run of
       requests without a key.
    3. `anonymousOnly_iff` — the requests of a run share the anonymous bucket,
       and its window bound, iff rate limits are on and none presents a key.

  A bucket is any `governor` that behaves as a token bucket: a relation says which
  of its states stands for which bucket.

  Correspondence (Rust ↔ Lean):
    `check_auth`      ↔ `checkAuth`
    `check_pre_chain` ↔ `checkPreChain`; `laterGates` is its tail
-/

namespace AgentShim.Gateway

open AgentShim.Auth AgentShim.CircuitBreaker AgentShim.Config AgentShim.Plugins AgentShim.RateLimit

/-- A request as authentication and the rate limits see it. -/
structure Arrival (V : Type) where
  headers : List (String × V)
  frontendModel : String
  clientIp : String
  clock : RateLimitDimension → Reading

variable {P V L : Type}

/-- When the per-key limit is asked. -/
def Arrival.time (a : Arrival V) : Instant := (a.clock .perKey).asked

/-- A header's value as text. -/
def headerStr (toStr : V → Option String) (headers : List (String × V)) (name : String) :
    Option String :=
  (headers.lookup name).bind toStr

/-- The key the request presents, if any. -/
def Arrival.presented (toStr : V → Option String) (a : Arrival V) : Option String :=
  presentedKey (headerStr toStr a.headers "authorization") (headerStr toStr a.headers "x-api-key")

def checkAuth (sha256 : List UInt8 → List UInt8) (toStr : V → Option String)
    (snapshot : AppSnapshot P) (headers : List (String × V)) : Except HandlerError AgentIdentity :=
  if !snapshot.authEnabled then .ok .anonymous
  else
    let extracted := extractIdentityFromHeaders sha256 (headerStr toStr headers "authorization")
      (headerStr toStr headers "x-api-key")
    if snapshot.authRequired then
      match extracted with
      | .anonymous => .error .unauthorized
      | .keyHash h =>
        if h ∈ snapshot.configuredKeyHashes then .ok extracted else .error .unauthorized
    else .ok extracted

/-- The times of the requests that pass authentication and the limits before the chain. -/
def admittedTimes (sha256 : List UInt8 → List UInt8) (toStr : V → Option String)
    (snapshot : AppSnapshot P) (g : Governor L) :
    LimiterRegistry L → List (Arrival V) → List Instant
  | _, [] => []
  | r, a :: rest =>
    match checkAuth sha256 toStr snapshot a.headers with
    | .error _ => admittedTimes sha256 toStr snapshot g r rest
    | .ok identity =>
      let answer := r.checkPreChain g a.clock identity a.frontendModel a.clientIp
      match answer.2 with
      | .ok () => a.time :: admittedTimes sha256 toStr snapshot g answer.1 rest
      | .error _ => admittedTimes sha256 toStr snapshot g answer.1 rest

/-! The bucket an identity is charged to. -/

/-- The per-key bucket of an identity: its name and its policy. -/
def perKeyCharge (r : LimiterRegistry L) (identity : AgentIdentity) :
    Option (String × BucketConfig) :=
  if r.enabled then (r.keyConfig identity).map fun cfg => (identity.logId, cfg) else none

/-- The gates after the per-key one. -/
def laterGates (g : Governor L) (clock : RateLimitDimension → Reading)
    (frontendModel clientIp : String) (r : LimiterRegistry L) :
    LimiterRegistry L × Except LimiterRegistry.Rejection Unit :=
  LimiterRegistry.next
    (r.gate g .perRoute frontendModel (r.perRoute.get? frontendModel) (clock .perRoute))
    fun r => r.gate g .perIp clientIp r.perIp (clock .perIp)

theorem checkPreChain_charge {g : Governor L} {r : LimiterRegistry L} {identity : AgentIdentity}
    {key : String} {cfg : BucketConfig} (h : perKeyCharge r identity = some (key, cfg))
    (clock : RateLimitDimension → Reading) (frontendModel clientIp : String) :
    r.checkPreChain g clock identity frontendModel clientIp =
      LimiterRegistry.next (r.gate g .perKey key (some cfg) (clock .perKey))
        (laterGates g clock frontendModel clientIp) := by
  unfold perKeyCharge at h
  split at h
  · rename_i henabled
    obtain ⟨cfg', hcfg, hpair⟩ := Option.map_eq_some_iff.mp h
    obtain ⟨rfl, rfl⟩ := Prod.mk.inj hpair
    rw [LimiterRegistry.checkPreChain, henabled, hcfg]
    rfl
  · cases h

/-! One check of the anonymous bucket. -/

/-- The governor behaves as a token bucket: `sim` relates its states to buckets. -/
structure IsTokenBucket (g : Governor L) (sim : L → Tokens.Bucket → Prop) : Prop where
  direct : ∀ quota now, sim (g.direct quota now)
    (.full 1000000000 quota.perSecond quota.burst now)
  check : ∀ l b now, sim l b → b.since ≤ now →
    sim (g.check l now).1 (b.ask now) ∧ ((g.check l now).2 = none ↔ b.grants now = true)

def anonymousKey : RateLimitDimension × String := (.perKey, "anonymous")

theorem lookup_gate_of_ne (g : Governor L) (r : LimiterRegistry L) {dim : RateLimitDimension}
    (h : dim ≠ .perKey) (key : String) (cfg : Option BucketConfig) (t : Reading) :
    (r.gate g dim key cfg t).1.buckets.lookup anonymousKey = r.buckets.lookup anonymousKey := by
  cases cfg with
  | none => rfl
  | some cfg =>
    have hne : anonymousKey ≠ (dim, key) := by
      intro heq
      exact h (Prod.mk.inj heq).1.symm
    have hsame : (r.checkBucket g dim key cfg t).1.buckets.lookup anonymousKey =
        r.buckets.lookup anonymousKey := AList.lookup_insert_ne hne
    rw [LimiterRegistry.gate]
    split <;> rename_i heq <;> rw [heq] at hsame <;> exact hsame

theorem lookup_laterGates (g : Governor L) (clock : RateLimitDimension → Reading)
    (frontendModel clientIp : String) (r : LimiterRegistry L) :
    (laterGates g clock frontendModel clientIp r).1.buckets.lookup anonymousKey =
      r.buckets.lookup anonymousKey := by
  have hroute := lookup_gate_of_ne g r (by decide : RateLimitDimension.perRoute ≠ .perKey)
    frontendModel (r.perRoute.get? frontendModel) (clock .perRoute)
  unfold laterGates
  rcases hgate : r.gate g .perRoute frontendModel (r.perRoute.get? frontendModel)
    (clock .perRoute) with ⟨r', answer⟩
  rw [hgate] at hroute
  cases answer with
  | error e => exact hroute
  | ok u => exact (lookup_gate_of_ne g r' (by decide) clientIp r'.perIp (clock .perIp)).trans hroute

/-- A check charged to the anonymous bucket asks it, and admits only what it grants. -/
theorem checkPreChain_anonymous {g : Governor L} {r : LimiterRegistry L}
    {identity : AgentIdentity} {cfg : BucketConfig}
    (h : perKeyCharge r identity = some ("anonymous", cfg))
    (clock : RateLimitDimension → Reading) (frontendModel clientIp : String) :
    let asked := (clock .perKey).asked
    let l := r.getOrCreate g .perKey "anonymous" cfg asked
    let answer := r.checkPreChain g clock identity frontendModel clientIp
    answer.1.buckets.lookup anonymousKey = some (g.check l asked).1 ∧
      (answer.2 = .ok () → (g.check l asked).2 = none) := by
  intro asked l answer
  have hanswer : answer = _ := checkPreChain_charge h clock frontendModel clientIp
  rw [hanswer]
  rcases hcheck : g.check (r.getOrCreate g .perKey "anonymous" cfg asked) asked with ⟨l', wait⟩
  cases wait with
  | none =>
    have hgate : r.gate g .perKey "anonymous" (some cfg) (clock .perKey) =
        ({ r with buckets := r.buckets.insert anonymousKey l' }, .ok ()) := by
      simp only [asked] at hcheck
      simp only [LimiterRegistry.gate, LimiterRegistry.checkBucket, hcheck, anonymousKey]
    rw [hgate]
    exact ⟨(lookup_laterGates ..).trans (AList.lookup_insert _), fun _ => rfl⟩
  | some earliest =>
    have hgate : r.gate g .perKey "anonymous" (some cfg) (clock .perKey) =
        ({ r with buckets := r.buckets.insert anonymousKey l' },
          .error (.perKey,
            LimiterRegistry.retryAfterSecs earliest (clock .perKey).answered)) := by
      simp only [asked] at hcheck
      simp only [LimiterRegistry.gate, LimiterRegistry.checkBucket, hcheck, anonymousKey]
    rw [hgate]
    refine ⟨AList.lookup_insert _, ?_⟩
    intro hok
    cases hok

/-! A run of requests. -/

/-- Which bucket an identity is charged to is policy, which no check moves. -/
theorem perKeyCharge_checkPreChain (g : Governor L) (r : LimiterRegistry L)
    (clock : RateLimitDimension → Reading) (identity : AgentIdentity)
    (frontendModel clientIp : String) :
    perKeyCharge (r.checkPreChain g clock identity frontendModel clientIp).1 = perKeyCharge r := by
  have hpolicy : ∀ r' : LimiterRegistry L, perKeyCharge r' = perKeyCharge r'.policy := by
    intro r'
    funext identity
    cases identity <;> rfl
  rw [hpolicy, LimiterRegistry.checkPreChain_policy, ← hpolicy]

/-- Where every request is charged to the anonymous bucket, the run is admitted
no more often than the bucket grants. -/
theorem admittedTimes_sublist {sha256 : List UInt8 → List UInt8} {toStr : V → Option String}
    {snapshot : AppSnapshot P} {g : Governor L} {sim : L → Tokens.Bucket → Prop}
    (hg : IsTokenBucket g sim) {cfg : BucketConfig} {arrivals : List (Arrival V)}
    {r : LimiterRegistry L} {b : Tokens.Bucket}
    (hcharged : ∀ a ∈ arrivals, ∃ identity, checkAuth sha256 toStr snapshot a.headers =
      .ok identity ∧ perKeyCharge r identity = some ("anonymous", cfg))
    (hsim : ∀ a ∈ arrivals.head?, sim (r.getOrCreate g .perKey "anonymous" cfg a.time) b)
    (hsorted : (arrivals.map Arrival.time).Pairwise (· ≤ ·))
    (hsince : ∀ t ∈ arrivals.map Arrival.time, b.since ≤ t) :
    (admittedTimes sha256 toStr snapshot g r arrivals).Sublist
      (b.granted (arrivals.map Arrival.time)) := by
  induction arrivals generalizing r b with
  | nil => exact List.Sublist.refl _
  | cons a rest ih =>
    obtain ⟨identity, hauth, hcharge⟩ := hcharged a List.mem_cons_self
    obtain ⟨hlater, hrest⟩ := List.pairwise_cons.mp hsorted
    obtain ⟨hnext, hgrant⟩ := hg.check _ b a.time (hsim a rfl) (hsince _ List.mem_cons_self)
    obtain ⟨hlookup, hgranted⟩ :=
      checkPreChain_anonymous (g := g) hcharge a.clock a.frontendModel a.clientIp
    have hih := ih (r := (r.checkPreChain g a.clock identity a.frontendModel a.clientIp).1)
      (b := b.ask a.time)
      (by
        intro a' ha'
        rw [perKeyCharge_checkPreChain]
        exact hcharged a' (List.mem_cons_of_mem _ ha'))
      (by
        intro a' _
        have hopen := hlookup
        rw [LimiterRegistry.getOrCreate]
        simp only [anonymousKey] at hopen
        rw [hopen]
        exact hnext)
      hrest hlater
    rw [admittedTimes, hauth, List.map_cons, Tokens.Bucket.granted]
    cases hanswer : (r.checkPreChain g a.clock identity a.frontendModel a.clientIp).2 with
    | ok u =>
      rw [if_pos (hgrant.mp (hgranted hanswer))]
      simp only [hanswer]
      exact hih.cons_cons _
    | error e =>
      simp only [hanswer]
      split
      · exact hih.cons _
      · exact hih

/-- Every request of the run is charged to the one anonymous bucket, and no
window admits more than its burst and what flows in meanwhile. -/
structure AnonymousOnly (sha256 : List UInt8 → List UInt8) (toStr : V → Option String)
    (snapshot : AppSnapshot P) (g : Governor L) (cfg : GatewayConfig) (bucket : BucketConfig)
    (arrivals : List (Arrival V)) : Prop where
  charged : ∀ a ∈ arrivals, ∃ identity, checkAuth sha256 toStr snapshot a.headers = .ok identity ∧
    perKeyCharge (limiterFor (L := L) cfg.rateLimit) identity = some ("anonymous", bucket)
  bounded : ∀ lo hi, lo ≤ hi →
    (admittedTimes sha256 toStr snapshot g (limiterFor cfg.rateLimit) arrivals).countP
        (fun t => lo ≤ t && t ≤ hi) * 1000000000 ≤
      bucket.quota.burst * 1000000000 + bucket.quota.perSecond * (hi - lo)

/-- Where authentication is on and not required, every request goes on. -/
theorem checkAuth_optional {cfg : GatewayConfig} (henabled : cfg.auth.enabled = true)
    (hoptional : cfg.auth.required = false) (sha256 : List UInt8 → List UInt8)
    (toStr : V → Option String) (plugins : PluginRegistry P) (headers : List (String × V)) :
    checkAuth sha256 toStr (.ofConfig cfg plugins) headers =
      .ok (extractIdentityFromHeaders sha256 (headerStr toStr headers "authorization")
        (headerStr toStr headers "x-api-key")) := by
  unfold checkAuth
  simp only [AppSnapshot.ofConfig, henabled, hoptional, Bool.not_true, Bool.false_eq_true,
    if_false]

/-- The identity charged to the anonymous bucket is that of no key. -/
theorem perKeyCharge_anonymous_iff {cfg : GatewayConfig} {b : BucketConfigYaml}
    (hbucket : cfg.rateLimit.perKey.anonymous = some b) (sha256 : List UInt8 → List UInt8)
    (authorization xApiKey : Option String) :
    perKeyCharge (limiterFor (L := L) cfg.rateLimit)
        (extractIdentityFromHeaders sha256 authorization xApiKey) =
          some ("anonymous", BucketConfig.ofYaml b) ↔
      cfg.rateLimit.enabled = true ∧ presentedKey authorization xApiKey = none := by
  constructor
  · intro h
    unfold perKeyCharge at h
    split at h
    · rename_i hon
      obtain ⟨bucket, _, hpair⟩ := Option.map_eq_some_iff.mp h
      have hid := (Prod.mk.inj hpair).1
      refine ⟨?_, (logId_eq_anonymous_iff sha256 _ _).mp hid⟩
      unfold limiterFor at hon
      split at hon
      · assumption
      · cases hon
    · cases h
  · rintro ⟨henabled, hnone⟩
    have hcfg : (LimiterRegistry.fromConfig (L := L) cfg.rateLimit).keyConfig .anonymous =
        some (BucketConfig.ofYaml b) := by
      simp only [LimiterRegistry.keyConfig, LimiterRegistry.fromConfig, hbucket, Option.map_some]
    rw [extractIdentity_eq, hnone, limiterFor, if_pos henabled]
    simp only [perKeyCharge, hcfg, Option.map_some, AgentIdentity.logId]
    exact if_pos henabled

/-- **Who shares the anonymous bucket.** With optional authentication and an
anonymous bucket: the requests that present no key, where rate limits are on. -/
theorem anonymousOnly_iff {sim : L → Tokens.Bucket → Prop} {g : Governor L}
    (hg : IsTokenBucket g sim) {cfg : GatewayConfig} {b : BucketConfigYaml}
    (henabled : cfg.auth.enabled = true) (hoptional : cfg.auth.required = false)
    (hbucket : cfg.rateLimit.perKey.anonymous = some b) (sha256 : List UInt8 → List UInt8)
    (toStr : V → Option String) (plugins : PluginRegistry P) {arrivals : List (Arrival V)}
    (hsorted : (arrivals.map Arrival.time).Pairwise (· ≤ ·)) :
    AnonymousOnly sha256 toStr (.ofConfig cfg plugins) g cfg (.ofYaml b) arrivals ↔
      ∀ a ∈ arrivals, cfg.rateLimit.enabled = true ∧ a.presented toStr = none := by
  constructor
  · intro h a ha
    obtain ⟨identity, hauth, hcharge⟩ := h.charged a ha
    rw [checkAuth_optional henabled hoptional] at hauth
    cases hauth
    exact (perKeyCharge_anonymous_iff hbucket sha256 _ _).mp hcharge
  · intro h
    have hcharged : ∀ a ∈ arrivals, ∃ identity,
        checkAuth sha256 toStr (.ofConfig cfg plugins) a.headers = .ok identity ∧
          perKeyCharge (limiterFor (L := L) cfg.rateLimit) identity =
            some ("anonymous", BucketConfig.ofYaml b) := by
      intro a ha
      exact ⟨_, checkAuth_optional henabled hoptional sha256 toStr plugins a.headers,
        (perKeyCharge_anonymous_iff hbucket sha256 _ _).mpr (h a ha)⟩
    refine ⟨hcharged, ?_⟩
    intro lo hi hwindow
    cases arrivals with
    | nil => simp [admittedTimes]
    | cons a rest =>
      let bucket := Tokens.Bucket.full 1000000000 (BucketConfig.ofYaml b).quota.perSecond
        (BucketConfig.ofYaml b).quota.burst a.time
      have hfirst : ∀ t ∈ (a :: rest).map Arrival.time, bucket.since ≤ t := by
        intro t ht
        rcases List.mem_cons.mp ht with rfl | ht
        · exact Nat.le_refl _
        · exact (List.pairwise_cons.mp hsorted).1 t ht
      have hfresh : sim ((limiterFor (L := L) cfg.rateLimit).getOrCreate g .perKey "anonymous"
          (BucketConfig.ofYaml b) a.time) bucket := by
        have hnew : (limiterFor (L := L) cfg.rateLimit).getOrCreate g .perKey "anonymous"
            (BucketConfig.ofYaml b) a.time = g.direct (BucketConfig.ofYaml b).quota a.time := by
          unfold limiterFor
          split <;> rfl
        rw [hnew]
        exact hg.direct _ _
      have hsub := admittedTimes_sublist hg (b := bucket) hcharged
        (by
          intro a' ha'
          cases ha'
          exact hfresh)
        hsorted hfirst
      calc _ ≤ (bucket.granted ((a :: rest).map Arrival.time)).countP
              (fun t => lo ≤ t && t ≤ hi) * 1000000000 :=
            Nat.mul_le_mul_right _ hsub.countP_le
        _ ≤ _ := Tokens.Bucket.granted_window hsorted hfirst (Nat.le_refl _) hwindow

/-! A gateway with optional authentication. -/

/-- The crate as a token bucket. A refused request is told when a token is there. -/
def tokenGovernor : Governor Tokens.Bucket where
  direct quota now := .full 1000000000 quota.perSecond quota.burst now
  check b now :=
    (b.ask now,
      if b.grants now then none
      else some (now + (1000000000 - b.refilled now + b.perSecond - 1) / b.perSecond))

theorem isTokenBucket_tokenGovernor :
    IsTokenBucket tokenGovernor fun l b => l = b where
  direct _ _ := rfl
  check l b now h _ := by
    subst h
    refine ⟨rfl, ?_⟩
    simp only [tokenGovernor]
    cases l.grants now with
    | true => simp
    | false => simp

/-- Optional authentication, and one anonymous request a second. -/
def openGate : GatewayConfig :=
  { RouteEntries.plainConfig [.singular "openai" "gpt-4o" "openai" "gpt-4o"] with
    auth := { enabled := true, required := false, keys := .empty }
    rateLimit :=
      { enabled := true
        perKey :=
          { default := none
            anonymous := some { ratePerSec := 1, burst := 1 }
            overrides := .empty }
        perRoute := .empty
        perUpstream := .empty
        perIp := { enabled := false, ratePerSec := 5, burst := 20 } } }

example : validate openGate = .ok () := rfl

/-- A request at a time of the clock. -/
def arrivalAt (headers : List (String × String)) (now : Instant) : Arrival String where
  headers := headers
  frontendModel := "openai_chat/gpt-4o"
  clientIp := "192.0.2.1"
  clock _ := { asked := now, answered := now }

def noPlugins : PluginRegistry Unit := { plugins := ∅, plans := fun _ => none }

/-- The digest of `hello`. -/
def helloDigest : List UInt8 :=
  [0x2c, 0xf2, 0x4d, 0xba, 0x5f, 0xb0, 0xa3, 0x0e, 0x26, 0xe8, 0x3b, 0x2a, 0xc5, 0xb9, 0xe2, 0x9e,
    0x1b, 0x16, 0x1e, 0x5c, 0x1f, 0xa7, 0x42, 0x5e, 0x73, 0x04, 0x33, 0x62, 0x93, 0x8b, 0x98, 0x24]

theorem anonymousOnly_openGate :
    AnonymousOnly (fun _ => helloDigest) some (.ofConfig openGate noPlugins) tokenGovernor openGate
      { ratePerSec := 1, burst := 1 } [arrivalAt [] 5, arrivalAt [] 7] := by
  have hsorted : ([arrivalAt [] 5, arrivalAt [] 7].map Arrival.time).Pairwise (· ≤ ·) := by decide
  have hnone : ∀ a ∈ [arrivalAt [] 5, arrivalAt [] 7],
      openGate.rateLimit.enabled = true ∧ a.presented some = none := by decide
  exact (anonymousOnly_iff isTokenBucket_tokenGovernor rfl rfl rfl (fun _ => helloDigest) some
    noPlugins hsorted).mpr hnone

/-- Two requests with a key that is not configured, at one instant. -/
def strangers : List (Arrival String) :=
  [arrivalAt [("authorization", "Bearer hello")] 5, arrivalAt [("authorization", "Bearer hello")] 5]

/-- Both are admitted by a bucket of one. -/
theorem strangers_admitted :
    (∀ a ∈ strangers, a.presented some = some "hello" ∧
      hashKey (fun _ => helloDigest) "hello" ∉ openGate.auth.keys.keys) ∧
    admittedTimes (fun _ => helloDigest) some (.ofConfig openGate noPlugins) tokenGovernor
      (limiterFor openGate.rateLimit) strangers = [5, 5] ∧
    ¬ AnonymousOnly (fun _ => helloDigest) some (.ofConfig openGate noPlugins) tokenGovernor
      openGate { ratePerSec := 1, burst := 1 } strangers := by
  have hpresented : ∀ a ∈ strangers, a.presented some = some "hello" := by decide +kernel
  have hadmitted : admittedTimes (fun _ => helloDigest) some (.ofConfig openGate noPlugins)
      tokenGovernor (limiterFor openGate.rateLimit) strangers = [5, 5] := rfl
  refine ⟨fun a ha => ⟨hpresented a ha, List.not_mem_nil⟩, hadmitted, ?_⟩
  intro h
  have hwindow := h.bounded 5 5 (Nat.le_refl _)
  rw [hadmitted] at hwindow
  exact absurd hwindow (by decide)

end AgentShim.Gateway
