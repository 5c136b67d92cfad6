import AgentShim.Gateway.State

/-
  Which buckets a check asks

  The check before the chain asks the bucket of the caller, then that of the route,
  then that of the address, each under its own policy. It charges a bucket if, for every
  state of the limiter, every clock and every bucket crate, it is the check that asks
  this bucket at its gate.

  What is proved:
    1. `chargesRoute_of_eq`, `eq_of_chargesRoute` — the route's bucket is the one under
       the route's label, where rate limits are on.
    2. `chargesKey_of_override`, `eq_of_chargesKey` — the caller's bucket is the one
       under its identity.
-/

namespace AgentShim.Gateway

open AgentShim.CircuitBreaker AgentShim.Config AgentShim.RateLimit LimiterRegistry

variable {L : Type}

/-- The gates before the chain, each with the bucket it asks. -/
def preChain (g : Governor L) (r : LimiterRegistry L) (clock : RateLimitDimension → Reading)
    (clientIp : String) (caller route : String × Option BucketConfig) :
    LimiterRegistry L × Except Rejection Unit :=
  next (r.gate g .perKey caller.1 caller.2 (clock .perKey)) fun r =>
    next (r.gate g .perRoute route.1 route.2 (clock .perRoute)) fun r =>
      r.gate g .perIp clientIp r.perIp (clock .perIp)

/-- The bucket of a key is asked for requests of a route label. -/
def ChargesRoute (cfg : RateLimitConfig) (label key : String) (bucket : BucketConfig) : Prop :=
  ∀ (L : Type) (g : Governor L) (r : LimiterRegistry L), r.policy = limiterFor cfg →
    ∀ clock identity clientIp, r.checkPreChain g clock identity label clientIp =
      preChain g r clock clientIp (identity.logId, r.keyConfig identity) (key, some bucket)

/-- The bucket of a key is asked for requests of an identity. -/
def ChargesKey (cfg : RateLimitConfig) (identity : AgentIdentity) (key : String)
    (bucket : BucketConfig) : Prop :=
  ∀ (L : Type) (g : Governor L) (r : LimiterRegistry L), r.policy = limiterFor cfg →
    ∀ clock label clientIp, r.checkPreChain g clock identity label clientIp =
      preChain g r clock clientIp (key, some bucket) (label, r.perRoute.get? label)

theorem next_congr {a : LimiterRegistry L × Except Rejection Unit}
    {f f' : LimiterRegistry L → LimiterRegistry L × Except Rejection Unit} (h : f a.1 = f' a.1) :
    next a f = next a f' := by
  obtain ⟨r, answer⟩ := a
  cases answer with
  | error e => rfl
  | ok u => exact h

theorem checkPreChain_enabled {g : Governor L} {r : LimiterRegistry L}
    (h : r.enabled = true) (clock : RateLimitDimension → Reading) (identity : AgentIdentity)
    (label clientIp : String) :
    r.checkPreChain g clock identity label clientIp =
      preChain g r clock clientIp (identity.logId, r.keyConfig identity)
        (label, r.perRoute.get? label) := by
  -- the gate of the caller leaves the policies of the routes alone
  have hroute := congrArg perRoute
    (gate_policy g r .perKey identity.logId (r.keyConfig identity) (clock .perKey))
  rw [checkPreChain, h, preChain]
  apply next_congr
  exact congrArg (fun perRoute : OrdMap BucketConfig => next (gate g _ .perRoute label
    (perRoute.get? label) (clock .perRoute)) fun r => r.gate g .perIp clientIp r.perIp
      (clock .perIp)) hroute

theorem enabled_of_policy {cfg : RateLimitConfig} {r : LimiterRegistry L}
    (hr : r.policy = limiterFor cfg) (h : cfg.enabled = true) :
    r.policy = (fromConfig cfg).policy ∧ r.enabled = true := by
  rw [limiterFor, if_pos h] at hr
  refine ⟨hr, ?_⟩
  calc r.enabled
      = r.policy.enabled := rfl
    _ = cfg.enabled := by rw [hr]; rfl
    _ = true := h

theorem chargesRoute_of_eq {cfg : RateLimitConfig} (henabled : cfg.enabled = true)
    {key : String} {b : BucketConfigYaml} (hkey : cfg.perRoute.get? key = some b) :
    ChargesRoute cfg key key (.ofYaml b) := by
  intro L g r hr clock identity clientIp
  obtain ⟨hpolicy, hon⟩ := enabled_of_policy hr henabled
  have hroute : r.perRoute.get? key = some (.ofYaml b) := by
    calc r.perRoute.get? key
        = r.policy.perRoute.get? key := rfl
      _ = (cfg.perRoute.mapValues BucketConfig.ofYaml).get? key := by rw [hpolicy]; rfl
      _ = some (.ofYaml b) := by rw [OrdMap.get?_mapValues, hkey]; rfl
  rw [checkPreChain_enabled hon, hroute]

theorem chargesKey_of_override {cfg : RateLimitConfig} (henabled : cfg.enabled = true)
    {key : String} {b : BucketConfigYaml} (hkey : cfg.perKey.overrides.get? key = some b) :
    ChargesKey cfg (.keyHash key) key (.ofYaml b) := by
  intro L g r hr clock label clientIp
  obtain ⟨hpolicy, hon⟩ := enabled_of_policy hr henabled
  have hoverride : r.perKeyOverrides.get? key = some (.ofYaml b) := by
    calc r.perKeyOverrides.get? key
        = r.policy.perKeyOverrides.get? key := rfl
      _ = (cfg.perKey.overrides.mapValues BucketConfig.ofYaml).get? key := by rw [hpolicy]; rfl
      _ = some (.ofYaml b) := by rw [OrdMap.get?_mapValues, hkey]; rfl
  rw [checkPreChain_enabled hon, keyConfig, hoverride]
  rfl

/-! ## Only its own bucket -/

/-- A bucket crate that admits everything. -/
def openGovernor : Governor Unit where
  direct _ _ := ()
  check _ _ := ((), none)

/-- Whether a bucket was opened. -/
def opened (r : LimiterRegistry L) (bucket : RateLimitDimension × String) : Prop :=
  (r.buckets.lookup bucket).isSome

theorem gate_open (r : LimiterRegistry Unit) (dim : RateLimitDimension) (key : String)
    (cfg : Option BucketConfig) (t : Reading) (bucket : RateLimitDimension × String) :
    (r.gate openGovernor dim key cfg t).2 = .ok () ∧
      (opened (r.gate openGovernor dim key cfg t).1 bucket ↔
        opened r bucket ∨ (bucket = (dim, key) ∧ cfg.isSome)) := by
  cases cfg with
  | none => exact ⟨rfl, by simp [gate]⟩
  | some cfg =>
    refine ⟨rfl, ?_⟩
    show ((r.buckets.insert (dim, key) ()).lookup bucket).isSome ↔ _
    by_cases hbucket : bucket = (dim, key)
    · rw [hbucket, AList.lookup_insert]
      simp
    · rw [AList.lookup_insert_ne hbucket]
      simp [opened, hbucket]

theorem next_ok {a : LimiterRegistry L × Except Rejection Unit}
    (h : a.2 = .ok ()) (rest : LimiterRegistry L → LimiterRegistry L × Except Rejection Unit) :
    next a rest = rest a.1 := by
  obtain ⟨r, answer⟩ := a
  cases h
  rfl

/-- The buckets of callers and routes a check opens, where all are admitted. -/
theorem opened_preChain (r : LimiterRegistry Unit) (clock : RateLimitDimension → Reading)
    (clientIp : String) (caller route : String × Option BucketConfig)
    {bucket : RateLimitDimension × String} (hbucket : bucket.1 ≠ .perIp) :
    opened (preChain openGovernor r clock clientIp caller route).1 bucket ↔
      (opened r bucket ∨ (bucket = (.perKey, caller.1) ∧ caller.2.isSome)) ∨
        (bucket = (.perRoute, route.1) ∧ route.2.isSome) := by
  have hip : ∀ cfg : Option BucketConfig, ¬ (bucket = (.perIp, clientIp) ∧ cfg.isSome) :=
    fun _ h => hbucket (congrArg Prod.fst h.1)
  obtain ⟨hok, hcaller⟩ := gate_open r .perKey caller.1 caller.2 (clock .perKey) bucket
  rw [preChain, next_ok hok, ← hcaller]
  generalize (r.gate openGovernor .perKey caller.1 caller.2 (clock .perKey)).1 = r
  obtain ⟨hok, hroute⟩ := gate_open r .perRoute route.1 route.2 (clock .perRoute) bucket
  rw [next_ok hok, ← hroute]
  generalize (r.gate openGovernor .perRoute route.1 route.2 (clock .perRoute)).1 = r
  exact (gate_open r .perIp clientIp r.perIp (clock .perIp) bucket).2.trans
    (or_iff_left (hip r.perIp))

theorem policy_limiterFor (cfg : RateLimitConfig) :
    (limiterFor cfg : LimiterRegistry L).policy = limiterFor cfg := by
  unfold limiterFor
  split <;> rfl

/-- A check at the limiter of a configuration opens nothing where rate limits are off,
else the buckets it names. -/
theorem opened_checkPreChain (cfg : RateLimitConfig) (clock : RateLimitDimension → Reading)
    (identity : AgentIdentity) (label clientIp : String)
    {bucket : RateLimitDimension × String} (hbucket : bucket.1 ≠ .perIp)
    (h : opened ((limiterFor cfg).checkPreChain openGovernor clock identity label clientIp).1
      bucket) :
    cfg.enabled = true ∧ (bucket = (.perKey, identity.logId) ∨ bucket = (.perRoute, label)) := by
  have hempty : ∀ bucket, ¬ opened (limiterFor cfg : LimiterRegistry Unit) bucket := by
    intro bucket hopen
    unfold opened limiterFor at hopen
    split at hopen <;> cases hopen
  cases henabled : cfg.enabled with
  | false =>
    have hoff : (limiterFor cfg : LimiterRegistry Unit).enabled = false := by
      rw [limiterFor, henabled]
      rfl
    rw [checkPreChain, hoff] at h
    exact absurd h (hempty bucket)
  | true =>
    have hon := (enabled_of_policy (policy_limiterFor (L := Unit) cfg) henabled).2
    rw [checkPreChain_enabled hon, opened_preChain _ _ _ _ _ hbucket] at h
    rcases h with (h | h) | h
    · exact absurd h (hempty bucket)
    · exact ⟨rfl, Or.inl h.1⟩
    · exact ⟨rfl, Or.inr h.1⟩

/-- The clock that stands still. -/
def atZero (_ : RateLimitDimension) : Reading where
  asked := 0
  answered := 0

theorem eq_of_chargesRoute {cfg : RateLimitConfig} {label key : String} {bucket : BucketConfig}
    (h : ChargesRoute cfg label key bucket) : cfg.enabled = true ∧ label = key := by
  have hdim : RateLimitDimension.perRoute ≠ .perIp := by decide
  have hcheck := h Unit openGovernor (limiterFor cfg) (policy_limiterFor cfg) atZero .anonymous ""
  have hopen : opened ((limiterFor cfg).checkPreChain openGovernor atZero .anonymous label "").1
      (.perRoute, key) := by
    rw [hcheck, opened_preChain _ _ _ _ _ hdim]
    exact Or.inr ⟨rfl, rfl⟩
  obtain ⟨henabled, hbucket⟩ := opened_checkPreChain cfg atZero .anonymous label "" hdim hopen
  refine ⟨henabled, ?_⟩
  rcases hbucket with hkey | hroute
  · cases (Prod.mk.inj hkey).1
  · exact (Prod.mk.inj hroute).2.symm

theorem eq_of_chargesKey {cfg : RateLimitConfig} {identity : AgentIdentity} {key : String}
    {bucket : BucketConfig} (h : ChargesKey cfg identity key bucket) :
    cfg.enabled = true ∧ identity.logId = key := by
  have hdim : RateLimitDimension.perKey ≠ .perIp := by decide
  have hcheck := h Unit openGovernor (limiterFor cfg) (policy_limiterFor cfg) atZero "" ""
  have hopen : opened ((limiterFor cfg).checkPreChain openGovernor atZero identity "" "").1
      (.perKey, key) := by
    rw [hcheck, opened_preChain _ _ _ _ _ hdim]
    exact Or.inl (Or.inr ⟨rfl, rfl⟩)
  obtain ⟨henabled, hbucket⟩ := opened_checkPreChain cfg atZero identity "" "" hdim hopen
  refine ⟨henabled, ?_⟩
  rcases hbucket with hkey | hroute
  · exact (Prod.mk.inj hkey).2.symm
  · cases (Prod.mk.inj hroute).1

end AgentShim.Gateway
