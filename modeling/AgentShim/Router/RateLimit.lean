import AgentShim.Config.Schema
import AgentShim.Router.CircuitBreaker
import Mathlib.Data.List.AList

/-
  Token-bucket rate limits

  The limiter registry holds the bucket policies of one configuration and the
  buckets opened so far, one per dimension and key. A check opens its bucket on
  first use and asks the bucket for one token. The buckets themselves are the
  `governor` crate's: a parameter with its two operations.

  What is proved:
    1. `checkPreChain_policy`, `checkPerUpstream_policy` — a check moves the
       buckets only; the policies stay those the registry was built with.
    2. `disabled_checkPreChain`, `disabled_checkPerUpstream` — a disabled
       registry admits everything and opens no bucket.

  Correspondence (Rust ↔ Lean):
    `BucketConfig::quota`       ↔ `BucketConfig.quota`
    `LimiterRegistry`           ↔ `LimiterRegistry`; its lock-guarded map is the
                                  field `buckets`, which every check returns
    `get_or_create`, `check_bucket` ↔ `getOrCreate`, `checkBucket`
    `check_pre_chain`, `check_per_upstream` ↔ `checkPreChain`, `checkPerUpstream`
  A bucket is asked at one reading of the clock and its wait is measured from a
  second one.
-/

namespace AgentShim.RateLimit

open AgentShim.Config AgentShim.CircuitBreaker

inductive RateLimitDimension
  | perKey
  | perRoute
  | perUpstream
  | perIp
  deriving DecidableEq, Repr

/-- Identity tied to a request: none, or the hash of the presented key. -/
inductive AgentIdentity
  | anonymous
  | keyHash (h : String)
  deriving DecidableEq, Repr

def AgentIdentity.logId : AgentIdentity → String
  | anonymous => "anonymous"
  | keyHash h => h

/-- Configuration of a single bucket. -/
structure BucketConfig where
  ratePerSec : Nat
  burst : Nat
  deriving DecidableEq, Repr

/-- Replenishment rate and capacity, both non-zero. -/
structure Quota where
  perSecond : Nat
  burst : Nat
  perSecond_pos : 0 < perSecond
  burst_pos : 0 < burst
  deriving DecidableEq, Repr

def BucketConfig.quota (c : BucketConfig) : Quota where
  perSecond := max c.ratePerSec 1
  burst := max c.burst 1
  perSecond_pos := Nat.lt_of_lt_of_le Nat.zero_lt_one (Nat.le_max_right _ _)
  burst_pos := Nat.lt_of_lt_of_le Nat.zero_lt_one (Nat.le_max_right _ _)

def BucketConfig.ofYaml (c : BucketConfigYaml) : BucketConfig where
  ratePerSec := c.ratePerSec
  burst := c.burst

/-- The `governor` crate: a bucket opened at an instant, and one check of it,
which takes a token or answers the earliest instant it would. -/
structure Governor (L : Type*) where
  direct : Quota → Instant → L
  check : L → Instant → L × Option Instant

inductive LimitOutcome
  | allowed
  | limited (retryAfterSecs : Nat)
  deriving DecidableEq, Repr

/-- The two clock readings of a bucket's check. -/
structure Reading where
  asked : Instant
  answered : Instant
  deriving DecidableEq, Repr

structure LimiterRegistry (L : Type*) where
  buckets : AList fun _ : RateLimitDimension × String => L
  defaultPerKey : Option BucketConfig
  anonymous : Option BucketConfig
  perKeyOverrides : OrdMap BucketConfig
  perRoute : OrdMap BucketConfig
  perUpstream : OrdMap BucketConfig
  perIp : Option BucketConfig
  enabled : Bool

namespace LimiterRegistry

variable {L : Type*}

def fromConfig (cfg : RateLimitConfig) : LimiterRegistry L where
  buckets := ∅
  defaultPerKey := cfg.perKey.default.map BucketConfig.ofYaml
  anonymous := cfg.perKey.anonymous.map BucketConfig.ofYaml
  perKeyOverrides := cfg.perKey.overrides.mapValues BucketConfig.ofYaml
  perRoute := cfg.perRoute.mapValues BucketConfig.ofYaml
  perUpstream := cfg.perUpstream.mapValues BucketConfig.ofYaml
  perIp :=
    if cfg.perIp.enabled then
      some { ratePerSec := cfg.perIp.ratePerSec, burst := cfg.perIp.burst }
    else none
  enabled := cfg.enabled

/-- The registry of a configuration without rate limits. -/
def disabled : LimiterRegistry L where
  buckets := ∅
  defaultPerKey := none
  anonymous := none
  perKeyOverrides := .empty
  perRoute := .empty
  perUpstream := .empty
  perIp := none
  enabled := false

/-! ## One bucket -/

def getOrCreate (g : Governor L) (r : LimiterRegistry L) (dim : RateLimitDimension)
    (key : String) (cfg : BucketConfig) (now : Instant) : L :=
  match r.buckets.lookup (dim, key) with
  | some l => l
  | none => g.direct cfg.quota now

/-- The wait until an instant, in whole seconds rounded up, at least one. -/
def retryAfterSecs (earliest now : Instant) : Nat :=
  let wait := durationSince earliest now
  let secs := wait / 1000000000 + (if 0 < wait % 1000000000 then 1 else 0)
  asU32 (max secs 1)

/-- Asks the bucket of a key for one token. -/
def checkBucket (g : Governor L) (r : LimiterRegistry L) (dim : RateLimitDimension)
    (key : String) (cfg : BucketConfig) (t : Reading) : LimiterRegistry L × LimitOutcome :=
  let answer := g.check (r.getOrCreate g dim key cfg t.asked) t.asked
  ({ r with buckets := r.buckets.insert (dim, key) answer.1 },
    match answer.2 with
    | none => .allowed
    | some earliest => .limited (retryAfterSecs earliest t.answered))

/-- A rejection names the dimension and the seconds to wait. -/
abbrev Rejection := RateLimitDimension × Nat

/-- One gate: nothing without a policy, else the bucket's answer. -/
def gate (g : Governor L) (r : LimiterRegistry L) (dim : RateLimitDimension) (key : String)
    (cfg : Option BucketConfig) (t : Reading) : LimiterRegistry L × Except Rejection Unit :=
  match cfg with
  | none => (r, .ok ())
  | some cfg =>
    match r.checkBucket g dim key cfg t with
    | (r', .allowed) => (r', .ok ())
    | (r', .limited secs) => (r', .error (dim, secs))

/-- The gates after one that admitted. -/
def next (a : LimiterRegistry L × Except Rejection Unit)
    (rest : LimiterRegistry L → LimiterRegistry L × Except Rejection Unit) :
    LimiterRegistry L × Except Rejection Unit :=
  match a with
  | (r, .error e) => (r, .error e)
  | (r, .ok ()) => rest r

/-! ## The gates of a request -/

/-- The bucket policy of an identity: its override, else the default. -/
def keyConfig (r : LimiterRegistry L) : AgentIdentity → Option BucketConfig
  | .keyHash h => (r.perKeyOverrides.get? h).or r.defaultPerKey
  | .anonymous => r.anonymous

/-- Per-key, per-route and per-IP gates, the first rejection wins. -/
def checkPreChain (g : Governor L) (r : LimiterRegistry L) (clock : RateLimitDimension → Reading)
    (identity : AgentIdentity) (frontendModel clientIp : String) :
    LimiterRegistry L × Except Rejection Unit :=
  if !r.enabled then (r, .ok ())
  else
    next (r.gate g .perKey identity.logId (r.keyConfig identity) (clock .perKey)) fun r =>
      next (r.gate g .perRoute frontendModel (r.perRoute.get? frontendModel) (clock .perRoute))
        fun r => r.gate g .perIp clientIp r.perIp (clock .perIp)

def checkPerUpstream (g : Governor L) (r : LimiterRegistry L) (t : Reading) (upstream : String) :
    LimiterRegistry L × Except Rejection Unit :=
  if !r.enabled then (r, .ok ())
  else r.gate g .perUpstream upstream (r.perUpstream.get? upstream) t

/-! ## What a check leaves unchanged -/

/-- The registry without its buckets. -/
def policy (r : LimiterRegistry L) : LimiterRegistry L := { r with buckets := ∅ }

theorem checkBucket_policy (g : Governor L) (r : LimiterRegistry L) (dim : RateLimitDimension)
    (key : String) (cfg : BucketConfig) (t : Reading) :
    (r.checkBucket g dim key cfg t).1.policy = r.policy := rfl

theorem gate_policy (g : Governor L) (r : LimiterRegistry L) (dim : RateLimitDimension)
    (key : String) (cfg : Option BucketConfig) (t : Reading) :
    (r.gate g dim key cfg t).1.policy = r.policy := by
  cases cfg with
  | none => rfl
  | some cfg =>
    have hsame := checkBucket_policy g r dim key cfg t
    rw [gate]
    split <;> rename_i heq <;> rw [heq] at hsame <;> exact hsame

theorem next_policy {a : LimiterRegistry L × Except Rejection Unit}
    {rest : LimiterRegistry L → LimiterRegistry L × Except Rejection Unit} {p : LimiterRegistry L}
    (ha : a.1.policy = p) (hrest : ∀ r, r.policy = p → (rest r).1.policy = p) :
    (next a rest).1.policy = p := by
  obtain ⟨r, answer⟩ := a
  cases answer with
  | error e => exact ha
  | ok u => exact hrest r ha

theorem checkPreChain_policy (g : Governor L) (r : LimiterRegistry L)
    (clock : RateLimitDimension → Reading) (identity : AgentIdentity)
    (frontendModel clientIp : String) :
    (r.checkPreChain g clock identity frontendModel clientIp).1.policy = r.policy := by
  unfold checkPreChain
  split
  · rfl
  · refine next_policy (gate_policy g r _ _ _ _) fun r₁ h₁ => ?_
    refine next_policy ((gate_policy g r₁ _ _ _ _).trans h₁) fun r₂ h₂ => ?_
    exact (gate_policy g r₂ _ _ _ _).trans h₂

theorem checkPerUpstream_policy (g : Governor L) (r : LimiterRegistry L) (t : Reading)
    (upstream : String) : (r.checkPerUpstream g t upstream).1.policy = r.policy := by
  unfold checkPerUpstream
  split
  · rfl
  · exact gate_policy g r .perUpstream upstream (r.perUpstream.get? upstream) t

theorem disabled_checkPreChain (g : Governor L) (clock : RateLimitDimension → Reading)
    (identity : AgentIdentity) (frontendModel clientIp : String) :
    checkPreChain g disabled clock identity frontendModel clientIp = (disabled, .ok ()) := rfl

theorem disabled_checkPerUpstream (g : Governor L) (t : Reading) (upstream : String) :
    checkPerUpstream g disabled t upstream = (disabled, .ok ()) := rfl

end LimiterRegistry

end AgentShim.RateLimit
