import AgentShim.Gateway.AnonymousBucket
import AgentShim.Gateway.BucketCharges

/-
  Runs of rate-limit checks

  All requests share one registry: checks before the chain and per-upstream
  checks in any order, of any callers, routes, addresses and upstreams. A check
  goes through its gates until one refuses; the later ones are not asked.

  What is proved:
    1. `perform_eq` — a check is its gates, one after the other.
    2. `bucket_alone` — in every run each bucket answers as it would on its own,
       to nobody but those who ask it.
    3. `admitted_window` — in every run and every window of time, the checks that
       were admitted and name a bucket are no more than its burst and what flows
       in during the window.
    4. `retry_after_suffices` — a refusal always says one second, and who waits
       that long is not refused by the same bucket again, unless others have
       asked it meanwhile.

  Correspondence (Rust ↔ Lean):
    `LimiterRegistry::check_pre_chain`, `check_per_upstream` ↔ `Check.perform`
    `governor`'s earliest conforming instant ↔ `IsExactBucket.earliest`
  The checks of a run are taken in the order of their buckets' updates, and the
  clock does not go back between them.
-/

namespace AgentShim.Gateway

open AgentShim.CircuitBreaker AgentShim.Config AgentShim.RateLimit LimiterRegistry

variable {L : Type}

abbrev BucketId := RateLimitDimension × String

/-- A call of one of the two checks, with its readings of the clock. -/
inductive Check
  | preChain (clock : RateLimitDimension → Reading) (identity : AgentIdentity)
      (frontendModel clientIp : String)
  | perUpstream (reading : Reading) (upstream : String)

def Check.perform (g : Governor L) (r : LimiterRegistry L) :
    Check → LimiterRegistry L × Except Rejection Unit
  | .preChain clock identity frontendModel clientIp =>
    r.checkPreChain g clock identity frontendModel clientIp
  | .perUpstream reading upstream => r.checkPerUpstream g reading upstream

/-- A bucket that a check asks, where it has a policy. -/
structure Gate where
  bucket : BucketId
  policy : Option BucketConfig
  reading : Reading

/-- The policy of a bucket. -/
def policyOf (r : LimiterRegistry L) : BucketId → Option BucketConfig
  | (.perKey, key) =>
    if key = "anonymous" then r.anonymous else (r.perKeyOverrides.get? key).or r.defaultPerKey
  | (.perRoute, route) => r.perRoute.get? route
  | (.perUpstream, upstream) => r.perUpstream.get? upstream
  | (.perIp, _) => r.perIp

/-- The buckets a check names, in the order of its gates. -/
def Check.names : Check → List (BucketId × Reading)
  | .preChain clock identity frontendModel clientIp =>
    [((.perKey, identity.logId), clock .perKey), ((.perRoute, frontendModel), clock .perRoute),
      ((.perIp, clientIp), clock .perIp)]
  | .perUpstream reading upstream => [((.perUpstream, upstream), reading)]

/-- The digest of a key is not the word that stands for no key. -/
def Check.Hashed : Check → Prop
  | .preChain _ identity _ _ => identity ≠ .keyHash "anonymous"
  | .perUpstream _ _ => True

def gates (r : LimiterRegistry L) (c : Check) : List Gate :=
  if r.enabled then c.names.map fun n => ⟨n.1, policyOf r n.1, n.2⟩ else []

/-- The gates one after the other, up to the first that refuses. -/
def throughGates (g : Governor L) :
    List Gate → LimiterRegistry L → LimiterRegistry L × Except Rejection Unit
  | [], r => (r, .ok ())
  | ga :: rest, r =>
    next (r.gate g ga.bucket.1 ga.bucket.2 ga.policy ga.reading) (throughGates g rest)

/-- One request for a token. -/
structure Ask where
  bucket : BucketId
  asked : Instant
  granted : Bool
  deriving DecidableEq, Repr

/-- What the gates ask. -/
def asks (g : Governor L) : List Gate → LimiterRegistry L → List Ask
  | [], _ => []
  | ga :: rest, r =>
    match ga.policy with
    | none => asks g rest r
    | some cfg =>
      let answer := r.checkBucket g ga.bucket.1 ga.bucket.2 cfg ga.reading
      ⟨ga.bucket, ga.reading.asked, answer.2 == .allowed⟩ ::
        if answer.2 == .allowed then asks g rest answer.1 else []

/-- The registry after a run of checks. -/
def afterChecks (g : Governor L) : List Check → LimiterRegistry L → LimiterRegistry L
  | [], r => r
  | c :: cs, r => afterChecks g cs (c.perform g r).1

/-- All that the checks of a run ask. -/
def trace (g : Governor L) : List Check → LimiterRegistry L → List Ask
  | [], _ => []
  | c :: cs, r => asks g (gates r c) r ++ trace g cs (c.perform g r).1

/-- The times at which a bucket was asked by the checks that are admitted. -/
def admittedAt (g : Governor L) (k : BucketId) : List Check → LimiterRegistry L → List Instant
  | [], _ => []
  | c :: cs, r =>
    (match (c.perform g r).2 with
      | .ok () => ((gates r c).filter fun ga => ga.bucket == k && ga.policy.isSome).map
          fun ga => ga.reading.asked
      | .error _ => []) ++
    admittedAt g k cs (c.perform g r).1

/-- A bucket with its policy, full at its first use, asked at the given times. -/
def aloneFrom (cfg : BucketConfig) : Option Tokens.Bucket → List Instant → List Bool
  | _, [] => []
  | b, t :: ts =>
    let b := b.getD (.full 1000000000 cfg.quota.perSecond cfg.quota.burst t)
    b.grants t :: aloneFrom cfg (some (b.ask t)) ts

def alone (cfg : BucketConfig) (ts : List Instant) : List Bool := aloneFrom cfg none ts

/-- The asks of one bucket. -/
def ofBucket (k : BucketId) (as : List Ask) : List Ask := as.filter fun a => a.bucket == k

/-! ## A check is its gates -/

theorem perform_policy (g : Governor L) (r : LimiterRegistry L) (c : Check) :
    (c.perform g r).1.policy = r.policy := by
  cases c with
  | preChain clock identity frontendModel clientIp =>
    exact checkPreChain_policy g r clock identity frontendModel clientIp
  | perUpstream reading upstream => exact checkPerUpstream_policy g r reading upstream

theorem policyOf_policy (r : LimiterRegistry L) (k : BucketId) :
    policyOf r.policy k = policyOf r k := by
  obtain ⟨dim, key⟩ := k
  cases dim <;> rfl

theorem next_ok_right (a : LimiterRegistry L × Except Rejection Unit) :
    next a (fun r => (r, .ok ())) = a := by
  obtain ⟨r, answer⟩ := a
  cases answer <;> rfl

theorem keyConfig_eq (r : LimiterRegistry L) {identity : AgentIdentity}
    (h : identity ≠ .keyHash "anonymous") :
    r.keyConfig identity = policyOf r (.perKey, identity.logId) := by
  cases identity with
  | anonymous => simp [keyConfig, policyOf, AgentIdentity.logId]
  | keyHash key =>
    have hne : key ≠ "anonymous" := fun heq => h (by rw [heq])
    simp [keyConfig, policyOf, AgentIdentity.logId, hne]

theorem perform_eq (g : Governor L) (r : LimiterRegistry L) {c : Check} (hc : c.Hashed) :
    c.perform g r = throughGates g (gates r c) r := by
  cases henabled : r.enabled with
  | false =>
    cases c <;> simp [Check.perform, checkPreChain, checkPerUpstream, gates, henabled, throughGates]
  | true =>
    cases c with
    | preChain clock identity frontendModel clientIp =>
      simp only [gates, henabled, if_true, Check.names, List.map_cons, List.map_nil, throughGates,
        next_ok_right]
      show r.checkPreChain g clock identity frontendModel clientIp = _
      rw [checkPreChain_enabled henabled, preChain, keyConfig_eq r hc]
      refine next_congr (next_congr ?_)
      -- the first two gates leave the policy of addresses alone
      have hip : ∀ r' : LimiterRegistry L, r'.policy = r.policy → r'.perIp = r.perIp := by
        intro r' h
        calc r'.perIp
            = r'.policy.perIp := rfl
          _ = r.perIp := by rw [h]; rfl
      rw [hip _ ((gate_policy g _ _ _ _ _).trans (gate_policy g r _ _ _ _))]
      rfl
    | perUpstream reading upstream =>
      simp only [gates, henabled, if_true, Check.names, List.map_cons, List.map_nil, throughGates,
        next_ok_right]
      simp [Check.perform, checkPerUpstream, henabled, policyOf]

/-! ## One bucket -/

variable {sim : L → Tokens.Bucket → Prop} {g : Governor L}

/-- What the registry holds for a bucket stands for the token bucket, or nothing
was asked of it yet. -/
def Tracks (sim : L → Tokens.Bucket → Prop) (r : LimiterRegistry L) (k : BucketId) :
    Option Tokens.Bucket → Prop
  | none => r.buckets.lookup k = none
  | some b => ∃ l, r.buckets.lookup k = some l ∧ sim l b

/-- The token bucket that an ask at a time meets. -/
def met (cfg : BucketConfig) (b : Option Tokens.Bucket) (t : Instant) : Tokens.Bucket :=
  b.getD (.full 1000000000 cfg.quota.perSecond cfg.quota.burst t)

/-- The token bucket after asks at the given times. -/
def afterAsks (cfg : BucketConfig) : Option Tokens.Bucket → List Instant → Option Tokens.Bucket
  | b, [] => b
  | b, t :: ts => afterAsks cfg (some ((met cfg b t).ask t)) ts

theorem aloneFrom_cons (cfg : BucketConfig) (b : Option Tokens.Bucket) (t : Instant)
    (ts : List Instant) :
    aloneFrom cfg b (t :: ts) =
      (met cfg b t).grants t :: aloneFrom cfg (some ((met cfg b t).ask t)) ts := rfl

theorem aloneFrom_append (cfg : BucketConfig) (b : Option Tokens.Bucket) (ts us : List Instant) :
    aloneFrom cfg b (ts ++ us) = aloneFrom cfg b ts ++ aloneFrom cfg (afterAsks cfg b ts) us := by
  induction ts generalizing b with
  | nil => rfl
  | cons t ts ih => rw [List.cons_append, aloneFrom_cons, ih, aloneFrom_cons]; rfl

theorem afterAsks_append (cfg : BucketConfig) (b : Option Tokens.Bucket) (ts us : List Instant) :
    afterAsks cfg b (ts ++ us) = afterAsks cfg (afterAsks cfg b ts) us := by
  induction ts generalizing b with
  | nil => rfl
  | cons t ts ih => exact ih _

/-- The bucket was not asked after any of the times. -/
def Before (b : Option Tokens.Bucket) (ts : List Instant) : Prop :=
  ∀ b' ∈ b, ∀ t ∈ ts, b'.since ≤ t

/-- The registry's bucket, opened now if it is new, stands for the bucket met. -/
theorem tracks_met (hg : IsTokenBucket g sim) {r : LimiterRegistry L} {k : BucketId}
    {b : Option Tokens.Bucket} (cfg : BucketConfig) {t : Instant} (h : Tracks sim r k b)
    (hsince : ∀ b' ∈ b, b'.since ≤ t) :
    sim (r.getOrCreate g k.1 k.2 cfg t) (met cfg b t) ∧ (met cfg b t).since ≤ t := by
  cases b with
  | none =>
    have hnone : r.buckets.lookup (k.1, k.2) = none := h
    rw [getOrCreate, hnone]
    exact ⟨hg.direct _ _, le_refl _⟩
  | some b =>
    obtain ⟨l, hl, hsim⟩ := h
    have hsome : r.buckets.lookup (k.1, k.2) = some l := hl
    rw [getOrCreate, hsome]
    exact ⟨hsim, hsince b rfl⟩

theorem tracks_ask (hg : IsTokenBucket g sim) {r : LimiterRegistry L} {k : BucketId}
    {b : Option Tokens.Bucket} (cfg : BucketConfig) (t : Reading) (h : Tracks sim r k b)
    (hsince : ∀ b' ∈ b, b'.since ≤ t.asked) :
    let answer := r.checkBucket g k.1 k.2 cfg t
    (answer.2 == .allowed) = (met cfg b t.asked).grants t.asked ∧
      Tracks sim answer.1 k (some ((met cfg b t.asked).ask t.asked)) := by
  intro answer
  obtain ⟨hmet, hnow⟩ := tracks_met hg cfg h hsince
  obtain ⟨hnext, hgrant⟩ := hg.check _ _ _ hmet hnow
  refine ⟨?_, _, AList.lookup_insert _, hnext⟩
  apply Bool.eq_iff_iff.mpr
  rw [← hgrant]
  cases hcheck : (g.check (r.getOrCreate g k.1 k.2 cfg t.asked) t.asked).2 with
  | none => simp [answer, LimiterRegistry.checkBucket, hcheck]
  | some e => simp [answer, LimiterRegistry.checkBucket, hcheck]

theorem tracks_other {r : LimiterRegistry L} {k k' : BucketId} {b : Option Tokens.Bucket}
    (cfg : BucketConfig) (t : Reading) (hne : k' ≠ k) (h : Tracks sim r k' b) :
    Tracks sim (r.checkBucket g k.1 k.2 cfg t).1 k' b := by
  have hsame : (r.checkBucket g k.1 k.2 cfg t).1.buckets.lookup k' = r.buckets.lookup k' :=
    AList.lookup_insert_ne hne
  cases b with
  | none => exact hsame.trans h
  | some b =>
    obtain ⟨l, hl, hsim⟩ := h
    exact ⟨l, hsame.trans hl, hsim⟩

/-- The gates that are still asked after an answer. -/
def remaining (allowed : Bool) (gs : List Gate) : List Gate := if allowed then gs else []

theorem gate_some (g : Governor L) (r : LimiterRegistry L) (ga : Gate) {cfg : BucketConfig}
    (h : ga.policy = some cfg) (rest : List Gate) :
    let answer := r.checkBucket g ga.bucket.1 ga.bucket.2 cfg ga.reading
    let allowed := answer.2 == .allowed
    asks g (ga :: rest) r =
        ⟨ga.bucket, ga.reading.asked, allowed⟩ :: asks g (remaining allowed rest) answer.1 ∧
      (throughGates g (ga :: rest) r).1 =
        (throughGates g (remaining allowed rest) answer.1).1 ∧
      ((throughGates g (ga :: rest) r).2 = .ok () ↔
        allowed = true ∧ (throughGates g rest answer.1).2 = .ok ()) := by
  intro answer allowed
  have hgate : throughGates g (ga :: rest) r =
      next (match answer with
        | (r', .allowed) => (r', .ok ())
        | (r', .limited secs) => (r', .error (ga.bucket.1, secs))) (throughGates g rest) := by
    simp only [throughGates, gate, h]
    rfl
  have hasks : asks g (ga :: rest) r = ⟨ga.bucket, ga.reading.asked, allowed⟩ ::
      if allowed then asks g rest answer.1 else [] := by
    simp only [asks, h]
    rfl
  rw [hgate, hasks]
  rcases hanswer : answer with ⟨r', outcome⟩
  have hallowed : allowed = (outcome == .allowed) := congrArg (·.2 == LimitOutcome.allowed) hanswer
  cases outcome with
  | allowed => simp [hallowed, next, remaining]
  | limited secs => simp [hallowed, next, remaining, asks, throughGates]

theorem gate_none (g : Governor L) (r : LimiterRegistry L) (ga : Gate) (h : ga.policy = none)
    (rest : List Gate) :
    asks g (ga :: rest) r = asks g rest r ∧
      throughGates g (ga :: rest) r = throughGates g rest r := by
  constructor
  · simp only [asks, h]
  · simp only [throughGates, gate, h]
    rfl

/-- The asks of a check, seen from one bucket. -/
theorem asks_spec (hg : IsTokenBucket g sim) {k : BucketId} {cfg : BucketConfig}
    {gs : List Gate} (hpolicy : ∀ ga ∈ gs, ga.bucket = k → ga.policy.getD cfg = cfg)
    {r : LimiterRegistry L} {b : Option Tokens.Bucket} (h : Tracks sim r k b)
    (hsorted : ((ofBucket k (asks g gs r)).map Ask.asked).Pairwise (· ≤ ·))
    (hbefore : Before b ((ofBucket k (asks g gs r)).map Ask.asked)) :
    let mine := ofBucket k (asks g gs r)
    mine.map Ask.granted = aloneFrom cfg b (mine.map Ask.asked) ∧
      Tracks sim (throughGates g gs r).1 k (afterAsks cfg b (mine.map Ask.asked)) := by
  induction gs generalizing r b with
  | nil => exact ⟨rfl, h⟩
  | cons ga rest ih =>
    have hrest := fun ga' hga' => hpolicy ga' (List.mem_cons_of_mem _ hga')
    cases hcfg : ga.policy with
    | none =>
      obtain ⟨hasks, hthrough⟩ := gate_none g r ga hcfg rest
      rw [hthrough]
      rw [hasks] at hsorted hbefore ⊢
      exact ih hrest h hsorted hbefore
    | some cfg' =>
      obtain ⟨hasks, hthrough, -⟩ := gate_some g r ga hcfg rest
      rw [hthrough]
      rw [hasks] at hsorted hbefore ⊢
      set answer := r.checkBucket g ga.bucket.1 ga.bucket.2 cfg' ga.reading
      -- a refusal ends the gates: nothing is asked and nothing changes
      have hmore : ∀ {b' : Option Tokens.Bucket}, Tracks sim answer.1 k b' →
          let mine := ofBucket k (asks g (remaining (answer.2 == .allowed) rest) answer.1)
          (mine.map Ask.asked).Pairwise (· ≤ ·) → Before b' (mine.map Ask.asked) →
          mine.map Ask.granted = aloneFrom cfg b' (mine.map Ask.asked) ∧
            Tracks sim (throughGates g (remaining (answer.2 == .allowed) rest) answer.1).1 k
              (afterAsks cfg b' (mine.map Ask.asked)) := by
        intro b' hb'
        cases answer.2 == .allowed with
        | true => exact ih hrest hb'
        | false => exact fun _ _ => ⟨rfl, hb'⟩
      by_cases hk : ga.bucket = k
      · obtain rfl : cfg' = cfg := by simpa [hcfg] using hpolicy ga List.mem_cons_self hk
        have hmine : ∀ rest' : List Ask, ofBucket k (⟨ga.bucket, ga.reading.asked,
            answer.2 == .allowed⟩ :: rest') =
              ⟨ga.bucket, ga.reading.asked, answer.2 == .allowed⟩ :: ofBucket k rest' := by
          intro rest'
          simp [ofBucket, hk]
        rw [hmine, List.map_cons] at hsorted hbefore
        obtain ⟨hlater, hsorted⟩ := List.pairwise_cons.mp hsorted
        subst hk
        obtain ⟨hgranted, htracks⟩ := tracks_ask hg cfg' ga.reading h
          fun b' hb' => hbefore b' hb' _ List.mem_cons_self
        obtain ⟨hih, hend⟩ := hmore htracks hsorted fun b' hb' t ht => by
          rw [← Option.some.inj hb']
          exact hlater t ht
        rw [hmine]
        refine ⟨?_, hend⟩
        rw [List.map_cons, List.map_cons, hih, aloneFrom_cons]
        exact congrArg (· :: _) hgranted
      · have hmine : ∀ rest' : List Ask, ofBucket k (⟨ga.bucket, ga.reading.asked,
            answer.2 == .allowed⟩ :: rest') = ofBucket k rest' := by
          intro rest'
          simp [ofBucket, hk]
        rw [hmine] at hsorted hbefore ⊢
        exact hmore (tracks_other cfg' ga.reading (Ne.symm hk) h) hsorted hbefore

/-! ## Runs -/

theorem policy_of_mem_gates {r : LimiterRegistry L} {c : Check} {ga : Gate}
    (h : ga ∈ gates r c) : ga.policy = policyOf r ga.bucket := by
  unfold gates at h
  split at h
  · obtain ⟨n, -, rfl⟩ := List.mem_map.mp h
    rfl
  · simp at h

theorem policyOf_perform (g : Governor L) (r : LimiterRegistry L) (c : Check) :
    policyOf (c.perform g r).1 = policyOf r := by
  funext k
  rw [← policyOf_policy, perform_policy, policyOf_policy]

theorem ofBucket_append (k : BucketId) (as bs : List Ask) :
    ofBucket k (as ++ bs) = ofBucket k as ++ ofBucket k bs := List.filter_append ..

theorem afterAsks_since {cfg : BucketConfig} {b : Option Tokens.Bucket} {ts : List Instant}
    {t : Instant} (hbefore : ∀ b' ∈ b, b'.since ≤ t) (hle : ∀ s ∈ ts, s ≤ t) :
    ∀ b' ∈ afterAsks cfg b ts, b'.since ≤ t := by
  induction ts generalizing b with
  | nil => exact hbefore
  | cons s ts ih =>
    refine ih (fun b' hb' => ?_) fun s' hs' => hle s' (List.mem_cons_of_mem _ hs')
    rw [← Option.some.inj hb']
    exact hle s List.mem_cons_self

/-- A run of checks, seen from one bucket. -/
theorem trace_spec (hg : IsTokenBucket g sim) {k : BucketId} {cfg : BucketConfig}
    {cs : List Check} (hhashed : ∀ c ∈ cs, c.Hashed) {r : LimiterRegistry L}
    (hpolicy : policyOf r k = some cfg) {b : Option Tokens.Bucket} (h : Tracks sim r k b)
    (hsorted : ((ofBucket k (trace g cs r)).map Ask.asked).Pairwise (· ≤ ·))
    (hbefore : Before b ((ofBucket k (trace g cs r)).map Ask.asked)) :
    let mine := ofBucket k (trace g cs r)
    mine.map Ask.granted = aloneFrom cfg b (mine.map Ask.asked) ∧
      Tracks sim (afterChecks g cs r) k (afterAsks cfg b (mine.map Ask.asked)) := by
  induction cs generalizing r b with
  | nil => exact ⟨rfl, h⟩
  | cons c cs ih =>
    have hthis := hhashed c List.mem_cons_self
    have hgates : ∀ ga ∈ gates r c, ga.bucket = k → ga.policy.getD cfg = cfg := by
      intro ga hga hk
      rw [policy_of_mem_gates hga, hk, hpolicy]
      rfl
    simp only [trace, ofBucket_append, List.map_append] at hsorted hbefore ⊢
    obtain ⟨hfirst, hrest, hcross⟩ := List.pairwise_append.mp hsorted
    obtain ⟨hgranted, htracks⟩ := asks_spec hg hgates h hfirst
      fun b' hb' t ht => hbefore b' hb' t (List.mem_append_left _ ht)
    rw [← perform_eq g r hthis] at htracks
    obtain ⟨hih, hend⟩ := ih (fun c' hc' => hhashed c' (List.mem_cons_of_mem _ hc'))
      (by rw [policyOf_perform]; exact hpolicy) htracks hrest fun b' hb' t ht =>
        afterAsks_since (fun b'' hb'' => hbefore b'' hb'' t (List.mem_append_right _ ht))
          (fun s hs => hcross s hs t ht) b' hb'
    refine ⟨?_, ?_⟩
    · rw [hgranted, hih, aloneFrom_append]
    · rw [afterAsks_append]
      exact hend

theorem tracks_limiterFor (cfg : RateLimitConfig) (k : BucketId) :
    Tracks sim (limiterFor cfg) k none := by
  show (limiterFor cfg).buckets.lookup k = none
  unfold limiterFor
  split <;> rfl

/-- The asks of a bucket come in the order of the clock. -/
theorem sorted_ofBucket {as : List Ask} (h : (as.map Ask.asked).Pairwise (· ≤ ·))
    (k : BucketId) : ((ofBucket k as).map Ask.asked).Pairwise (· ≤ ·) :=
  h.sublist (List.filter_sublist.map _)

theorem ofBucket_limiterFor (hg : IsTokenBucket g sim) (cfg : RateLimitConfig) {cs : List Check}
    (hhashed : ∀ c ∈ cs, c.Hashed)
    (hclock : ((trace g cs (limiterFor cfg)).map Ask.asked).Pairwise (· ≤ ·)) {k : BucketId}
    {p : BucketConfig} (hpolicy : policyOf (limiterFor cfg : LimiterRegistry L) k = some p) :
    let mine := ofBucket k (trace g cs (limiterFor cfg))
    mine.map Ask.granted = alone p (mine.map Ask.asked) ∧
      Tracks sim (afterChecks g cs (limiterFor cfg)) k (afterAsks p none (mine.map Ask.asked)) :=
  trace_spec hg hhashed hpolicy (tracks_limiterFor cfg k) (sorted_ofBucket hclock k)
    fun _ hb => by simp at hb

/-- **Isolation.** In every run of checks each bucket answers as a token bucket
of its own that is asked at the same times and nothing else. -/
theorem bucket_alone (hg : IsTokenBucket g sim) (cfg : RateLimitConfig) {cs : List Check}
    (hhashed : ∀ c ∈ cs, c.Hashed)
    (hclock : ((trace g cs (limiterFor cfg)).map Ask.asked).Pairwise (· ≤ ·)) {k : BucketId}
    {p : BucketConfig} (hpolicy : policyOf (limiterFor cfg : LimiterRegistry L) k = some p) :
    (ofBucket k (trace g cs (limiterFor cfg))).map Ask.granted =
      alone p ((ofBucket k (trace g cs (limiterFor cfg))).map Ask.asked) :=
  (ofBucket_limiterFor hg cfg hhashed hclock hpolicy).1

/-! Anonymous requests where one a second may pass. -/

def anonymousAt (now : Instant) : Check :=
  .preChain (fun _ => { asked := now, answered := now }) .anonymous "openai_chat/gpt-4o" "192.0.2.1"

def oneAnonymous : BucketConfig := { ratePerSec := 1, burst := 1 }

theorem trace_openGate :
    trace tokenGovernor [anonymousAt 5, anonymousAt 7] (limiterFor openGate.rateLimit) =
      [⟨anonymousKey, 5, true⟩, ⟨anonymousKey, 7, false⟩] := rfl

theorem hashed_openGate : ∀ c ∈ [anonymousAt 5, anonymousAt 7], c.Hashed := by
  intro c hc
  simp only [List.mem_cons, List.not_mem_nil, or_false] at hc
  rcases hc with rfl | rfl <;> simp [anonymousAt, Check.Hashed]

theorem bucket_alone_openGate :
    (ofBucket anonymousKey (trace tokenGovernor [anonymousAt 5, anonymousAt 7]
      (limiterFor openGate.rateLimit))).map Ask.granted =
      alone oneAnonymous ((ofBucket anonymousKey (trace tokenGovernor [anonymousAt 5, anonymousAt 7]
        (limiterFor openGate.rateLimit))).map Ask.asked) :=
  bucket_alone isTokenBucket_tokenGovernor openGate.rateLimit hashed_openGate
    (by rw [trace_openGate]; decide) rfl

/-! ## What a bucket lets through -/

/-- The times at which a bucket grants what it is asked. -/
def grantedAt (as : List Ask) : List Instant := (as.filter Ask.granted).map Ask.asked

theorem grantedAt_eq_granted {cfg : BucketConfig} {b : Tokens.Bucket} {as : List Ask}
    (h : as.map Ask.granted = aloneFrom cfg (some b) (as.map Ask.asked)) :
    grantedAt as = b.granted (as.map Ask.asked) := by
  induction as generalizing b with
  | nil => rfl
  | cons a as ih =>
    rw [List.map_cons, List.map_cons, aloneFrom_cons, List.cons.injEq] at h
    obtain ⟨hfirst, hrest⟩ := h
    have hfirst : a.granted = b.grants a.asked := hfirst
    have hih : grantedAt as = (b.ask a.asked).granted (as.map Ask.asked) := ih hrest
    rw [List.map_cons, Tokens.Bucket.granted, ← hih, ← hfirst]
    cases hgr : a.granted <;> simp [grantedAt, hgr]

/-- An admitted check was granted a token by each bucket it names. -/
theorem admitted_granted {k : BucketId} {gs : List Gate} {r : LimiterRegistry L}
    (h : (throughGates g gs r).2 = .ok ()) :
    (gs.filter fun ga => ga.bucket == k && ga.policy.isSome).map (fun ga => ga.reading.asked) =
      grantedAt (ofBucket k (asks g gs r)) := by
  induction gs generalizing r with
  | nil => rfl
  | cons ga rest ih =>
    cases hcfg : ga.policy with
    | none =>
      obtain ⟨hasks, hthrough⟩ := gate_none g r ga hcfg rest
      rw [hthrough] at h
      rw [hasks, List.filter_cons_of_neg (by simp [hcfg])]
      exact ih h
    | some cfg =>
      obtain ⟨hasks, -, hok⟩ := gate_some g r ga hcfg rest
      obtain ⟨hallowed, hrest⟩ := hok.mp h
      rw [hasks, hallowed]
      have hih := ih hrest
      by_cases hk : ga.bucket = k
      · simp only [ofBucket, grantedAt] at hih ⊢
        simp [hcfg, hk, hih, remaining]
      · simp only [ofBucket, grantedAt] at hih ⊢
        simp [hcfg, hk, hih, remaining]

theorem grantedAt_append (as bs : List Ask) :
    grantedAt (as ++ bs) = grantedAt as ++ grantedAt bs := by
  simp [grantedAt]

theorem admittedAt_sublist {k : BucketId} {cs : List Check} (hhashed : ∀ c ∈ cs, c.Hashed)
    (r : LimiterRegistry L) :
    (admittedAt g k cs r).Sublist (grantedAt (ofBucket k (trace g cs r))) := by
  induction cs generalizing r with
  | nil => exact List.Sublist.refl _
  | cons c cs ih =>
    have hrest := ih (fun c' hc' => hhashed c' (List.mem_cons_of_mem _ hc')) (c.perform g r).1
    rw [trace, ofBucket_append, grantedAt_append, admittedAt]
    refine List.Sublist.append ?_ hrest
    cases hanswer : (c.perform g r).2 with
    | error e => exact List.nil_sublist _
    | ok u =>
      rw [perform_eq g r (hhashed c List.mem_cons_self)] at hanswer
      rw [← admitted_granted hanswer]

/-- **The window bound, for every bucket and every run.** -/
theorem admitted_window (hg : IsTokenBucket g sim) (cfg : RateLimitConfig) {cs : List Check}
    (hhashed : ∀ c ∈ cs, c.Hashed)
    (hclock : ((trace g cs (limiterFor cfg)).map Ask.asked).Pairwise (· ≤ ·)) {k : BucketId}
    {p : BucketConfig} (hpolicy : policyOf (limiterFor cfg : LimiterRegistry L) k = some p)
    {lo hi : Instant} (hwindow : lo ≤ hi) :
    (admittedAt g k cs (limiterFor cfg)).countP (fun t => lo ≤ t && t ≤ hi) * 1000000000 ≤
      p.quota.burst * 1000000000 + p.quota.perSecond * (hi - lo) := by
  obtain ⟨halone, -⟩ := ofBucket_limiterFor hg cfg hhashed hclock hpolicy
  have hsorted := sorted_ofBucket hclock k
  have hsub := admittedAt_sublist (g := g) (k := k) hhashed (limiterFor cfg)
  refine le_trans (Nat.mul_le_mul_right _ hsub.countP_le) ?_
  cases hmine : ofBucket k (trace g cs (limiterFor cfg)) with
  | nil => simp [grantedAt]
  | cons a as =>
    rw [hmine] at halone hsorted
    let b : Tokens.Bucket := .full 1000000000 p.quota.perSecond p.quota.burst a.asked
    have hfirst : ∀ t ∈ (a :: as).map Ask.asked, b.since ≤ t := by
      intro t ht
      rcases List.mem_cons.mp ht with rfl | ht
      · exact le_refl _
      · exact (List.pairwise_cons.mp hsorted).1 t ht
    -- the bucket is opened full by the first that asks it
    have hgranted : grantedAt (a :: as) = b.granted ((a :: as).map Ask.asked) :=
      grantedAt_eq_granted (show (a :: as).map Ask.granted = aloneFrom p (some b) _ from halone)
    rw [hgranted]
    exact Tokens.Bucket.granted_window hsorted hfirst (le_refl _) hwindow

theorem admitted_window_openGate :
    (admittedAt tokenGovernor anonymousKey [anonymousAt 5, anonymousAt 7]
      (limiterFor openGate.rateLimit)).countP (fun t => 0 ≤ t && t ≤ 9) * 1000000000 ≤
      oneAnonymous.quota.burst * 1000000000 + oneAnonymous.quota.perSecond * (9 - 0) :=
  admitted_window isTokenBucket_tokenGovernor openGate.rateLimit hashed_openGate
    (by rw [trace_openGate]; decide) rfl (by decide)

/-! ## The wait a refusal asks for -/

/-- The governor also says when: the earliest instant at which the bucket would
grant the request it refuses. -/
structure IsExactBucket (g : Governor L) (sim : L → Tokens.Bucket → Prop) : Prop
    extends IsTokenBucket g sim where
  earliest : ∀ l b now e, sim l b → b.since ≤ now → (g.check l now).2 = some e →
    ∀ t, now ≤ t → (b.ask now).grants t = true → e ≤ t

theorem retryAfterSecs_eq_one {earliest asked answered : Nat} (hread : asked ≤ answered)
    (h : earliest ≤ asked + 1000000000) : retryAfterSecs earliest answered = 1 := by
  have hwait : earliest - answered ≤ 1000000000 := by omega
  have hsecs : (earliest - answered) / 1000000000 +
      (if 0 < (earliest - answered) % 1000000000 then 1 else 0) ≤ 1 := by
    split <;> omega
  show asU32 (max ((earliest - answered) / 1000000000 +
    (if 0 < (earliest - answered) % 1000000000 then 1 else 0)) 1) = 1
  rw [Nat.max_eq_right hsecs]
  rfl

/-- The dimension of a refusal is that of a gate with a policy. -/
theorem gate_of_error {gs : List Gate} {r : LimiterRegistry L} {dim : RateLimitDimension}
    {n : Nat} (h : (throughGates g gs r).2 = .error (dim, n)) :
    ∃ ga ∈ gs, ga.bucket.1 = dim ∧ ga.policy.isSome := by
  induction gs generalizing r with
  | nil => simp [throughGates] at h
  | cons ga rest ih =>
    have hlater : (∃ ga ∈ rest, ga.bucket.1 = dim ∧ ga.policy.isSome) →
        ∃ ga' ∈ ga :: rest, ga'.bucket.1 = dim ∧ ga'.policy.isSome :=
      fun ⟨ga', hga', hdim⟩ => ⟨ga', List.mem_cons_of_mem _ hga', hdim⟩
    cases hcfg : ga.policy with
    | none =>
      rw [(gate_none g r ga hcfg rest).2] at h
      exact hlater (ih h)
    | some cfg =>
      simp only [throughGates, gate, hcfg] at h
      rcases hanswer : r.checkBucket g ga.bucket.1 ga.bucket.2 cfg ga.reading with ⟨r', outcome⟩
      rw [hanswer] at h
      cases outcome with
      | allowed => exact hlater (ih h)
      | limited secs =>
        simp only [next, Except.error.injEq, Prod.mk.injEq] at h
        exact ⟨ga, List.mem_cons_self, h.1, by simp [hcfg]⟩

/-- A gate that refuses names the wait; what comes after it is not asked. -/
theorem throughGates_limited {r r' : LimiterRegistry L} {ga : Gate} {cfg : BucketConfig}
    {secs : Nat} (hcfg : ga.policy = some cfg)
    (h : r.checkBucket g ga.bucket.1 ga.bucket.2 cfg ga.reading = (r', .limited secs))
    (rest : List Gate) : throughGates g (ga :: rest) r = (r', .error (ga.bucket.1, secs)) := by
  simp only [throughGates, gate, hcfg, h]
  rfl

theorem throughGates_allowed {r r' : LimiterRegistry L} {ga : Gate} {cfg : BucketConfig}
    (hcfg : ga.policy = some cfg)
    (h : r.checkBucket g ga.bucket.1 ga.bucket.2 cfg ga.reading = (r', .allowed))
    (rest : List Gate) : throughGates g (ga :: rest) r = throughGates g rest r' := by
  simp only [throughGates, gate, hcfg, h]
  rfl

/-- The token bucket is one of the policy. -/
def Shaped (cfg : BucketConfig) (b : Option Tokens.Bucket) : Prop :=
  ∀ b' ∈ b, b'.ticks = 1000000000 ∧ b'.perSecond = cfg.quota.perSecond ∧ b'.burst = cfg.quota.burst

theorem shaped_met {cfg : BucketConfig} {b : Option Tokens.Bucket} (h : Shaped cfg b)
    (t : Instant) : Shaped cfg (some (met cfg b t)) := by
  intro b' hb'
  obtain rfl := Option.some.inj hb'
  cases b with
  | none => exact ⟨rfl, rfl, rfl⟩
  | some b => exact h b rfl

theorem shaped_ask {cfg : BucketConfig} {b : Tokens.Bucket} (h : Shaped cfg (some b))
    (t : Instant) : Shaped cfg (some (b.ask t)) := by
  intro b' hb'
  obtain rfl := Option.some.inj hb'
  exact h b rfl

theorem shaped_afterAsks {cfg : BucketConfig} {b : Option Tokens.Bucket} (h : Shaped cfg b)
    (ts : List Instant) : Shaped cfg (afterAsks cfg b ts) := by
  induction ts generalizing b with
  | nil => exact h
  | cons t ts ih => exact ih (shaped_ask (shaped_met h t) t)

/-- The rate is at least a token a second, and the bucket holds at least one. -/
theorem grants_met_after_second {cfg : BucketConfig} {b : Option Tokens.Bucket}
    (h : Shaped cfg b) (t : Instant) {later : Instant} (hlater : t + 1000000000 ≤ later) :
    ((met cfg b t).ask t).grants later = true := by
  obtain ⟨hticks, hrate, hburst⟩ := shaped_met h t _ rfl
  apply Tokens.Bucket.grants_after_second
  · rw [hrate]
    exact cfg.quota.perSecond_pos
  · rw [hburst]
    exact cfg.quota.burst_pos
  · rw [hticks]
    exact hlater

/-- A bucket that refuses has less than a token, and says one second. -/
theorem checkBucket_limited (hg : IsExactBucket g sim) {r r' : LimiterRegistry L} {k : BucketId}
    {b : Option Tokens.Bucket} {cfg : BucketConfig} {t : Reading} (h : Tracks sim r k b)
    (hshape : Shaped cfg b) (hsince : ∀ b' ∈ b, b'.since ≤ t.asked)
    (hread : t.asked ≤ t.answered) {secs : Nat}
    (hanswer : r.checkBucket g k.1 k.2 cfg t = (r', .limited secs)) :
    secs = 1 ∧ (met cfg b t.asked).grants t.asked = false ∧
      Tracks sim r' k (some ((met cfg b t.asked).ask t.asked)) := by
  obtain ⟨hallowed, htracks⟩ := tracks_ask hg.toIsTokenBucket cfg t h hsince
  rw [hanswer] at hallowed htracks
  refine ⟨?_, hallowed.symm, htracks⟩
  obtain ⟨hmet, hnow⟩ := tracks_met hg.toIsTokenBucket cfg h hsince
  have houtcome := congrArg Prod.snd hanswer
  simp only [checkBucket] at houtcome
  cases he : (g.check (r.getOrCreate g k.1 k.2 cfg t.asked) t.asked).2 with
  | none => simp [he] at houtcome
  | some e =>
    simp only [he, LimitOutcome.limited.injEq] at houtcome
    have hsecond : ((met cfg b t.asked).ask t.asked).grants (t.asked + 1000000000) = true :=
      grants_met_after_second hshape t.asked (Nat.le_refl _)
    rw [← houtcome]
    exact retryAfterSecs_eq_one hread
      (hg.earliest _ _ _ e hmet hnow he _ (Nat.le_add_right _ _) hsecond)

/-- A check refused by one of its buckets. -/
theorem refused_spec (hg : IsExactBucket g sim) {gs : List Gate}
    (hdims : (gs.map fun ga => ga.bucket.1).Nodup) {k : BucketId} {t : Reading}
    {cfg : BucketConfig} (hmem : ⟨k, some cfg, t⟩ ∈ gs) {r : LimiterRegistry L}
    {b : Option Tokens.Bucket} (h : Tracks sim r k b) (hshape : Shaped cfg b)
    (hsince : ∀ b' ∈ b, b'.since ≤ t.asked) (hread : t.asked ≤ t.answered) {n : Nat}
    (herror : (throughGates g gs r).2 = .error (k.1, n)) :
    n = 1 ∧ (met cfg b t.asked).grants t.asked = false ∧
      Tracks sim (throughGates g gs r).1 k (some ((met cfg b t.asked).ask t.asked)) := by
  induction gs generalizing r with
  | nil => simp at hmem
  | cons ga rest ih =>
    obtain ⟨hfresh, hrest⟩ := List.nodup_cons.mp hdims
    rcases List.mem_cons.mp hmem with rfl | hlater
    · -- its own gate: an admission here would leave the refusal to another dimension
      rcases hanswer : r.checkBucket g k.1 k.2 cfg t with ⟨r', outcome⟩
      cases outcome with
      | allowed =>
        rw [throughGates_allowed rfl hanswer] at herror
        obtain ⟨ga, hga, hdim, -⟩ := gate_of_error herror
        exact absurd (List.mem_map.mpr ⟨ga, hga, hdim⟩) hfresh
      | limited secs =>
        rw [throughGates_limited rfl hanswer] at herror ⊢
        simp only [Except.error.injEq, Prod.mk.injEq, true_and] at herror
        rw [← herror]
        exact checkBucket_limited hg h hshape hsince hread hanswer
    · have hne : ga.bucket.1 ≠ k.1 := by
        intro heq
        exact hfresh (List.mem_map.mpr ⟨_, hlater, heq.symm⟩)
      cases hcfg : ga.policy with
      | none =>
        rw [(gate_none g r ga hcfg rest).2] at herror ⊢
        exact ih hrest hlater h herror
      | some cfg' =>
        have hother := tracks_other (g := g) (k := ga.bucket) cfg' ga.reading
          (fun heq => hne (by rw [heq])) h
        rcases hanswer : r.checkBucket g ga.bucket.1 ga.bucket.2 cfg' ga.reading with ⟨r', outcome⟩
        rw [hanswer] at hother
        cases outcome with
        | allowed =>
          rw [throughGates_allowed hcfg hanswer] at herror ⊢
          exact ih hrest hlater hother herror
        | limited secs =>
          rw [throughGates_limited hcfg hanswer] at herror
          simp only [Except.error.injEq, Prod.mk.injEq] at herror
          exact absurd herror.1 hne

theorem nodup_dims (r : LimiterRegistry L) (c : Check) :
    ((gates r c).map fun ga => ga.bucket.1).Nodup := by
  unfold gates
  split
  · cases c <;> simp [Check.names]
  · simp

theorem names_unique {c : Check} {k k' : BucketId} {t t' : Reading} (h : (k, t) ∈ c.names)
    (h' : (k', t') ∈ c.names) (hdim : k.1 = k'.1) : (k, t) = (k', t') := by
  cases c with
  | preChain clock identity frontendModel clientIp =>
    simp only [Check.names, List.mem_cons, List.not_mem_nil, or_false] at h h'
    rcases h with h | h | h <;> rcases h' with h' | h' | h' <;> rw [h, h'] <;>
      simp [(Prod.mk.inj h).1, (Prod.mk.inj h').1] at hdim
  | perUpstream reading upstream =>
    simp only [Check.names, List.mem_singleton] at h h'
    rw [h, h']

/-- A refusal names a bucket with a policy. -/
theorem policy_of_refusal {r : LimiterRegistry L} {c : Check} {k : BucketId} {t : Reading}
    (hname : (k, t) ∈ c.names) {n : Nat}
    (h : (throughGates g (gates r c) r).2 = .error (k.1, n)) :
    ∃ cfg, policyOf r k = some cfg ∧ ⟨k, some cfg, t⟩ ∈ gates r c := by
  obtain ⟨ga, hga, hdim, hsome⟩ := gate_of_error h
  unfold gates at hga ⊢
  split at hga
  · rename_i henabled
    obtain ⟨⟨k', t'⟩, hname', rfl⟩ := List.mem_map.mp hga
    obtain ⟨rfl, rfl⟩ := Prod.mk.inj (names_unique hname hname' hdim.symm)
    obtain ⟨cfg, hcfg⟩ := Option.isSome_iff_exists.mp hsome
    refine ⟨cfg, hcfg, ?_⟩
    rw [if_pos henabled, ← hcfg]
    exact hga
  · simp at hga

theorem afterChecks_append (cs ds : List Check) (r : LimiterRegistry L) :
    afterChecks g (cs ++ ds) r = afterChecks g ds (afterChecks g cs r) := by
  induction cs generalizing r with
  | nil => rfl
  | cons c cs ih => exact ih _

theorem policyOf_afterChecks (cs : List Check) (r : LimiterRegistry L) :
    policyOf (afterChecks g cs r) = policyOf r := by
  induction cs generalizing r with
  | nil => rfl
  | cons c cs ih => rw [afterChecks, ih, policyOf_perform]

/-- **Waiting is enough.** A refusal by a bucket says one second, and a check
that asks the bucket again after that long, with nobody asking it meanwhile, is
not refused by it. -/
theorem retry_after_suffices (hg : IsExactBucket g sim) (cfg : RateLimitConfig)
    {earlier mid : List Check} {c c' : Check}
    (hhashed : ∀ d ∈ earlier ++ c :: (mid ++ [c']), d.Hashed)
    {k : BucketId} {t t' : Reading} (hname : (k, t) ∈ c.names) (hname' : (k, t') ∈ c'.names)
    (hclock : ((trace g earlier (limiterFor cfg)).map Ask.asked ++ [t.asked]).Pairwise (· ≤ ·))
    (hread : t.asked ≤ t.answered ∧ t'.asked ≤ t'.answered) {n : Nat}
    (hrefused : (c.perform g (afterChecks g earlier (limiterFor cfg))).2 = .error (k.1, n))
    (hnobody : ofBucket k (trace g mid (afterChecks g (earlier ++ [c]) (limiterFor cfg))) = [])
    (hwait : t.answered + n * 1000000000 ≤ t'.asked) :
    n = 1 ∧ ∀ m, (c'.perform g (afterChecks g (earlier ++ c :: mid) (limiterFor cfg))).2 ≠
      .error (k.1, m) := by
  have hearlier : ∀ d ∈ earlier, d.Hashed := fun d hd => hhashed d (by simp [hd])
  have hmid : ∀ d ∈ mid, d.Hashed := fun d hd => hhashed d (by simp [hd])
  rw [perform_eq g _ (hhashed c (by simp))] at hrefused
  obtain ⟨p, hpolicy, hgate⟩ := policy_of_refusal hname hrefused
  rw [policyOf_afterChecks] at hpolicy
  obtain ⟨hsorted, -, hbefore⟩ := List.pairwise_append.mp hclock
  obtain ⟨-, htracks⟩ := ofBucket_limiterFor hg.toIsTokenBucket cfg hearlier hsorted hpolicy
  set b := afterAsks p none ((ofBucket k (trace g earlier (limiterFor cfg))).map Ask.asked)
  have hshape : Shaped p b := shaped_afterAsks (fun b' hb' => by simp at hb') _
  have hsince : ∀ b' ∈ b, b'.since ≤ t.asked := by
    refine afterAsks_since (fun b' hb' => by simp at hb') fun s hs => ?_
    obtain ⟨a, ha, rfl⟩ := List.mem_map.mp hs
    exact hbefore _ (List.mem_map_of_mem (List.mem_filter.mp ha).1) _ List.mem_cons_self
  obtain ⟨rfl, -, hleft⟩ :=
    refused_spec hg (nodup_dims _ c) hgate htracks hshape hsince hread.1 hrefused
  refine ⟨rfl, fun m hagain => ?_⟩
  -- nobody asks the bucket meanwhile, so it is met as the refusal left it
  have hrefusal : Tracks sim (afterChecks g (earlier ++ [c]) (limiterFor cfg)) k
      (some ((met p b t.asked).ask t.asked)) := by
    rw [afterChecks_append, afterChecks, perform_eq g _ (hhashed c (by simp))]
    exact hleft
  obtain ⟨-, hmet⟩ := trace_spec hg.toIsTokenBucket hmid
    (by rw [policyOf_afterChecks]; exact hpolicy) hrefusal
    (by rw [hnobody]; exact List.Pairwise.nil) (by rw [hnobody]; intro _ _ s hs; simp at hs)
  rw [hnobody, ← afterChecks_append, List.append_assoc, List.singleton_append] at hmet
  rw [perform_eq g _ (hhashed c' (by simp))] at hagain
  obtain ⟨p', hpolicy', hgate'⟩ := policy_of_refusal hname' hagain
  rw [policyOf_afterChecks, hpolicy, Option.some.injEq] at hpolicy'
  subst hpolicy'
  have hbetween : t.asked + 1000000000 ≤ t'.asked := by
    calc t.asked + 1000000000
        ≤ t.answered + 1 * 1000000000 := Nat.add_le_add hread.1 (Nat.le_refl _)
      _ ≤ t'.asked := hwait
  obtain ⟨-, hnone, -⟩ := refused_spec hg (nodup_dims _ c') hgate' hmet
    (shaped_ask (shaped_met hshape _) _)
    (fun b' hb' => by
      rw [← Option.some.inj hb']
      exact Nat.le_trans (Nat.le_add_right _ _) hbetween)
    hread.2 hagain
  exact Bool.noConfusion ((grants_met_after_second hshape t.asked hbetween).symm.trans hnone)

theorem isExactBucket_tokenGovernor :
    IsExactBucket tokenGovernor fun l b => l = b ∧ b.ticks = 1000000000 ∧ 0 < b.perSecond where
  direct quota _ := ⟨rfl, rfl, quota.perSecond_pos⟩
  check l b now h hsince := by
    obtain ⟨heq, hticks, hrate⟩ := h
    obtain ⟨hnext, hgrant⟩ := isTokenBucket_tokenGovernor.check l b now heq hsince
    exact ⟨⟨hnext, hticks, hrate⟩, hgrant⟩
  earliest l b now e h _ he t hnow hgrants := by
    obtain ⟨rfl, hticks, hrate⟩ := h
    simp only [tokenGovernor] at he
    cases hgr : l.grants now with
    | true => simp [hgr] at he
    | false =>
      simp only [hgr, Bool.false_eq_true, if_false, Option.some.injEq] at he
      have hlevel : (l.ask now).level = l.refilled now := by
        simp [Tokens.Bucket.ask, hgr]
      have hfull : l.ticks ≤ (l.ask now).refilled t := of_decide_eq_true hgrants
      have hinflow := (l.ask now).refilled_le t
      rw [hlevel, Tokens.Bucket.ask_perSecond, Tokens.Bucket.ask_since] at hinflow
      have hneed : 1000000000 - l.refilled now ≤ l.perSecond * (t - now) := by omega
      have hdiv : (1000000000 - l.refilled now + l.perSecond - 1) / l.perSecond ≤ t - now := by
        rw [Nat.div_le_iff_le_mul_add_pred hrate]
        omega
      rw [← he]
      calc now + (1000000000 - l.refilled now + l.perSecond - 1) / l.perSecond
          ≤ now + (t - now) := Nat.add_le_add_left hdiv now
        _ = t := Nat.add_sub_cancel' hnow

theorem retry_after_suffices_openGate :
    1 = 1 ∧ ∀ m, ((anonymousAt 1000000007).perform tokenGovernor
      (afterChecks tokenGovernor ([anonymousAt 5] ++ anonymousAt 7 :: [])
        (limiterFor openGate.rateLimit))).2 ≠ .error (.perKey, m) :=
  retry_after_suffices isExactBucket_tokenGovernor openGate.rateLimit
    (by
      intro c hc
      simp only [List.cons_append, List.nil_append, List.mem_cons, List.not_mem_nil, or_false] at hc
      rcases hc with rfl | rfl | rfl <;> simp [anonymousAt, Check.Hashed])
    (show (anonymousKey, (⟨7, 7⟩ : Reading)) ∈ (anonymousAt 7).names from List.mem_cons_self)
    (show (anonymousKey, (⟨1000000007, 1000000007⟩ : Reading)) ∈ (anonymousAt 1000000007).names
      from List.mem_cons_self)
    (show ((trace tokenGovernor [anonymousAt 5] (limiterFor openGate.rateLimit)).map Ask.asked ++
      [(⟨7, 7⟩ : Reading).asked]).Pairwise (· ≤ ·) by
        have hsorted : ([5, 7] : List Nat).Pairwise (· ≤ ·) := by decide
        exact hsorted)
    ⟨Nat.le_refl _, Nat.le_refl _⟩ rfl rfl (by decide)

end AgentShim.Gateway
