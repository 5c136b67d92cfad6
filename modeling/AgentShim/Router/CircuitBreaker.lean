import Mathlib.Logic.Function.Basic

/-
  The sliding-window circuit breaker of one (provider, model) key

  A breaker keeps the call outcomes of its window, the instant it opened (none
  while Closed) and the flag of the half-open probe. `decision` answers whether
  a call may go out and `record` files the outcome of one. The registry holds
  one breaker per key and hands out a `BreakerHold` for every call it allows.

  What is proved:
    1. `record_open`, `record_closed` — what one record does to the three
       fields, by the state it meets: an open breaker closes on a success,
       re-opens with a fresh cooldown on a failure after the cooldown, and
       loses its probe flag either way; a closed one opens or stays.
    2. `decision_cases` — what one decision can answer and change.
    3. `decision_skip_iff`, `decision_eq_probe_iff` — when a call is refused
       and when the answer is the half-open probe.
    4. `tryHold_of_ne`, `record_of_ne` — an operation on one key leaves the
       breaker of every other key as it was.

  Instants and durations are nanoseconds as natural numbers: `checked_sub`
  answers none below zero and `duration_since` stops at zero, as in the source.
  The `u32` casts and the `u32` product of the trip test wrap.

  Correspondence (Rust ↔ Lean):
    `BreakerState::record`      ↔ `BreakerState.record` (`evict`, `tripped`)
    `BreakerState::decision`    ↔ `BreakerState.decision`, which also returns
                                  the state its compare-and-swap leaves
    `get_or_create`             ↔ `BreakerRegistry` is total, `BreakerState.new`
                                  at every key never seen
    `try_hold`, `consume`, `drop` ↔ `tryHold`, `BreakerHold.consume`,
                                  `BreakerHold.drop`
  The upstream and model strings of `BreakerState` feed tracing only.
-/

namespace AgentShim.CircuitBreaker

/-- A reading of the monotonic clock, in nanoseconds since its origin. -/
abbrev Instant := Nat

/-- A span of time in nanoseconds. -/
abbrev Duration := Nat

/-- `Duration::from_secs`. -/
def fromSecs (secs : Nat) : Duration := secs * 1000000000

/-- `Instant::checked_sub`. -/
def checkedSub (now : Instant) (d : Duration) : Option Instant :=
  if d ≤ now then some (now - d) else none

/-- `Instant::duration_since`, zero when the clock reads earlier. -/
def durationSince (now earlier : Instant) : Duration := now - earlier

theorem le_durationSince_iff {now t : Instant} (c : Duration) (h : t ≤ now) :
    c ≤ durationSince now t ↔ t + c ≤ now := by
  rw [durationSince, Nat.le_sub_iff_add_le h, Nat.add_comm]

/-- The cast `as u32`, modulo 2^32. -/
def asU32 (n : Nat) : Nat := n % 4294967296

/-- Configuration of a breaker. -/
structure BreakerPolicy where
  enabled : Bool
  failureThresholdPct : Nat
  minRequests : Nat
  window : Duration
  openCooldown : Duration
  deriving DecidableEq, Repr

/-- What the chain walker should do with a call. -/
inductive BreakerDecision
  | allow
  | skip
  | probe
  deriving DecidableEq, Repr

/-- One breaker: the window's outcomes (oldest first, `true` a success), the
instant it opened, and whether the half-open probe is in flight. -/
structure BreakerState where
  samples : List (Instant × Bool)
  openSince : Option Instant
  probeInFlight : Bool
  deriving DecidableEq, Repr

namespace BreakerState

def new : BreakerState := { samples := [], openSince := none, probeInFlight := false }

/-- Drops the samples older than the window; none when `now - window`
underflows. -/
def evict (samples : List (Instant × Bool)) (now : Instant) (window : Duration) :
    List (Instant × Bool) :=
  match checkedSub now window with
  | some cutoff => samples.dropWhile fun s => s.1 < cutoff
  | none => samples

/-- The number of failures among the samples. -/
def failures (samples : List (Instant × Bool)) : Nat :=
  (samples.filter fun s => !s.2).length

/-- The trip condition of a closed breaker over its window. -/
def tripped (samples : List (Instant × Bool)) (policy : BreakerPolicy) : Bool :=
  let total := asU32 samples.length
  if total < policy.minRequests then false
  else
    let pct := asU32 (asU32 (failures samples) * 100) / total
    policy.failureThresholdPct ≤ pct

def record (b : BreakerState) (succeeded : Bool) (now : Instant) (policy : BreakerPolicy) :
    BreakerState :=
  let samples := evict b.samples now policy.window ++ [(now, succeeded)]
  match b.openSince with
  | some opened =>
    if succeeded then
      -- half-open probe succeeded: Closed, the window starts again
      { samples := [(now, true)], openSince := none, probeInFlight := false }
    else if policy.openCooldown ≤ durationSince now opened then
      -- half-open probe failed: open again with a fresh cooldown
      { samples := samples, openSince := some now, probeInFlight := false }
    else
      { samples := samples, openSince := some opened, probeInFlight := false }
  | none =>
    if tripped samples policy then { b with samples := samples, openSince := some now }
    else { b with samples := samples }

/-- The decision for a fresh request, with the state left by the swap of the
probe flag. -/
def decision (b : BreakerState) (now : Instant) (policy : BreakerPolicy) :
    BreakerDecision × BreakerState :=
  if !policy.enabled then (.allow, b)
  else
    match b.openSince with
    | none => (.allow, b)
    | some opened =>
      if policy.openCooldown ≤ durationSince now opened then
        -- one probe at a time: compare_exchange(false, true)
        if b.probeInFlight then (.skip, b) else (.probe, { b with probeInFlight := true })
      else (.skip, b)

/-! ## One record -/

theorem record_open {b : BreakerState} {t : Instant} (h : b.openSince = some t)
    (ok : Bool) (now : Instant) (p : BreakerPolicy) :
    (b.record ok now p).probeInFlight = false ∧
      (b.record ok now p).openSince =
        if ok then none
        else if p.openCooldown ≤ durationSince now t then some now else some t := by
  unfold record
  rw [h]
  cases ok with
  | true => simp
  | false =>
    simp only [Bool.false_eq_true, if_false]
    split <;> simp

theorem record_closed {b : BreakerState} (h : b.openSince = none)
    (ok : Bool) (now : Instant) (p : BreakerPolicy) :
    (b.record ok now p).probeInFlight = b.probeInFlight ∧
      ((b.record ok now p).openSince = none ∨ (b.record ok now p).openSince = some now) := by
  unfold record
  rw [h]
  simp only
  split
  · exact ⟨rfl, Or.inr rfl⟩
  · exact ⟨rfl, Or.inl rfl⟩

/-- Whatever a record leaves open was opened now, or was open since then
already and the record was a failure within the cooldown. -/
theorem openSince_record {b : BreakerState} {ok : Bool} {now t : Instant} {p : BreakerPolicy}
    (h : (b.record ok now p).openSince = some t) :
    t = now ∨ (b.openSince = some t ∧ ok = false ∧ durationSince now t < p.openCooldown) := by
  cases hb : b.openSince with
  | none =>
    rcases (record_closed hb ok now p).2 with hc | hc
    · rw [hc] at h
      cases h
    · rw [hc] at h
      exact Or.inl (Option.some.inj h).symm
  | some u =>
    rw [(record_open hb ok now p).2] at h
    cases ok with
    | true => cases h
    | false =>
      simp only [Bool.false_eq_true, if_false] at h
      split at h
      · exact Or.inl (Option.some.inj h).symm
      · rename_i hlt
        obtain rfl := Option.some.inj h
        exact Or.inr ⟨rfl, rfl, Nat.lt_of_not_le hlt⟩

/-! ## One decision -/

theorem decision_cases (b : BreakerState) (now : Instant) (p : BreakerPolicy) :
    (b.decision now p = (.allow, b) ∧ (p.enabled = false ∨ b.openSince = none)) ∨
    (b.decision now p = (.skip, b) ∧ p.enabled = true ∧ ∃ t, b.openSince = some t ∧
      (durationSince now t < p.openCooldown ∨ b.probeInFlight = true)) ∨
    (b.decision now p = (.probe, { b with probeInFlight := true }) ∧ p.enabled = true ∧
      b.probeInFlight = false ∧
      ∃ t, b.openSince = some t ∧ p.openCooldown ≤ durationSince now t) := by
  unfold decision
  cases he : p.enabled with
  | false => exact Or.inl ⟨rfl, Or.inl rfl⟩
  | true =>
    cases hb : b.openSince with
    | none => exact Or.inl ⟨rfl, Or.inr rfl⟩
    | some t =>
      simp only [Bool.not_true, Bool.false_eq_true, if_false]
      split
      · rename_i hcool
        cases hf : b.probeInFlight with
        | true => exact Or.inr (Or.inl ⟨rfl, trivial, t, rfl, Or.inr rfl⟩)
        | false => exact Or.inr (Or.inr ⟨rfl, trivial, rfl, t, rfl, hcool⟩)
      · rename_i hcool
        exact Or.inr (Or.inl ⟨rfl, trivial, t, rfl, Or.inl (Nat.lt_of_not_le hcool)⟩)

theorem decision_skip_iff (b : BreakerState) (now : Instant) (p : BreakerPolicy) :
    (b.decision now p).1 = .skip ↔
      p.enabled = true ∧ ∃ t, b.openSince = some t ∧
        (durationSince now t < p.openCooldown ∨ b.probeInFlight = true) := by
  rcases decision_cases b now p with ⟨h, hc⟩ | ⟨h, hc⟩ | ⟨h, he, hf, t, ht, hcool⟩
  · rw [h]
    refine ⟨fun h' => BreakerDecision.noConfusion h', fun ⟨he, t, ht, _⟩ => ?_⟩
    rcases hc with hc | hc
    · rw [he] at hc
      cases hc
    · rw [ht] at hc
      cases hc
  · rw [h]
    exact ⟨fun _ => hc, fun _ => rfl⟩
  · rw [h]
    refine ⟨fun h' => BreakerDecision.noConfusion h', fun ⟨_, u, hu, hor⟩ => ?_⟩
    rw [ht] at hu
    obtain rfl := Option.some.inj hu
    rcases hor with hlt | hflag
    · exact absurd hcool (Nat.not_le_of_lt hlt)
    · rw [hf] at hflag
      cases hflag

theorem decision_eq_probe_iff (b : BreakerState) (now : Instant) (p : BreakerPolicy) :
    (b.decision now p).1 = .probe ↔
      p.enabled = true ∧ b.probeInFlight = false ∧
        ∃ t, b.openSince = some t ∧ p.openCooldown ≤ durationSince now t := by
  rcases decision_cases b now p with ⟨h, hc⟩ | ⟨h, he, t, ht, hor⟩ | ⟨h, hrest⟩
  · rw [h]
    refine ⟨fun h' => BreakerDecision.noConfusion h', fun ⟨he, _, t, ht, _⟩ => ?_⟩
    rcases hc with hc | hc
    · rw [he] at hc
      cases hc
    · rw [ht] at hc
      cases hc
  · rw [h]
    refine ⟨fun h' => BreakerDecision.noConfusion h', fun ⟨_, hf, u, hu, hcool⟩ => ?_⟩
    rw [ht] at hu
    obtain rfl := Option.some.inj hu
    rcases hor with hlt | hflag
    · exact absurd hcool (Nat.not_le_of_lt hlt)
    · rw [hf] at hflag
      cases hflag
  · rw [h]
    exact ⟨fun _ => hrest, fun _ => rfl⟩

/-- A decision never moves the window or the opening instant. -/
@[simp] theorem decision_openSince (b : BreakerState) (now : Instant) (p : BreakerPolicy) :
    (b.decision now p).2.openSince = b.openSince := by
  rcases decision_cases b now p with ⟨h, _⟩ | ⟨h, _⟩ | ⟨h, _⟩ <;> rw [h]

@[simp] theorem decision_samples (b : BreakerState) (now : Instant) (p : BreakerPolicy) :
    (b.decision now p).2.samples = b.samples := by
  rcases decision_cases b now p with ⟨h, _⟩ | ⟨h, _⟩ | ⟨h, _⟩ <;> rw [h]

/-- A refused call changes nothing. -/
theorem decision_skip_state {b : BreakerState} {now : Instant} {p : BreakerPolicy}
    (h : (b.decision now p).1 = .skip) : (b.decision now p).2 = b := by
  rcases decision_cases b now p with ⟨h', _⟩ | ⟨h', _⟩ | ⟨h', _⟩
  · rw [h']
  · rw [h']
  · rw [h'] at h
    cases h

/-- Only the probe sets the flag. -/
theorem decision_probeInFlight (b : BreakerState) (now : Instant) (p : BreakerPolicy) :
    (b.decision now p).2.probeInFlight =
      (b.probeInFlight || (b.decision now p).1 == .probe) := by
  rcases decision_cases b now p with ⟨h, _⟩ | ⟨h, _⟩ | ⟨h, _⟩
  · rw [h]
    exact (Bool.or_false _).symm
  · rw [h]
    exact (Bool.or_false _).symm
  · rw [h]
    exact (Bool.or_true _).symm

end BreakerState

/-! ## The registry -/

/-- The `(provider, model)` key of a breaker. -/
abbrev BreakerKey := String × String

/-- The breaker of every key; a key never seen has a new one. -/
abbrev BreakerRegistry := BreakerKey → BreakerState

/-- The authorization of one call. It is recorded once: explicitly by `consume`,
or as a failure when it is dropped. -/
structure BreakerHold where
  provider : String
  model : String
  policy : BreakerPolicy
  deriving DecidableEq, Repr

/-- The key a hold records on. -/
def BreakerHold.key (h : BreakerHold) : BreakerKey := (h.provider, h.model)

namespace BreakerRegistry

def new : BreakerRegistry := fun _ => BreakerState.new

def decision (r : BreakerRegistry) (provider model : String) (policy : BreakerPolicy)
    (now : Instant) : BreakerDecision × BreakerRegistry :=
  let (d, b) := (r (provider, model)).decision now policy
  (d, Function.update r (provider, model) b)

def record (r : BreakerRegistry) (provider model : String) (succeeded : Bool)
    (policy : BreakerPolicy) (now : Instant) : BreakerRegistry :=
  Function.update r (provider, model) ((r (provider, model)).record succeeded now policy)

/-- A hold when the breaker allows the call; none when it is open. -/
def tryHold (r : BreakerRegistry) (provider model : String) (policy : BreakerPolicy)
    (now : Instant) : Option BreakerHold × BreakerRegistry :=
  match r.decision provider model policy now with
  | (.skip, r') => (none, r')
  | (.allow, r') | (.probe, r') =>
    (some { provider := provider, model := model, policy := policy }, r')

end BreakerRegistry

/-- Records the outcome of the call the hold authorized. -/
def BreakerHold.consume (h : BreakerHold) (r : BreakerRegistry) (succeeded : Bool)
    (now : Instant) : BreakerRegistry :=
  r.record h.provider h.model succeeded h.policy now

/-- An abandoned hold records a failure. -/
def BreakerHold.drop (h : BreakerHold) (r : BreakerRegistry) (now : Instant) :
    BreakerRegistry :=
  r.record h.provider h.model false h.policy now

namespace BreakerRegistry

theorem record_of_ne (r : BreakerRegistry) {provider model : String} {k : BreakerKey}
    (hk : k ≠ (provider, model)) (ok : Bool) (p : BreakerPolicy) (now : Instant) :
    r.record provider model ok p now k = r k := by
  simp [record, Function.update_of_ne hk]

theorem tryHold_fst (r : BreakerRegistry) (provider model : String) (p : BreakerPolicy)
    (now : Instant) :
    (r.tryHold provider model p now).1 =
      if ((r (provider, model)).decision now p).1 = .skip then none
      else some { provider := provider, model := model, policy := p } := by
  unfold tryHold decision
  rcases BreakerState.decision_cases (r (provider, model)) now p with
    ⟨h, _⟩ | ⟨h, _⟩ | ⟨h, _⟩ <;> rw [h] <;> rfl

theorem tryHold_snd (r : BreakerRegistry) (provider model : String) (p : BreakerPolicy)
    (now : Instant) :
    (r.tryHold provider model p now).2 =
      Function.update r (provider, model) ((r (provider, model)).decision now p).2 := by
  unfold tryHold decision
  rcases BreakerState.decision_cases (r (provider, model)) now p with
    ⟨h, _⟩ | ⟨h, _⟩ | ⟨h, _⟩ <;> rw [h]

theorem tryHold_of_ne (r : BreakerRegistry) {provider model : String} {k : BreakerKey}
    (hk : k ≠ (provider, model)) (p : BreakerPolicy) (now : Instant) :
    (r.tryHold provider model p now).2 k = r k := by
  rw [tryHold_snd, Function.update_of_ne hk]

/-- A refused call leaves every breaker as it was. -/
theorem tryHold_none {r : BreakerRegistry} {provider model : String} {p : BreakerPolicy}
    {now : Instant} (h : (r.tryHold provider model p now).1 = none) :
    (r.tryHold provider model p now).2 = r := by
  rw [tryHold_fst] at h
  split at h
  · rename_i hskip
    rw [tryHold_snd, BreakerState.decision_skip_state hskip, Function.update_eq_self]
  · cases h

/-- The hold carries the key and the policy it was asked for. -/
theorem tryHold_some {r : BreakerRegistry} {provider model : String} {p : BreakerPolicy}
    {now : Instant} {hold : BreakerHold}
    (h : (r.tryHold provider model p now).1 = some hold) :
    hold = { provider := provider, model := model, policy := p } := by
  rw [tryHold_fst] at h
  split at h
  · cases h
  · exact (Option.some.inj h).symm

end BreakerRegistry

end AgentShim.CircuitBreaker
