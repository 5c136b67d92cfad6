import AgentShim.Lib.Runs
import AgentShim.Router.CircuitBreaker
import Mathlib.Data.List.Nodup

/-
  Runs of one breaker key under outstanding holds

  The breaker of one key together with the holds it has issued and not yet
  recorded. A run is any list of `try_hold`, `consume` and `drop` operations,
  in any order and for any number of holds: this is every interleaving of the
  requests that share the key, since each of the three holds the key's lock for
  its whole effect.

  What is proved:
    1. `step_cases` — what one operation can do.
    2. `no_breaker_wedge` — the probe flag is set only while the breaker is
       open and a probe hold is outstanding, so a breaker without outstanding
       holds lets the next call out once its cooldown has elapsed.
    3. `openSafe_iff_no_staleSuccess` — open safety (no hold within the
       cooldown; only a probe of the present opening closes the breaker) holds
       of exactly the runs in which no hold from before the present opening
       records a success. `stale_success_closes_open_breaker` is a run where
       one does.
    4. `single_probe_of_no_foreignRecord` — at most one probe is outstanding in
       every run in which no other hold is recorded while a probe is
       outstanding. `stale_record_admits_second_probe` is a run where one is.

  A hold's `id`, `decision`, `issuedAt` and `openings` are history: nothing the
  breaker does reads them. `openings` counts how often the breaker opened,
  probe failures included.
-/

namespace AgentShim.BreakerRuns

open AgentShim.CircuitBreaker

/-- A hold the key has issued, with how and when it was issued. -/
structure IssuedHold where
  id : Nat
  policy : BreakerPolicy
  decision : BreakerDecision
  issuedAt : Instant
  openings : Nat
  deriving DecidableEq, Repr

/-- One key's breaker, its outstanding holds (oldest first), the number of
openings so far and the last clock reading. -/
structure KeyState where
  breaker : BreakerState
  holds : List IssuedHold
  nextId : Nat
  openings : Nat
  clock : Instant
  deriving DecidableEq, Repr

def KeyState.init : KeyState :=
  { breaker := .new, holds := [], nextId := 0, openings := 0, clock := 0 }

/-- One operation on the key, with the clock reading it takes. -/
inductive BreakerOp
  | tryHold (policy : BreakerPolicy) (now : Instant)
  | consume (id : Nat) (succeeded : Bool) (now : Instant)
  | drop (id : Nat) (now : Instant)
  deriving DecidableEq, Repr

namespace BreakerOp

def now : BreakerOp → Instant
  | tryHold _ now => now
  | consume _ _ now => now
  | drop _ now => now

/-- The hold an operation records, and the outcome it records: a drop records a
failure. -/
def records : BreakerOp → Option (Nat × Bool)
  | tryHold _ _ => none
  | consume id succeeded _ => some (id, succeeded)
  | drop id _ => some (id, false)

/-- Every authorization is asked for under the policy `p`. -/
def Under (p : BreakerPolicy) : BreakerOp → Prop
  | tryHold q _ => q = p
  | _ => True

end BreakerOp

namespace KeyState

/-- The outstanding hold of this id. -/
def outstanding (s : KeyState) (id : Nat) : Option IssuedHold :=
  s.holds.find? fun h => h.id == id

/-- `try_hold` answers with a hold. -/
def grants (s : KeyState) (p : BreakerPolicy) (now : Instant) : Prop :=
  (s.breaker.decision now p).1 ≠ .skip

instance (s : KeyState) (p : BreakerPolicy) (now : Instant) : Decidable (s.grants p now) :=
  inferInstanceAs (Decidable (_ ≠ _))

/-- A probe hold is outstanding. -/
def probeOut (s : KeyState) : Bool := s.holds.any fun h => h.decision == .probe

/-- The record opens the breaker: it trips, or a failure after the cooldown
opens it again. -/
def opens (b : BreakerState) (succeeded : Bool) (now : Instant) (p : BreakerPolicy) : Bool :=
  match b.openSince with
  | none => (b.record succeeded now p).openSince.isSome
  | some t => !succeeded && p.openCooldown ≤ durationSince now t

/-- The state after a decision that issues a hold. -/
def issue (s : KeyState) (d : BreakerDecision) (b : BreakerState) (p : BreakerPolicy)
    (now : Instant) : KeyState :=
  { s with
    breaker := b
    holds := s.holds ++
      [{ id := s.nextId, policy := p, decision := d, issuedAt := now, openings := s.openings }]
    nextId := s.nextId + 1
    clock := now }

/-- The state after the hold is recorded. -/
def settle (s : KeyState) (h : IssuedHold) (succeeded : Bool) (now : Instant) : KeyState :=
  { s with
    breaker := s.breaker.record succeeded now h.policy
    holds := s.holds.filter fun g => g.id != h.id
    openings := if opens s.breaker succeeded now h.policy then s.openings + 1 else s.openings
    clock := now }

def tryHold (s : KeyState) (p : BreakerPolicy) (now : Instant) : KeyState :=
  match s.breaker.decision now p with
  | (.skip, b) => { s with breaker := b, clock := now }
  | (d, b) => s.issue d b p now

/-- One operation; none when the hold it names is not outstanding. -/
def step (s : KeyState) : BreakerOp → Option KeyState
  | .tryHold p now => some (s.tryHold p now)
  | .consume id succeeded now => (s.outstanding id).map fun h => s.settle h succeeded now
  | .drop id now => (s.outstanding id).map fun h => s.settle h false now

end KeyState

open KeyState BreakerOp Runs

/-! ## One operation -/

theorem tryHold_cases (s : KeyState) (p : BreakerPolicy) (now : Instant) :
    (s.tryHold p now = { s with clock := now } ∧ ¬ s.grants p now) ∨
    (s.tryHold p now = s.issue .allow s.breaker p now ∧
      (p.enabled = false ∨ s.breaker.openSince = none)) ∨
    (s.tryHold p now = s.issue .probe { s.breaker with probeInFlight := true } p now ∧
      s.breaker.probeInFlight = false ∧
      ∃ t, s.breaker.openSince = some t ∧ p.openCooldown ≤ durationSince now t) := by
  rcases BreakerState.decision_cases s.breaker now p with
    ⟨h, hc⟩ | ⟨h, _⟩ | ⟨h, _, hf, ht⟩
  · refine Or.inr (Or.inl ⟨?_, hc⟩)
    rw [KeyState.tryHold, h]
  · refine Or.inl ⟨?_, ?_⟩
    · rw [KeyState.tryHold, h]
    · rw [grants, h]
      exact fun hne => hne rfl
  · refine Or.inr (Or.inr ⟨?_, hf, ht⟩)
    rw [KeyState.tryHold, h]

theorem outstanding_some {s : KeyState} {id : Nat} {h : IssuedHold}
    (ho : s.outstanding id = some h) : h ∈ s.holds ∧ h.id = id :=
  ⟨List.mem_of_find?_eq_some ho, by simpa using List.find?_some ho⟩

theorem step_cases {s s' : KeyState} {op : BreakerOp} (h : s.step op = some s') :
    (∃ p, op = .tryHold p op.now ∧ s' = s.tryHold p op.now) ∨
    (∃ g id ok, op.records = some (id, ok) ∧ s.outstanding id = some g ∧
      s' = s.settle g ok op.now) := by
  cases op with
  | tryHold p now => exact Or.inl ⟨p, rfl, (Option.some.inj h).symm⟩
  | consume id ok now =>
    obtain ⟨g, hg, hs⟩ := Option.map_eq_some_iff.mp h
    exact Or.inr ⟨g, id, ok, rfl, hg, hs.symm⟩
  | drop id now =>
    obtain ⟨g, hg, hs⟩ := Option.map_eq_some_iff.mp h
    exact Or.inr ⟨g, id, false, rfl, hg, hs.symm⟩

theorem records_true {op : BreakerOp} {id : Nat} (h : op.records = some (id, true)) :
    op = .consume id true op.now := by
  cases op with
  | tryHold p now => cases h
  | consume i ok now =>
    simp only [records, Option.some.injEq, Prod.mk.injEq] at h
    rw [h.1, h.2]
    rfl
  | drop i now => simp [records] at h

theorem tryHold_openSince (s : KeyState) (p : BreakerPolicy) (now : Instant) :
    (s.tryHold p now).breaker.openSince = s.breaker.openSince := by
  rcases tryHold_cases s p now with ⟨e, _⟩ | ⟨e, _⟩ | ⟨e, _⟩ <;> rw [e] <;> rfl

/-- Only a recorded success closes an open breaker. -/
theorem closes_cases {s s' : KeyState} {op : BreakerOp} {t : Instant}
    (h : s.step op = some s') (ht : s.breaker.openSince = some t)
    (hc : s'.breaker.openSince = none) :
    ∃ id g, op = .consume id true op.now ∧ s.outstanding id = some g := by
  rcases step_cases h with ⟨p, _, rfl⟩ | ⟨g, id, ok, hrec, hg, rfl⟩
  · rw [tryHold_openSince, ht] at hc
    cases hc
  · rw [settle, (BreakerState.record_open ht ok op.now g.policy).2] at hc
    cases ok with
    | true => exact ⟨id, g, records_true hrec, hg⟩
    | false =>
      simp only [Bool.false_eq_true, if_false] at hc
      split at hc <;> cases hc

theorem step_clock {s s' : KeyState} {op : BreakerOp} (h : s.step op = some s') :
    s'.clock = op.now := by
  rcases step_cases h with ⟨p, _, rfl⟩ | ⟨g, id, ok, _, _, rfl⟩
  · rcases tryHold_cases s p op.now with ⟨e, _⟩ | ⟨e, _⟩ | ⟨e, _⟩ <;> rw [e] <;> rfl
  · rfl

theorem mem_settle {s : KeyState} {g h : IssuedHold} {ok : Bool} {now : Instant} :
    h ∈ (s.settle g ok now).holds ↔ h ∈ s.holds ∧ h.id ≠ g.id := by
  simp [settle]

theorem mem_issue {s : KeyState} {d : BreakerDecision} {b : BreakerState} {p : BreakerPolicy}
    {now : Instant} {h : IssuedHold} :
    h ∈ (s.issue d b p now).holds ↔ h ∈ s.holds ∨
      h = { id := s.nextId, policy := p, decision := d, issuedAt := now,
            openings := s.openings } := by
  simp [issue]

/-- A record opens the breaker, or leaves its count and whatever it was open
since. -/
theorem settle_openings (s : KeyState) (g : IssuedHold) (ok : Bool) (now : Instant) :
    ((s.settle g ok now).openings = s.openings + 1 ∧
      (s.settle g ok now).breaker.openSince = some now) ∨
    ((s.settle g ok now).openings = s.openings ∧
      ((s.settle g ok now).breaker.openSince = none ∨
        ok = false ∧ (s.settle g ok now).breaker.openSince = s.breaker.openSince)) := by
  unfold settle opens
  cases hb : s.breaker.openSince with
  | none =>
    rcases (BreakerState.record_closed hb ok now g.policy).2 with hr | hr
    · rw [hr]
      exact Or.inr ⟨rfl, Or.inl rfl⟩
    · rw [hr]
      exact Or.inl ⟨rfl, rfl⟩
  | some t =>
    simp only [(BreakerState.record_open hb ok now g.policy).2]
    cases ok with
    | true => exact Or.inr ⟨rfl, Or.inl rfl⟩
    | false =>
      by_cases hcool : g.policy.openCooldown ≤ durationSince now t
      · simp [hcool]
      · simp [hcool]

/-! ## Holds by id -/

/-- Ids name the outstanding holds: they are handed out in order. -/
structure IdsFresh (s : KeyState) : Prop where
  below : ∀ h ∈ s.holds, h.id < s.nextId
  nodup : (s.holds.map IssuedHold.id).Nodup

theorem idsFresh_step : Preserved KeyState.step IdsFresh := by
  intro s op s' hI _ h
  have issue : ∀ d b p now, IdsFresh (s.issue d b p now) := by
    intro d b p now
    refine ⟨fun h hh => ?_, ?_⟩
    · rcases mem_issue.mp hh with hs | rfl
      · exact Nat.lt_succ_of_lt (hI.below h hs)
      · exact Nat.lt_succ_self _
    · rw [KeyState.issue, List.map_append, List.nodup_append]
      refine ⟨hI.nodup, List.nodup_singleton _, ?_⟩
      intro i hi j hj
      obtain ⟨h, hh, rfl⟩ := List.mem_map.mp hi
      obtain rfl := List.mem_singleton.mp hj
      exact Nat.ne_of_lt (hI.below h hh)
  rcases step_cases h with ⟨p, _, rfl⟩ | ⟨g, id, ok, _, _, rfl⟩
  · rcases tryHold_cases s p op.now with ⟨e, _⟩ | ⟨e, _⟩ | ⟨e, _⟩
    · rw [e]
      exact ⟨hI.below, hI.nodup⟩
    · rw [e]
      exact issue _ _ _ _
    · rw [e]
      exact issue _ _ _ _
  · refine ⟨fun h hh => hI.below h (mem_settle.mp hh).1, ?_⟩
    exact hI.nodup.sublist (List.filter_sublist.map _)

/-! ## No wedge -/

/-- The probe flag is set only while the breaker is open and a probe hold is
outstanding. -/
def FlagHeld (s : KeyState) : Prop :=
  s.breaker.probeInFlight = true →
    s.breaker.openSince.isSome ∧ ∃ h ∈ s.holds, h.decision = .probe

theorem flagHeld_init : FlagHeld .init := by
  intro h
  cases h

theorem flagHeld_step : Preserved KeyState.step FlagHeld := by
  intro s op s' hI _ h hflag
  rcases step_cases h with ⟨p, _, rfl⟩ | ⟨g, id, ok, _, _, rfl⟩
  · rcases tryHold_cases s p op.now with ⟨e, _⟩ | ⟨e, _⟩ | ⟨e, _, t, ht, _⟩
    · rw [e] at hflag ⊢
      exact hI hflag
    · rw [e] at hflag ⊢
      obtain ⟨hopen, g, hg, hd⟩ := hI hflag
      exact ⟨hopen, g, mem_issue.mpr (Or.inl hg), hd⟩
    · rw [e]
      -- the probe just issued is the outstanding one
      refine ⟨?_, _, mem_issue.mpr (Or.inr rfl), rfl⟩
      rw [issue]
      exact Option.isSome_iff_exists.mpr ⟨t, ht⟩
  · cases hb : s.breaker.openSince with
    | none =>
      rw [settle, (BreakerState.record_closed hb ok op.now g.policy).1] at hflag
      obtain ⟨hopen, _⟩ := hI hflag
      rw [hb] at hopen
      cases hopen
    | some t =>
      rw [settle, (BreakerState.record_open hb ok op.now g.policy).1] at hflag
      cases hflag

/-- A breaker with no outstanding hold lets the next call out once its cooldown
has elapsed. -/
theorem grants_of_flagHeld {s : KeyState} (hI : FlagHeld s) (hnone : s.holds = []) {t : Instant}
    (ht : s.breaker.openSince = some t) (p : BreakerPolicy) (now : Instant)
    (hcool : p.openCooldown ≤ durationSince now t) : s.grants p now := by
  intro hskip
  obtain ⟨_, u, hu, hor⟩ := (BreakerState.decision_skip_iff _ _ _).mp hskip
  rw [ht] at hu
  obtain rfl := Option.some.inj hu
  rcases hor with hlt | hflag
  · exact absurd hcool (Nat.not_le_of_lt hlt)
  · obtain ⟨_, g, hg, _⟩ := hI hflag
    rw [hnone] at hg
    cases hg

/-- **No breaker wedge.** After any run, the probe flag is set only while the
breaker is open and a probe hold is outstanding; hence with no outstanding hold
and the cooldown elapsed the next `try_hold` answers with a hold. -/
theorem no_breaker_wedge (ops : List BreakerOp) (s : KeyState)
    (h : exec KeyState.step .init ops = some s) :
    (s.breaker.probeInFlight = true →
      s.breaker.openSince.isSome ∧ ∃ g ∈ s.holds, g.decision = .probe) ∧
    (s.holds = [] → ∀ t, s.breaker.openSince = some t → ∀ p now,
      p.openCooldown ≤ durationSince now t → s.grants p now) := by
  have hI : FlagHeld s := flagHeld_step.exec flagHeld_init h
  exact ⟨hI, fun hnone t ht p now hcool => grants_of_flagHeld hI hnone ht p now hcool⟩

/-- A policy that trips on its first failure: the least `min_requests` that
validation accepts, and the default threshold, window and cooldown. -/
def touchyPolicy : BreakerPolicy :=
  { enabled := true, failureThresholdPct := 50, minRequests := 1, window := fromSecs 60,
    openCooldown := fromSecs 30 }

/-- A trip at 1 s, a probe at 31 s that succeeds, and the next call. -/
def probeRun : List BreakerOp :=
  [.tryHold touchyPolicy 0, .consume 0 false (fromSecs 1), .tryHold touchyPolicy (fromSecs 31),
    .consume 1 true (fromSecs 32), .tryHold touchyPolicy (fromSecs 33)]

theorem no_breaker_wedge_probeRun :
    ∃ s, exec KeyState.step .init (probeRun.take 3) = some s ∧
      (s.breaker.probeInFlight = true →
        s.breaker.openSince.isSome ∧ ∃ g ∈ s.holds, g.decision = .probe) ∧
      (s.holds = [] → ∀ t, s.breaker.openSince = some t → ∀ p now,
        p.openCooldown ≤ durationSince now t → s.grants p now) := by
  obtain ⟨s, hs⟩ := Option.isSome_iff_exists.mp
    (by decide : (exec KeyState.step .init (probeRun.take 3)).isSome)
  exact ⟨s, hs, no_breaker_wedge (probeRun.take 3) s hs⟩

/-! ## One probe at a time -/

/-- The operation records an outstanding hold other than a probe while the
breaker is open and a probe is outstanding. -/
def foreignRecord (s : KeyState) (op : BreakerOp) : Bool :=
  match op.records with
  | some (id, _) =>
    s.breaker.openSince.isSome && s.probeOut &&
      (s.outstanding id).any fun h => h.decision != .probe
  | none => false

/-- Whenever `try_hold` issues a probe, no probe is outstanding. -/
def SingleProbe (s : KeyState) (op : BreakerOp) : Prop :=
  ∀ p now, op = .tryHold p now → (s.breaker.decision now p).1 = .probe →
    ∀ h ∈ s.holds, h.decision ≠ .probe

/-- An outstanding probe keeps the flag set and the breaker open, and there is one
at most. -/
structure ProbeOwned (s : KeyState) : Prop where
  flag : ∀ h ∈ s.holds, h.decision = .probe → s.breaker.probeInFlight = true
  isOpen : ∀ h ∈ s.holds, h.decision = .probe → s.breaker.openSince.isSome
  unique : ∀ g ∈ s.holds, ∀ h ∈ s.holds, g.decision = .probe → h.decision = .probe → g = h

theorem probeOwned_init : ProbeOwned .init where
  flag := by intro h hh; cases hh
  isOpen := by intro h hh; cases hh
  unique := by intro g hg; cases hg

theorem probeOut_of_mem {s : KeyState} {h : IssuedHold} (hh : h ∈ s.holds)
    (hd : h.decision = .probe) : s.probeOut = true :=
  List.any_eq_true.mpr ⟨h, hh, by rw [hd]; rfl⟩

/-- With no probe outstanding, only what the breaker's next operation issues can
be one. -/
theorem ProbeOwned.of_no_probe {s : KeyState} (hno : ∀ h ∈ s.holds, h.decision ≠ .probe) :
    ProbeOwned s where
  flag h hh hd := absurd hd (hno h hh)
  isOpen h hh hd := absurd hd (hno h hh)
  unique g hg _ _ hd _ := absurd hd (hno g hg)

theorem ProbeOwned.issue_allow {s : KeyState} (hI : ProbeOwned s) (p : BreakerPolicy)
    (now : Instant) : ProbeOwned (s.issue .allow s.breaker p now) := by
  have hold : ∀ h ∈ (s.issue .allow s.breaker p now).holds, h.decision = .probe → h ∈ s.holds := by
    intro h hh hd
    rcases mem_issue.mp hh with hs | rfl
    · exact hs
    · cases hd
  exact ⟨fun h hh hd => hI.flag h (hold h hh hd) hd, fun h hh hd => hI.isOpen h (hold h hh hd) hd,
    fun g hg h hh hgd hhd => hI.unique g (hold g hg hgd) h (hold h hh hhd) hgd hhd⟩

theorem ProbeOwned.issue_probe {s : KeyState} (hI : ProbeOwned s) (p : BreakerPolicy)
    (now : Instant) (hf : s.breaker.probeInFlight = false) (hopen : s.breaker.openSince.isSome) :
    ProbeOwned (s.issue .probe { s.breaker with probeInFlight := true } p now) := by
  have hno : ∀ h ∈ s.holds, h.decision ≠ .probe := by
    intro h hh hd
    rw [hI.flag h hh hd] at hf
    cases hf
  refine ⟨fun _ _ _ => rfl, fun _ _ _ => hopen, ?_⟩
  intro g hg h hh hgd hhd
  rcases mem_issue.mp hg with hs | rfl
  · exact absurd hgd (hno g hs)
  · rcases mem_issue.mp hh with hs | rfl
    · exact absurd hhd (hno h hs)
    · rfl

theorem ProbeOwned.settle {s : KeyState} (hI : ProbeOwned s) {g : IssuedHold}
    (hg : g ∈ s.holds) (ok : Bool) (now : Instant)
    (hguard : g.decision ≠ .probe → ∀ h ∈ s.holds, h.decision = .probe →
      s.breaker.openSince.isSome → False) : ProbeOwned (s.settle g ok now) := by
  refine ProbeOwned.of_no_probe ?_
  intro h hh hd
  obtain ⟨hs, hid⟩ := mem_settle.mp hh
  by_cases hgd : g.decision = .probe
  · -- the one probe is the hold just recorded
    exact hid (by rw [hI.unique h hs g hg hd hgd])
  · exact hguard hgd h hs hd (hI.isOpen h hs hd)

theorem probeOwned_step :
    PreservedUnder KeyState.step (fun s op => foreignRecord s op = false) ProbeOwned := by
  intro s op s' hI hG h
  rcases step_cases h with ⟨p, _, rfl⟩ | ⟨g, id, ok, hrec, hg, rfl⟩
  · rcases tryHold_cases s p op.now with ⟨e, _⟩ | ⟨e, _⟩ | ⟨e, hf, t, ht, _⟩
    · rw [e]
      exact ⟨hI.flag, hI.isOpen, hI.unique⟩
    · rw [e]
      exact hI.issue_allow p op.now
    · rw [e]
      exact hI.issue_probe p op.now hf (Option.isSome_iff_exists.mpr ⟨t, ht⟩)
  · refine hI.settle (outstanding_some hg).1 ok op.now fun hgd h hh hd hopen => ?_
    simp [foreignRecord, hrec, hg, hopen, probeOut_of_mem hh hd, hgd] at hG

/-- **At most one probe.** In every run in which no other hold is recorded while
a probe is outstanding and the breaker open, `try_hold` issues a probe only when
none is outstanding. -/
theorem single_probe_of_no_foreignRecord (ops : List BreakerOp)
    (hG : Along KeyState.step (fun s op => foreignRecord s op = false) .init ops) :
    Along KeyState.step SingleProbe .init ops := by
  refine probeOwned_step.along ?_ probeOwned_init hG
  intro s op hI _ p now _ hprobe h hh hd
  have hf := ((BreakerState.decision_eq_probe_iff _ _ _).mp hprobe).2.1
  rw [hI.flag h hh hd] at hf
  cases hf

theorem single_probe_probeRun : Along KeyState.step SingleProbe .init probeRun :=
  single_probe_of_no_foreignRecord probeRun (by decide)

/-- Two calls go out, the first trips the breaker, the probe goes out at 31 s, and
the second call is abandoned at 32 s: its record clears the probe's flag, and the
next cooldown lets a second probe out beside the first. -/
def abandonedBesideProbe : List BreakerOp :=
  [.tryHold touchyPolicy 0, .tryHold touchyPolicy 0, .consume 0 false (fromSecs 1),
    .tryHold touchyPolicy (fromSecs 31), .drop 1 (fromSecs 32), .tryHold touchyPolicy (fromSecs 62)]

theorem stale_record_admits_second_probe :
    (exec KeyState.step .init abandonedBesideProbe).isSome ∧
      ¬ Along KeyState.step SingleProbe .init abandonedBesideProbe := by
  refine ⟨by decide, fun h => ?_⟩
  have hlast := along_iff_forall_split.mp h (abandonedBesideProbe.take 5) _ [] _ rfl rfl
  exact hlast touchyPolicy (fromSecs 62) rfl (by decide) _ (List.mem_cons_self) rfl

/-! ## Open safety -/

/-- Open safety of a run. Once the breaker opens at `t`, no `try_hold` answers
with a hold before `t` plus the cooldown; and it closes only when a hold issued
as the probe of the present opening, after that cooldown, records success. -/
structure OpenSafe (p : BreakerPolicy) (ops : List BreakerOp) : Prop where
  noEarlyHold : ∀ pre op mid now post s s' s'' t,
    ops = pre ++ op :: (mid ++ .tryHold p now :: post) →
    exec KeyState.step .init pre = some s → s.step op = some s' →
    s.breaker.openSince ≠ some t → s'.breaker.openSince = some t →
    exec KeyState.step s' mid = some s'' → s''.grants p now → t + p.openCooldown ≤ now
  closedByProbe : ∀ pre op post s s' t, ops = pre ++ op :: post →
    exec KeyState.step .init pre = some s → s.step op = some s' →
    s.breaker.openSince = some t → s'.breaker.openSince = none →
    ∃ id now h, op = .consume id true now ∧ s.outstanding id = some h ∧ h.decision = .probe ∧
      h.openings = s.openings ∧ t + p.openCooldown ≤ h.issuedAt

/-- The operation records a success, while the breaker is open, for a hold from
before the present opening. -/
def staleSuccess (s : KeyState) : BreakerOp → Bool
  | .consume id true _ =>
    s.breaker.openSince.isSome && (s.outstanding id).any fun h => h.openings != s.openings
  | _ => false

theorem staleSuccess_eq_true {s : KeyState} {op : BreakerOp} (h : staleSuccess s op = true) :
    ∃ id now t g, op = .consume id true now ∧ s.breaker.openSince = some t ∧
      s.outstanding id = some g ∧ g.openings ≠ s.openings := by
  cases op with
  | tryHold p now => cases h
  | drop id now => cases h
  | consume id ok now =>
    cases ok with
    | false => cases h
    | true =>
      simp only [staleSuccess, Bool.and_eq_true, Option.isSome_iff_exists] at h
      obtain ⟨⟨t, ht⟩, hany⟩ := h
      cases hg : s.outstanding id with
      | none => simp [hg] at hany
      | some g => exact ⟨id, now, t, g, rfl, ht, hg, by simpa [hg] using hany⟩

/-- The clock of the run does not go back, and every hold is asked for under
`p`. -/
def Steady (p : BreakerPolicy) (s : KeyState) (op : BreakerOp) : Prop :=
  s.clock ≤ op.now ∧ op.Under p

/-- The holds of the present opening are its probes. -/
structure OwnProbes (p : BreakerPolicy) (s : KeyState) : Prop where
  policy : ∀ h ∈ s.holds, h.policy = p
  openings : ∀ h ∈ s.holds, h.openings ≤ s.openings
  issuedAt : ∀ h ∈ s.holds, h.issuedAt ≤ s.clock
  opened : ∀ t, s.breaker.openSince = some t → t ≤ s.clock
  probes : ∀ t, s.breaker.openSince = some t → ∀ h ∈ s.holds, h.openings = s.openings →
    h.decision = .probe ∧ t + p.openCooldown ≤ h.issuedAt

theorem ownProbes_init (p : BreakerPolicy) : OwnProbes p .init where
  policy := by intro h hh; cases hh
  openings := by intro h hh; cases hh
  issuedAt := by intro h hh; cases hh
  opened := by intro t ht; cases ht
  probes := by intro t ht; cases ht

theorem OwnProbes.issue {p : BreakerPolicy} {s : KeyState} (hI : OwnProbes p s)
    {d : BreakerDecision} {b : BreakerState} {now : Instant} (hnow : s.clock ≤ now)
    (hb : b.openSince = s.breaker.openSince)
    (hd : ∀ t, s.breaker.openSince = some t → d = .probe ∧ p.openCooldown ≤ durationSince now t) :
    OwnProbes p (s.issue d b p now) := by
  refine ⟨fun h hh => ?_, fun h hh => ?_, fun h hh => ?_, fun t ht => ?_, fun t ht h hh ho => ?_⟩
  · rcases mem_issue.mp hh with hs | rfl
    · exact hI.policy h hs
    · rfl
  · rcases mem_issue.mp hh with hs | rfl
    · exact hI.openings h hs
    · exact Nat.le_refl _
  · rcases mem_issue.mp hh with hs | rfl
    · exact Nat.le_trans (hI.issuedAt h hs) hnow
    · exact Nat.le_refl _
  · exact Nat.le_trans (hI.opened t (hb ▸ ht)) hnow
  · have ht' : s.breaker.openSince = some t := hb ▸ ht
    rcases mem_issue.mp hh with hs | rfl
    · exact hI.probes t ht' h hs ho
    · obtain ⟨hprobe, hcool⟩ := hd t ht'
      have hle := Nat.le_trans (hI.opened t ht') hnow
      exact ⟨hprobe, (le_durationSince_iff _ hle).mp hcool⟩

theorem OwnProbes.settle {p : BreakerPolicy} {s : KeyState} (hI : OwnProbes p s)
    (g : IssuedHold) (ok : Bool) {now : Instant} (hnow : s.clock ≤ now) :
    OwnProbes p (s.settle g ok now) := by
  have keep : ∀ h ∈ (s.settle g ok now).holds, h ∈ s.holds := fun h hh => (mem_settle.mp hh).1
  refine ⟨fun h hh => hI.policy h (keep h hh), fun h hh => ?_, fun h hh => ?_, ?_, ?_⟩
  · have hle := hI.openings h (keep h hh)
    rcases settle_openings s g ok now with ⟨ho, _⟩ | ⟨ho, _⟩ <;> rw [ho] <;> omega
  · exact Nat.le_trans (hI.issuedAt h (keep h hh)) hnow
  · intro t ht
    rcases settle_openings s g ok now with ⟨_, ho⟩ | ⟨_, ho | ⟨_, ho⟩⟩
    · rw [ho] at ht
      exact Nat.le_of_eq (Option.some.inj ht).symm
    · rw [ho] at ht
      cases ht
    · rw [ho] at ht
      exact Nat.le_trans (hI.opened t ht) hnow
  · intro t ht h hh hopen
    rcases settle_openings s g ok now with ⟨ho, _⟩ | ⟨ho, hs | ⟨_, hs⟩⟩
    · -- the breaker has just opened: every hold is from before
      have hle := hI.openings h (keep h hh)
      rw [ho] at hopen
      omega
    · rw [hs] at ht
      cases ht
    · rw [hs] at ht
      rw [ho] at hopen
      exact hI.probes t ht h (keep h hh) hopen

theorem ownProbes_step {p : BreakerPolicy} (hp : p.enabled = true) :
    PreservedUnder KeyState.step (Steady p) (OwnProbes p) := by
  intro s op s' hI hG h
  obtain ⟨hnow, hunder⟩ := hG
  rcases step_cases h with ⟨q, hop, rfl⟩ | ⟨g, id, ok, _, _, rfl⟩
  · obtain rfl : q = p := by
      rw [hop] at hunder
      exact hunder
    rcases tryHold_cases s q op.now with ⟨e, _⟩ | ⟨e, hc⟩ | ⟨e, _, t, ht, hcool⟩
    · rw [e]
      exact ⟨hI.policy, hI.openings, fun h hh => Nat.le_trans (hI.issuedAt h hh) hnow,
        fun t ht => Nat.le_trans (hI.opened t ht) hnow, hI.probes⟩
    · rw [e]
      refine hI.issue hnow rfl fun t ht => ?_
      rcases hc with hc | hc
      · rw [hp] at hc
        cases hc
      · rw [hc] at ht
        cases ht
    · rw [e]
      refine hI.issue hnow rfl fun u hu => ?_
      rw [ht] at hu
      obtain rfl := Option.some.inj hu
      exact ⟨rfl, hcool⟩
  · exact hI.settle g ok hnow

/-- Since `t` the breaker has stayed open, or its cooldown has elapsed. -/
def CoolingSince (p : BreakerPolicy) (t : Instant) (s : KeyState) : Prop :=
  OwnProbes p s ∧ (s.breaker.openSince = some t ∨ t + p.openCooldown ≤ s.clock)

theorem coolingSince_step {p : BreakerPolicy} (hp : p.enabled = true) (t : Instant) :
    PreservedUnder KeyState.step (fun s op => Steady p s op ∧ staleSuccess s op = false)
      (CoolingSince p t) := by
  intro s op s' hI hG h
  obtain ⟨hown, hor⟩ := hI
  obtain ⟨hsteady, hstale⟩ := hG
  refine ⟨ownProbes_step hp s op s' hown hsteady h, ?_⟩
  have hclock := step_clock h
  have hnow := hsteady.1
  rcases hor with ht | hlate
  · rcases step_cases h with ⟨q, _, rfl⟩ | ⟨g, id, ok, hrec, hg, rfl⟩
    · exact Or.inl (by rw [tryHold_openSince, ht])
    · have hpol := hown.policy g (outstanding_some hg).1
      have hle := hown.opened t ht
      have hopen := (BreakerState.record_open ht ok op.now g.policy).2
      cases ok with
      | true =>
        -- a success of the present opening comes from a probe after the cooldown
        rw [records_true hrec] at hstale
        have hfresh : g.openings = s.openings := by
          simpa [staleSuccess, ht, hg] using hstale
        obtain ⟨_, hissued⟩ := hown.probes t ht g (outstanding_some hg).1 hfresh
        have hclk := hown.issuedAt g (outstanding_some hg).1
        exact Or.inr (Nat.le_trans hissued (Nat.le_trans hclk hnow))
      | false =>
        simp only [Bool.false_eq_true, if_false, hpol] at hopen
        split at hopen
        · rename_i hcool
          exact Or.inr ((le_durationSince_iff _ (Nat.le_trans hle hnow)).mp hcool)
        · exact Or.inl (by rw [KeyState.settle, hpol, hopen])
  · rw [hclock]
    exact Or.inr (Nat.le_trans hlate hnow)

theorem steady_along {p : BreakerPolicy} {ops : List BreakerOp} (hpol : ∀ op ∈ ops, op.Under p)
    (hclock : (ops.map BreakerOp.now).Pairwise (· ≤ ·)) {s : KeyState}
    (hs : ∀ op ∈ ops, s.clock ≤ op.now) : Along KeyState.step (Steady p) s ops := by
  induction ops generalizing s with
  | nil => trivial
  | cons op ops ih =>
    rw [List.map_cons, List.pairwise_cons] at hclock
    refine ⟨⟨hs op List.mem_cons_self, hpol op List.mem_cons_self⟩, fun s' hs' => ?_⟩
    refine ih (fun o ho => hpol o (List.mem_cons_of_mem _ ho)) hclock.2 fun o ho => ?_
    rw [step_clock hs']
    exact hclock.1 o.now (List.mem_map_of_mem ho)

theorem grants_cooled {p : BreakerPolicy} (hp : p.enabled = true) {t : Instant} {s : KeyState}
    {now : Instant} (hI : CoolingSince p t s) (hnow : s.clock ≤ now) (h : s.grants p now) :
    t + p.openCooldown ≤ now := by
  obtain ⟨hown, ht | hlate⟩ := hI
  · by_contra hlt
    refine h ((BreakerState.decision_skip_iff _ _ _).mpr ⟨hp, t, ht, Or.inl ?_⟩)
    rw [← Nat.not_le, le_durationSince_iff _ (Nat.le_trans (hown.opened t ht) hnow)]
    exact hlt
  · exact Nat.le_trans hlate hnow

/-- **Open safety.** Under one enabled policy and a clock that does not go back,
a run is open-safe exactly when no hold from before the present opening records
a success while the breaker is open. -/
theorem openSafe_iff_no_staleSuccess (p : BreakerPolicy) (hp : p.enabled = true)
    (ops : List BreakerOp) (hpol : ∀ op ∈ ops, op.Under p)
    (hclock : (ops.map BreakerOp.now).Pairwise (· ≤ ·)) :
    OpenSafe p ops ↔ Along KeyState.step (fun s op => staleSuccess s op = false) .init ops := by
  have hsteady : Along KeyState.step (Steady p) .init ops :=
    steady_along hpol hclock fun _ _ => Nat.zero_le _
  constructor
  · intro hsafe
    rw [along_iff_forall_split]
    intro pre op post s hops hs
    by_contra hstale
    rw [Bool.not_eq_false] at hstale
    -- a stale success closes the breaker, and its hold is not of this opening
    obtain ⟨id, now, t, g, rfl, ht, hg, hne⟩ := staleSuccess_eq_true hstale
    have hstep : s.step (.consume id true now) = some (s.settle g true now) := by
      rw [KeyState.step, hg]
      rfl
    obtain ⟨_, _, _, hop, ho, _, heq, _⟩ := hsafe.closedByProbe pre _ post s _ t hops hs hstep ht
      (BreakerState.record_open ht true now g.policy).2
    cases hop
    cases hg.symm.trans ho
    exact hne heq
  · intro hfresh
    have hboth := hsteady.and hfresh
    have hown : ∀ pre post s, ops = pre ++ post → exec KeyState.step .init pre = some s →
        OwnProbes p s := by
      intro pre post s hops hs
      subst hops
      exact (ownProbes_step hp).exec (ownProbes_init p) ((along_append hs).mp hsteady).1 hs
    constructor
    · intro pre op mid now post s s' s'' t hops hs hstep _ hopen hmid hgrant
      have hpre := hown pre _ s hops hs
      subst hops
      obtain ⟨_, hrest⟩ := (along_append hs).mp hboth
      obtain ⟨hop, hrest⟩ := (along_cons_of_step hstep).mp hrest
      obtain ⟨hmid', hlast⟩ := (along_append hmid).mp hrest
      have hI : CoolingSince p t s' := ⟨ownProbes_step hp s op s' hpre hop.1 hstep, Or.inl hopen⟩
      exact grants_cooled hp ((coolingSince_step hp t).exec hI hmid' hmid) hlast.1.1.1 hgrant
    · intro pre op post s s' t hops hs hstep ht hclosed
      have hpre := hown pre _ s hops hs
      subst hops
      have hstale := hfresh.at_split hs
      obtain ⟨id, g, hop, hg⟩ := closes_cases hstep ht hclosed
      rw [hop] at hstale
      have hopen : g.openings = s.openings := by simpa [staleSuccess, ht, hg] using hstale
      obtain ⟨hprobe, hissued⟩ := hpre.probes t ht g (outstanding_some hg).1 hopen
      exact ⟨id, op.now, g, hop, hg, hprobe, hopen, hissued⟩

theorem openSafe_probeRun : OpenSafe touchyPolicy probeRun :=
  (openSafe_iff_no_staleSuccess touchyPolicy rfl probeRun (by simp [probeRun, BreakerOp.Under])
    (by decide)).mpr (by decide)

/-- Two calls go out, the first trips the breaker at 1 s, and the second succeeds
at 2 s: the breaker closes and the next call goes out at 3 s. -/
def lateSuccess : List BreakerOp :=
  [.tryHold touchyPolicy 0, .tryHold touchyPolicy 0, .consume 0 false (fromSecs 1),
    .consume 1 true (fromSecs 2), .tryHold touchyPolicy (fromSecs 3)]

theorem stale_success_closes_open_breaker :
    touchyPolicy.enabled = true ∧ (∀ op ∈ lateSuccess, op.Under touchyPolicy) ∧
      (lateSuccess.map BreakerOp.now).Pairwise (· ≤ ·) ∧
      (exec KeyState.step .init lateSuccess).isSome ∧ ¬ OpenSafe touchyPolicy lateSuccess := by
  refine ⟨rfl, by simp [lateSuccess, BreakerOp.Under], by decide, by decide, fun h => ?_⟩
  have hearly := h.noEarlyHold (lateSuccess.take 2) (.consume 0 false (fromSecs 1))
    [.consume 1 true (fromSecs 2)] (fromSecs 3) [] _ _ _ (fromSecs 1) rfl rfl rfl
    (by decide) (by decide) rfl (by decide)
  exact absurd hearly (by decide)

end AgentShim.BreakerRuns
