import AgentShim.Config.Schema
import AgentShim.Router.RequestLog

/-
  Fallback eligibility and the retry loop

  A provider error is eligible when its tag is on the route's `retry_on` list,
  terminal otherwise. `retry_with_policy` calls one upstream until it accepts,
  fails terminally, or an eligible failure finds no attempt or no backoff
  budget left.

  What is proved:
    1. `eligibility_default` — on the default list the tags decide as the
       default classifier does.
    2. `retryLoop_cases` — one round of the loop: it ends with the call just
       made, or that call failed eligibly and the loop goes on.
    3. `retryWithPolicy_calls` — every call but the last is an eligible failure
       and the last one gives the result.
    4. `retryWithPolicy_attempts` — how many calls there are, and when they are
       all the policy allows.

  The loop reads nothing but the answers of the upstream, so it is a function
  from those to the calls it makes and their result. The jittered backoff, in
  milliseconds, is given by position and attempt; the sum of the sleeps wraps.

  Correspondence (Rust ↔ Lean):
    `error_tag`, `fallback_eligibility*` ↔ `errorTag`, `fallbackEligibility`,
                                           `fallbackEligibilityWithOverrides`
    `retry_with_policy`  ↔ `retryWithPolicy`; in `retryLoop` the first argument
                           is `max_attempts - attempt`
    `RetryOutcome`       ↔ `RetryResult`, or the request was dropped meanwhile
-/

namespace AgentShim.Retrying

open AgentShim.Config AgentShim.RequestLog

/-! ## Eligibility -/

inductive FallbackEligibility
  | eligible
  | terminal
  deriving DecidableEq, Repr

/-- The default classifier. -/
def fallbackEligibility : ProviderError → FallbackEligibility
  | .network _ => .eligible
  | .upstream status _ => if 500 ≤ status || status == 429 then .eligible else .terminal
  | .decode _ => .terminal
  | .encode _ => .terminal
  | .capabilityMismatch _ => .terminal
  | .unknownProvider _ => .terminal

def errorTag : ProviderError → String
  | .network _ => "network"
  | .upstream status _ =>
    if 500 ≤ status then "upstream_5xx"
    else if status == 429 then "upstream_429"
    else "upstream_4xx"
  | .decode _ => "decode"
  | .encode _ => "encode"
  | .capabilityMismatch _ => "capability_mismatch"
  | .unknownProvider _ => "unknown_provider"

def fallbackEligibilityWithOverrides (e : ProviderError) (retryOn : List String) :
    FallbackEligibility :=
  if retryOn.any fun t => t == errorTag e then .eligible else .terminal

theorem eligibility_default (e : ProviderError) :
    fallbackEligibilityWithOverrides e RetryConfig.default.retryOn = fallbackEligibility e := by
  cases e with
  | upstream status body =>
    unfold fallbackEligibilityWithOverrides errorTag fallbackEligibility
    by_cases h5 : 500 ≤ status
    · simp [h5, RetryConfig.default]
    · by_cases h4 : status = 429
      · simp [h4, RetryConfig.default]
      · simp [h5, h4, RetryConfig.default]
  | network message => rfl
  | decode message => rfl
  | encode message => rfl
  | capabilityMismatch message => rfl
  | unknownProvider name => rfl

/-- The event is a call that failed with an error on the list. -/
def EligibleFailure (retryOn : List String) (e : Event) : Prop :=
  ∃ err, e.failure = some err ∧ fallbackEligibilityWithOverrides err retryOn = .eligible

/-- The event is a call that failed with an error off the list. -/
def TerminalFailure (retryOn : List String) (e : Event) : Prop :=
  ∃ err, e.failure = some err ∧ fallbackEligibilityWithOverrides err retryOn = .terminal

theorem EligibleFailure.not_terminal {retryOn : List String} {e : Event}
    (h : EligibleFailure retryOn e) : ¬ TerminalFailure retryOn e := by
  rintro ⟨err', herr', hterminal⟩
  obtain ⟨err, herr, heligible⟩ := h
  rw [herr] at herr'
  cases herr'
  rw [heligible] at hterminal
  cases hterminal

/-! ## The loop -/

/-- `RetryPolicy`, which copies the route's `RetryConfig`. -/
abbrev RetryPolicy := RetryConfig

/-- How the surroundings of one request behave: the answer of each upstream by
position and attempt, that of the raw attempt on the head (none when passthrough
does not apply), each backoff, and whether the request is dropped during it. -/
structure Upstreams where
  complete : Nat → Nat → Answer EventItem
  proxyRaw : Option (Answer ByteItem)
  backoffMs : Nat → Nat → Nat
  sleepDropped : Nat → Nat → Bool

inductive RetryResult
  | done (result : Except ProviderError (List (Poll EventItem))) (attempts : Nat)
  | dropped

/-- `u64` addition, modulo 2^64 in a release build. -/
def addU64 (a b : Nat) : Nat := (a + b) % 18446744073709551616

variable (up : Upstreams) (policy : RetryPolicy) (i : Nat)

/-- The calls of the loop from `attempt` on, with `total` milliseconds slept. -/
def retryLoop : Nat → Nat → Nat → List Event × RetryResult
  | left, attempt, total =>
    let call := Event.called i (up.complete i attempt)
    match up.complete i attempt with
    | .accepted polls => ([call], .done (.ok polls) attempt)
    | .dropped => ([call], .dropped)
    | .failed e =>
      match fallbackEligibilityWithOverrides e policy.retryOn with
      | .terminal => ([call], .done (.error e) attempt)
      | .eligible =>
        match left with
        -- attempt >= max_attempts
        | 0 => ([call], .done (.error e) attempt)
        | left + 1 =>
          let slept := addU64 total (up.backoffMs i attempt)
          if policy.totalBudgetMs < slept then ([call], .done (.error e) attempt)
          else if up.sleepDropped i attempt then ([call], .dropped)
          else
            let rest := retryLoop left (attempt + 1) slept
            (call :: rest.1, rest.2)

def retryWithPolicy : List Event × RetryResult := retryLoop up policy i (policy.maxAttempts - 1) 1 0

/-- The call of an attempt failed eligibly and the sleep after it was within the
budget and not cut short. -/
structure Retries (attempt total : Nat) : Prop where
  failed : ∃ e, up.complete i attempt = .failed e ∧
    fallbackEligibilityWithOverrides e policy.retryOn = .eligible
  budget : addU64 total (up.backoffMs i attempt) ≤ policy.totalBudgetMs
  slept : up.sleepDropped i attempt = false

/-- What the last call says of the result. -/
def EndsWith : RetryResult → Answer EventItem → Prop
  | .done (.ok polls) _, answer => answer = .accepted polls
  | .done (.error e) _, answer => answer = .failed e
  | .dropped, answer => ∀ polls, answer ≠ .accepted polls

/-- One round: the loop ends with this call, or goes on after an eligible
failure. -/
theorem retryLoop_cases (left attempt total : Nat) :
    (∃ result, retryLoop up policy i left attempt total =
        ([.called i (up.complete i attempt)], result) ∧
      EndsWith result (up.complete i attempt) ∧
      (left ≠ 0 → ¬ Retries up policy i attempt total)) ∨
    (∃ l, left = l + 1 ∧ Retries up policy i attempt total ∧
      retryLoop up policy i left attempt total =
        (.called i (up.complete i attempt) ::
            (retryLoop up policy i l (attempt + 1) (addU64 total (up.backoffMs i attempt))).1,
          (retryLoop up policy i l (attempt + 1) (addU64 total (up.backoffMs i attempt))).2)) := by
  rw [retryLoop]
  cases hanswer : up.complete i attempt with
  | accepted polls =>
    refine Or.inl ⟨_, rfl, rfl, fun _ hretries => ?_⟩
    obtain ⟨e, he, _⟩ := hretries.failed
    rw [hanswer] at he
    cases he
  | dropped =>
    refine Or.inl ⟨_, rfl, fun polls h => (by cases h), fun _ hretries => ?_⟩
    obtain ⟨e, he, _⟩ := hretries.failed
    rw [hanswer] at he
    cases he
  | failed e =>
    dsimp only
    cases heligible : fallbackEligibilityWithOverrides e policy.retryOn with
    | terminal =>
      refine Or.inl ⟨_, rfl, rfl, fun _ hretries => ?_⟩
      obtain ⟨e', he', heligible'⟩ := hretries.failed
      rw [hanswer] at he'
      cases he'
      rw [heligible] at heligible'
      cases heligible'
    | eligible =>
      cases left with
      | zero => exact Or.inl ⟨_, rfl, rfl, fun h => absurd rfl h⟩
      | succ left =>
        dsimp only
        split
        · -- the next sleep does not fit the budget
          rename_i hover
          refine Or.inl ⟨_, rfl, rfl, fun _ hretries => ?_⟩
          exact absurd hretries.budget (Nat.not_le_of_lt hover)
        · rename_i hbudget
          split
          · -- the caller goes away while the loop sleeps
            rename_i hdropped
            refine Or.inl ⟨_, rfl, fun polls h => (by cases h), fun _ hretries => ?_⟩
            rw [hretries.slept] at hdropped
            cases hdropped
          · rename_i hslept
            refine Or.inr ⟨left, rfl, ⟨⟨e, hanswer, heligible⟩, ?_, ?_⟩, rfl⟩
            · exact Nat.le_of_not_lt hbudget
            · exact Bool.eq_false_iff.mpr hslept

/-! ## The calls of a loop -/

/-- The calls of a retry loop on the `i`-th upstream: all but the last failed
eligibly, and the last gives the result. -/
structure RetryCalls (run : List Event × RetryResult) (earlier : List Event)
    (last : Answer EventItem) : Prop where
  calls : run.1 = earlier ++ [.called i last]
  position : ∀ e ∈ earlier, ∃ answer, e = .called i answer
  eligible : ∀ e ∈ earlier, EligibleFailure policy.retryOn e
  ends : EndsWith run.2 last

theorem retryLoop_calls (left attempt total : Nat) :
    ∃ earlier last,
      RetryCalls policy i (retryLoop up policy i left attempt total) earlier last := by
  induction left generalizing attempt total with
  | zero =>
    obtain ⟨result, hrun, hends, -⟩ | ⟨l, hl, -⟩ := retryLoop_cases up policy i 0 attempt total
    · rw [hrun]
      exact ⟨[], _, rfl, fun e he => (by cases he), fun e he => (by cases he), hends⟩
    · cases hl
  | succ left ih =>
    obtain ⟨result, hrun, hends, -⟩ | ⟨l, hl, hretries, hrun⟩ :=
      retryLoop_cases up policy i (left + 1) attempt total
    · rw [hrun]
      exact ⟨[], _, rfl, fun e he => (by cases he), fun e he => (by cases he), hends⟩
    · obtain rfl := Nat.succ.inj hl
      obtain ⟨earlier, last, h⟩ := ih (attempt + 1) (addU64 total (up.backoffMs i attempt))
      obtain ⟨err, hanswer, heligible⟩ := hretries.failed
      rw [hrun, hanswer]
      refine ⟨.called i (.failed err) :: earlier, last, ?_, fun e he => ?_, fun e he => ?_, h.ends⟩
      · rw [h.calls]
        rfl
      · rcases List.mem_cons.mp he with rfl | he
        · exact ⟨_, rfl⟩
        · exact h.position e he
      · rcases List.mem_cons.mp he with rfl | he
        · exact ⟨err, rfl, heligible⟩
        · exact h.eligible e he

theorem retryWithPolicy_calls :
    ∃ earlier last, RetryCalls policy i (retryWithPolicy up policy i) earlier last :=
  retryLoop_calls up policy i _ _ _

section RetryCalls

variable {policy : RetryPolicy} {i : Nat} {run : List Event × RetryResult}
  {earlier : List Event} {last : Answer EventItem}

theorem RetryCalls.mem (h : RetryCalls policy i run earlier last) :
    ∀ e ∈ run.1, ∃ answer, e = .called i answer := by
  intro e he
  rw [h.calls, List.mem_append, List.mem_singleton] at he
  rcases he with he | rfl
  · exact h.position e he
  · exact ⟨last, rfl⟩

theorem RetryCalls.pairwise (h : RetryCalls policy i run earlier last) :
    run.1.Pairwise fun e _ => EligibleFailure policy.retryOn e := by
  have htriv : earlier.Pairwise fun _ _ => True := List.pairwise_of_forall fun _ _ => trivial
  rw [h.calls, List.pairwise_append]
  refine ⟨htriv.imp_of_mem fun he _ _ => h.eligible _ he, List.pairwise_singleton _ _, ?_⟩
  intro e he _ _
  exact h.eligible e he

/-- A loop left after an eligible failure made eligible failures only. -/
theorem RetryCalls.all_eligible (h : RetryCalls policy i run earlier last) {e : ProviderError}
    {n : Nat} (hresult : run.2 = .done (.error e) n)
    (heligible : fallbackEligibilityWithOverrides e policy.retryOn = .eligible) :
    ∀ ev ∈ run.1, EligibleFailure policy.retryOn ev := by
  intro ev hev
  have hlast := h.ends
  rw [hresult] at hlast
  rw [h.calls, List.mem_append, List.mem_singleton] at hev
  rcases hev with hev | rfl
  · exact h.eligible ev hev
  · refine ⟨e, ?_, heligible⟩
    rw [show last = .failed e from hlast]
    rfl

theorem RetryCalls.accepted_mem (h : RetryCalls policy i run earlier last)
    {polls : List (Poll EventItem)} {n : Nat} (hresult : run.2 = .done (.ok polls) n) :
    Event.called i (.accepted polls) ∈ run.1 := by
  have hlast := h.ends
  rw [hresult] at hlast
  rw [h.calls, show last = .accepted polls from hlast]
  exact List.mem_append_right _ List.mem_cons_self

end RetryCalls

/-- The milliseconds slept after the first `n` attempts. -/
def slept : Nat → Nat
  | 0 => 0
  | n + 1 => addU64 (slept n) (up.backoffMs i (n + 1))

theorem retryLoop_length (left n : Nat) :
    (retryLoop up policy i left (n + 1) (slept up i n)).1.length ≤ left + 1 ∧
      ((retryLoop up policy i left (n + 1) (slept up i n)).1.length = left + 1 ↔
        ∀ m, n ≤ m → m < n + left → Retries up policy i (m + 1) (slept up i m)) := by
  induction left generalizing n with
  | zero =>
    obtain ⟨result, hrun, -⟩ | ⟨l, hl, -⟩ := retryLoop_cases up policy i 0 (n + 1) (slept up i n)
    · rw [hrun]
      refine ⟨Nat.le_refl _, fun _ m hle hlt => ?_, fun _ => rfl⟩
      omega
    · cases hl
  | succ left ih =>
    obtain ⟨result, hrun, -, hstop⟩ | ⟨l, hl, hretries, hrun⟩ :=
      retryLoop_cases up policy i (left + 1) (n + 1) (slept up i n)
    · rw [hrun]
      refine ⟨Nat.succ_le_succ (Nat.zero_le _), fun h => ?_, fun h => ?_⟩
      · simp at h
      · exact absurd (h n (Nat.le_refl n) (by omega)) (hstop (Nat.succ_ne_zero _))
    · obtain rfl := Nat.succ.inj hl
      obtain ⟨hle, hiff⟩ := ih (n + 1)
      rw [hrun]
      refine ⟨Nat.succ_le_succ hle, fun h m hlo hhi => ?_, fun h => ?_⟩
      · -- the round just made, then the rest of the loop
        rcases Nat.eq_or_lt_of_le hlo with rfl | hlo
        · exact hretries
        · exact hiff.mp (Nat.succ.inj h) m hlo (by omega)
      · exact congrArg (· + 1) (hiff.mpr fun m hlo hhi => h m (by omega) (by omega))

/-- The loop makes at most `max_attempts` calls, and that many exactly when all
but the last are retried. -/
theorem retryWithPolicy_attempts (h : 1 ≤ policy.maxAttempts) :
    (retryWithPolicy up policy i).1.length ≤ policy.maxAttempts ∧
      ((retryWithPolicy up policy i).1.length = policy.maxAttempts ↔
        ∀ n, 1 ≤ n → n < policy.maxAttempts → Retries up policy i n (slept up i (n - 1))) := by
  have hlen := retryLoop_length up policy i (policy.maxAttempts - 1) 0
  rw [Nat.sub_add_cancel h, Nat.zero_add] at hlen
  refine ⟨hlen.1, hlen.2.trans ⟨fun hall n hn hlt => ?_, fun hall m _ hlt => ?_⟩⟩
  · have hm := hall (n - 1) (Nat.zero_le _) (by omega)
    rw [Nat.sub_add_cancel hn] at hm
    exact hm
  · exact hall (m + 1) (by omega) (by omega)

end AgentShim.Retrying
