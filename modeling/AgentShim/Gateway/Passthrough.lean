import AgentShim.Gateway.Dispatch

/-
  Passthrough, the breakers and the call budget

  The raw attempt on the head of the chain goes out before the walk and outside
  its rules: it asks neither the breaker's permission nor the retry policy, and
  after an error the walk starts as if it had not been made. Both rules hold of
  a dispatch exactly where that does not matter.

  What is proved:
    1. `calls_permitted_iff` — every call of a dispatch has the breaker's
       permission, unless the raw attempt goes to a head without it;
       `passthrough_calls_open_head` is such a run.
    2. `call_budget_iff` — the calls to the head stay within `max_attempts` and
       none follows a terminal failure, unless the raw attempt fails terminally,
       or eligibly and the walk then makes every attempt at the head;
       `passthrough_exceeds_budget` is such a run.
-/

namespace AgentShim.Gateway

open AgentShim.CircuitBreaker AgentShim.Config AgentShim.RequestAdmission AgentShim.RequestLog
  AgentShim.ResilientCaller AgentShim.Retrying AgentShim.StaticRoutes

variable {Prov L : Type}

/-! ## Permission -/

/-- Every call among the events goes to an element with the breaker's
permission. -/
def CallsPermitted (t : AdmissionTicket) (es : List Event) : Prop :=
  ∀ e ∈ es, ∀ i, e.callAt = some i → t.breakerAllowed i = true

theorem release_no_call {chosen : Option (Nat × Bool)} {i : Nat}
    {holds : List (Option BreakerHold)} {e : Event} (h : e ∈ releaseEvents chosen i holds) :
    e.callAt = none ∧ e.failure = none := by
  obtain ⟨token, -, rfl⟩ := mem_releaseEvents h
  exact ⟨rfl, rfl⟩

theorem callsPermitted_append_release {t : AdmissionTicket} {calls : List Event}
    {chosen : Option (Nat × Bool)} {i : Nat} {holds : List (Option BreakerHold)} :
    CallsPermitted t (calls ++ releaseEvents chosen i holds) ↔ CallsPermitted t calls := by
  refine ⟨fun h e he => h e (List.mem_append_left _ he), fun h e he j hj => ?_⟩
  rcases List.mem_append.mp he with he | he
  · exact h e he j hj
  · rw [(release_no_call he).1] at hj
    cases hj

theorem callsPermitted_walk (providers : OrdMap Prov) (up : Upstreams) (t : AdmissionTicket) :
    CallsPermitted t (completeInner providers up t).1 := by
  intro e he i hi
  obtain ⟨j, answer, rfl, -, hallowed⟩ :=
    (walk_calls 0 t.filteredChain .start).permitted e he
  cases hi
  exact hallowed

theorem callsPermitted_cons_raw {t : AdmissionTicket} {answer : Answer ByteItem}
    {es : List Event} :
    CallsPermitted t (.calledRaw 0 answer :: es) ↔
      t.breakerAllowed 0 = true ∧ CallsPermitted t es := by
  refine ⟨fun h => ⟨h _ List.mem_cons_self 0 rfl, fun e he => h e (List.mem_cons_of_mem _ he)⟩,
    fun ⟨hhead, htail⟩ e he i hi => ?_⟩
  rcases List.mem_cons.mp he with rfl | he
  · cases hi
    exact hhead
  · exact htail e he i hi

/-- **Permission of the calls.** Every call of a dispatch has the breaker's
permission exactly when no raw attempt goes to a head without it. -/
theorem calls_permitted_iff (adm : Admission Prov L) (up : Upstreams) (clock : Nat → Instant)
    (pt : Passthrough) (t : AdmissionTicket) (w : World L) :
    CallsPermitted t ((dispatchTicket adm up clock pt t w).2.log.drop w.log.length) ↔
      ¬ ((∃ answer, RawAttempt adm up pt t answer) ∧ t.breakerAllowed 0 = false) := by
  obtain ⟨calls, chosen, hcalls, hadds⟩ := dispatchTicket_adds clock pt t w
  rw [hadds.drop_log, callsPermitted_append_release]
  have hraw : ∀ answer, RawAttempt adm up pt t answer →
      (t.breakerAllowed 0 = true ↔
        ¬ ((∃ answer, RawAttempt adm up pt t answer) ∧ t.breakerAllowed 0 = false)) := by
    intro answer h
    rw [← Bool.not_eq_true]
    exact ⟨fun hallowed hboth => hboth.2 hallowed,
      fun hnot => by_contra fun hno => hnot ⟨⟨answer, h⟩, hno⟩⟩
  cases hcalls with
  | canonical h =>
    exact ⟨fun _ hboth => hboth.1.elim h, fun _ => callsPermitted_walk adm.providers up t⟩
  | refused h =>
    refine ⟨fun _ hboth => hboth.1.elim h, fun _ e he => ?_⟩
    cases he
  | proxied h =>
    rw [callsPermitted_cons_raw, ← hraw _ h]
    exact ⟨fun hall => hall.1, fun hallowed => ⟨hallowed, fun e he => by cases he⟩⟩
  | fallThrough h =>
    rw [callsPermitted_cons_raw, ← hraw _ h]
    exact ⟨fun hall => hall.1,
      fun hallowed => ⟨hallowed, callsPermitted_walk adm.providers up t⟩⟩
  | dropped h =>
    rw [callsPermitted_cons_raw, ← hraw _ h]
    exact ⟨fun hall => hall.1, fun hallowed => ⟨hallowed, fun e he => by cases he⟩⟩

/-- The head serves the raw request. -/
def rawHead (answer : Answer ByteItem) (complete : Nat → Nat → Answer EventItem) : Upstreams where
  complete := complete
  proxyRaw := some answer
  backoffMs := fun _ _ => 100
  sleepDropped := fun _ _ => false

/-- The breaker of the head opened at 5, within its cooldown of 30 s. -/
def openHead : BreakerRegistry :=
  Function.update BreakerRegistry.new ("openai", "gpt-4o")
    { samples := [(5, false)], openSince := some 5, probeInFlight := false }

/-- Admission skips the open head and holds the fallback; the passthrough calls
the head. -/
theorem passthrough_calls_open_head :
    ∃ t w, admitRequest chainAdmission (stillClock 6) (chainRequest "openai_responses")
        (.start .disabled openHead) = (.ok t, w) ∧
      t.breakerAllowed 0 = false ∧
      .calledRaw 0 (.accepted [.ready (.ok [104, 105])]) ∈
        (dispatchTicket chainAdmission
          (rawHead (.accepted [.ready (.ok [104, 105])]) fun _ _ => .dropped) (stillClock 6).now
          { tryProxyRaw := true, mutated := false } t w).2.log.drop w.log.length := by
  refine ⟨_, _, rfl, rfl, ?_⟩
  exact List.mem_cons_self

/-! ## The call budget -/

/-- The calls to the head are at most `max_attempts`, and no call follows one
that failed terminally. -/
structure CallBudget (policy : RetryPolicy) (es : List Event) : Prop where
  head : callsAt 0 es ≤ policy.maxAttempts
  terminal : es.Pairwise fun e e' => TerminalFailure policy.retryOn e → e'.callAt = none

theorem callsAt_release {chosen : Option (Nat × Bool)} {i j : Nat}
    {holds : List (Option BreakerHold)} : callsAt j (releaseEvents chosen i holds) = 0 := by
  rw [callsAt, List.countP_eq_zero]
  intro e he
  rw [(release_no_call he).1]
  simp

theorem callBudget_append_release {policy : RetryPolicy} {calls : List Event}
    {chosen : Option (Nat × Bool)} {i : Nat} {holds : List (Option BreakerHold)} :
    CallBudget policy (calls ++ releaseEvents chosen i holds) ↔ CallBudget policy calls := by
  have hcount : callsAt 0 (calls ++ releaseEvents chosen i holds) = callsAt 0 calls := by
    rw [callsAt_append, callsAt_release, Nat.add_zero]
  constructor
  · intro h
    have hhead := h.head
    rw [hcount] at hhead
    exact ⟨hhead, (List.pairwise_append.mp h.terminal).1⟩
  · intro h
    refine ⟨by rw [hcount]; exact h.head, List.pairwise_append.mpr ⟨h.terminal, ?_, ?_⟩⟩
    · apply List.pairwise_of_forall_mem_list
      intro e he e' he' _
      exact (release_no_call he').1
    · intro e _ e' he' _
      exact (release_no_call he').1

/-- A single call is within any budget of one. -/
theorem callBudget_singleton {policy : RetryPolicy} (h : 1 ≤ policy.maxAttempts) (e : Event) :
    CallBudget policy [e] :=
  ⟨Nat.le_trans List.countP_le_length h, List.pairwise_singleton _ _⟩

section Walk

variable {adm : Admission Prov L} {up : Upstreams} {t : AdmissionTicket}

/-- The walk breaks the terminal rule nowhere. -/
theorem walk_terminal :
    (completeInner adm.providers up t).1.Pairwise
      fun e e' => TerminalFailure t.resolved.retry.retryOn e → e'.callAt = none :=
  (walk_calls 0 t.filteredChain .start).eligible.imp
    fun heligible hterminal => absurd hterminal heligible.not_terminal

theorem walk_head_le (hformed : WellFormed adm t) (hmax : 1 ≤ t.resolved.retry.maxAttempts) :
    callsAt 0 (completeInner adm.providers up t).1 ≤ t.resolved.retry.maxAttempts := by
  rw [completeInner_head_calls hformed]
  split
  · exact (retryWithPolicy_attempts up t.resolved.retry 0 hmax).1
  · exact Nat.zero_le _

/-- The walk leaves room for one more call to the head unless it is permitted
and makes every attempt. -/
theorem walk_head_lt_iff (hformed : WellFormed adm t) (hmax : 1 ≤ t.resolved.retry.maxAttempts) :
    callsAt 0 (completeInner adm.providers up t).1 < t.resolved.retry.maxAttempts ↔
      ¬ (t.breakerAllowed 0 = true ∧ ∀ n, 1 ≤ n → n < t.resolved.retry.maxAttempts →
        Retries up t.resolved.retry 0 n (slept up 0 (n - 1))) := by
  obtain ⟨hle, hiff⟩ := retryWithPolicy_attempts up t.resolved.retry 0 hmax
  rw [completeInner_head_calls hformed, ← hiff]
  cases hallowed : t.breakerAllowed 0 with
  | false =>
    rw [if_neg Bool.false_ne_true]
    exact ⟨fun _ h => Bool.false_ne_true h.1, fun _ => hmax⟩
  | true =>
    rw [if_pos rfl]
    exact ⟨fun hlt h => Nat.ne_of_lt hlt h.2,
      fun h => Nat.lt_of_le_of_ne hle fun heq => h ⟨rfl, heq⟩⟩

/-- After a failed raw attempt: the terminal rule asks that it failed eligibly,
the count that the walk leaves room for it. -/
theorem callBudget_fallThrough (hformed : WellFormed adm t) {e : ProviderError} :
    CallBudget t.resolved.retry
        (.calledRaw 0 (.failed e) :: (completeInner adm.providers up t).1) ↔
      fallbackEligibilityWithOverrides e t.resolved.retry.retryOn = .eligible ∧
        callsAt 0 (completeInner adm.providers up t).1 < t.resolved.retry.maxAttempts := by
  have hcount : callsAt 0 (.calledRaw 0 (.failed e) :: (completeInner adm.providers up t).1) =
      callsAt 0 (completeInner adm.providers up t).1 + 1 :=
    List.countP_cons_of_pos rfl
  have hterminal : TerminalFailure t.resolved.retry.retryOn (.calledRaw 0 (.failed e)) ↔
      fallbackEligibilityWithOverrides e t.resolved.retry.retryOn = .terminal := by
    refine ⟨fun ⟨err, herr, h⟩ => ?_, fun h => ⟨e, rfl, h⟩⟩
    cases herr
    exact h
  constructor
  · intro h
    have hhead := h.head
    rw [hcount] at hhead
    refine ⟨?_, hhead⟩
    cases heligible : fallbackEligibilityWithOverrides e t.resolved.retry.retryOn with
    | eligible => rfl
    | terminal =>
      -- the walk calls someone, after a terminal failure
      obtain ⟨ev, hev⟩ := List.exists_mem_of_ne_nil _ (completeInner_ne_nil up hformed)
      have hnone := (List.pairwise_cons.mp h.terminal).1 ev hev (hterminal.mpr heligible)
      obtain ⟨j, answer, rfl, -⟩ := (walk_calls 0 t.filteredChain .start).permitted ev hev
      cases hnone
  · intro h
    refine ⟨by rw [hcount]; exact h.2, List.pairwise_cons.mpr ⟨fun ev _ hev => ?_, walk_terminal⟩⟩
    rw [hterminal, h.1] at hev
    cases hev

end Walk

/-- **The call budget.** For an admitted request the calls to the head stay
within `max_attempts` and none follows a terminal failure, exactly when no raw
attempt fails either terminally, or eligibly with the walk then making every
attempt at the head. -/
theorem call_budget_iff {adm : Admission Prov L} {clock : Clock} {a : AdmitRequest}
    {w₀ w : World L} {t : AdmissionTicket} (h : admitRequest adm clock a w₀ = (.ok t, w))
    (hmax : 1 ≤ t.resolved.retry.maxAttempts) (up : Upstreams) (pt : Passthrough) :
    CallBudget t.resolved.retry
        ((dispatchTicket adm up clock.now pt t w).2.log.drop w.log.length) ↔
      ¬ ∃ e, RawAttempt adm up pt t (.failed e) ∧
        (fallbackEligibilityWithOverrides e t.resolved.retry.retryOn = .terminal ∨
          (t.breakerAllowed 0 = true ∧ ∀ n, 1 ≤ n → n < t.resolved.retry.maxAttempts →
            Retries up t.resolved.retry 0 n (slept up 0 (n - 1)))) := by
  obtain ⟨hformed, -, -⟩ := admitRequest_eq_ok h
  obtain ⟨calls, chosen, hcalls, hadds⟩ := dispatchTicket_adds clock.now pt t w
  rw [hadds.drop_log, callBudget_append_release]
  -- the raw attempt has one answer
  have hother : ∀ answer, (∀ e, answer ≠ .failed e) → RawAttempt adm up pt t answer →
      ∀ e, ¬ RawAttempt adm up pt t (.failed e) := by
    intro answer hne hraw e hfailed
    exact hne e (Option.some.inj (hraw.answered.symm.trans hfailed.answered))
  cases hcalls with
  | canonical hno =>
    exact ⟨fun _ ⟨e, hraw, _⟩ => hno _ hraw, fun _ => ⟨walk_head_le hformed hmax, walk_terminal⟩⟩
  | refused hno =>
    exact ⟨fun _ ⟨e, hraw, _⟩ => hno _ hraw, fun _ => ⟨Nat.zero_le _, List.Pairwise.nil⟩⟩
  | proxied hraw =>
    exact ⟨fun _ ⟨e, hfailed, _⟩ => hother _ (fun _ h => by cases h) hraw e hfailed,
      fun _ => callBudget_singleton hmax _⟩
  | dropped hraw =>
    exact ⟨fun _ ⟨e, hfailed, _⟩ => hother _ (fun _ h => by cases h) hraw e hfailed,
      fun _ => callBudget_singleton hmax _⟩
  | fallThrough hraw =>
    -- the raw call is one of the head's attempts: the walk must leave one unused
    rename_i e
    rw [callBudget_fallThrough hformed, walk_head_lt_iff hformed hmax]
    constructor
    · intro hgood hbad
      obtain ⟨e', hraw', hor⟩ := hbad
      have heq := Option.some.inj (hraw.answered.symm.trans hraw'.answered)
      cases heq
      rcases hor with hterminal | hall
      · rw [hgood.1] at hterminal
        cases hterminal
      · exact hgood.2 hall
    · intro hnot
      refine ⟨?_, fun hall => hnot ⟨e, hraw, Or.inr hall⟩⟩
      cases heligible : fallbackEligibilityWithOverrides e t.resolved.retry.retryOn with
      | eligible => rfl
      | terminal => exact absurd ⟨e, hraw, Or.inl heligible⟩ hnot

/-- An upstream that answers every canonical call with the status. -/
def failing (status : Nat) : Nat → Nat → Answer EventItem :=
  fun _ _ => .failed (.upstream status "")

/-- The events of the request on a passthrough frontend, every breaker closed,
after its admission. -/
def passthroughCalls (up : Upstreams) (t : AdmissionTicket) (w : World Unit) : List Event :=
  (dispatchTicket chainAdmission up (stillClock 5).now { tryProxyRaw := true, mutated := false }
    t w).2.log.drop w.log.length

/-- The raw attempt fails with 503 and the first canonical call is accepted: two
calls to the head, which its two attempts allow. -/
theorem call_budget_oneRetry :
    ∃ t w, admitRequest chainAdmission (stillClock 5) (chainRequest "openai_responses")
        (.start .disabled .new) = (.ok t, w) ∧
      CallBudget t.resolved.retry
        (passthroughCalls (rawHead (.failed (.upstream 503 "")) fun _ _ => .accepted []) t w) := by
  obtain ⟨t, w, hticket⟩ : ∃ t w, admitRequest chainAdmission (stillClock 5)
      (chainRequest "openai_responses") (.start .disabled .new) = (.ok t, w) := ⟨_, _, rfl⟩
  have hretry : t.resolved.retry = RetryConfig.default := by
    rw [(admitRequest_eq_ok hticket).2.1]
    rfl
  have hmax : 1 ≤ t.resolved.retry.maxAttempts := by
    rw [hretry]
    decide
  refine ⟨t, w, hticket, (call_budget_iff hticket hmax _ _).mpr fun ⟨e, hraw, hor⟩ => ?_⟩
  rw [hretry] at hor
  obtain rfl : ProviderError.upstream 503 "" = e := by
    have hanswered := hraw.answered
    cases hanswered
    rfl
  rcases hor with hterminal | ⟨-, hall⟩
  · exact absurd hterminal (by decide)
  · obtain ⟨e, he, -⟩ := (hall 1 (Nat.le_refl 1) (by decide)).failed
    cases he

/-- With two attempts the head is called three times when every call fails with
503, and once more after a raw attempt that failed with 400. -/
theorem passthrough_exceeds_budget :
    ∃ t w, admitRequest chainAdmission (stillClock 5) (chainRequest "openai_responses")
        (.start .disabled .new) = (.ok t, w) ∧
      t.resolved.retry.maxAttempts = 2 ∧
      callsAt 0 (passthroughCalls (rawHead (.failed (.upstream 503 "")) (failing 503)) t w) = 3 ∧
      fallbackEligibilityWithOverrides (.upstream 400 "") t.resolved.retry.retryOn = .terminal ∧
      [.calledRaw 0 (.failed (.upstream 400 "")), .called 0 (.failed (.upstream 400 ""))] <+:
        passthroughCalls (rawHead (.failed (.upstream 400 "")) (failing 400)) t w :=
  ⟨_, _, rfl, rfl, rfl, rfl, ⟨_, rfl⟩⟩

end AgentShim.Gateway
