import AgentShim.Router.Admission
import AgentShim.Router.Retry

/-
  The resilient caller

  `complete` walks the admitted chain. An element without the breaker's
  permission is skipped; each of the others gets its own retry loop; an eligible
  failure moves on, a terminal one ends the walk. The stream that is returned
  carries the ticket, and the first item it yields records the outcome.

  What is proved:
    1. `walk_calls` — the walk calls permitted elements only, every call but the
       last failed eligibly, and a returned stream was accepted by its element.
    2. `walk_head_calls` — the calls to the head are those of its retry loop.
    3. `walk_ne_nil` — a well-formed ticket's walk makes a call.
    4. `life_adds`, `complete_adds` — the ticket's holds are recorded at the
       first item of the stream, or when the ticket or the stream is dropped.

  Correspondence (Rust ↔ Lean):
    `complete_inner`  ↔ `walk`, from the answers of the upstreams to the calls
                        it makes; what becomes of the ticket is in `complete`
    `ResilienceError` ↔ `ResilienceError`, the errors this caller raises
    `TriedUpstream`   ↔ `TriedUpstream`, without its elapsed time
    `ConsumeOnFirstEventStream`, `ConsumeOnFirstByteStream` ↔ `ConsumeOnFirst`,
      over what their first item says
-/

namespace AgentShim.ResilientCaller

open AgentShim.CircuitBreaker AgentShim.Config AgentShim.RequestAdmission AgentShim.RequestLog
  AgentShim.Retrying

variable {Prov L : Type}

/-! ## Streams that carry a ticket -/

/-- A returned stream: its ticket until the first item. -/
structure ConsumeOnFirst where
  ticket : Option AdmissionTicket
  chainIndex : Nat

/-- Whether the first item of a canonical stream is a success. -/
def firstEventSucceeded : EventItem → Bool
  | .ok (.error _) => false
  | .ok _ => true
  | .error _ => false

/-- Whether the first item of a byte stream is a success. -/
def firstByteSucceeded : ByteItem → Bool
  | .ok _ => true
  | .error _ => false

namespace ConsumeOnFirst

variable {α : Type} (succeeded : α → Bool) (clock : Nat → Instant)

/-- What one poll does with the ticket. -/
def pollNext (s : ConsumeOnFirst) (poll : Poll α) (w : World L) : ConsumeOnFirst × World L :=
  match poll, s.ticket with
  | .ready item, some ticket =>
    let consumed := ticket.consume clock s.chainIndex (succeeded item) w
    ({ s with ticket := none }, consumed.1.drop clock consumed.2)
  | _, _ => (s, w)

/-- Dropping the stream drops the ticket it still carries. -/
def drop (s : ConsumeOnFirst) (w : World L) : World L :=
  match s.ticket with
  | some ticket => ticket.drop clock w
  | none => w

/-- The stream polled until it is dropped. -/
def life : ConsumeOnFirst → List (Poll α) → World L → World L
  | s, [], w => s.drop clock w
  | s, poll :: rest, w =>
    let polled := s.pollNext succeeded clock poll w
    life polled.1 rest polled.2

theorem life_of_no_ticket (index : Nat) (polls : List (Poll α)) (w : World L) :
    life succeeded clock { ticket := none, chainIndex := index } polls w = w := by
  induction polls with
  | nil => rfl
  | cons poll rest ih =>
    cases poll with
    | pending => exact ih
    | ready item => exact ih
    | ended => exact ih

/-- The first item decides; without one the holds are abandoned. -/
theorem life_adds (t : AdmissionTicket) (index : Nat) (polls : List (Poll α))
    (w : World L) :
    Adds w (life succeeded clock { ticket := some t, chainIndex := index } polls w)
      (releaseEvents ((firstReady polls).map fun item => (index, succeeded item)) 0
        t.breakerHolds) := by
  induction polls with
  | nil => exact t.drop_adds clock w
  | cons poll rest ih =>
    cases poll with
    | pending => exact ih
    | ended => exact ih
    | ready item =>
      obtain ⟨hempty, hadds⟩ := t.consume_adds clock index (succeeded item) w
      show Adds w (life succeeded clock { ticket := none, chainIndex := index } rest
        ((t.consume clock index (succeeded item) w).1.drop clock
          (t.consume clock index (succeeded item) w).2)) _
      rw [life_of_no_ticket, AdmissionTicket.drop_of_no_holds hempty]
      exact hadds

end ConsumeOnFirst

/-! ## The walk -/

/-- `ProviderError`'s message. -/
def errorMessage : ProviderError → String
  | .unknownProvider name => s!"unknown provider: {name}"
  | .upstream status body => s!"upstream error (status={status}): {body}"
  | .network message => s!"network error: {message}"
  | .decode message => s!"decode error: {message}"
  | .encode message => s!"encode error: {message}"
  | .capabilityMismatch message => s!"capability mismatch: {message}"

structure TriedUpstream where
  provider : String
  model : String
  attempts : Nat
  lastErrorTag : String
  lastErrorMsg : String
  deriving DecidableEq, Repr

inductive ResilienceError
  | noUpstreamSucceeded (tried : List TriedUpstream) (lastError : ProviderError)
  | terminalError (error : ProviderError) (tried : List TriedUpstream)
  | allBreakersOpen (tried : List String)
  deriving DecidableEq, Repr

/-- How a walk ends: with the stream of an element, with an error, or with the
request dropped or unwound. -/
inductive WalkEnd
  | stream (chainIndex : Nat) (polls : List (Poll EventItem))
  | failed (e : ResilienceError)
  | abandoned

/-- What the walk has seen so far. -/
structure Progress where
  tried : List TriedUpstream
  lastError : Option ProviderError
  breakersSkipped : List String
  deriving DecidableEq, Repr

def Progress.start : Progress := { tried := [], lastError := none, breakersSkipped := [] }

/-- The end of an exhausted chain. -/
def exhausted (p : Progress) : WalkEnd :=
  if !p.tried.isEmpty then
    match p.lastError with
    | some e => .failed (.noUpstreamSucceeded p.tried e)
    | none => .abandoned
  else if !p.breakersSkipped.isEmpty then .failed (.allBreakersOpen p.breakersSkipped)
  else .failed (.terminalError (.network "empty chain") [])

/-- The walk over the rest of the chain, from position `i` on. -/
def walk (providers : OrdMap Prov) (up : Upstreams) (policy : RetryPolicy)
    (t : AdmissionTicket) : Nat → List BackendTarget → Progress → List Event × WalkEnd
  | _, [], p => ([], exhausted p)
  | i, target :: rest, p =>
    if !t.breakerAllowed i then
      -- no hold: the breaker is open and the element is skipped
      walk providers up policy t (i + 1) rest
        { p with breakersSkipped := p.breakersSkipped ++ [target.provider] }
    else
      match providers.get? target.provider with
      | none => ([], .failed (.terminalError (.unknownProvider target.provider) p.tried))
      | some _ =>
        let outcome := retryWithPolicy up policy i
        match outcome.2 with
        -- the future is dropped inside a call or a backoff
        | .dropped => (outcome.1, .abandoned)
        | .done (.ok polls) _ => (outcome.1, .stream i polls)
        | .done (.error e) attempts =>
          let tried := p.tried ++
            [{ provider := target.provider
               model := target.model
               attempts := attempts
               lastErrorTag := errorTag e
               lastErrorMsg := errorMessage e }]
          match fallbackEligibilityWithOverrides e policy.retryOn with
          | .terminal => (outcome.1, .failed (.terminalError e tried))
          | .eligible =>
            let next := walk providers up policy t (i + 1) rest
              { p with tried := tried, lastError := some e }
            (outcome.1 ++ next.1, next.2)

/-- The walk of a ticket's chain under its route's retry policy. -/
def completeInner (providers : OrdMap Prov) (up : Upstreams) (t : AdmissionTicket) :
    List Event × WalkEnd :=
  walk providers up t.resolved.retry t 0 t.filteredChain .start

/-- The outcome the end of a walk records. -/
def WalkEnd.chosen : WalkEnd → Option (Nat × Bool)
  | .stream i polls => (firstReady polls).map fun item => (i, firstEventSucceeded item)
  | _ => none

/-- `ResilientCaller::complete`, to the end of the returned stream's life. -/
def complete (providers : OrdMap Prov) (up : Upstreams) (clock : Nat → Instant)
    (t : AdmissionTicket) (w : World L) : WalkEnd × World L :=
  let run := completeInner providers up t
  let w := { w with log := w.log ++ run.1 }
  (run.2,
    match run.2 with
    | .stream i polls =>
      ConsumeOnFirst.life firstEventSucceeded clock { ticket := some t, chainIndex := i } polls w
    | .failed _ => t.drop clock w
    | .abandoned => t.drop clock w)

/-! ## The calls of a walk -/

section Walk

variable {providers : OrdMap Prov} {up : Upstreams} {policy : RetryPolicy} {t : AdmissionTicket}

variable (providers up policy t) in
/-- One element of the walk: skipped, without a provider, ended by its retry
loop, or left after an eligible failure. -/
theorem walk_cons (i : Nat) (target : BackendTarget) (rest : List BackendTarget) (p : Progress) :
    (t.breakerAllowed i = false ∧ ∃ p', walk providers up policy t i (target :: rest) p =
        walk providers up policy t (i + 1) rest p') ∨
    (t.breakerAllowed i = true ∧ providers.get? target.provider = none ∧
      ∃ e, walk providers up policy t i (target :: rest) p = ([], .failed e)) ∨
    (t.breakerAllowed i = true ∧ (∃ provider, providers.get? target.provider = some provider) ∧
      ∃ last, walk providers up policy t i (target :: rest) p =
          ((retryWithPolicy up policy i).1, last) ∧
        ∀ j polls, last = .stream j polls →
          j = i ∧ ∃ n, (retryWithPolicy up policy i).2 = .done (.ok polls) n) ∨
    (t.breakerAllowed i = true ∧ (∃ provider, providers.get? target.provider = some provider) ∧
      (∃ e n, (retryWithPolicy up policy i).2 = .done (.error e) n ∧
        fallbackEligibilityWithOverrides e policy.retryOn = .eligible) ∧
      ∃ p', walk providers up policy t i (target :: rest) p =
        ((retryWithPolicy up policy i).1 ++ (walk providers up policy t (i + 1) rest p').1,
          (walk providers up policy t (i + 1) rest p').2)) := by
  rw [walk]
  cases hallowed : t.breakerAllowed i with
  | false => exact Or.inl ⟨rfl, _, rfl⟩
  | true =>
    rw [if_neg (by simp)]
    cases hprovider : providers.get? target.provider with
    | none => exact Or.inr (Or.inl ⟨rfl, rfl, _, rfl⟩)
    | some provider =>
      dsimp only
      cases hresult : (retryWithPolicy up policy i).2 with
      | dropped =>
        refine Or.inr (Or.inr (Or.inl ⟨rfl, ⟨provider, rfl⟩, _, rfl, fun j polls h => ?_⟩))
        cases h
      | done result attempts =>
        cases result with
        | ok polls =>
          refine Or.inr (Or.inr (Or.inl ⟨rfl, ⟨provider, rfl⟩, _, rfl, fun j polls' h => ?_⟩))
          cases h
          exact ⟨rfl, attempts, rfl⟩
        | error e =>
          dsimp only
          cases heligible : fallbackEligibilityWithOverrides e policy.retryOn with
          | terminal =>
            refine Or.inr (Or.inr (Or.inl ⟨rfl, ⟨provider, rfl⟩, _, rfl, fun j polls h => ?_⟩))
            cases h
          | eligible =>
            exact Or.inr (Or.inr (Or.inr
              ⟨rfl, ⟨provider, rfl⟩, ⟨e, attempts, rfl, heligible⟩, _, rfl⟩))

/-- What holds of the calls of a walk from position `i` on. -/
structure WalkCalls (policy : RetryPolicy) (t : AdmissionTicket) (i : Nat)
    (run : List Event × WalkEnd) : Prop where
  permitted : ∀ e ∈ run.1, ∃ j answer,
    e = .called j answer ∧ i ≤ j ∧ t.breakerAllowed j = true
  eligible : run.1.Pairwise fun e _ => EligibleFailure policy.retryOn e
  accepted : ∀ j polls, run.2 = .stream j polls → Event.called j (.accepted polls) ∈ run.1

theorem exhausted_ne_stream (p : Progress) (j : Nat) (polls : List (Poll EventItem)) :
    exhausted p ≠ .stream j polls := by
  unfold exhausted
  split
  · split <;> exact fun h => by cases h
  · split <;> exact fun h => by cases h

theorem walk_calls (i : Nat) (chain : List BackendTarget) (p : Progress) :
    WalkCalls policy t i (walk providers up policy t i chain p) := by
  induction chain generalizing i p with
  | nil =>
    exact ⟨fun e he => (by cases he), List.Pairwise.nil,
      fun j polls h => absurd h (exhausted_ne_stream p j polls)⟩
  | cons target rest ih =>
    obtain ⟨earlier, last, hretry⟩ := retryWithPolicy_calls up policy i
    have hhere : t.breakerAllowed i = true → ∀ e ∈ (retryWithPolicy up policy i).1,
        ∃ j answer, e = .called j answer ∧ i ≤ j ∧ t.breakerAllowed j = true := by
      intro hallowed e he
      obtain ⟨answer, rfl⟩ := hretry.mem e he
      exact ⟨i, answer, rfl, Nat.le_refl i, hallowed⟩
    have hlater : ∀ p', ∀ e ∈ (walk providers up policy t (i + 1) rest p').1,
        ∃ j answer, e = .called j answer ∧ i ≤ j ∧ t.breakerAllowed j = true := by
      intro p' e he
      obtain ⟨j, answer, rfl, hle, hallowed⟩ := (ih (i + 1) p').permitted e he
      exact ⟨j, answer, rfl, Nat.le_of_succ_le hle, hallowed⟩
    obtain ⟨-, p', hwalk⟩ | ⟨-, -, e, hwalk⟩ | ⟨hallowed, -, ending, hwalk, hstream⟩ |
        ⟨hallowed, -, ⟨e, n, hresult, heligible⟩, p', hwalk⟩ :=
      walk_cons providers up policy t i target rest p
    · rw [hwalk]
      exact ⟨hlater p', (ih (i + 1) p').eligible, (ih (i + 1) p').accepted⟩
    · rw [hwalk]
      exact ⟨fun e he => (by cases he), List.Pairwise.nil, fun j polls h => by cases h⟩
    · rw [hwalk]
      refine ⟨hhere hallowed, hretry.pairwise, fun j polls h => ?_⟩
      obtain ⟨rfl, n, hresult⟩ := hstream j polls h
      exact hretry.accepted_mem hresult
    · rw [hwalk]
      refine ⟨fun ev hev => ?_, ?_, fun j polls h => ?_⟩
      · rcases List.mem_append.mp hev with hev | hev
        · exact hhere hallowed ev hev
        · exact hlater p' ev hev
      · rw [List.pairwise_append]
        refine ⟨hretry.pairwise, (ih (i + 1) p').eligible, fun ev hev _ _ => ?_⟩
        exact hretry.all_eligible hresult heligible ev hev
      · exact List.mem_append_right _ ((ih (i + 1) p').accepted j polls h)

/-! ## Well-formed tickets -/

/-- The number of calls to a position. -/
def callsAt (i : Nat) (es : List Event) : Nat := es.countP fun e => e.callAt == some i

theorem callsAt_append (i : Nat) (es es' : List Event) :
    callsAt i (es ++ es') = callsAt i es + callsAt i es' :=
  List.countP_append

/-- Later positions do not call an earlier one. -/
theorem callsAt_of_lt {i j : Nat} {run : List Event × WalkEnd} (h : WalkCalls policy t j run)
    (hlt : i < j) : callsAt i run.1 = 0 := by
  rw [callsAt, List.countP_eq_zero]
  intro e he
  obtain ⟨k, answer, rfl, hle, -⟩ := h.permitted e he
  simp only [Event.callAt, beq_iff_eq, Option.some.injEq]
  omega

theorem callsAt_retry (i : Nat) :
    callsAt i (retryWithPolicy up policy i).1 = (retryWithPolicy up policy i).1.length := by
  obtain ⟨earlier, last, hretry⟩ := retryWithPolicy_calls up policy i
  rw [callsAt, List.countP_eq_length]
  intro e he
  obtain ⟨answer, rfl⟩ := hretry.mem e he
  simp [Event.callAt]

/-- The head of the rest of the chain is called by its retry loop alone. -/
theorem walk_head_calls (i : Nat) (target : BackendTarget) (rest : List BackendTarget)
    (p : Progress) (hprovider : ∃ provider, providers.get? target.provider = some provider) :
    callsAt i (walk providers up policy t i (target :: rest) p).1 =
      if t.breakerAllowed i then (retryWithPolicy up policy i).1.length else 0 := by
  have hlater : ∀ p', callsAt i (walk providers up policy t (i + 1) rest p').1 = 0 :=
    fun p' => callsAt_of_lt (walk_calls (i + 1) rest p') (Nat.lt_succ_self i)
  obtain ⟨hallowed, p', hwalk⟩ | ⟨-, hnone, -⟩ | ⟨hallowed, -, ending, hwalk, -⟩ |
      ⟨hallowed, -, -, p', hwalk⟩ :=
    walk_cons providers up policy t i target rest p
  · rw [hwalk, hallowed, hlater]
    rfl
  · obtain ⟨provider, hsome⟩ := hprovider
    rw [hnone] at hsome
    cases hsome
  · rw [hwalk, hallowed, if_pos rfl]
    exact callsAt_retry i
  · rw [hwalk, hallowed, if_pos rfl, callsAt_append, hlater, callsAt_retry, Nat.add_zero]

theorem retryWithPolicy_ne_nil (i : Nat) : (retryWithPolicy up policy i).1 ≠ [] := by
  obtain ⟨earlier, last, hretry⟩ := retryWithPolicy_calls up policy i
  rw [hretry.calls]
  exact List.append_ne_nil_of_right_ne_nil _ (List.cons_ne_nil _ _)

/-- A permitted element ahead, and every provider registered: the walk calls. -/
theorem walk_ne_nil (i : Nat) (chain : List BackendTarget) (p : Progress)
    (hprovider : ∀ target ∈ chain, ∃ provider, providers.get? target.provider = some provider)
    (hallowed : ∃ j, i ≤ j ∧ j < i + chain.length ∧ t.breakerAllowed j = true) :
    (walk providers up policy t i chain p).1 ≠ [] := by
  induction chain generalizing i p with
  | nil =>
    obtain ⟨j, hle, hlt, -⟩ := hallowed
    exact absurd hlt (Nat.not_lt_of_le hle)
  | cons target rest ih =>
    obtain ⟨hno, p', hwalk⟩ | ⟨-, hnone, -⟩ | ⟨-, -, ending, hwalk, -⟩ | ⟨-, -, -, p', hwalk⟩ :=
      walk_cons providers up policy t i target rest p
    · obtain ⟨j, hle, hlt, hj⟩ := hallowed
      have hne : j ≠ i := by
        rintro rfl
        rw [hno] at hj
        cases hj
      rw [List.length_cons] at hlt
      rw [hwalk]
      apply ih (i + 1) p' fun target h => hprovider target (List.mem_cons_of_mem _ h)
      exact ⟨j, by omega, by omega, hj⟩
    · obtain ⟨provider, hsome⟩ := hprovider target List.mem_cons_self
      rw [hnone] at hsome
      cases hsome
    · rw [hwalk]
      exact retryWithPolicy_ne_nil i
    · rw [hwalk]
      exact List.append_ne_nil_of_left_ne_nil (retryWithPolicy_ne_nil i) _

end Walk

section Complete

variable {adm : Admission Prov L} {up : Upstreams} {t : AdmissionTicket}

theorem completeInner_ne_nil (up : Upstreams) (h : WellFormed adm t) :
    (completeInner adm.providers up t).1 ≠ [] := by
  obtain ⟨i, hi⟩ := h.some_hold
  apply walk_ne_nil 0 t.filteredChain .start h.registered
  refine ⟨i, Nat.zero_le i, ?_, hi⟩
  rw [Nat.zero_add, ← h.holds_length]
  by_contra hge
  rw [AdmissionTicket.breakerAllowed, List.getElem?_eq_none (Nat.le_of_not_lt hge)] at hi
  cases hi

theorem completeInner_head_calls (h : WellFormed adm t) :
    callsAt 0 (completeInner adm.providers up t).1 =
      if t.breakerAllowed 0 then (retryWithPolicy up t.resolved.retry 0).1.length else 0 := by
  obtain ⟨target, rest, provider, hchain, hprovider⟩ := h.head
  rw [completeInner, hchain]
  exact walk_head_calls 0 target rest .start ⟨provider, hprovider⟩

theorem complete_adds (providers : OrdMap Prov) (up : Upstreams) (clock : Nat → Instant)
    (t : AdmissionTicket) (w : World L) :
    Adds w (complete providers up clock t w).2
      ((completeInner providers up t).1 ++
        releaseEvents (completeInner providers up t).2.chosen 0 t.breakerHolds) := by
  have hcalls : Adds w { w with log := w.log ++ (completeInner providers up t).1 }
      (completeInner providers up t).1 := ⟨rfl, fun _ _ => rfl⟩
  refine hcalls.trans ?_
  unfold complete
  dsimp only
  cases (completeInner providers up t).2 with
  | stream i polls => exact ConsumeOnFirst.life_adds firstEventSucceeded clock t i polls _
  | failed e => exact t.drop_adds clock _
  | abandoned => exact t.drop_adds clock _

end Complete

end AgentShim.ResilientCaller
