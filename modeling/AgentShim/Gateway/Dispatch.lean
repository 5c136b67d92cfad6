import AgentShim.Gateway.State
import AgentShim.Router.ResilientCaller

/-
  The life of a request

  After its route is resolved a request is admitted and its ticket dispatched:
  on a passthrough frontend the head of the chain is first tried with the raw
  bytes, and without an answer from there the canonical walk takes over, with
  the same ticket. This module is that composition, from admission to the end of
  the returned stream, and the accounting of the breaker holds over it.

  What is proved:
    1. `dispatchTicket_adds` — what a dispatch adds to the log: its calls, by
       the way it takes, and then the records of all the ticket's holds.
    2. `serve_adds` — a request is refused without a hold, or its log is its
       holds, its calls and its records.
    3. `serve_ledger` — a request's log is a history of the ledger of holds that
       starts and ends with none open.
    4. `holds_recorded_once` — every hold is recorded once, and a success only
       where the first item of an accepted call is one.
    5. `uncalled_holds_abandoned` — an element that is not called is charged by
       its abandoned hold or not at all; `uncalled_fallback_opens` — it can be.
    6. `dispatch_frame` — a request moves nothing else of the state than the
       rate limiter's buckets and the breakers.

  Correspondence (Rust ↔ Lean):
    `pipeline::dispatch_inner`, from `admission.admit` on ↔ `serve`; with the
      route resolved before ↔ `AppState.dispatch`
    its passthrough branch ↔ `dispatchTicket`; `PipelineSpec::try_proxy_raw` and
      `passthrough_blocked_by_plugin_mutation` are the fields of `Passthrough`
    `run_stream`, `run_unary`, whose call of the walk is the same ↔ `canonical`
-/

namespace AgentShim.Gateway

open AgentShim.CircuitBreaker AgentShim.Config AgentShim.CostFilter AgentShim.Plugins
  AgentShim.RateLimit AgentShim.RequestAdmission AgentShim.RequestLog AgentShim.ResilientCaller
  AgentShim.Retrying AgentShim.StaticRoutes

/-- Whether the frontend tries passthrough, and whether plugins mutated the
request meanwhile. -/
structure Passthrough where
  tryProxyRaw : Bool
  mutated : Bool
  deriving DecidableEq, Repr

/-- How a request is served. -/
inductive Served
  | rejected (e : AdmissionError)
  | providerError (e : ProviderError)
  | proxied (polls : List (Poll ByteItem))
  | walked (ending : WalkEnd)
  | abandoned

section Dispatch

variable {Prov L : Type} (adm : Admission Prov L) (up : Upstreams) (clock : Nat → Instant)

/-- The canonical chain walk. -/
def canonical (t : AdmissionTicket) (w : World L) : Served × World L :=
  let walked := complete adm.providers up clock t w
  (.walked walked.1, walked.2)

def dispatchTicket (pt : Passthrough) (t : AdmissionTicket) (w : World L) : Served × World L :=
  if pt.tryProxyRaw && !pt.mutated then
    match t.filteredChain.head? with
    | none => (.abandoned, t.drop clock w)
    | some target =>
      match adm.providers.get? target.provider with
      | none => (.providerError (.unknownProvider target.provider), t.drop clock w)
      | some _ =>
        match up.proxyRaw with
        -- Ok(None): this provider does not pass this frontend's bytes through
        | none => canonical adm up clock t w
        | some (.accepted polls) =>
          (.proxied polls, ConsumeOnFirst.life firstByteSucceeded clock
            { ticket := some t, chainIndex := 0 } polls (w.emit (.calledRaw 0 (.accepted polls))))
        -- any error: the walk starts over with the same ticket
        | some (.failed e) => canonical adm up clock t (w.emit (.calledRaw 0 (.failed e)))
        | some .dropped => (.abandoned, t.drop clock (w.emit (.calledRaw 0 .dropped)))
  else canonical adm up clock t w

def serve (clock : Clock) (pt : Passthrough) (a : AdmitRequest) (w : World L) :
    Served × World L :=
  match admitRequest adm clock a w with
  | (.error e, w) => (.rejected e, w)
  | (.ok t, w) => dispatchTicket adm up clock.now pt t w

/-! ## What a dispatch calls -/

/-- The head of the chain is tried with the raw bytes, and answers. -/
structure RawAttempt (pt : Passthrough) (t : AdmissionTicket) (answer : Answer ByteItem) :
    Prop where
  tried : pt.tryProxyRaw = true
  unmutated : pt.mutated = false
  head : ∃ target provider, t.filteredChain.head? = some target ∧
    adm.providers.get? target.provider = some provider
  answered : up.proxyRaw = some answer

/-- The ways of a dispatch: the calls it makes and the outcome it records. -/
inductive DispatchCalls (pt : Passthrough) (t : AdmissionTicket) :
    List Event → Option (Nat × Bool) → Prop
  | canonical (h : ∀ answer, ¬ RawAttempt adm up pt t answer) :
      DispatchCalls pt t (completeInner adm.providers up t).1
        (completeInner adm.providers up t).2.chosen
  | refused (h : ∀ answer, ¬ RawAttempt adm up pt t answer) : DispatchCalls pt t [] none
  | proxied {polls : List (Poll ByteItem)} (h : RawAttempt adm up pt t (.accepted polls)) :
      DispatchCalls pt t [.calledRaw 0 (.accepted polls)]
        ((firstReady polls).map fun item => (0, firstByteSucceeded item))
  | fallThrough {e : ProviderError} (h : RawAttempt adm up pt t (.failed e)) :
      DispatchCalls pt t (.calledRaw 0 (.failed e) :: (completeInner adm.providers up t).1)
        (completeInner adm.providers up t).2.chosen
  | dropped (h : RawAttempt adm up pt t .dropped) :
      DispatchCalls pt t [.calledRaw 0 .dropped] none

variable {adm up}

theorem dispatchTicket_adds (pt : Passthrough) (t : AdmissionTicket) (w : World L) :
    ∃ calls chosen, DispatchCalls adm up pt t calls chosen ∧
      Adds w (dispatchTicket adm up clock pt t w).2
        (calls ++ releaseEvents chosen 0 t.breakerHolds) := by
  have hcanonical : ∀ w' : World L, Adds w' (canonical adm up clock t w').2
      ((completeInner adm.providers up t).1 ++
        releaseEvents (completeInner adm.providers up t).2.chosen 0 t.breakerHolds) :=
    fun w' => complete_adds adm.providers up clock t w'
  unfold dispatchTicket
  split
  · -- the raw path is tried first; each of its answers has its own continuation
    rename_i htry
    rw [Bool.and_eq_true, Bool.not_eq_true'] at htry
    obtain ⟨htried, hunmutated⟩ := htry
    split
    · rename_i hhead
      refine ⟨_, _, .refused fun answer h => ?_, t.drop_adds clock w⟩
      obtain ⟨target, _, hsome, _⟩ := h.head
      rw [hhead] at hsome
      cases hsome
    · rename_i target hhead
      split
      · rename_i hnone
        refine ⟨_, _, .refused fun answer h => ?_, t.drop_adds clock w⟩
        obtain ⟨target', provider, htarget', hprovider⟩ := h.head
        rw [hhead] at htarget'
        cases htarget'
        rw [hnone] at hprovider
        cases hprovider
      · rename_i provider hprovider
        have hraw : ∀ answer, up.proxyRaw = some answer → RawAttempt adm up pt t answer :=
          fun answer h => ⟨htried, hunmutated, ⟨target, provider, hhead, hprovider⟩, h⟩
        split
        · rename_i hproxy
          refine ⟨_, _, .canonical fun answer h => ?_, hcanonical w⟩
          have hanswered := h.answered
          rw [hproxy] at hanswered
          cases hanswered
        · rename_i polls hproxy
          exact ⟨_, _, .proxied (hraw _ hproxy), (adds_emit w).trans
            (ConsumeOnFirst.life_adds firstByteSucceeded clock t 0 polls _)⟩
        · rename_i e hproxy
          exact ⟨_, _, .fallThrough (hraw _ hproxy), (adds_emit w).trans (hcanonical _)⟩
        · rename_i hproxy
          exact ⟨_, _, .dropped (hraw _ hproxy), (adds_emit w).trans (t.drop_adds clock _)⟩
  · rename_i htry
    refine ⟨_, _, .canonical fun answer h => ?_, hcanonical w⟩
    rw [h.tried, h.unmutated] at htry
    exact htry rfl

/-- A dispatch calls upstreams, and nothing else. -/
theorem DispatchCalls.isCall {pt : Passthrough} {t : AdmissionTicket} {calls : List Event}
    {chosen : Option (Nat × Bool)} (h : DispatchCalls adm up pt t calls chosen) :
    ∀ e ∈ calls, ∃ i, e.callAt = some i := by
  have hwalk : ∀ e ∈ (completeInner adm.providers up t).1, ∃ i, e.callAt = some i := by
    intro e he
    obtain ⟨j, answer, rfl, -⟩ :=
      (walk_calls 0 t.filteredChain .start).permitted e he
    exact ⟨j, rfl⟩
  intro e he
  cases h with
  | canonical _ => exact hwalk e he
  | refused _ => cases he
  | proxied _ =>
    obtain rfl := List.mem_singleton.mp he
    exact ⟨0, rfl⟩
  | fallThrough _ =>
    rcases List.mem_cons.mp he with rfl | he
    · exact ⟨0, rfl⟩
    · exact hwalk e he
  | dropped _ =>
    obtain rfl := List.mem_singleton.mp he
    exact ⟨0, rfl⟩

/-- The call to a position was accepted and its first item is a success. -/
def GoodStart (log : List Event) (i : Nat) : Prop :=
  (∃ polls event, .called i (.accepted polls) ∈ log ∧ firstReady polls = some (.ok event) ∧
    ∀ message, event ≠ .error message) ∨
  (∃ polls bytes, .calledRaw i (.accepted polls) ∈ log ∧ firstReady polls = some (.ok bytes))

theorem firstEventSucceeded_eq_true {item : EventItem} (h : firstEventSucceeded item = true) :
    ∃ event, item = .ok event ∧ ∀ message, event ≠ .error message := by
  unfold firstEventSucceeded at h
  split at h
  · cases h
  · rename_i event hne
    exact ⟨event, rfl, hne⟩
  · cases h

/-- A dispatch that records a success has a good start there. -/
theorem DispatchCalls.goodStart {pt : Passthrough} {t : AdmissionTicket} {calls : List Event}
    {i : Nat} (h : DispatchCalls adm up pt t calls (some (i, true))) : GoodStart calls i := by
  have hwalk : (completeInner adm.providers up t).2.chosen = some (i, true) →
      ∃ polls event, .called i (.accepted polls) ∈ (completeInner adm.providers up t).1 ∧
        firstReady polls = some (.ok event) ∧ ∀ message, event ≠ .error message := by
    intro hchosen
    cases hend : (completeInner adm.providers up t).2 with
    | failed e =>
      rw [hend] at hchosen
      cases hchosen
    | abandoned =>
      rw [hend] at hchosen
      cases hchosen
    | stream j polls =>
      rw [hend] at hchosen
      obtain ⟨item, hitem, heq⟩ := Option.map_eq_some_iff.mp hchosen
      obtain ⟨rfl, hok⟩ := Prod.mk.inj heq
      obtain ⟨event, rfl, hevent⟩ := firstEventSucceeded_eq_true hok
      exact ⟨polls, event, (walk_calls 0 t.filteredChain .start).accepted j polls hend, hitem,
        hevent⟩
  generalize hc : some (i, true) = chosen at h
  cases h with
  | canonical _ => exact Or.inl (hwalk hc.symm)
  | refused _ => cases hc
  | proxied hraw =>
    rename_i polls
    obtain ⟨item, hitem, heq⟩ := Option.map_eq_some_iff.mp hc.symm
    obtain ⟨rfl, hok⟩ := Prod.mk.inj heq
    cases item with
    | error message => cases hok
    | ok bytes => exact Or.inr ⟨polls, bytes, List.mem_cons_self, hitem⟩
  | fallThrough _ =>
    obtain ⟨polls, event, hmem, hready, hevent⟩ := hwalk hc.symm
    exact Or.inl ⟨polls, event, List.mem_cons_of_mem _ hmem, hready, hevent⟩
  | dropped _ => cases hc

end Dispatch

/-! ## The log of a request -/

section Serve

variable {Prov L : Type} (adm : Admission Prov L) (up : Upstreams) (clock : Clock)
  (pt : Passthrough) (a : AdmitRequest) (w : World L)

/-- A request is refused without a hold, or its log is its holds, its calls and
the records of its holds. -/
theorem serve_adds :
    (∃ e es, (serve adm up clock pt a w).1 = .rejected e ∧
      Adds w (serve adm up clock pt a w).2 es ∧ ∀ ev ∈ es, ∃ i, ev = .refused i) ∨
    (∃ t calls chosen, WellFormed adm t ∧ DispatchCalls adm up pt t calls chosen ∧
      Adds w (serve adm up clock pt a w).2
        (holdEvents 0 t.breakerHolds ++ calls ++ releaseEvents chosen 0 t.breakerHolds)) := by
  unfold serve
  split
  · rename_i e w' hrejected
    obtain ⟨es, hadds, hrefused⟩ := admitRequest_eq_error hrejected
    exact Or.inl ⟨e, es, rfl, hadds, hrefused⟩
  · rename_i t w' hticket
    obtain ⟨hformed, -, hholds⟩ := admitRequest_eq_ok hticket
    obtain ⟨calls, chosen, hcalls, hadds⟩ :=
      dispatchTicket_adds clock.now pt t w'
    refine Or.inr ⟨t, calls, chosen, hformed, hcalls, ?_⟩
    rw [List.append_assoc]
    exact hholds.trans hadds

/-- The openings and settlements of holds in a log. -/
def entries (log : List Event) : List (Ledger.Entry (Nat × BreakerKey)) :=
  log.filterMap Event.entry

theorem entries_calls {calls : List Event} (h : ∀ e ∈ calls, ∃ i, e.callAt = some i) :
    entries calls = [] := by
  rw [entries, List.filterMap_eq_nil_iff]
  intro e he
  obtain ⟨i, hi⟩ := h e he
  cases e with
  | called j answer => rfl
  | calledRaw j answer => rfl
  | granted j key => cases hi
  | refused j => cases hi
  | recorded j key succeeded => cases hi

/-- The entries of an admitted request: its holds opened and then settled. -/
theorem entries_served {t : AdmissionTicket} {calls : List Event} {chosen : Option (Nat × Bool)}
    (h : ∀ e ∈ calls, ∃ i, e.callAt = some i) :
    entries (holdEvents 0 t.breakerHolds ++ calls ++ releaseEvents chosen 0 t.breakerHolds) =
      (tokens 0 t.breakerHolds).map .issue ++ (tokens 0 t.breakerHolds).map .settle := by
  have hcalls := entries_calls h
  rw [entries] at hcalls ⊢
  rw [List.filterMap_append, List.filterMap_append, hcalls, List.append_nil,
    entries_holdEvents, entries_releaseEvents]

theorem entries_refused {es : List Event} (h : ∀ ev ∈ es, ∃ i, ev = .refused i) :
    entries es = [] := by
  rw [entries, List.filterMap_eq_nil_iff]
  intro ev hev
  obtain ⟨i, rfl⟩ := h ev hev
  rfl

end Serve

section Request

variable {Prov L : Type} (adm : Admission Prov L) (up : Upstreams) (clock : Clock)
  (pt : Passthrough) (a : AdmitRequest) (limiter : LimiterRegistry L) (breakers : BreakerRegistry)

/-- A request from its start. -/
def request : Served × World L := serve adm up clock pt a (.start limiter breakers)

/-- How often the hold of a position was granted. -/
def grantsOf (i : Nat) (key : BreakerKey) (log : List Event) : Nat :=
  (entries log).count (.issue (i, key))

/-- How often the hold of a position was recorded. -/
def recordsOf (i : Nat) (key : BreakerKey) (log : List Event) : Nat :=
  (entries log).count (.settle (i, key))

theorem request_log :
    (∀ ev ∈ (request adm up clock pt a limiter breakers).2.log, ∃ i, ev = .refused i) ∨
    (∃ t calls chosen, DispatchCalls adm up pt t calls chosen ∧
      (request adm up clock pt a limiter breakers).2.log =
        holdEvents 0 t.breakerHolds ++ calls ++ releaseEvents chosen 0 t.breakerHolds) := by
  obtain ⟨e, es, -, hadds, hrefused⟩ | ⟨t, calls, chosen, -, hcalls, hadds⟩ :=
    serve_adds adm up clock pt a (.start limiter breakers)
  · refine Or.inl ?_
    rw [request, hadds.log]
    exact hrefused
  · exact Or.inr ⟨t, calls, chosen, hcalls, hadds.log⟩

/-- A request's log is a history of the ledger of holds, from none open to none
open. -/
theorem serve_ledger :
    Runs.exec Ledger.step ∅ (entries (request adm up clock pt a limiter breakers).2.log) =
      some ∅ := by
  obtain hrefused | ⟨t, calls, chosen, hcalls, hlog⟩ :=
    request_log adm up clock pt a limiter breakers
  · rw [entries_refused hrefused]
    rfl
  · rw [hlog, entries_served hcalls.isCall]
    exact exec_held_released 0 t.breakerHolds

/-- No position is granted more than one hold. -/
theorem grantsOf_le_one (i : Nat) (key : BreakerKey) :
    grantsOf i key (request adm up clock pt a limiter breakers).2.log ≤ 1 := by
  obtain hrefused | ⟨t, calls, chosen, hcalls, hlog⟩ :=
    request_log adm up clock pt a limiter breakers
  · rw [grantsOf, entries_refused hrefused]
    exact Nat.zero_le 1
  · have hnodup : (tokens 0 t.breakerHolds).Nodup := .of_map _ (nodup_positions 0 t.breakerHolds)
    rw [grantsOf, hlog, entries_served hcalls.isCall]
    exact Ledger.count_issue_le_one hnodup (i, key)

/-- A recorded success follows a good start. -/
theorem goodStart_of_recorded {i : Nat} {key : BreakerKey}
    (h : .recorded i key true ∈ (request adm up clock pt a limiter breakers).2.log) :
    GoodStart (request adm up clock pt a limiter breakers).2.log i := by
  obtain hrefused | ⟨t, calls, chosen, hcalls, hlog⟩ :=
    request_log adm up clock pt a limiter breakers
  · obtain ⟨j, hj⟩ := hrefused _ h
    cases hj
  · rw [hlog] at h ⊢
    rcases List.mem_append.mp h with h | h
    · rcases List.mem_append.mp h with h | h
      · obtain ⟨j, hj | ⟨key', hj⟩⟩ := mem_holdEvents h <;> cases hj
      · obtain ⟨j, hj⟩ := hcalls.isCall _ h
        cases hj
    · obtain ⟨token, -, heq⟩ := mem_releaseEvents h
      obtain ⟨rfl, -, hchosen⟩ := Event.recorded.inj heq
      have hsome : chosen = some (token.1, true) := beq_iff_eq.mp hchosen.symm
      rw [hsome] at hcalls
      have hmem : ∀ ev ∈ calls,
          ev ∈ holdEvents 0 t.breakerHolds ++ calls ++ releaseEvents chosen 0 t.breakerHolds :=
        fun ev hev => List.mem_append_left _ (List.mem_append_right _ hev)
      rcases hcalls.goodStart with ⟨polls, event, hcall, hready⟩ | ⟨polls, bytes, hcall, hready⟩
      · exact Or.inl ⟨polls, event, hmem _ hcall, hready⟩
      · exact Or.inr ⟨polls, bytes, hmem _ hcall, hready⟩

/-- **Exactly-once accounting.** Over the life of a request each hold is
recorded as often as it was granted, at most once, and a success only where the
call was accepted and its first item is one. -/
theorem holds_recorded_once :
    (∀ i key,
      recordsOf i key (request adm up clock pt a limiter breakers).2.log =
          grantsOf i key (request adm up clock pt a limiter breakers).2.log ∧
        grantsOf i key (request adm up clock pt a limiter breakers).2.log ≤ 1) ∧
      ∀ i key, .recorded i key true ∈ (request adm up clock pt a limiter breakers).2.log →
        GoodStart (request adm up clock pt a limiter breakers).2.log i := by
  refine ⟨fun i key => ⟨?_, ?_⟩, fun i key h => ?_⟩
  · exact Ledger.count_settle_eq (serve_ledger adm up clock pt a limiter breakers) (i, key)
  · exact grantsOf_le_one adm up clock pt a limiter breakers i key
  · exact goodStart_of_recorded adm up clock pt a limiter breakers h

/-! ## Breakers of elements that are not called -/

/-- A key without a grant in the log keeps its breaker. -/
theorem breaker_of_no_grant {key : BreakerKey}
    (h : ∀ i, .granted i key ∉ (request adm up clock pt a limiter breakers).2.log) :
    (request adm up clock pt a limiter breakers).2.breakers key = breakers key := by
  obtain ⟨e, es, -, hadds, hrefused⟩ | ⟨t, calls, chosen, -, hcalls, hadds⟩ :=
    serve_adds adm up clock pt a (.start limiter breakers)
  · apply hadds.breakers
    intro ev hev
    obtain ⟨i, rfl⟩ := hrefused ev hev
    exact fun hkey => by cases hkey
  · have hheld : ∀ i, .granted i key ∉ holdEvents 0 t.breakerHolds := by
      intro i hmem
      apply h i
      have hlog : (request adm up clock pt a limiter breakers).2.log =
          holdEvents 0 t.breakerHolds ++ calls ++ releaseEvents chosen 0 t.breakerHolds :=
        hadds.log
      rw [hlog]
      exact List.mem_append_left _ (List.mem_append_left _ hmem)
    apply hadds.breakers
    intro ev hev hkey
    rcases List.mem_append.mp hev with hev | hev
    · rcases List.mem_append.mp hev with hev | hev
      · obtain ⟨i, rfl | ⟨key', rfl⟩⟩ := mem_holdEvents hev
        · cases hkey
        · cases hkey
          exact hheld i hev
      · obtain ⟨i, hcall⟩ := hcalls.isCall ev hev
        cases ev with
        | called j answer => cases hkey
        | calledRaw j answer => cases hkey
        | granted j key' => cases hcall
        | refused j => cases hcall
        | recorded j key' succeeded => cases hcall
    · obtain ⟨token, htoken, rfl⟩ := mem_releaseEvents hev
      cases hkey
      exact hheld token.1 (granted_of_mem_tokens htoken)

/-- **What uncalled elements are charged.** An element that is not called records
no success and its hold, when it has one, exactly once; a key that was granted
no hold keeps its breaker, and a refused request leaves every breaker. -/
theorem uncalled_holds_abandoned :
    (∀ i,
      (∀ e ∈ (request adm up clock pt a limiter breakers).2.log, e.callAt ≠ some i) → ∀ key,
        .recorded i key true ∉ (request adm up clock pt a limiter breakers).2.log ∧
          recordsOf i key (request adm up clock pt a limiter breakers).2.log =
            grantsOf i key (request adm up clock pt a limiter breakers).2.log ∧
          grantsOf i key (request adm up clock pt a limiter breakers).2.log ≤ 1) ∧
      (∀ key, (∀ i, .granted i key ∉ (request adm up clock pt a limiter breakers).2.log) →
        (request adm up clock pt a limiter breakers).2.breakers key = breakers key) ∧
      ∀ e w, admitRequest adm clock a (.start limiter breakers) = (.error e, w) →
        (request adm up clock pt a limiter breakers).2.breakers = breakers := by
  refine ⟨fun i huncalled key => ⟨fun hsuccess => ?_, ?_, ?_⟩, fun key h => ?_, fun e w h => ?_⟩
  · -- a success follows an accepted call to the position
    rcases goodStart_of_recorded adm up clock pt a limiter breakers hsuccess with
      ⟨polls, event, hmem, -⟩ | ⟨polls, bytes, hmem, -⟩
    · exact huncalled _ hmem rfl
    · exact huncalled _ hmem rfl
  · exact Ledger.count_settle_eq (serve_ledger adm up clock pt a limiter breakers) (i, key)
  · exact grantsOf_le_one adm up clock pt a limiter breakers i key
  · exact breaker_of_no_grant adm up clock pt a limiter breakers h
  · obtain ⟨es, hadds, hrefused⟩ := admitRequest_eq_error h
    rw [request, serve, h]
    funext key
    apply hadds.breakers
    intro ev hev
    obtain ⟨i, rfl⟩ := hrefused ev hev
    exact fun hkey => by cases hkey

end Request

/-! ## A request in a state -/

section State

variable {P Prov M L : Type}

/-- What a request brings besides its route. -/
structure Inbound where
  frontend : FrontendKind
  modelAlias : String
  facts : RequestFacts
  identity : AgentIdentity
  clientIp : String

/-- Routes a request and serves it under the captured snapshot; the limiter and
the breakers are those of the core. -/
def AppState.dispatch (env : Env P Prov M L) (vision : Prov → Bool)
    (recentP95Ms : String → Option Nat) (up : Upstreams) (clock : Clock) (pt : Passthrough)
    (s : AppState P Prov M L) (r : Inbound) : Except RouteError Served × AppState P Prov M L :=
  match s.routeRequest env r.frontend r.modelAlias with
  | .error e => (.error e, s)
  | .ok (resolved, entry) =>
    let served := request
      { governor := env.governor, providers := s.core.providers, vision := vision,
        recentP95Ms := recentP95Ms }
      up clock pt
      { resolved := resolved, routeEntry := entry, config := s.snapshot.config, facts := r.facts,
        identity := r.identity, clientIp := r.clientIp }
      s.core.limiterRegistry s.core.breakerRegistry
    (.ok served.1,
      { s with
        core :=
          { s.core with
            limiterRegistry := served.2.limiter
            breakerRegistry := served.2.breakers } })

/-- A request moves the buckets and the breakers of the core only. -/
theorem dispatch_frame (env : Env P Prov M L) (vision : Prov → Bool)
    (recentP95Ms : String → Option Nat) (up : Upstreams) (clock : Clock) (pt : Passthrough)
    (s : AppState P Prov M L) (r : Inbound) :
    ∃ limiter breakers, (s.dispatch env vision recentP95Ms up clock pt r).2 =
      { s with
        core := { s.core with limiterRegistry := limiter, breakerRegistry := breakers } } := by
  unfold AppState.dispatch
  split
  · exact ⟨s.core.limiterRegistry, s.core.breakerRegistry, rfl⟩
  · exact ⟨_, _, rfl⟩

end State

/-! ## A request over two upstreams -/

/-- One HTTP upstream with its policies at their defaults. -/
def plainUpstream (baseUrl : String) : UpstreamConfig :=
  .openAiCompatible
    { baseUrl := baseUrl, apiKey := "sk-1", requestTimeoutSecs := 30, tier := .standard,
      cost := none, p95LatencyBudgetMs := none }

/-- A route of two upstreams that opens a breaker on one failure. -/
def chainEntry (frontend : String) : RouteEntry :=
  { RouteEntry.singular frontend "gpt-4o" "openai" "gpt-4o" with
    upstream := none
    upstreamModel := none
    upstreams := [{ name := "openai", model := "gpt-4o" }, { name := "backup", model := "gpt-4o" }]
    breaker := { BreakerConfig.default with minRequests := 1 } }

def chainConfig (frontend : String) : GatewayConfig :=
  { RouteEntries.plainConfig [chainEntry frontend] with
    upstreams :=
      { entries := [("backup", plainUpstream "https://backup.example/v1"),
          ("openai", plainUpstream "https://api.openai.com/v1")]
        sorted := by decide } }

/-- Both providers are registered; the rate limiter never refuses. -/
def chainAdmission : Admission Unit Unit where
  governor := { direct := fun _ _ => (), check := fun _ _ => ((), none) }
  providers := { entries := [("backup", ()), ("openai", ())], sorted := by decide }
  vision := fun _ => false
  recentP95Ms := fun _ => none

def chainPolicy : RoutePolicy :=
  { defaultReasoningEffort := none, defaultAnthropicBeta := none, reasoningMapping := [] }

/-- A text request on that route. -/
def chainRequest (frontend : String) : AdmitRequest where
  resolved :=
    { chain := [{ provider := "openai", model := "gpt-4o", policy := chainPolicy },
        { provider := "backup", model := "gpt-4o", policy := chainPolicy }]
      retry := (chainEntry frontend).retry
      breaker := (chainEntry frontend).breaker
      routeLabel := frontend ++ "/gpt-4o" }
  routeEntry := chainEntry frontend
  config := chainConfig frontend
  facts := { hasImage := false, estimateCost := fun _ => .finite 0 }
  identity := .anonymous
  clientIp := "unknown"

-- the config passes its checks and the router built from it resolves to that chain
example : validate (chainConfig "openai_responses") = .ok () := rfl
example : ∃ router resolved,
    StaticRouter.fromConfig (chainConfig "openai_responses") = some router ∧
    router.resolveRoute .openAiResponses "gpt-4o" = .ok resolved ∧
      resolved = (chainRequest "openai_responses").resolved := ⟨_, _, rfl, rfl, rfl⟩

/-- Every reading of the clock is the given one. -/
def stillClock (now : Instant) : Clock where
  now := fun _ => now
  preChain := fun _ => { asked := now, answered := now }
  perUpstream := fun _ => { asked := now, answered := now }

/-- The head accepts at once and its stream starts. -/
def acceptingHead : Upstreams where
  complete := fun _ _ => .accepted [.ready (.ok (.textDelta 0 "hi")), .ended]
  proxyRaw := none
  backoffMs := fun _ _ => 100
  sleepDropped := fun _ _ => false

/-- A chat request to both upstreams, every breaker closed, that the head
serves. -/
def servedByHead : Served × World Unit :=
  request chainAdmission acceptingHead (stillClock 5) { tryProxyRaw := false, mutated := false }
    (chainRequest "openai_chat") .disabled .new

/-- The fallback that was never called is charged the failure of its hold, which
opens its breaker. -/
theorem uncalled_fallback_opens :
    .recorded 1 ("backup", "gpt-4o") false ∈ servedByHead.2.log ∧
      (∀ e ∈ servedByHead.2.log, e.callAt ≠ some 1) ∧
      servedByHead.2.breakers ("backup", "gpt-4o") =
        { samples := [(5, false)], openSince := some 5, probeInFlight := false } := by
  have hlog : servedByHead.2.log =
      [.granted 0 ("openai", "gpt-4o"), .granted 1 ("backup", "gpt-4o"),
        .called 0 (.accepted [.ready (.ok (.textDelta 0 "hi")), .ended]),
        .recorded 0 ("openai", "gpt-4o") true, .recorded 1 ("backup", "gpt-4o") false] := rfl
  rw [hlog]
  exact ⟨by simp, by simp [Event.callAt], rfl⟩

end AgentShim.Gateway
