import AgentShim.Gateway.Collect
import AgentShim.Gateway.Passthrough
import AgentShim.Plugins.StreamWrap

/-
  The hooks on the way back

  A dispatched request is answered in one of several ways: with the upstream's
  own bytes, with the events of a canonical stream, with a response collected
  from one, or with an error. The stream hook is on the canonical stream; the
  completion hook is fired when the guard of a stream is dropped, or once a
  response has been collected. The other exits fire nothing.

  What is proved:
    1. `dispatchTicket_served` — an admitted request is passed through, dropped
       on the way, or served by the walk.
    2. `respond_of_walk` — what the walk's stream is answered with, and what it
       fires.
    3. `hooksCover_iff` — a response passes its route's hooks iff a walk's stream
       is streamed on or collected whole, or the route has no subscriber on the
       exit that is taken.

  Correspondence (Rust ↔ Lean):
    `context::{ResponseSummary, UpstreamStatus}` ↔ the same names; the elapsed time
                                                   is left out
    `registry::run_on_response_complete`         ↔ `runOnResponseComplete`, the hooks
                                                   it spawns
    `handler_error_from_admission`,              ↔ `HandlerError.ofAdmission`,
      `from_resilience_error`                      `ofResilience`
    `run_stream` with its `H7Guard`, `run_unary` ↔ `runStream`, `runUnary`
    the ends of `dispatch_inner`                 ↔ `respond`
  A stream is given by the answers to the polls until it is dropped, and by how
  many of the wrapped items its reader took.
-/

namespace AgentShim.Gateway

open AgentShim.CircuitBreaker AgentShim.Plugins AgentShim.RequestAdmission AgentShim.RequestLog
  AgentShim.ResilientCaller AgentShim.Retrying Transducer

/-! ## Errors on the way -/

def HandlerError.ofAdmission : AdmissionError → HandlerError
  | .rateLimited _ retryAfterSecs => .rateLimited retryAfterSecs
  | .noEligibleUpstream _ => .noEligibleUpstream
  | .capabilityMismatch message => .capabilityMismatch message
  | .allBreakersOpen _ => .allBreakersOpen
  | .provider e => .provider e

def HandlerError.ofResilience : ResilienceError → HandlerError
  | .noUpstreamSucceeded _ lastError => .noUpstreamSucceeded lastError
  | .terminalError e _ => .terminalUpstream e
  | .allBreakersOpen _ => .allBreakersOpen

/-! ## The completion hook -/

inductive UpstreamStatus
  | success
  | error
  | cancelled
  deriving DecidableEq, Repr

/-- What a completed request leaves for its observers. -/
structure ResponseSummary where
  usage : Option Usage
  upstreamStatus : UpstreamStatus

variable {P σ : Type}

/-- The plugins that observe the completion of a request. -/
def subscribers (registry : PluginRegistry P) (frontend : FrontendKind) (model : String) :
    List (PluginEntry P) :=
  match registry.lookup frontend model with
  | none => []
  | some plan => plan.onResponseComplete.filter PluginEntry.enabled

/-- The hooks that are spawned, each with the summary. -/
def runOnResponseComplete (registry : PluginRegistry P) (frontend : FrontendKind)
    (model : String) (summary : ResponseSummary) : List (PluginEntry P × ResponseSummary) :=
  match registry.lookup frontend model with
  | none => []
  | some plan =>
    if plan.onResponseComplete.isEmpty then []
    else (plan.onResponseComplete.filter PluginEntry.enabled).map fun entry => (entry, summary)

theorem runOnResponseComplete_fst (registry : PluginRegistry P) (frontend : FrontendKind)
    (model : String) (summary : ResponseSummary) :
    (runOnResponseComplete registry frontend model summary).map Prod.fst =
      subscribers registry frontend model := by
  unfold runOnResponseComplete subscribers
  cases registry.lookup frontend model with
  | none => rfl
  | some plan =>
    dsimp only
    split
    · rename_i hempty
      rw [List.isEmpty_iff.mp hempty]
      rfl
    · rw [List.map_map]
      exact List.map_id _

/-! ## The ends of a request -/

/-- What the client is answered with. -/
inductive Reply (Body : Type)
  | bytes (items : List ByteItem)
  | events (items : List StreamItem)
  | unary (response : CanonicalResponse) (encoded : Except FrontendError Body)
  | error (e : HandlerError)
  | gone

/-- A reply and the completion hooks that were fired for it. -/
structure Outcome (P Body : Type) where
  reply : Reply Body
  completed : List (PluginEntry P × ResponseSummary)

/-- The items a stream yields before it ends, and whether it was read to its end. -/
def readItems {α : Type} : List (Poll α) → List α × Bool
  | [] => ([], false)
  | .pending :: polls => readItems polls
  | .ready item :: polls => (item :: (readItems polls).1, (readItems polls).2)
  | .ended :: _ => ([], true)

/-- The last usage among the items read. -/
def usageOf (items : List StreamItem) : Option Usage :=
  items.foldl
    (fun usage item =>
      match item with
      | .ok (.usageDelta u) => some u
      | .ok (.responseStop (some u)) => some u
      | _ => usage)
    none

section Respond

/-- What a request is answered under: its plugins with their context and their
state at the start of the response, its route key, and the encoder. -/
structure Response (P σ Body : Type) where
  methods : PluginMethods P σ
  ctx : PluginContext
  registry : PluginRegistry P
  frontend : FrontendKind
  modelAlias : String
  scratch : σ
  codec : Codec
  freshId : String
  encodeUnary : CanonicalResponse → Except FrontendError Body
  stream : Bool
  /-- how many items of the wrapped stream are read before it is dropped -/
  taken : Nat

variable {Body : Type} (p : Response P σ Body)

/-- The items of a canonical stream behind the stream hook. -/
def Response.wrapped (items : List EventItem) : List StreamItem :=
  (wrapStream p.methods p.ctx p.registry p.frontend p.modelAlias items p.scratch).2

def Response.complete (usage : Option Usage) : List (PluginEntry P × ResponseSummary) :=
  runOnResponseComplete p.registry p.frontend p.modelAlias
    { usage := usage, upstreamStatus := .success }

/-- The guard is dropped with the stream, however much of it was read. -/
def runStream (polls : List (Poll EventItem)) : Outcome P Body :=
  let items := (p.wrapped (readItems polls).1).take p.taken
  { reply := .events items, completed := p.complete (usageOf items) }

def runUnary (polls : List (Poll EventItem)) : Outcome P Body :=
  match collectStream p.codec p.freshId (p.wrapped (readItems polls).1) with
  -- `collect_stream(stream).await?`
  | .error e => { reply := .error e, completed := [] }
  | .ok response =>
    if (readItems polls).2 then
      { reply := .unary response (p.encodeUnary response), completed := p.complete response.usage }
    else { reply := .gone, completed := [] }

def respond : Served → Outcome P Body
  | .rejected e => { reply := .error (.ofAdmission e), completed := [] }
  | .providerError e => { reply := .error (.provider e), completed := [] }
  | .proxied polls => { reply := .bytes (readItems polls).1, completed := [] }
  | .walked (.stream _ polls) => if p.stream then runStream p polls else runUnary p polls
  | .walked (.failed e) => { reply := .error (.ofResilience e), completed := [] }
  | .walked .abandoned => { reply := .gone, completed := [] }
  | .abandoned => { reply := .gone, completed := [] }

/-! ## What the hooks cover -/

/-- The enabled plugins on the stream of the route. -/
def streamSubscribers : List (PluginEntry P) :=
  (p.registry.streamPlugins p.frontend p.modelAlias).filter PluginEntry.enabled

/-- What reaches the client came through the stream hook, from the items that the
upstream yielded. -/
def ThroughHook (items : List EventItem) : Reply Body → Prop
  | .bytes bytes => streamSubscribers p = [] ∨ ∀ chunk, .ok chunk ∉ bytes
  | .events delivered => delivered <+: p.wrapped items
  | .unary response _ => collectStream p.codec p.freshId (p.wrapped items) = .ok response
  | .error _ => True
  | .gone => True

/-- The response went through the stream hook, and every observer of its completion
was called once. -/
def HooksCover (items : List EventItem) (o : Outcome P Body) : Prop :=
  ThroughHook p items o.reply ∧
    o.completed.map Prod.fst = subscribers p.registry p.frontend p.modelAlias

/-- A stream is streamed on, or collected to its end without a failure. -/
def Delivered (polls : List (Poll EventItem)) : Prop :=
  p.stream = true ∨
    ((readItems polls).2 = true ∧ (p.wrapped (readItems polls).1).findSome? failure = none)

/-- The items of the stream that a walk ends with. -/
def walkItems : WalkEnd → List EventItem
  | .stream _ polls => (readItems polls).1
  | .failed _ => []
  | .abandoned => []

/-- What is streamed on went through the hook, and its guard fires once. -/
theorem runStream_covers (polls : List (Poll EventItem)) :
    HooksCover p (readItems polls).1 (runStream p polls) :=
  ⟨List.take_prefix _ _, runOnResponseComplete_fst p.registry p.frontend p.modelAlias _⟩

/-- What is collected went through the hook, and the observers are called iff the
stream was collected to its end without a failure. -/
theorem runUnary_covers (polls : List (Poll EventItem)) :
    ThroughHook p (readItems polls).1 (runUnary p polls).reply ∧
      (runUnary p polls).completed.map Prod.fst =
        if (readItems polls).2 = true ∧
            (p.wrapped (readItems polls).1).findSome? failure = none then
          subscribers p.registry p.frontend p.modelAlias
        else [] := by
  unfold runUnary
  cases hcollect : collectStream p.codec p.freshId (p.wrapped (readItems polls).1) with
  | error e =>
    have hfailure := collectStream_eq_error.mp hcollect
    rw [hfailure, if_neg fun h => nomatch h.2]
    exact ⟨trivial, rfl⟩
  | ok response =>
    have hnone : (p.wrapped (readItems polls).1).findSome? failure = none := by
      cases hfailure : (p.wrapped (readItems polls).1).findSome? failure with
      | none => rfl
      | some e =>
        rw [collectStream_eq_error.mpr hfailure] at hcollect
        cases hcollect
    cases hended : (readItems polls).2 with
    | false =>
      rw [if_neg fun h => nomatch h.1]
      exact ⟨trivial, rfl⟩
    | true =>
      rw [if_pos ⟨rfl, hnone⟩]
      exact ⟨hcollect, runOnResponseComplete_fst p.registry p.frontend p.modelAlias _⟩

open Classical in
/-- What the end of a walk is answered with went through the hook; the observers are
called iff the walk ends with a stream that is delivered. -/
theorem respond_of_walk (ending : WalkEnd) :
    ThroughHook p (walkItems ending) (respond p (.walked ending)).reply ∧
      (respond p (.walked ending)).completed.map Prod.fst =
        if ∃ i polls, ending = .stream i polls ∧ Delivered p polls then
          subscribers p.registry p.frontend p.modelAlias
        else [] := by
  have hnot : (∀ i polls, ending ≠ .stream i polls) →
      ¬ ∃ i polls, ending = .stream i polls ∧ Delivered p polls := by
    rintro hne ⟨i, polls, heq, -⟩
    exact hne i polls heq
  cases ending with
  | failed e =>
    rw [if_neg (hnot fun i polls => by simp)]
    exact ⟨trivial, rfl⟩
  | abandoned =>
    rw [if_neg (hnot fun i polls => by simp)]
    exact ⟨trivial, rfl⟩
  | stream i polls =>
    have hiff : (∃ j polls', WalkEnd.stream i polls = .stream j polls' ∧ Delivered p polls') ↔
        Delivered p polls := by
      constructor
      · rintro ⟨j, polls', heq, hdelivered⟩
        cases heq
        exact hdelivered
      · intro hdelivered
        exact ⟨i, polls, rfl, hdelivered⟩
    rw [respond, walkItems, if_congr hiff rfl rfl]
    cases hstream : p.stream with
    | true =>
      have hdelivered : Delivered p polls := Or.inl hstream
      rw [if_pos hdelivered]
      exact runStream_covers p polls
    | false =>
      obtain ⟨hthrough, hcompleted⟩ := runUnary_covers p polls
      refine ⟨hthrough, hcompleted.trans ?_⟩
      apply if_congr _ rfl rfl
      rw [Delivered, hstream]
      simp

end Respond

/-! ## Over a dispatch -/

section Dispatch

variable {Prov L Body : Type} {adm : Admission Prov L} {up : Upstreams}

/-- The raw path leaves the request to the walk. -/
def LeavesToWalk (adm : Admission Prov L) (up : Upstreams) (pt : Passthrough)
    (t : AdmissionTicket) : Prop :=
  ∀ answer, RawAttempt adm up pt t answer → ∃ e, answer = .failed e

/-- The ways a request with a well-formed ticket is served. -/
theorem dispatchTicket_served (clock : Nat → Instant) (pt : Passthrough)
    {t : AdmissionTicket} (h : WellFormed adm t) (w : World L) :
    (∃ polls, RawAttempt adm up pt t (.accepted polls) ∧
        (dispatchTicket adm up clock pt t w).1 = .proxied polls) ∨
      (RawAttempt adm up pt t .dropped ∧ (dispatchTicket adm up clock pt t w).1 = .abandoned) ∨
      (LeavesToWalk adm up pt t ∧
        (dispatchTicket adm up clock pt t w).1 =
          .walked (completeInner adm.providers up t).2) := by
  obtain ⟨target, rest, provider, hchain, hprovider⟩ := h.head
  have hhead : t.filteredChain.head? = some target := by rw [hchain]; rfl
  unfold dispatchTicket
  by_cases htry : (pt.tryProxyRaw && !pt.mutated) = true
  · rw [if_pos htry, hhead]
    dsimp only
    rw [hprovider]
    rw [Bool.and_eq_true, Bool.not_eq_true'] at htry
    have hattempt : ∀ answer, up.proxyRaw = some answer → RawAttempt adm up pt t answer :=
      fun answer hanswer => ⟨htry.1, htry.2, ⟨target, provider, hhead, hprovider⟩, hanswer⟩
    cases hraw : up.proxyRaw with
    | none =>
      refine Or.inr (Or.inr ⟨fun answer hanswer => ?_, rfl⟩)
      have hanswered := hanswer.answered
      rw [hraw] at hanswered
      cases hanswered
    | some answer =>
      cases answer with
      | accepted polls => exact Or.inl ⟨polls, hattempt _ hraw, rfl⟩
      | dropped => exact Or.inr (Or.inl ⟨hattempt _ hraw, rfl⟩)
      | failed e =>
        refine Or.inr (Or.inr ⟨fun answer hanswer => ?_, rfl⟩)
        have hanswered := hanswer.answered
        rw [hraw] at hanswered
        cases hanswered
        exact ⟨e, rfl⟩
  · rw [if_neg htry]
    refine Or.inr (Or.inr ⟨fun answer hanswer => ?_, rfl⟩)
    rw [hanswer.tried, hanswer.unmutated] at htry
    exact absurd rfl htry

/-- The raw path answers one way. -/
theorem RawAttempt.unique {pt : Passthrough} {t : AdmissionTicket}
    {answer answer' : Answer ByteItem} (h : RawAttempt adm up pt t answer)
    (h' : RawAttempt adm up pt t answer') : answer = answer' :=
  Option.some.inj (h.answered.symm.trans h'.answered)

/-- A raw attempt that is answered, or dropped, is not left to the walk. -/
theorem RawAttempt.not_leaves {pt : Passthrough} {t : AdmissionTicket} {answer : Answer ByteItem}
    (h : RawAttempt adm up pt t answer) (hanswer : ∀ e, answer ≠ .failed e) :
    ¬ LeavesToWalk adm up pt t := by
  intro hleft
  obtain ⟨e, he⟩ := hleft answer h
  exact hanswer e he

/-- **The hooks of a response.** An admitted request passes the hooks of its route
on the way back iff the raw path leaves it to the walk and the walk's stream is
delivered, or no observer is subscribed, and no stream plugin or no raw byte is
there. -/
theorem hooksCover_iff (adm : Admission Prov L) (up : Upstreams) (clock : Clock)
    (pt : Passthrough) (a : AdmitRequest) (w w' : World L) (t : AdmissionTicket)
    (h : admitRequest adm clock a w = (.ok t, w')) (p : Response P σ Body) :
    HooksCover p (walkItems (completeInner adm.providers up t).2)
        (respond p (dispatchTicket adm up clock.now pt t w').1) ↔
      (LeavesToWalk adm up pt t ∧ ∃ i polls,
          (completeInner adm.providers up t).2 = .stream i polls ∧ Delivered p polls) ∨
        (subscribers p.registry p.frontend p.modelAlias = [] ∧
          (streamSubscribers p = [] ∨
            ∀ polls, RawAttempt adm up pt t (.accepted polls) →
              ∀ chunk, .ok chunk ∉ (readItems polls).1)) := by
  have hwell := (admitRequest_eq_ok h).1
  rcases dispatchTicket_served clock.now pt hwell w' with
    ⟨polls, hraw, hserved⟩ | ⟨hraw, hserved⟩ | ⟨hleft, hserved⟩
  · -- passed through: nothing is fired, and the bytes were not read
    have hnot : ¬ LeavesToWalk adm up pt t := hraw.not_leaves nofun
    rw [hserved, or_iff_right fun hboth => hnot hboth.1]
    constructor
    · rintro ⟨hthrough, hcompleted⟩
      refine ⟨hcompleted.symm, hthrough.imp id fun hno polls' hraw' => ?_⟩
      cases hraw.unique hraw'
      exact hno
    · rintro ⟨hnone, hthrough⟩
      exact ⟨hthrough.imp id fun hno => hno polls hraw, hnone.symm⟩
  · -- dropped inside the raw attempt
    have hnot : ¬ LeavesToWalk adm up pt t := hraw.not_leaves nofun
    rw [hserved, or_iff_right fun hboth => hnot hboth.1]
    constructor
    · rintro ⟨-, hcompleted⟩
      refine ⟨hcompleted.symm, Or.inr fun polls' hraw' => ?_⟩
      cases hraw.unique hraw'
    · rintro ⟨hnone, -⟩
      exact ⟨trivial, hnone.symm⟩
  · -- served by the walk: only its end matters
    have hnoraw : ∀ polls, ¬ RawAttempt adm up pt t (.accepted polls) :=
      fun polls hraw => hraw.not_leaves nofun hleft
    obtain ⟨hthrough, hcompleted⟩ := respond_of_walk p (completeInner adm.providers up t).2
    rw [hserved, HooksCover, and_iff_right hthrough, hcompleted, and_iff_right hleft]
    split
    · rename_i hdelivered
      exact ⟨fun _ => Or.inl hdelivered, fun _ => rfl⟩
    · rename_i hdelivered
      rw [or_iff_right hdelivered]
      constructor
      · intro hnone
        exact ⟨hnone.symm, Or.inr fun polls hraw => absurd hraw (hnoraw polls)⟩
      · rintro ⟨hnone, -⟩
        exact hnone.symm

end Dispatch

/-! ## A request that no hook sees -/

/-- One plugin on every stream and every completion. -/
def observedRegistry : PluginRegistry Unit where
  plugins := ∅
  plans := fun _ => some
    { specific := ∅
      wildcard := some
        { onDecodedRequest := []
          onResolved := []
          onStreamEvent := [strictEntry]
          onResponseComplete := [strictEntry] }
      isEmpty := false }

/-- The plugin passes every event on. -/
def observer : PluginMethods Unit Unit where
  onDecodedRequest := fun _ _ req s => (.returned (.ok req), s)
  onResolved := fun _ _ req _ s => (.returned (.ok req), s)
  onStreamEvent := fun _ _ event s => (.returned (.ok [event]), s)

def observedResponse (stream : Bool) : Response Unit Unit Unit where
  methods := observer
  ctx := ⟨"req", .openAiResponses, "OpenAiResponses/gpt-4o"⟩
  registry := observedRegistry
  frontend := .openAiResponses
  modelAlias := "gpt-4o"
  scratch := ()
  codec := objectCodec
  freshId := "resp"
  encodeUnary := fun _ => .ok ()
  stream := stream
  taken := 8

/-- The head accepts, and its stream fails after a piece of text. -/
def failingHead : Upstreams where
  complete := fun _ _ =>
    .accepted [.ready (.ok (.textDelta 0 "hi")), .ready (.ok (.error "overloaded")), .ended]
  proxyRaw := none
  backoffMs := fun _ _ => 100
  sleepDropped := fun _ _ => false

/-- The bytes of a passthrough reach the client past the stream hook, and neither its
completion is observed nor that of a collected stream that fails. -/
theorem passthrough_unobserved :
    ∃ t w, admitRequest chainAdmission (stillClock 5) (chainRequest "openai_responses")
        (.start .disabled .new) = (.ok t, w) ∧
      (respond (observedResponse true)
        (dispatchTicket chainAdmission (rawHead (.accepted [.ready (.ok [104, 105]), .ended])
          fun _ _ => .dropped) (stillClock 5).now
          { tryProxyRaw := true, mutated := false } t w).1).reply = .bytes [.ok [104, 105]] ∧
      ¬ HooksCover (observedResponse true)
        (walkItems (completeInner chainAdmission.providers
          (rawHead (.accepted [.ready (.ok [104, 105]), .ended]) fun _ _ => .dropped) t).2)
        (respond (observedResponse true)
          (dispatchTicket chainAdmission (rawHead (.accepted [.ready (.ok [104, 105]), .ended])
            fun _ _ => .dropped) (stillClock 5).now
            { tryProxyRaw := true, mutated := false } t w).1) ∧
      ¬ HooksCover (observedResponse false)
        (walkItems (completeInner chainAdmission.providers failingHead t).2)
        (respond (observedResponse false)
          (dispatchTicket chainAdmission failingHead (stillClock 5).now
            { tryProxyRaw := true, mutated := false } t w).1) := by
  refine ⟨_, _, rfl, rfl, ?_, ?_⟩
  · rintro ⟨-, hcompleted⟩
    have hnone : ([] : List (PluginEntry Unit)) = [strictEntry] := hcompleted
    cases hnone
  · rintro ⟨-, hcompleted⟩
    have hnone : ([] : List (PluginEntry Unit)) = [strictEntry] := hcompleted
    cases hnone

/-- A canonical stream passes both hooks. -/
theorem streamed_observed :
    ∃ t w, admitRequest chainAdmission (stillClock 5) (chainRequest "openai_responses")
        (.start .disabled .new) = (.ok t, w) ∧
      HooksCover (observedResponse true)
        (walkItems (completeInner chainAdmission.providers acceptingHead t).2)
        (respond (observedResponse true)
          (dispatchTicket chainAdmission acceptingHead (stillClock 5).now
            { tryProxyRaw := true, mutated := false } t w).1) := by
  refine ⟨_, _, rfl, ?_⟩
  apply (hooksCover_iff chainAdmission acceptingHead (stillClock 5)
    { tryProxyRaw := true, mutated := false } (chainRequest "openai_responses")
    (.start .disabled .new) _ _ rfl (observedResponse true)).mpr
  refine Or.inl ⟨fun answer hraw => ?_, _, _, rfl, Or.inl rfl⟩
  cases hraw.answered

end AgentShim.Gateway
