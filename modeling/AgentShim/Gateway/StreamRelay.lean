import AgentShim.Frontends.AnthropicRoundTrip
import Mathlib.Logic.Function.Iterate

/-
  An Anthropic stream behind many gateways

  What the Anthropic encoder writes, the Anthropic parser of a gateway in front reads
  and the encoder there writes again. Whatever the stream was, valid or not, the client
  behind the second gateway is told event by event what the first one wrote: the stop
  and the usage are kept until they are written together, so nothing of them is lost on
  the way. An error alone is not written as it was read: every gateway says that it is
  one of its upstream.

  What is proved:
    1. `echoes_encodeEvent` — what is written of one event is written again.
    2. `wire_readBack` — so is the whole stream.
    3. `stream_relayed` — behind any number of gateways, and when nothing is changed.
-/

namespace AgentShim.Gateway

open Transducer AnthropicMessages AnthropicSse

/-- An event as the encoder of the gateway in front writes it. -/
def inFront : OutboundEvent → OutboundEvent
  | .error payload =>
    .error
      { ty := "api_error", message := "upstream " ++ payload.ty ++ ": " ++ payload.message }
  | o => o

def failed : OutboundEvent → Bool
  | .error _ => true
  | _ => false

/-- The parser on what is written. -/
abbrev hears (o : OutboundEvent) : Parse := parseEvent o.read

/-- The encoder on a stream, up to the stop of the message. -/
abbrev writes (es : List StreamEvent) : Encode := untilDone EncoderState.done encodeEvent es

/-! ## One event -/

/-- What is written of an event is read and written again; either the message goes on,
with the parser and the encoder in front as they were, or it is stopped. -/
def Echoes (os : List OutboundEvent) (p : StreamState) (stopped : Bool) : Prop :=
  if stopped then
    (writes (forEach hears os p).2 {}).2 = os.map inFront
  else
    Untouched (forEach hears os p).1 ∧
      (∀ e ∈ (forEach hears os p).2, e.isResponseStop = false) ∧
      forEach encodeEvent (forEach hears os p).2 {} = ({}, os.map inFront)

variable {p : StreamState}

theorem echoes_nil (hp : Untouched p) : Echoes [] p false :=
  ⟨hp, fun _ he => absurd he List.not_mem_nil, rfl⟩

theorem echoes_of_read {o : OutboundEvent} {es : List StreamEvent} (hp : Untouched p)
    (hearly : o.IsEarly) (hread : (hears o p).2 = es) (hend : ∀ e ∈ es, e.isResponseStop = false)
    (hagain : forEach encodeEvent es {} = ({}, [inFront o])) : Echoes [o] p false := by
  refine ⟨?_, ?_, ?_⟩
  · rw [forEach_singleton]
    exact hp.parseEvent hearly
  · rw [forEach_singleton, hread]
    exact hend
  · rw [forEach_singleton, hread, hagain]
    rfl

/-- An event that is read as one. -/
theorem echoes_singleton {o : OutboundEvent} {e : StreamEvent} (hp : Untouched p)
    (hearly : o.IsEarly) (hread : (hears o p).2 = [e]) (hend : e.isResponseStop = false)
    (hagain : encodeEvent e {} = ({}, [inFront o])) : Echoes [o] p false := by
  apply echoes_of_read hp hearly hread
  · simpa using hend
  · rw [forEach_singleton, hagain]

/-- The stop of a block; that of a call is left to it, as it was. -/
theorem echoes_stopBlock (index : Nat) (hp : Untouched p) :
    Echoes [.contentBlockStop index] p false := by
  by_cases hopen : index ∈ p.openToolIndices
  · have hread : (hears (.contentBlockStop index) p).2 =
        [.toolCallStop index, .contentBlockStop index] := by
      show (AnthropicSse.stopBlock index p).2 = _
      rw [AnthropicSse.stopBlock, if_pos hopen]
    exact echoes_of_read hp trivial hread (by simp [StreamEvent.isResponseStop]) rfl
  · have hread : (hears (.contentBlockStop index) p).2 = [.contentBlockStop index] := by
      show (AnthropicSse.stopBlock index p).2 = _
      rw [AnthropicSse.stopBlock, if_neg hopen]
    exact echoes_singleton hp trivial hread rfl rfl

/-- The zero usage that a message is started with adds nothing. -/
theorem echoes_start (id model : String) (hp : Untouched p) :
    Echoes [.messageStart { id := id, model := model, usage := {} }, .ping] p false := by
  have hread : (forEach hears
      [.messageStart { id := id, model := model, usage := {} }, .ping] p).2 =
      [.responseStart id model 0, .messageStart .assistant,
        .usageDelta { inputTokens := some 0, outputTokens := some 0 }] := rfl
  refine ⟨?_, ?_, ?_⟩
  · exact hp.parseEvent (o := .messageStart { id := id, model := model, usage := {} }) rfl
  · simp [hread, StreamEvent.isResponseStop]
  · rw [hread]
    rfl

theorem stopReason_again (reason : StopReason) :
    stopReasonToAnthropic (stopReasonFromAnthropic (stopReasonToAnthropic reason)) =
      stopReasonToAnthropic reason := by
  cases reason <;> rfl

/-- The last usage is read and written as it was, whatever was added up before. -/
theorem usage_again (u : OutboundUsage) :
    (overrideUsage (some (mapUsage u.read)) (addUsage (mapUsage u.read) {})).usage = u := by
  obtain ⟨input, output, creation, cached⟩ := u
  cases creation <;> cases cached <;> rfl

theorem mergeUsage_untouched (hp : Untouched p) (u : OutboundUsage) :
    mergeUsage p.accumulatedUsage (mapUsage u.read) = mapUsage u.read := by
  obtain ⟨input, output, creation, cached⟩ := u
  rcases hp.2.2 with husage | husage <;> rw [husage] <;> cases creation <;> cases cached <;>
    simp [mergeUsage, mapUsage, OutboundUsage.read, mergeCount]

theorem echoes_stop (reason : StopReason) (sequence : Option String) (u : OutboundUsage)
    (hp : Untouched p) :
    Echoes
      [.messageDelta { stopReason := stopReasonToAnthropic reason, stopSequence := sequence } u,
        .messageStop] p true := by
  have hread : (forEach hears
      [.messageDelta { stopReason := stopReasonToAnthropic reason, stopSequence := sequence } u,
        .messageStop] p).2 =
      [.usageDelta (mapUsage u.read),
        .messageStop (stopReasonFromAnthropic (stopReasonToAnthropic reason)) sequence,
        .responseStop (some (mapUsage u.read))] := by
    show [StreamEvent.usageDelta _, .messageStop _ (sequence.or p.stopSequence),
      .responseStop (some (mergeUsage p.accumulatedUsage _))] = _
    rw [hp.2.1, Option.or_none, mergeUsage_untouched hp]
    rfl
  show (writes _ {}).2 = _
  rw [hread]
  show [OutboundEvent.messageDelta
      { stopReason := stopReasonToAnthropic
          (stopReasonFromAnthropic (stopReasonToAnthropic reason)), stopSequence := sequence }
      (overrideUsage (some (mapUsage u.read)) (addUsage (mapUsage u.read) {})).usage,
    .messageStop] = _
  rw [stopReason_again, usage_again]
  rfl

theorem echoes_encodeEvent (e : StreamEvent) {s : EncoderState} (hs : s.done = false)
    (hp : Untouched p) : Echoes (encodeEvent e s).2 p (encodeEvent e s).1.done := by
  cases e with
  | responseStart id model created =>
    show Echoes _ p s.done
    rw [hs]
    exact echoes_start id model hp
  | contentBlockStart index kind =>
    rw [done_encodeEvent rfl, hs]
    cases kind with
    | toolCall => exact echoes_nil hp
    | _ => exact echoes_singleton hp trivial rfl rfl rfl
  | responseStop usage =>
    cases hpending : s.pendingStop with
    | none =>
      have hnothing : encodeEvent (.responseStop usage) s = (overrideUsage usage s, []) := by
        show AnthropicMessages.stopMessage (overrideUsage usage s) = _
        rw [AnthropicMessages.stopMessage, pendingStop_overrideUsage, hpending]
      have hdone : (overrideUsage usage s).done = s.done := by cases usage <;> rfl
      rw [hnothing, hdone, hs]
      exact echoes_nil hp
    | some stop =>
      have hdone : (encodeEvent (.responseStop usage) s).1.done = true := by
        show (AnthropicMessages.stopMessage (overrideUsage usage s)).1.done = true
        rw [AnthropicMessages.stopMessage, pendingStop_overrideUsage, hpending]
      rw [hdone, encode_responseStop hpending]
      exact echoes_stop stop.1 stop.2 _ hp
  | messageStart role => exact hs ▸ echoes_nil hp
  | toolCallStop index => exact hs ▸ echoes_nil hp
  | usageDelta usage => exact hs ▸ echoes_nil hp
  | messageStop reason sequence => exact hs ▸ echoes_nil hp
  | rawProviderEvent provider eventName data => exact hs ▸ echoes_nil hp
  | contentBlockStop index => exact hs ▸ echoes_stopBlock index hp
  | toolCallStart index id name =>
    have hread : (hears (.contentBlockStart index (.toolUse id name "")) p).2 =
        [.contentBlockStart index .toolCall, .toolCallStart index id name] := rfl
    exact hs ▸ echoes_of_read hp trivial hread (by simp [StreamEvent.isResponseStop]) rfl
  | _ => exact hs ▸ echoes_singleton hp trivial rfl rfl rfl

/-! ## Whole streams -/

theorem writes_again (es : List StreamEvent) {s : EncoderState} (hs : s.done = false)
    (hp : Untouched p) :
    (writes (forEach hears (writes es s).2 p).2 {}).2 = (writes es s).2.map inFront := by
  induction es generalizing s p with
  | nil => rfl
  | cons e es ih =>
    have hecho := echoes_encodeEvent e hs hp
    obtain ⟨s₁, os, hstep⟩ : ∃ s₁ os, encodeEvent e s = (s₁, os) := ⟨_, _, rfl⟩
    rw [hstep] at hecho
    have hwritten : (writes (e :: es) s).2 = os ++ (writes es s₁).2 := by
      rw [writes, untilDone_cons encodeEvent e es hs, andThen_apply, hstep]
    rw [hwritten, List.map_append, forEach_append, andThen_apply]
    cases hdone : s₁.done with
    | true =>
      -- nothing is written after the stop
      rw [hdone, Echoes, if_pos rfl] at hecho
      have hrest : (writes es s₁).2 = [] := by rw [writes, untilDone_of_done encodeEvent es hdone]
      rw [hrest, forEach_nil, List.map_nil, List.append_nil, skip, List.append_nil]
      exact hecho
    | false =>
      rw [hdone, Echoes, if_neg Bool.false_ne_true] at hecho
      obtain ⟨hp₁, hgoes, hagain⟩ := hecho
      have hopen : ∀ e' ∈ (forEach hears os p).2, ∀ t : EncoderState, t.done = false →
          (encodeEvent e' t).1.done = false := fun e' he' t ht =>
        (done_encodeEvent (hgoes e' he') t).trans ht
      calc (writes ((forEach hears os p).2 ++
              (forEach hears (writes es s₁).2 (forEach hears os p).1).2) {}).2
          = os.map inFront ++
              (writes (forEach hears (writes es s₁).2 (forEach hears os p).1).2 {}).2 := by
            rw [writes, untilDone_append _ hopen rfl, andThen_apply, hagain]
        _ = os.map inFront ++ (writes es s₁).2.map inFront := by rw [ih hdone hp₁]

theorem wire_eq_writes (es : List StreamEvent) : wire es = (writes es {}).2 := by
  rw [wire, encode, untilDone_map]
  rfl

theorem untouched_init : Untouched {} := ⟨rfl, rfl, Or.inl rfl⟩

/-- The second gateway writes what the first one wrote. -/
theorem wire_readBack (es : List StreamEvent) : wire (readBack es) = (wire es).map inFront := by
  rw [wire_eq_writes (readBack es), readBack_eq, wire_eq_writes es]
  exact writes_again es rfl untouched_init

/-! ## Any number of gateways -/

theorem wire_iterate (n : Nat) (es : List StreamEvent) :
    wire (readBack^[n] es) = (wire es).map inFront^[n] := by
  induction n with
  | zero => simp
  | succ n ih =>
    rw [Function.iterate_succ_apply', wire_readBack, ih, List.map_map, ← Function.iterate_succ']

theorem failed_iterate (n : Nat) (payload : ErrorPayload) :
    ∃ payload', inFront^[n] (.error payload) = .error payload' ∧
      Text.len payload.message + n ≤ Text.len payload'.message := by
  induction n with
  | zero => exact ⟨payload, rfl, Nat.le_refl _⟩
  | succ n ih =>
    obtain ⟨q, hq, hlen⟩ := ih
    rw [Function.iterate_succ_apply', hq]
    refine ⟨_, rfl, ?_⟩
    have hprefix : Text.len "upstream " = 9 := by decide
    simp only [Text.len, String.utf8ByteSize_append] at hprefix hlen ⊢
    omega

/-- An error is never written again as it was, anything else always. -/
theorem iterate_inFront_iff (n : Nat) (o : OutboundEvent) :
    inFront^[n + 1] o = o ↔ failed o = false := by
  cases o with
  | error payload =>
    obtain ⟨q, hq, hlen⟩ := failed_iterate (n + 1) payload
    apply iff_of_false
    · intro hsame
      rw [hq, OutboundEvent.error.injEq] at hsame
      rw [hsame] at hlen
      omega
    · exact Bool.noConfusion
  | _ => exact iff_of_true (Function.iterate_fixed rfl (n + 1)) rfl

/-- Behind any number of gateways a client is told event by event what the one behind the
first is told, an error as one of every upstream it came through; it is told exactly the
same iff the stream has no error. -/
theorem stream_relayed (n : Nat) (es : List StreamEvent) :
    wire (readBack^[n] es) = (wire es).map inFront^[n] ∧
      (wire (readBack^[n + 1] es) = wire es ↔ ∀ o ∈ wire es, failed o = false) := by
  refine ⟨wire_iterate n es, ?_⟩
  calc wire (readBack^[n + 1] es) = wire es
      ↔ (wire es).map inFront^[n + 1] = (wire es).map id := by rw [wire_iterate, List.map_id]
    _ ↔ ∀ o ∈ wire es, inFront^[n + 1] o = o := List.map_inj_left
    _ ↔ ∀ o ∈ wire es, failed o = false :=
      forall₂_congr fun o _ => iterate_inFront_iff n o

example : wire (readBack [.error "overloaded"]) =
    [.error { ty := "api_error", message := "upstream api_error: overloaded" }] := by decide

end AgentShim.Gateway
