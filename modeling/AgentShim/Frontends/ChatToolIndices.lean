import AgentShim.Frontends.ChatStream
import AgentShim.Stream.Calls

/-
  The indices of tool calls in a Chat Completions stream

  A client of the stream keeps its tool calls in an array: a call is opened under an
  index and its arguments are added under the same index. The encoder writes the
  block index of the canonical stream there, which all kinds of block share.

  What is proved:
    1. `encode_named`, `encode_argued` — the indices a client reads are the block
       indices, of the calls and of the argument deltas.
    2. `denseIndices_iff` — they number the calls iff the called blocks are under
       0, 1, 2, … in the order of their calls.
-/

namespace AgentShim

namespace OpenAiChat

open Transducer
open Json (number)

/-! What a client reads. -/

/-- The items of `tool_calls` in a data line. -/
def toolCallItems : Frame → List Json
  | .data v =>
    ((v.getArray "choices").getD []).flatMap fun choice =>
      ((choice.get "delta").bind fun delta => delta.getArray "tool_calls").getD []
  | .done => []

/-- The indices under which a line opens calls: its items with an id. -/
def namedIndices (frame : Frame) : List Json :=
  (toolCallItems frame).filterMap fun tc => (tc.get "id").bind fun _ => tc.get "index"

/-- The indices under which a line adds arguments to a call. -/
def argumentIndices (frame : Frame) : List Json :=
  (toolCallItems frame).filterMap fun tc =>
    if (tc.get "id").isNone then tc.get "index" else none

/-- The block of an argument delta. -/
def argued : StreamEvent → Option Nat
  | .toolCallArgumentsDelta index _ => some index
  | _ => none

def arguedIndices (es : List StreamEvent) : List Nat := es.filterMap argued

/-- The calls are opened under 0, 1, 2, … and every argument delta is under the index of the
    call of its block. -/
structure DenseIndices (es : List StreamEvent) (frames : List Frame) : Prop where
  named : frames.flatMap namedIndices = (List.range (calledIndices es).length).map number
  deltas : (frames.flatMap argumentIndices).length = (arguedIndices es).length
  arguments : ∀ d i n : Nat, (arguedIndices es)[d]? = some i → (calledIndices es)[n]? = some i →
    (frames.flatMap argumentIndices)[d]? = some (number n)

/-! What the encoder writes. -/

variable {clock : Option Nat} {es : List StreamEvent}

theorem named_encodeEvent (e : StreamEvent) (s : EncoderState) :
    (encodeEvent clock e s).2.flatMap namedIndices = e.called.toList.map number := by
  cases e with
  | responseStop usage => cases usage <;> rfl
  | _ => rfl

theorem argued_encodeEvent (e : StreamEvent) (s : EncoderState) :
    (encodeEvent clock e s).2.flatMap argumentIndices = (argued e).toList.map number := by
  cases e with
  | responseStop usage => cases usage <;> rfl
  | _ => rfl

theorem encodeEvent_done (e : StreamEvent) (s : EncoderState) :
    (encodeEvent clock e s).1.done = (s.done || e.isResponseStop) := by
  cases e with
  | responseStop usage => cases usage <;> simp [encodeEvent, finish, andThen, sendUsage, skip,
      StreamEvent.isResponseStop]
  | _ => simp [encodeEvent, startResponse, sendDelta, emit, skip, StreamEvent.isResponseStop]

/-- After the response is stopped nothing of the message comes. -/
theorem afterResponseStop (hvalid : LifecycleValid es) :
    es.Pairwise fun e e' => e.isResponseStop = true → e'.inMessage = false := by
  obtain ⟨m, hexec, -⟩ := lifecycleValid_iff.mp hvalid
  generalize ({} : Envelope) = m₀ at hexec
  clear hvalid
  induction es generalizing m₀ with
  | nil => exact List.Pairwise.nil
  | cons e es ih =>
    obtain ⟨hallow, hrest⟩ := Envelope.exec_cons_iff.mp hexec
    refine List.pairwise_cons.mpr ⟨?_, ih (m₀.after e) hrest⟩
    intro e' he' hstop
    cases e with
    | responseStop usage =>
      exact (Envelope.not_inMessage_of_exec (Envelope.stopped_after hallow.1) hrest).1 e' he'
    | _ => cases hstop

/-- What is read off the chunks, where only the message's own events owe something. -/
theorem flatMap_encode {β : Type} {read : Frame → List β} {owed : StreamEvent → List β}
    (hvalid : LifecycleValid es) (now : Nat)
    (h : ∀ e s, (encodeEvent clock e s).2.flatMap read = owed e)
    (hout : ∀ e, e.inMessage = false → owed e = []) :
    (encode clock now (es.map .ok)).flatMap read = es.flatMap owed := by
  have hrest : es.Pairwise fun e e' => e.isResponseStop = true → owed e' = [] := by
    apply (afterResponseStop hvalid).imp
    intro e e' hquiet hstop
    exact hout e' (hquiet hstop)
  rw [encode, untilDone_map]
  exact flatMap_untilDone (fun e _ s => h e s) (fun e _ s => encodeEvent_done e s) hrest rfl

theorem encode_named (hvalid : LifecycleValid es) (now : Nat) :
    (encode clock now (es.map .ok)).flatMap namedIndices = (calledIndices es).map number := by
  rw [flatMap_encode hvalid now named_encodeEvent, calledIndices, List.map_filterMap,
    List.filterMap_eq_flatMap_toList]
  · apply List.flatMap_congr
    intro e _
    cases e.called <;> rfl
  · intro e hout
    cases e <;> first | rfl | cases hout

theorem encode_argued (hvalid : LifecycleValid es) (now : Nat) :
    (encode clock now (es.map .ok)).flatMap argumentIndices = (arguedIndices es).map number := by
  rw [flatMap_encode hvalid now argued_encodeEvent, arguedIndices, List.map_filterMap,
    List.filterMap_eq_flatMap_toList]
  · apply List.flatMap_congr
    intro e _
    cases argued e <;> rfl
  · intro e hout
    cases e <;> first | rfl | cases hout

theorem number_injective : Function.Injective number := by
  intro a b h
  exact Int.ofNat.inj (JsonNumber.int.inj (Json.num.inj h))

/-- **The indices of the calls.** The encoder numbers the calls of a lifecycle-valid stream iff
    the called blocks are under 0, 1, 2, … in the order of their calls. -/
theorem denseIndices_iff (clockOverride : Option Nat) (now : Nat) (hvalid : LifecycleValid es) :
    DenseIndices es (encode clockOverride now (es.map .ok)) ↔
      calledIndices es = List.range (calledIndices es).length := by
  have hnamed : (encode clockOverride now (es.map .ok)).flatMap namedIndices = _ :=
    encode_named hvalid now
  have hargued : (encode clockOverride now (es.map .ok)).flatMap argumentIndices = _ :=
    encode_argued hvalid now
  constructor
  · intro h
    have hsame := h.named
    rw [hnamed] at hsame
    exact List.map_injective_iff.mpr number_injective hsame
  · intro hdense
    refine ⟨by rw [hnamed, ← hdense], by rw [hargued, List.length_map], ?_⟩
    intro d i n hd hn
    have hi : i = n := by
      rw [hdense] at hn
      obtain ⟨_, hget⟩ := List.getElem?_eq_some_iff.mp hn
      rw [← hget, List.getElem_range]
    rw [hargued, List.getElem?_map, hd, hi]
    rfl

/-- Two calls, and a text after them. -/
def callsFirst : List StreamEvent :=
  [.responseStart "1" "gpt" 0, .messageStart .assistant, .contentBlockStart 0 .toolCall,
    .toolCallStart 0 "call_1" "search", .contentBlockStart 1 .toolCall,
    .toolCallStart 1 "call_2" "read", .toolCallArgumentsDelta 1 "{}",
    .toolCallArgumentsDelta 0 "{}", .toolCallStop 0, .contentBlockStop 0, .toolCallStop 1,
    .contentBlockStop 1, .contentBlockStart 2 .text, .textDelta 2 "Wait.", .contentBlockStop 2,
    .messageStop .toolUse none, .responseStop none]

theorem denseIndices_callsFirst :
    DenseIndices callsFirst (encode none 0 (callsFirst.map .ok)) :=
  (denseIndices_iff none 0 (by decide)).mpr (by decide)

/-- A text, and a call after it. -/
def textFirst : List StreamEvent :=
  [.responseStart "1" "gpt" 0, .messageStart .assistant, .contentBlockStart 0 .text,
    .textDelta 0 "Wait.", .contentBlockStop 0, .contentBlockStart 1 .toolCall,
    .toolCallStart 1 "call_1" "search", .toolCallArgumentsDelta 1 "{}", .toolCallStop 1,
    .contentBlockStop 1, .messageStop .toolUse none, .responseStop none]

/-- Its one call is opened under 1. -/
theorem textFirst_shifted :
    LifecycleValid textFirst ∧
      (encode none 0 (textFirst.map .ok)).flatMap namedIndices = [number 1] ∧
      (encode none 0 (textFirst.map .ok)).flatMap argumentIndices = [number 1] ∧
      ¬ DenseIndices textFirst (encode none 0 (textFirst.map .ok)) := by
  have hnamed : (encode none 0 (textFirst.map .ok)).flatMap namedIndices = [number 1] := rfl
  refine ⟨by decide, hnamed, rfl, ?_⟩
  intro h
  have hsame := h.named
  rw [hnamed] at hsame
  cases hsame

end OpenAiChat

end AgentShim
