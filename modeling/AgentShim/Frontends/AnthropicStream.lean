import AgentShim.Core.Json
import AgentShim.Lib.Transducer

/-
  The Anthropic stream encoder

  Canonical events become the events of an Anthropic Messages stream. The stop
  of the message is kept until the response stops, so that usage which comes in
  between is part of it; a tool block is started where its call is known, and the
  stop of a call is left to the stop of its block.

  Correspondence (Rust ↔ Lean):
    `wire::{OutboundEvent, OutboundUsage,  ↔ `OutboundEvent`, `OutboundUsage`, … (of
      ContentBlockStartPayload, …}`          the payloads, the fields that vary)
    `EncoderState`                         ↔ `EncoderState` (less the id, the model and
                                             the kinds of blocks, which nothing reads)
    `done` of `AnthropicEncoderStream`     ↔ `EncoderState.done`
    `handle`                               ↔ `handle`, by event `encodeEvent`
    `poll_next` to its end                 ↔ `encode`
    `stop_reason_to_anthropic`             ↔ `stopReasonToAnthropic`
-/

namespace AgentShim

namespace AnthropicMessages

open Transducer

/-! ## The wire -/

structure OutboundUsage where
  inputTokens : Nat := 0
  outputTokens : Nat := 0
  cacheCreationInputTokens : Option Nat := none
  cacheReadInputTokens : Option Nat := none
  deriving DecidableEq, Repr

/-- Of type "message", with the role "assistant". -/
structure MessageStartPayload where
  id : String
  model : String
  usage : OutboundUsage
  deriving DecidableEq, Repr

inductive ContentBlockStartPayload
  | text (text : String)
  | toolUse (id name input : String)
  | thinking (thinking : String)
  | redactedThinking (data : String)
  deriving DecidableEq, Repr

inductive ContentBlockDelta
  | textDelta (text : String)
  | inputJsonDelta (partialJson : String)
  | thinkingDelta (thinking : String)
  | signatureDelta (signature : String)
  deriving DecidableEq, Repr

structure MessageDeltaPayload where
  stopReason : String
  stopSequence : Option String
  deriving DecidableEq, Repr

structure ErrorPayload where
  ty : String
  message : String
  deriving DecidableEq, Repr

inductive OutboundEvent
  | messageStart (message : MessageStartPayload)
  | contentBlockStart (index : Nat) (contentBlock : ContentBlockStartPayload)
  | contentBlockDelta (index : Nat) (delta : ContentBlockDelta)
  | contentBlockStop (index : Nat)
  | messageDelta (delta : MessageDeltaPayload) (usage : OutboundUsage)
  | messageStop
  | ping
  | error (error : ErrorPayload)
  deriving DecidableEq, Repr

/-! ## The encoder -/

structure EncoderState where
  inputTokens : Nat := 0
  outputTokens : Nat := 0
  cacheCreationInputTokens : Option Nat := none
  cacheReadInputTokens : Option Nat := none
  pendingStop : Option (StopReason × Option String) := none
  done : Bool := false
  deriving DecidableEq, Repr

abbrev Encode := Emitter EncoderState OutboundEvent

def stopReasonToAnthropic : StopReason → String
  | .endTurn => "end_turn"
  | .maxTokens => "max_tokens"
  | .toolUse => "tool_use"
  | .stopSequence => "stop_sequence"
  | .contentFilter => "content_filter"
  | .other _ => "end_turn"

/-- How a block other than a tool block starts. -/
def startPayload : ContentBlockKind → ContentBlockStartPayload
  | .reasoning => .thinking ""
  | .redactedReasoning => .redactedThinking ""
  | _ => .text ""

/-- A count in `u32`, with more to add; a count that is missing starts at 0. -/
def addCount (acc : Option Nat) (more : Option Nat) : Option Nat :=
  match more with
  | some v => some (Wire.addU32 (acc.getD 0) v)
  | none => acc

def addUsage (usage : Usage) (s : EncoderState) : EncoderState :=
  { s with
    inputTokens := Wire.addU32 s.inputTokens (usage.inputTokens.getD 0)
    outputTokens := Wire.addU32 s.outputTokens (usage.outputTokens.getD 0)
    cacheCreationInputTokens :=
      addCount s.cacheCreationInputTokens usage.cacheCreationInputTokens
    cacheReadInputTokens := addCount s.cacheReadInputTokens usage.cacheReadInputTokens }

/-- The final usage of the provider replaces the counts it has. -/
def overrideUsage (usage : Option Usage) (s : EncoderState) : EncoderState :=
  match usage with
  | some u =>
    { s with
      inputTokens := u.inputTokens.getD s.inputTokens
      outputTokens := u.outputTokens.getD s.outputTokens
      cacheCreationInputTokens := u.cacheCreationInputTokens.or s.cacheCreationInputTokens
      cacheReadInputTokens := u.cacheReadInputTokens.or s.cacheReadInputTokens }
  | none => s

def EncoderState.usage (s : EncoderState) : OutboundUsage :=
  { inputTokens := s.inputTokens
    outputTokens := s.outputTokens
    cacheCreationInputTokens := s.cacheCreationInputTokens
    cacheReadInputTokens := s.cacheReadInputTokens }

/-- The message is stopped where its stop was seen; the stream ends with it. -/
def stopMessage : Encode := fun s =>
  match s.pendingStop with
  | some (reason, sequence) =>
    ({ s with pendingStop := none, done := true },
      [.messageDelta { stopReason := stopReasonToAnthropic reason, stopSequence := sequence }
          s.usage,
        .messageStop])
  | none => (s, [])

def encodeEvent : StreamEvent → Encode
  | .responseStart id model _ =>
    inOrder [emit (.messageStart { id := id, model := model, usage := {} }), emit .ping]
  | .contentBlockStart index kind =>
    if kind = .toolCall then skip else emit (.contentBlockStart index (startPayload kind))
  | .toolCallStart index id name => emit (.contentBlockStart index (.toolUse id name ""))
  | .textDelta index text => emit (.contentBlockDelta index (.textDelta text))
  | .reasoningDelta index text => emit (.contentBlockDelta index (.thinkingDelta text))
  | .toolCallArgumentsDelta index fragment =>
    emit (.contentBlockDelta index (.inputJsonDelta fragment))
  | .toolCallStop _ => skip
  | .contentBlockStop index => emit (.contentBlockStop index)
  | .usageDelta usage => update (addUsage usage)
  | .messageStop reason sequence =>
    update fun s => { s with pendingStop := some (reason, sequence) }
  | .responseStop usage => andThen (update (overrideUsage usage)) stopMessage
  | .error message => emit (.error { ty := "api_error", message := message })
  | .messageStart _ | .rawProviderEvent _ _ _ => skip

def handle : Except StreamError StreamEvent → Encode
  | .ok e => encodeEvent e
  | .error e => emit (.error { ty := "api_error", message := e.display })

/-- Everything the encoder yields: it stops reading once the message is stopped. -/
def encode (items : List (Except StreamError StreamEvent)) : List OutboundEvent :=
  (untilDone EncoderState.done handle items {}).2

end AnthropicMessages

end AgentShim
