import AgentShim.Providers.ChatFragments
import Mathlib.Data.Finset.Basic

/-
  The Anthropic stream parser

  Events of an Anthropic Messages stream map to canonical events one by one. The
  parser keeps the stop reason and the usage for the end and the indices of open
  tool blocks; at the end of the source it puts out nothing.

  Correspondence (Rust ↔ Lean):
    `wire::{IncomingEvent, IncomingUsage,   ↔ `IncomingEvent`, `IncomingUsage`,
      IncomingContentBlockStart, …}`          `IncomingContentBlockStart`, … (what
                                              serde reads off the data)
    `StreamState`                           ↔ `StreamState`
    `parse_chunk`, its branches             ↔ `parseEvent`, `startMessage`,
                                              `startBlock`, `parseDelta`, `stopBlock`,
                                              `parseMessageDelta`, `stopMessage`
    `map_usage`, `merge_usage`              ↔ `mapUsage`, `mergeUsage`
    `stop_reason_from_anthropic`            ↔ `stopReasonFromAnthropic`
    the closure of `parse_stream`           ↔ `handle`
    `parse_stream` to its end               ↔ `poll`
-/

namespace AgentShim

namespace AnthropicSse

open Transducer ChatWire

/-! ## The wire -/

structure IncomingUsage where
  inputTokens : Option Nat := none
  outputTokens : Option Nat := none
  cacheCreationInputTokens : Option Nat := none
  cacheReadInputTokens : Option Nat := none
  deriving DecidableEq, Repr

structure IncomingMessageStart where
  id : String
  model : String := ""
  usage : Option IncomingUsage := none
  deriving DecidableEq, Repr

inductive IncomingContentBlockStart
  | text (text : String)
  | toolUse (id name : String)
  | thinking (thinking : String)
  | redactedThinking
  deriving DecidableEq, Repr

inductive IncomingContentBlockDelta
  | textDelta (text : String)
  | inputJsonDelta (partialJson : String)
  | thinkingDelta (thinking : String)
  | signatureDelta
  deriving DecidableEq, Repr

structure IncomingMessageDelta where
  stopReason : Option String := none
  stopSequence : Option String := none
  deriving DecidableEq, Repr

structure IncomingErrorPayload where
  ty : String := ""
  message : String := ""
  deriving DecidableEq, Repr

inductive IncomingEvent
  | messageStart (message : IncomingMessageStart)
  | contentBlockStart (index : Nat) (contentBlock : IncomingContentBlockStart)
  | contentBlockDelta (index : Nat) (delta : IncomingContentBlockDelta)
  | contentBlockStop (index : Nat)
  | messageDelta (delta : IncomingMessageDelta) (usage : Option IncomingUsage)
  | messageStop
  | ping
  | error (error : IncomingErrorPayload)
  deriving DecidableEq, Repr

/-! ## The parser -/

structure StreamState where
  stopReason : Option StopReason := none
  stopSequence : Option String := none
  accumulatedUsage : Usage := {}
  openToolIndices : Finset Nat := ∅
  completed : Bool := false

abbrev Parse := Emitter StreamState StreamEvent

def stopReasonFromAnthropic (s : String) : StopReason :=
  match s with
  | "end_turn" => .endTurn
  | "max_tokens" => .maxTokens
  | "tool_use" => .toolUse
  | "stop_sequence" => .stopSequence
  | "content_filter" => .contentFilter
  | _ => .other s

def mapUsage (u : IncomingUsage) : Usage :=
  { inputTokens := u.inputTokens
    outputTokens := u.outputTokens
    cacheCreationInputTokens := u.cacheCreationInputTokens
    cacheReadInputTokens := u.cacheReadInputTokens }

/-- The larger of a count so far and a new one. -/
def mergeCount (acc delta : Option Nat) : Option Nat :=
  match delta with
  | some v => some (max (acc.getD 0) v)
  | none => acc

def mergeUsage (acc delta : Usage) : Usage :=
  { acc with
    inputTokens := mergeCount acc.inputTokens delta.inputTokens
    outputTokens := mergeCount acc.outputTokens delta.outputTokens
    cacheCreationInputTokens :=
      mergeCount acc.cacheCreationInputTokens delta.cacheCreationInputTokens
    cacheReadInputTokens := mergeCount acc.cacheReadInputTokens delta.cacheReadInputTokens }

/-- Adds up the usage of an event, if it carries any. -/
def parseUsage (usage : Option IncomingUsage) : Parse :=
  ifSome usage fun u => fun s =>
    ({ s with accumulatedUsage := mergeUsage s.accumulatedUsage (mapUsage u) },
      [.usageDelta (mapUsage u)])

def startMessage (message : IncomingMessageStart) : Parse :=
  inOrder [
    emit (.responseStart message.id message.model 0),
    emit (.messageStart .assistant),
    parseUsage message.usage]

def startBlock (index : Nat) : IncomingContentBlockStart → Parse
  | .text text =>
    andThen (emit (.contentBlockStart index .text))
      (if text = "" then skip else emit (.textDelta index text))
  | .toolUse id name => fun s =>
    ({ s with openToolIndices := insert index s.openToolIndices },
      [.contentBlockStart index .toolCall, .toolCallStart index id name])
  | .thinking thinking =>
    andThen (emit (.contentBlockStart index .reasoning))
      (if thinking = "" then skip else emit (.reasoningDelta index thinking))
  | .redactedThinking => emit (.contentBlockStart index .redactedReasoning)

def parseDelta (index : Nat) : IncomingContentBlockDelta → Parse
  | .textDelta text => emit (.textDelta index text)
  | .inputJsonDelta partialJson => emit (.toolCallArgumentsDelta index partialJson)
  | .thinkingDelta thinking => emit (.reasoningDelta index thinking)
  | .signatureDelta => skip

def stopBlock (index : Nat) : Parse := fun s =>
  if index ∈ s.openToolIndices then
    ({ s with openToolIndices := s.openToolIndices.erase index },
      [.toolCallStop index, .contentBlockStop index])
  else (s, [.contentBlockStop index])

def parseMessageDelta (delta : IncomingMessageDelta) (usage : Option IncomingUsage) : Parse :=
  andThen
    (update fun s =>
      { s with
        stopReason := (delta.stopReason.map stopReasonFromAnthropic).or s.stopReason
        stopSequence := delta.stopSequence.or s.stopSequence })
    (parseUsage usage)

def stopMessage : Parse := fun s =>
  ({ s with stopReason := none, stopSequence := none, accumulatedUsage := {}, completed := true },
    [.messageStop (s.stopReason.getD .endTurn) s.stopSequence,
      .responseStop (some s.accumulatedUsage)])

def parseEvent : IncomingEvent → Parse
  | .messageStart message => startMessage message
  | .contentBlockStart index contentBlock => startBlock index contentBlock
  | .contentBlockDelta index delta => parseDelta index delta
  | .contentBlockStop index => stopBlock index
  | .messageDelta delta usage => parseMessageDelta delta usage
  | .messageStop => stopMessage
  | .ping => skip
  | .error error => emit (.error ("upstream " ++ error.ty ++ ": " ++ error.message))

/-! ## The stream of items -/

/-- What the event source yields: an event, blank or as serde reads it, or a
transport error. -/
inductive SourceItem
  | blank
  | event (data : Except String IncomingEvent)
  | transportError (message : String)

def handle : SourceItem → Emitter StreamState Item
  | .blank => skip
  | .event (.ok e) => okItems (parseEvent e)
  | .event (.error e) => emit (.error (.decode ("anthropic SSE json parse: " ++ e)))
  | .transportError message => fun s =>
    if s.completed then (s, []) else (s, [.error (.upstream message)])

/-- Everything the parser yields: the source's end adds nothing. -/
def poll (items : List SourceItem) : List Item := (forEach handle items {}).2

/-- The canonical events of a stream that is cut after `wire`, by the end of the
source or by a transport error. -/
def events (wire : List IncomingEvent) (cause : Option String) : List StreamEvent :=
  okEvents (poll (wire.map (fun e => .event (.ok e)) ++ cause.toList.map .transportError))

theorem okEvents_append (xs ys : List Item) : okEvents (xs ++ ys) = okEvents xs ++ okEvents ys :=
  List.filterMap_append

/-- A transport error adds no event. -/
theorem events_eq (wire : List IncomingEvent) (cause : Option String) :
    events wire cause = (forEach parseEvent wire {}).2 := by
  have hall : forEach handle (wire.map fun e => .event (.ok e)) =
      okItems (forEach parseEvent wire) := by
    rw [forEach_map]
    exact forEach_okItems _ _
  have hcause : ∀ s, okEvents (forEach handle (cause.toList.map .transportError) s).2 = [] := by
    intro s
    cases cause with
    | none => rfl
    | some message =>
      simp only [Option.toList_some, List.map_singleton, forEach_singleton, handle]
      split <;> rfl
  rw [events, poll, forEach_append, hall, andThen_apply, okEvents_append, hcause]
  simp only [okItems, okEvents_map_ok, List.append_nil]

end AnthropicSse

end AgentShim
