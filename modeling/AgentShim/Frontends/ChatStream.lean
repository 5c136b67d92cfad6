import AgentShim.Core.Json
import AgentShim.Lib.Transducer

/-
  The Chat Completions stream encoder

  Canonical events become the chunks of a Chat Completions stream. The wire has no
  blocks: text is content, a call is named once under its block index and its
  arguments follow under the same index, the message ends with a finish reason.

  Correspondence (Rust ↔ Lean):
    `wire::{ChunkOut, ChoiceOut, DeltaOut,       ↔ `chunkOut`, `DeltaOut`,
      ToolCallDeltaOut, ToolCallFunctionDeltaOut}`   `ToolCallDeltaOut`
    `wire::UsageOut`                             ↔ `UsageOut`
    `EncoderState`, `done`                       ↔ `EncoderState`
    `make_chunk`, `make_usage_chunk`             ↔ `makeChunk`, `makeUsageChunk`
    `finish_reason_from_canonical`               ↔ `finishReasonFromCanonical`
    `handle`                                     ↔ `handle`, by event `encodeEvent`
    `SystemTime::now`                            ↔ the parameter `now`
    `poll_next` to its end                       ↔ `encode`
-/

namespace AgentShim

namespace OpenAiChat

open Transducer
open Json (number member)

/-! ## The wire -/

/-- One data line: a JSON value or `[DONE]`. -/
inductive Frame
  | data (v : Json)
  | done
  deriving Repr

structure ToolCallFunctionDeltaOut where
  name : Option String := none
  arguments : Option String := none
  deriving DecidableEq, Repr

def ToolCallFunctionDeltaOut.toJson (f : ToolCallFunctionDeltaOut) : Json :=
  .obj (member "name" (f.name.map .str) ++ member "arguments" (f.arguments.map .str))

structure ToolCallDeltaOut where
  index : Nat
  id : Option String := none
  ty : Option String := none
  function : ToolCallFunctionDeltaOut
  deriving DecidableEq, Repr

def ToolCallDeltaOut.toJson (tc : ToolCallDeltaOut) : Json :=
  .obj ([("index", number tc.index)] ++ member "id" (tc.id.map .str) ++
    member "type" (tc.ty.map .str) ++ [("function", tc.function.toJson)])

structure DeltaOut where
  role : Option String := none
  content : Option String := none
  toolCalls : List ToolCallDeltaOut := []
  deriving DecidableEq, Repr

def DeltaOut.toJson (delta : DeltaOut) : Json :=
  .obj (member "role" (delta.role.map .str) ++ member "content" (delta.content.map .str) ++
    if delta.toolCalls.isEmpty then []
    else [("tool_calls", .arr (delta.toolCalls.map ToolCallDeltaOut.toJson))])

structure ChoiceOut where
  delta : DeltaOut
  finishReason : Option String
  deriving DecidableEq, Repr

/-- A choice, which is always the first; a missing finish reason is null. -/
def ChoiceOut.toJson (choice : ChoiceOut) : Json :=
  .obj [("index", number 0), ("delta", choice.delta.toJson),
    ("finish_reason", (choice.finishReason.map Json.str).getD .null)]

structure UsageOut where
  promptTokens : Nat
  completionTokens : Nat
  totalTokens : Nat
  deriving DecidableEq, Repr

def UsageOut.toJson (u : UsageOut) : Json :=
  .obj [("prompt_tokens", number u.promptTokens), ("completion_tokens", number u.completionTokens),
    ("total_tokens", number u.totalTokens)]

def chunkOut (id : String) (created : Nat) (model : String) (choices : List ChoiceOut)
    (usage : Option UsageOut) : Json :=
  .obj ([("id", .str id), ("object", .str "chat.completion.chunk"), ("created", number created),
    ("model", .str model), ("choices", .arr (choices.map ChoiceOut.toJson))] ++
    member "usage" (usage.map UsageOut.toJson))

def errorJson (message : String) : Json :=
  .obj [("error", .obj [("message", .str message)])]

/-! ## The encoder -/

structure EncoderState where
  responseId : String := ""
  model : String := ""
  created : Nat
  done : Bool := false
  deriving DecidableEq, Repr

abbrev Encode := Emitter EncoderState Frame

def makeChunk (s : EncoderState) (delta : DeltaOut) (finishReason : Option String) : Frame :=
  .data (chunkOut s.responseId s.created s.model
    [{ delta := delta, finishReason := finishReason }] none)

/-- The usage a client is told; a missing count is zero. -/
def usageOut (usage : Usage) : UsageOut :=
  { promptTokens := usage.inputTokens.getD 0
    completionTokens := usage.outputTokens.getD 0
    totalTokens := Wire.addU32 (usage.inputTokens.getD 0) (usage.outputTokens.getD 0) }

def makeUsageChunk (s : EncoderState) (usage : Usage) : Frame :=
  .data (chunkOut s.responseId s.created s.model [] (some (usageOut usage)))

def finishReasonFromCanonical : StopReason → String
  | .endTurn => "stop"
  | .maxTokens => "length"
  | .toolUse => "tool_calls"
  | .contentFilter => "content_filter"
  | .stopSequence => "stop"
  | .other _ => "stop"

/-- Puts out one chunk with the header of the response. -/
def sendDelta (delta : DeltaOut) (finishReason : Option String) : Encode := fun s =>
  (s, [makeChunk s delta finishReason])

def startResponse (clockOverride : Option Nat) (id model : String) (createdAtUnix : Nat) :
    Encode := fun s =>
  let s := { s with
    responseId := id
    model := model
    created := if clockOverride.isNone then createdAtUnix else s.created }
  sendDelta { role := some "assistant" } none s

def finish : Encode := fun s => ({ s with done := true }, [.done])

def sendUsage (usage : Usage) : Encode := fun s => (s, [makeUsageChunk s usage])

def encodeEvent (clockOverride : Option Nat) : StreamEvent → Encode
  | .responseStart id model createdAtUnix => startResponse clockOverride id model createdAtUnix
  | .toolCallStart index id name =>
    sendDelta { toolCalls := [{ index := index, id := some id, ty := some "function",
                                function := { name := some name, arguments := some "" } }] } none
  | .textDelta _ text => sendDelta { content := some text } none
  | .toolCallArgumentsDelta index fragment =>
    sendDelta { toolCalls := [{ index := index, function := { arguments := some fragment } }] }
      none
  | .messageStop reason _ => sendDelta {} (some (finishReasonFromCanonical reason))
  | .responseStop usage => andThen (ifSome usage sendUsage) finish
  | .error message => emit (.data (errorJson message))
  | .messageStart _ | .contentBlockStart _ _ | .reasoningDelta _ _ | .toolCallStop _
  | .contentBlockStop _ | .usageDelta _ | .rawProviderEvent _ _ _ => skip

def handle (clockOverride : Option Nat) : Except StreamError StreamEvent → Encode
  | .ok e => encodeEvent clockOverride e
  | .error e => andThen (emit (.data (errorJson e.display))) finish

/-- Everything the encoder yields: it stops reading once `[DONE]` is out. -/
def encode (clockOverride : Option Nat) (now : Nat)
    (items : List (Except StreamError StreamEvent)) : List Frame :=
  (untilDone EncoderState.done (handle clockOverride) items
    { created := clockOverride.getD now }).2

end OpenAiChat

end AgentShim
