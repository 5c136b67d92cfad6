import AgentShim.Core.Json
import AgentShim.Lib.Buffers
import AgentShim.Lib.Transducer

/-
  The Responses stream encoder

  Canonical events become the events of a Responses stream. Every text, reasoning
  and tool block is an output item under an index of its own, taken where the item
  is added; what has come of an item is kept under that index and repeated when the
  item is done.

  Correspondence (Rust ↔ Lean):
    `wire::{OutputItem, OutputContent}`    ↔ `OutputItem`, `OutputContent`; a text has
                                             no annotations, a reasoning no summary
    `wire::{OutputItemAdded, …}`           ↔ the data of an event: `itemAdded`, …
    `EncoderState`                         ↔ `EncoderState`; the hash maps are `AList`s
    `clock_override`                       ↔ `clockOverride`
    `handle`                               ↔ `handle`, by event `encodeEvent`
    `FrontendError::Encode`                ↔ `.error`, with its message
    `poll_next` to its end                 ↔ `encode`
    `status_from_stop_reason`              ↔ `statusFromStopReason`
-/

namespace AgentShim

namespace OpenAiResponses

open Buffers Transducer
open Json (number member)

/-! ## The wire -/

inductive OutputContent
  | outputText (text : String)
  | reasoning (text : String)
  deriving DecidableEq, Repr

def OutputContent.toJson : OutputContent → Json
  | outputText s => .obj [("type", .str "output_text"), ("text", .str s)]
  | reasoning s => .obj [("type", .str "reasoning"), ("text", .str s)]

inductive OutputItem
  | message (id status : String) (content : List OutputContent)
  | functionCall (id callId name arguments status : String)
  | reasoning (id status : String) (content : List OutputContent)
  deriving DecidableEq, Repr

def contentsToJson (content : List OutputContent) : Json :=
  .arr (content.map OutputContent.toJson)

def OutputItem.toJson : OutputItem → Json
  | message id status content =>
    .obj [("type", .str "message"), ("id", .str id), ("role", .str "assistant"),
      ("status", .str status), ("content", contentsToJson content)]
  | functionCall id callId name arguments status =>
    .obj [("type", .str "function_call"), ("id", .str id), ("call_id", .str callId),
      ("name", .str name), ("arguments", .str arguments), ("status", .str status)]
  | reasoning id status content =>
    .obj [("type", .str "reasoning"), ("id", .str id), ("status", .str status),
      ("content", contentsToJson content)]

/-- The name of an event and its data, or the message of an error. -/
abbrev Chunk := Except String (String × Json)

def itemAdded (outputIndex : Nat) (item : OutputItem) : Chunk :=
  .ok ("response.output_item.added",
    .obj [("output_index", number outputIndex), ("item", item.toJson)])

def itemDone (outputIndex : Nat) (item : OutputItem) : Chunk :=
  .ok ("response.output_item.done",
    .obj [("output_index", number outputIndex), ("item", item.toJson)])

/-- A content part, which is always the first of its item. -/
def contentPart (event itemId : String) (outputIndex : Nat) (part : OutputContent) : Chunk :=
  .ok (event,
    .obj [("item_id", .str itemId), ("output_index", number outputIndex),
      ("content_index", number 0), ("part", part.toJson)])

def textDelta (itemId : String) (outputIndex : Nat) (delta : String) : Chunk :=
  .ok ("response.output_text.delta",
    .obj [("item_id", .str itemId), ("output_index", number outputIndex),
      ("content_index", number 0), ("delta", .str delta)])

def textDone (itemId : String) (outputIndex : Nat) (text : String) : Chunk :=
  .ok ("response.output_text.done",
    .obj [("item_id", .str itemId), ("output_index", number outputIndex),
      ("content_index", number 0), ("text", .str text)])

/-- The data of an event that carries one text of an item. -/
def itemText (event key itemId : String) (outputIndex : Nat) (text : String) : Chunk :=
  .ok (event,
    .obj [("item_id", .str itemId), ("output_index", number outputIndex), (key, .str text)])

def functionCallArgsDelta : String → Nat → String → Chunk :=
  itemText "response.function_call_arguments.delta" "delta"

def functionCallArgsDone : String → Nat → String → Chunk :=
  itemText "response.function_call_arguments.done" "arguments"

def reasoningDelta : String → Nat → String → Chunk :=
  itemText "response.reasoning.delta" "delta"

def reasoningDone : String → Nat → String → Chunk :=
  itemText "response.reasoning.done" "text"

structure UsageOut where
  inputTokens : Nat
  outputTokens : Nat
  deriving DecidableEq, Repr

/-- With the total, in `u32`. -/
def UsageOut.toJson (u : UsageOut) : Json :=
  .obj [("input_tokens", number u.inputTokens), ("output_tokens", number u.outputTokens),
    ("total_tokens", number (Wire.addU32 u.inputTokens u.outputTokens))]

/-- The response as a whole, without its output. -/
def responseObject (id status model : String) (createdAt : Nat) (usage : Option UsageOut) : Json :=
  .obj ([("id", .str id), ("object", .str "response"), ("status", .str status),
    ("model", .str model), ("created_at", number createdAt), ("output", .arr [])] ++
    member "usage" (usage.map UsageOut.toJson))

def errorChunk (message : String) : Chunk :=
  .ok ("error",
    .obj [("type", .str "error"), ("code", .str "server_error"), ("message", .str message)])

/-! ## The encoder -/

structure EncoderState where
  responseId : String := ""
  model : String := ""
  createdAt : Nat := 0
  outputIndex : Nat := 0
  textBuf : Buffer := ∅
  reasoningBuf : Buffer := ∅
  toolArgsBuf : Buffer := ∅
  itemIds : Buffer := ∅
  toolMeta : AList fun _ : Nat => String × String := ∅
  canonicalToOutput : AList fun _ : Nat => Nat := ∅
  finalStatus : Option String := none
  inputTokens : Nat := 0
  outputTokens : Nat := 0
  done : Bool := false

abbrev Encode := Emitter EncoderState Chunk

def statusFromStopReason : StopReason → String
  | .contentFilter => "incomplete"
  | _ => "completed"

def EncoderState.itemId (s : EncoderState) (outputIndex : Nat) : String :=
  (s.itemIds.lookup outputIndex).getD ""

/-- Takes the next output index for a block. -/
def EncoderState.take (s : EncoderState) (index : Nat) (itemId : String) : EncoderState :=
  { s with
    outputIndex := Wire.addU32 s.outputIndex 1
    canonicalToOutput := s.canonicalToOutput.insert index s.outputIndex
    itemIds := s.itemIds.insert s.outputIndex itemId }

def startResponse (clockOverride : Option Nat) (id model : String) (createdAtUnix : Nat) :
    Encode := fun s =>
  let createdAt := if clockOverride.isNone then createdAtUnix else s.createdAt
  ({ s with responseId := "resp_" ++ id, model := model, createdAt := createdAt },
    [.ok ("response.created",
      responseObject ("resp_" ++ id) "in_progress" model createdAt none)])

def startText (index : Nat) : Encode := fun s =>
  let oi := s.outputIndex
  let itemId := "msg_" ++ toString oi
  let s := s.take index itemId
  ({ s with textBuf := s.textBuf.insert oi "" },
    [itemAdded oi (.message itemId "in_progress" []),
      contentPart "response.content_part.added" itemId oi (.outputText "")])

def startReasoning (index : Nat) : Encode := fun s =>
  let oi := s.outputIndex
  let itemId := "rs_" ++ toString oi
  let s := s.take index itemId
  ({ s with reasoningBuf := s.reasoningBuf.insert oi "" },
    [itemAdded oi (.reasoning itemId "in_progress" [])])

def startCall (index : Nat) (id name : String) : Encode := fun s =>
  let oi := s.outputIndex
  let itemId := "fc_" ++ toString oi
  let s := s.take index itemId
  ({ s with
      toolArgsBuf := s.toolArgsBuf.insert oi ""
      toolMeta := s.toolMeta.insert oi (id, name) },
    [itemAdded oi (.functionCall itemId id name "" "in_progress")])

/-- What is done with the output index of a block; a block without one is an error. -/
def withOutput (what : String) (index : Nat) (f : Nat → Encode) : Encode := fun s =>
  match s.canonicalToOutput.lookup index with
  | some oi => f oi s
  | none =>
    (s, [.error (what ++ " for unknown content block index: " ++ toString index)])

def encodeText (index : Nat) (text : String) : Encode :=
  withOutput "text delta" index fun oi s =>
    ({ s with textBuf := pushText s.textBuf oi text }, [textDelta (s.itemId oi) oi text])

def encodeReasoning (index : Nat) (text : String) : Encode :=
  withOutput "reasoning delta" index fun oi s =>
    ({ s with reasoningBuf := pushText s.reasoningBuf oi text },
      [reasoningDelta (s.itemId oi) oi text])

def encodeArguments (index : Nat) (fragment : String) : Encode :=
  withOutput "tool call argument delta" index fun oi s =>
    ({ s with toolArgsBuf := pushText s.toolArgsBuf oi fragment },
      [functionCallArgsDelta (s.itemId oi) oi fragment])

def finishText (oi : Nat) (itemId text : String) : List Chunk :=
  [textDone itemId oi text,
    contentPart "response.content_part.done" itemId oi (.outputText text),
    itemDone oi (.message itemId "completed" [.outputText text])]

def finishReasoning (oi : Nat) (itemId text : String) : List Chunk :=
  [reasoningDone itemId oi text, itemDone oi (.reasoning itemId "completed" [.reasoning text])]

/-- The item of a text or a reasoning is done with its block. -/
def stopBlock (index : Nat) : Encode := fun s =>
  match s.canonicalToOutput.lookup index with
  | none => (s, [])
  | some oi =>
    let s := { s with canonicalToOutput := s.canonicalToOutput.erase index }
    match s.textBuf.lookup oi with
    | some text =>
      ({ s with textBuf := s.textBuf.erase oi }, finishText oi (s.itemId oi) text)
    | none =>
      match s.reasoningBuf.lookup oi with
      | some text =>
        ({ s with reasoningBuf := s.reasoningBuf.erase oi },
          finishReasoning oi (s.itemId oi) text)
      | none => (s, [])

/-- The item of a call is done with the call. -/
def stopCall (index : Nat) : Encode :=
  withOutput "tool call stop" index fun oi s =>
    let arguments := (s.toolArgsBuf.lookup oi).getD ""
    let call := (s.toolMeta.lookup oi).getD ("", "")
    ({ s with toolArgsBuf := s.toolArgsBuf.erase oi, toolMeta := s.toolMeta.erase oi },
      [functionCallArgsDone (s.itemId oi) oi arguments,
        itemDone oi (.functionCall (s.itemId oi) call.1 call.2 arguments "completed")])

def addUsage (usage : Usage) (s : EncoderState) : EncoderState :=
  { s with
    inputTokens := Wire.addU32 s.inputTokens (usage.inputTokens.getD 0)
    outputTokens := Wire.addU32 s.outputTokens (usage.outputTokens.getD 0) }

/-- The final usage of the provider replaces the counts it has. -/
def overrideUsage (usage : Option Usage) (s : EncoderState) : EncoderState :=
  match usage with
  | some u =>
    { s with
      inputTokens := u.inputTokens.getD s.inputTokens
      outputTokens := u.outputTokens.getD s.outputTokens }
  | none => s

def EncoderState.usage (s : EncoderState) : UsageOut :=
  { inputTokens := s.inputTokens, outputTokens := s.outputTokens }

def completeResponse : Encode := fun s =>
  ({ s with done := true },
    [.ok ("response.completed",
      responseObject s.responseId (s.finalStatus.getD "completed") s.model s.createdAt
        (some s.usage))])

def encodeEvent (clockOverride : Option Nat) : StreamEvent → Encode
  | .responseStart id model createdAtUnix => startResponse clockOverride id model createdAtUnix
  | .contentBlockStart index kind =>
    if kind = .text then startText index
    else if kind = .reasoning then startReasoning index
    else skip
  | .textDelta index text => encodeText index text
  | .reasoningDelta index text => encodeReasoning index text
  | .toolCallStart index id name => startCall index id name
  | .toolCallArgumentsDelta index fragment => encodeArguments index fragment
  | .contentBlockStop index => stopBlock index
  | .toolCallStop index => stopCall index
  | .usageDelta usage => update (addUsage usage)
  | .messageStop reason _ =>
    update fun s => { s with finalStatus := some (statusFromStopReason reason) }
  | .responseStop usage => andThen (update (overrideUsage usage)) completeResponse
  | .error message => emit (errorChunk message)
  | .messageStart _ | .rawProviderEvent _ _ _ => skip

def handle (clockOverride : Option Nat) : Except StreamError StreamEvent → Encode
  | .ok e => encodeEvent clockOverride e
  | .error e => emit (errorChunk e.display)

/-- Everything the encoder yields: it stops reading once the response is complete. -/
def encode (clockOverride : Option Nat) (items : List (Except StreamError StreamEvent)) :
    List Chunk :=
  (untilDone EncoderState.done (handle clockOverride) items
    { createdAt := clockOverride.getD 0 }).2

end OpenAiResponses

end AgentShim
