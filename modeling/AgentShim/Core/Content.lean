import AgentShim.Core.Json
import AgentShim.Lib.OrdMap

/-
  Canonical messages

  The blocks a message is made of, the messages, the tools a request offers and
  the whole responses, as every frontend and every provider reads and writes them.

  What is proved:
    1. `joinText_eq_empty_iff` — joined texts are empty iff there is none, or a
       single empty one.

  Correspondence (Rust ↔ Lean):
    `content::*`, `media::BinarySource` ↔ `ContentBlock` and its payloads
    `tool::*`                           ↔ `ToolCallBlock`, `ToolResultBlock`,
                                          `ToolDefinition`, `ToolChoice`
    `message::{Message, SystemSource,   ↔ `Message`, `SystemSource`,
      SystemInstruction}`                 `SystemInstruction`
    `response::CanonicalResponse`       ↔ `CanonicalResponse`
    `ExtensionMap`, a map over JSON     ↔ `OrdMap Json`
    `serde_json`'s and `base64`'s       ↔ `Codec`
      functions on text
    the text blocks joined by "\n", as  ↔ `texts`, `joinText`
      the encoders extract them
-/

namespace AgentShim

/-- The text formats at the edges: JSON text (`serde_json`) and base64. -/
structure Codec where
  parseJson : String → Option Json
  renderJson : Json → String
  decodeBase64 : String → Option (List UInt8)
  encodeBase64 : List UInt8 → String

/-- A codec that knows the empty object only. -/
def objectCodec : Codec where
  parseJson := fun s => if s = "{}" then some (.obj []) else none
  renderJson := fun _ => "{}"
  decodeBase64 := fun _ => none
  encodeBase64 := fun _ => ""

/-- A binary payload and where it comes from. -/
inductive BinarySource
  | url (url : String)
  | base64 (mediaType : String) (data : List UInt8)
  | bytes (mediaType : String) (data : List UInt8)
  | providerFileId (fileId : String)
  deriving DecidableEq, Repr

/-- The URL an encoder writes for an image: inline bytes as a data URI, nothing
for a file of a provider. -/
def BinarySource.imageUrl? (c : Codec) : BinarySource → Option String
  | .url link => some link
  | .base64 mediaType data => some s!"data:{mediaType};base64,{c.encodeBase64 data}"
  | .bytes mediaType data => some s!"data:{mediaType};base64,{c.encodeBase64 data}"
  | .providerFileId _ => none

structure TextBlock where
  text : String
  extensions : OrdMap Json := .empty

structure ImageBlock where
  source : BinarySource
  extensions : OrdMap Json := .empty

structure AudioBlock where
  source : BinarySource
  extensions : OrdMap Json := .empty

structure FileBlock where
  source : BinarySource
  extensions : OrdMap Json := .empty

structure ReasoningBlock where
  text : String
  extensions : OrdMap Json := .empty

structure RedactedReasoningBlock where
  data : String
  extensions : OrdMap Json := .empty

/-- A block no canonical type stands for, kept as it came. -/
structure UnsupportedBlock where
  origin : String
  raw : Json

/-- The arguments of a call: a whole JSON value, or the text read so far. -/
inductive ToolCallArguments
  | complete (value : Json)
  | streaming (data : String)

/-- The arguments as text. -/
def ToolCallArguments.toText (c : Codec) : ToolCallArguments → String
  | .complete value => c.renderJson value
  | .streaming data => data

structure ToolCallBlock where
  id : String
  name : String
  arguments : ToolCallArguments
  extensions : OrdMap Json := .empty

structure ToolResultBlock where
  toolCallId : String
  content : Json
  isError : Bool := false
  extensions : OrdMap Json := .empty

inductive ContentBlock
  | text (b : TextBlock)
  | image (b : ImageBlock)
  | audio (b : AudioBlock)
  | file (b : FileBlock)
  | toolCall (b : ToolCallBlock)
  | toolResult (b : ToolResultBlock)
  | reasoning (b : ReasoningBlock)
  | redactedReasoning (b : RedactedReasoningBlock)
  | unsupported (b : UnsupportedBlock)

namespace ContentBlock

/-- `ContentBlock::text`, a text without extensions. -/
def ofText (s : String) : ContentBlock := .text { text := s }

def text? : ContentBlock → Option String
  | .text b => some b.text
  | _ => none

def toolCall? : ContentBlock → Option ToolCallBlock
  | .toolCall b => some b
  | _ => none

def toolResult? : ContentBlock → Option ToolResultBlock
  | .toolResult b => some b
  | _ => none

/-- A call or a result. -/
def isTool (b : ContentBlock) : Bool := b.toolCall?.isSome || b.toolResult?.isSome

def isImage : ContentBlock → Bool
  | .image _ => true
  | _ => false

end ContentBlock

/-- Where a system message came from. -/
inductive SystemSource
  | anthropicSystem
  | openAiSystem
  | openAiDeveloper
  deriving DecidableEq, Repr

structure Message where
  role : MessageRole
  content : List ContentBlock
  name : Option String := none
  source : Option SystemSource := none
  extensions : OrdMap Json := .empty

namespace Message

def user (content : List ContentBlock) : Message := { role := .user, content := content }

def assistant (content : List ContentBlock) : Message := { role := .assistant, content := content }

def system (source : SystemSource) (content : List ContentBlock) : Message :=
  { role := .system, content := content, source := some source }

/-- The text blocks of a message, in order. -/
def texts (msg : Message) : List String := msg.content.filterMap ContentBlock.text?

def toolCalls (msg : Message) : List ToolCallBlock := msg.content.filterMap ContentBlock.toolCall?

def toolResults (msg : Message) : List ToolResultBlock :=
  msg.content.filterMap ContentBlock.toolResult?

end Message

/-- The calls and results of a list of messages, in order. -/
def toolBlocks (messages : List Message) : List ContentBlock :=
  messages.flatMap fun msg => msg.content.filter ContentBlock.isTool

theorem toolBlocks_append (a b : List Message) :
    toolBlocks (a ++ b) = toolBlocks a ++ toolBlocks b :=
  List.flatMap_append

theorem toolBlocks_singleton (msg : Message) :
    toolBlocks [msg] = msg.content.filter ContentBlock.isTool :=
  List.flatMap_singleton _ _

structure SystemInstruction where
  source : SystemSource
  content : List ContentBlock

structure ToolDefinition where
  name : String
  description : Option String
  inputSchema : Json
  extensions : OrdMap Json := .empty

inductive ToolChoice
  | auto
  | none
  | required
  | specific (name : String)
  deriving DecidableEq, Repr

/-- A whole response, as a client that does not stream is told it. -/
structure CanonicalResponse where
  id : String
  model : String
  content : List ContentBlock
  stopReason : StopReason
  stopSequence : Option String
  usage : Option Usage

/-- The text blocks, joined by line breaks. -/
def joinText (blocks : List ContentBlock) : String :=
  "\n".intercalate (blocks.filterMap ContentBlock.text?)

theorem intercalate_eq_empty_iff {texts : List String} :
    "\n".intercalate texts = "" ↔ texts = [] ∨ texts = [""] := by
  match texts with
  | [] => simp
  | [a] => simp
  | a :: b :: rest =>
    simp only [String.intercalate_cons_cons, reduceCtorEq, List.cons.injEq, and_false, or_self,
      iff_false]
    intro h
    have hlist := congrArg String.toList h
    simp at hlist

theorem joinText_eq_empty_iff {blocks : List ContentBlock} :
    joinText blocks = "" ↔
      blocks.filterMap ContentBlock.text? = [] ∨ blocks.filterMap ContentBlock.text? = [""] :=
  intercalate_eq_empty_iff

end AgentShim
