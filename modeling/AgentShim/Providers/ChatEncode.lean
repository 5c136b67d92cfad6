import AgentShim.Core.Content
import AgentShim.Providers.Capabilities

/-
  Encoding a request for a Chat upstream

  The session instructions come first, then each message of the conversation: a
  message with tool results as one tool message per result and, unless it is a
  tool message itself, what else it holds after them; a message with tool calls
  as one message with its text; any other as one message with its content.

  Correspondence (Rust ↔ Lean):
    `wire::{ChatBody, MsgOut, ToolCallOut,    ↔ the same names; `type` members
      …}`                                       that are always "function" are
                                                left out
    `canonical_to_chat::build`                ↔ `build`; one round of its loop
                                                over the messages ↔ `messageOuts`
    `extract_text_content`                    ↔ `joinText`
    `build_text_content_value`,               ↔ `buildTextContentValue`,
      `build_content_value`                     `buildContentValue`
    `extract_text_from_tool_result`           ↔ `toolResultText`
-/

namespace AgentShim.ChatEncode

open AgentShim.Providers

/-! ## The outbound body -/

structure FunctionCallOut where
  name : String
  arguments : String
  deriving DecidableEq, Repr

structure ToolCallOut where
  id : String
  function : FunctionCallOut
  deriving DecidableEq, Repr

structure MsgOut where
  role : String
  content : Option Json := none
  name : Option String := none
  toolCalls : Option (List ToolCallOut) := none
  toolCallId : Option String := none

structure FunctionDefOut where
  name : String
  description : Option String
  parameters : Json

inductive ToolChoiceOut
  | mode (s : String)
  | function (name : String)
  deriving DecidableEq, Repr

inductive ResponseFormatOut
  | text
  | jsonObject
  | jsonSchema (name : String) (schema : Json) (strict : Bool)

structure ChatBody where
  model : String
  messages : List MsgOut
  maxTokens : Option Nat
  temperature : Option F64
  topP : Option F64
  presencePenalty : Option F64
  frequencyPenalty : Option F64
  stop : List String
  seed : Option Nat
  responseFormat : Option ResponseFormatOut
  tools : List FunctionDefOut
  toolChoice : Option ToolChoiceOut
  stream : Bool
  includeUsage : Option Bool
  reasoningEffort : Option String

/-! ## Contents -/

variable (c : Codec)

/-- The text of a message, nothing where it is empty. -/
def buildTextContentValue (blocks : List ContentBlock) : Option Json :=
  if Text.isEmpty (joinText blocks) then none else some (.str (joinText blocks))

def contentPart? : ContentBlock → Option Json
  | .text b => some (.obj [("type", .str "text"), ("text", .str b.text)])
  | .image b => (b.source.imageUrl? c).map fun url =>
      .obj [("type", .str "image_url"), ("image_url", .obj [("url", .str url)])]
  | _ => none

/-- A single text as a string, anything else as parts; nothing without parts. -/
def buildContentValue (blocks : List ContentBlock) : Option Json :=
  match blocks with
  | [.text b] => some (.str b.text)
  | _ =>
    let parts := blocks.filterMap (contentPart? c)
    if parts.isEmpty then none else some (.arr parts)

/-- One entry of an array of results. -/
def resultEntryText (item : Json) : String :=
  match item.getStr "text" with
  | some text => text
  | none =>
    match item with
    | .str s => s
    | other => c.renderJson other

def toolResultText : Json → String
  | .str s => s
  | .arr entries => "\n".intercalate (entries.map (resultEntryText c))
  | .null => ""
  | other => c.renderJson other

/-! ## Messages -/

def systemRole : Option SystemSource → String
  | some .openAiDeveloper => "developer"
  | _ => "system"

def systemOut (sys : SystemInstruction) : MsgOut where
  role := systemRole (some sys.source)
  content := some (.str (joinText sys.content))

def roleOut (msg : Message) : String :=
  match msg.role with
  | .user => "user"
  | .assistant => "assistant"
  | .tool => "tool"
  | .system => systemRole msg.source

def toolCallOut (tc : ToolCallBlock) : ToolCallOut where
  id := tc.id
  function := { name := tc.name, arguments := tc.arguments.toText c }

/-- The reply to one call. -/
def toolOut (msg : Message) (tr : ToolResultBlock) : MsgOut where
  role := "tool"
  content := some (.str (toolResultText c tr.content))
  name := msg.name
  toolCallId := some tr.toolCallId

/-- What stands beside the results of a message, sent after them; a tool message
sends nothing beside them. -/
def siblingOuts (msg : Message) : List MsgOut :=
  if msg.role = .tool then []
  else
    (buildContentValue c (msg.content.filter fun b => b.toolResult?.isNone)).toList.map
      fun content => { role := roleOut msg, content := some content, name := msg.name }

/-- A message with its calls and its text. -/
def callsOut (msg : Message) : MsgOut where
  role := roleOut msg
  content := buildTextContentValue msg.content
  name := msg.name
  toolCalls := some (msg.toolCalls.map (toolCallOut c))

def plainOut (msg : Message) : MsgOut where
  role := roleOut msg
  content := buildContentValue c msg.content
  name := msg.name

def messageOuts (msg : Message) : List MsgOut :=
  if !msg.toolResults.isEmpty then msg.toolResults.map (toolOut c msg) ++ siblingOuts c msg
  else if !msg.toolCalls.isEmpty then [callsOut c msg]
  else [plainOut c msg]

/-! ## The request -/

def functionOut (t : ToolDefinition) : FunctionDefOut where
  name := t.name
  description := t.description
  parameters := t.inputSchema

def toolChoiceOut : ToolChoice → ToolChoiceOut
  | .auto => .mode "auto"
  | .none => .mode "none"
  | .required => .mode "required"
  | .specific name => .function name

def responseFormatOut : ResponseFormat → ResponseFormatOut
  | .text => .text
  | .jsonObject => .jsonObject
  | .jsonSchema name schema strict => .jsonSchema name schema strict

def build (req : CanonicalRequest) (target : BackendTarget) (acceptsXhigh : Bool) : ChatBody where
  model := target.model
  messages := req.system.map systemOut ++ req.messages.flatMap (messageOuts c)
  maxTokens := req.generation.maxTokens
  temperature := req.generation.temperature
  topP := req.generation.topP
  presencePenalty := req.generation.presencePenalty
  frequencyPenalty := req.generation.frequencyPenalty
  stop := req.generation.stopSequences
  seed := req.generation.seed
  responseFormat := req.responseFormat.map responseFormatOut
  tools := req.tools.map functionOut
  toolChoice := if req.tools.isEmpty then none else some (toolChoiceOut req.toolChoice)
  stream := req.stream
  includeUsage := if req.stream then some true else none
  reasoningEffort := effortWireString req.resolvedPolicy acceptsXhigh

/-! ## What a message becomes -/

theorem roleOut_ne_tool {msg : Message} (h : msg.role ≠ .tool) : roleOut msg ≠ "tool" := by
  have hsystem (source : Option SystemSource) : systemRole source ≠ "tool" := by
    unfold systemRole
    split <;> decide
  cases hrole : msg.role with
  | user => simp [roleOut, hrole]
  | assistant => simp [roleOut, hrole]
  | tool => exact absurd hrole h
  | system => simpa [roleOut, hrole] using hsystem msg.source

variable {c}

theorem messageOuts_of_results {msg : Message} (h : msg.toolResults ≠ []) :
    messageOuts c msg = msg.toolResults.map (toolOut c msg) ++ siblingOuts c msg := by
  rw [messageOuts, if_pos (by simpa using h)]

theorem messageOuts_of_calls {msg : Message} (hresults : msg.toolResults = [])
    (hcalls : msg.toolCalls ≠ []) : messageOuts c msg = [callsOut c msg] := by
  rw [messageOuts, hresults, if_neg (by simp), if_pos (by simpa using hcalls)]

theorem messageOuts_plain {msg : Message} (hresults : msg.toolResults = [])
    (hcalls : msg.toolCalls = []) : messageOuts c msg = [plainOut c msg] := by
  rw [messageOuts, hresults, hcalls, if_neg (by simp), if_neg (by simp)]

/-- What stands beside results is neither a reply nor a call. -/
theorem siblingOuts_spec {msg : Message} {out : MsgOut} (h : out ∈ siblingOuts c msg) :
    out.role ≠ "tool" ∧ out.toolCalls = none := by
  unfold siblingOuts at h
  split at h
  · cases h
  · rename_i hrole
    obtain ⟨content, -, rfl⟩ := List.mem_map.mp h
    exact ⟨roleOut_ne_tool hrole, rfl⟩

end AgentShim.ChatEncode
