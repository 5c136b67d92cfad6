import AgentShim.Core.Request
import AgentShim.Frontends.ResponsesDecode

/-
  Decoding a Responses request

  The instructions come before what the input's leading system messages add. A
  tool that is no function is kept as the JSON it came in, for upstreams that know
  it.

  Correspondence (Rust ↔ Lean):
    `wire::{ResponsesRequest, InboundTool, ↔ the same names; the members a stateless
      InboundToolFunction,                    gateway ignores are left out, and
      InboundToolChoice}`                     `reasoning` is its effort
    `decode_tools`                         ↔ `decodeTools`, one round of its loop
                                             `decodeTool`
    `decode`                               ↔ `decode`; the fresh `RequestId` is a
                                             parameter
-/

namespace AgentShim.OpenAiResponses

/-! ## Wire types -/

structure InboundToolFunction where
  name : String
  description : Option String := none
  parameters : Option Json := none

structure InboundTool where
  ty : String
  name : Option String := none
  description : Option String := none
  parameters : Option Json := none
  function : Option InboundToolFunction := none

inductive InboundToolChoice
  | mode (s : String)
  | specific (name : String)
  deriving DecidableEq, Repr

structure ResponsesRequest where
  model : String
  input : InputField
  instructions : Option String := none
  tools : Option (List InboundTool) := none
  toolChoice : Option InboundToolChoice := none
  stream : Option Bool := none
  temperature : Option F64 := none
  topP : Option F64 := none
  maxOutputTokens : Option Nat := none
  metadata : Option Json := none
  effort : Option String := none

/-! ## Decoding -/

/-- A function of its own or at the top level, under its name. -/
def functionOf (tool : InboundTool) : Option InboundToolFunction :=
  match tool.function, tool.name with
  | some f, _ => some f
  | none, some name =>
    some { name := name, description := tool.description, parameters := tool.parameters }
  | none, none => none

def toolDefinition (f : InboundToolFunction) : ToolDefinition where
  name := f.name
  description := f.description
  inputSchema := f.parameters.getD (.obj [])

/-- The members of a tool that is no function. -/
def rawMembers (tool : InboundTool) : List (String × Json) :=
  [("type", .str tool.ty)] ++ Json.member "name" (tool.name.map .str) ++
    Json.member "description" (tool.description.map .str) ++
    Json.member "parameters" tool.parameters

def functionValue (f : InboundToolFunction) : Json :=
  .obj
    [("name", .str f.name), ("description", (f.description.map .str).getD .null),
      ("parameters", f.parameters.getD .null)]

def builtinTypes : List String :=
  ["web_search", "web_search_preview", "file_search", "code_interpreter", "computer_use"]

/-- The functions and the other tools read so far. -/
def decodeTool (read : List ToolDefinition × List Json) (tool : InboundTool) :
    Except FrontendError (List ToolDefinition × List Json) :=
  if tool.ty = "function" ∨ tool.ty = "custom" then
    match functionOf tool with
    | some f => .ok (read.1 ++ [toolDefinition f], read.2)
    | none => .error (.invalidBody "function tool missing name")
  else if tool.ty ∈ builtinTypes then .ok (read.1, read.2 ++ [.obj (rawMembers tool)])
  else
    -- a type of a later day, with every member it may have
    .ok (read.1, read.2 ++
      [.obj (rawMembers tool ++ Json.member "function" (tool.function.map functionValue))])

def decodeTools (tools : List InboundTool) :
    Except FrontendError (List ToolDefinition × List Json) :=
  tools.foldlM decodeTool ([], [])

def decodeToolChoice : Option InboundToolChoice → ToolChoice
  | none => .auto
  | some (.mode "none") => .none
  | some (.mode "required") => .required
  | some (.mode _) => .auto
  | some (.specific name) => .specific name

variable (c : Codec)

def decode (id : String) (req : ResponsesRequest) : Except FrontendError CanonicalRequest :=
  (decodeInput c req.input).bind fun input =>
    (decodeTools (req.tools.getD [])).map fun tools =>
      { id := id
        frontend := { kind := .openAiResponses, requestedModel := req.model }
        model := req.model
        system :=
          (req.instructions.toList.map fun text =>
            { source := .openAiSystem, content := [.ofText text] }) ++ input.1
        messages := input.2
        tools := tools.1
        toolChoice := decodeToolChoice req.toolChoice
        generation :=
          { maxTokens := req.maxOutputTokens
            temperature := req.temperature
            topP := req.topP
            reasoning := (req.effort.bind ReasoningEffort.parse).map fun effort =>
              { effort := some effort } }
        stream := req.stream.getD false
        metadata := { userId := req.metadata.bind fun value => value.getStr "user_id" }
        extensions :=
          if tools.2.isEmpty then .empty
          else OrdMap.empty.insert "builtin_tools" (.arr tools.2) }

variable {c}

/-- What a decoded request holds of its input. -/
theorem decode_input {id : String} {req : ResponsesRequest} {canonical : CanonicalRequest}
    (h : decode c id req = .ok canonical) :
    ∃ system, decodeInput c req.input = .ok (system, canonical.messages) ∧
      canonical.system = (req.instructions.toList.map fun text =>
        { source := .openAiSystem, content := [.ofText text] }) ++ system := by
  obtain ⟨input, hinput, hrest⟩ := Checks.bind_eq_ok.mp h
  obtain ⟨tools, -, rfl⟩ := Checks.map_eq_ok.mp hrest
  exact ⟨input.1, hinput, rfl⟩

end AgentShim.OpenAiResponses
