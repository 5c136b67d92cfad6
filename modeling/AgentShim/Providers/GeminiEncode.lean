import AgentShim.Core.Request
import AgentShim.Providers.GeminiStream

/-
  Encoding a request for a Gemini upstream

  Each message becomes a content of its role with one part for each block the
  vendor has a part for. System messages are gathered in the system instruction,
  and a message without parts is left out.

  Correspondence (Rust ↔ Lean):
    `wire::{GenerateContentRequest,  ↔ the same names; `safetySettings`, which is
      Content, Part, Tool, …}`         never sent, is left out
    `collect_tool_call_names`        ↔ `collectToolCallNames`, the last entry of an id
                                       first
    `build_contents`                 ↔ `buildContents`, one round of its loop
                                       `contentOf?`
    `block_to_part`                  ↔ `blockToPart`, the arguments of a call
                                       `callArgs`
    `binary_to_part`,                ↔ `binaryToPart`, `wrapToolResultContent`
      `wrap_tool_result_content`
    `build_*`, `thinking_config`,    ↔ the same names
      `effort_to_budget`
-/

namespace AgentShim.GeminiEncode

open Gemini (InlineData FileData FunctionCall)

/-! ## The outbound body -/

structure FunctionResponse where
  name : String
  response : Json
  id : Option String := none

structure Part where
  text : Option String := none
  thought : Option Bool := none
  inlineData : Option InlineData := none
  fileData : Option FileData := none
  functionCall : Option FunctionCall := none
  functionResponse : Option FunctionResponse := none

structure Content where
  role : String
  parts : List Part

structure FunctionDeclaration where
  name : String
  description : Option String
  parameters : Option Json

structure Tool where
  functionDeclarations : List FunctionDeclaration

structure ThinkingConfig where
  thinkingBudget : Option Int
  includeThoughts : Option Bool
  deriving DecidableEq, Repr

structure GenerationConfig where
  temperature : Option F64
  topP : Option F64
  topK : Option Int
  maxOutputTokens : Option Int
  stopSequences : Option (List String)
  responseMimeType : Option String
  responseSchema : Option Json
  thinkingConfig : Option ThinkingConfig

structure GenerateContentRequest where
  contents : List Content
  systemInstruction : Option Content
  tools : Option (List Tool)
  generationConfig : Option GenerationConfig

/-! ## Contents -/

variable (c : Codec)

def collectToolCallNames (messages : List Message) : List (String × String) :=
  ((messages.flatMap Message.toolCalls).map fun tc => (tc.id, tc.name)).reverse

/-- Inline data, or a reference without a type. -/
def binaryToPart : BinarySource → Part
  | .base64 mediaType data =>
    { inlineData := some { mimeType := mediaType, data := c.encodeBase64 data } }
  | .bytes mediaType data =>
    { inlineData := some { mimeType := mediaType, data := c.encodeBase64 data } }
  | .url url => { fileData := some { mimeType := "", fileUri := url } }
  | .providerFileId fileId => { fileData := some { mimeType := "", fileUri := fileId } }

/-- An object is itself, any other value the content of one. -/
def wrapToolResultContent : Json → Json
  | .obj members => .obj members
  | other => .obj [("content", other)]

/-- Arguments read so far are sent where they are JSON. -/
def callArgs : ToolCallArguments → Option Json
  | .complete value => some value
  | .streaming data => c.parseJson data

def blockToPart (names : List (String × String)) : ContentBlock → Option Part
  | .text t => some { text := some t.text }
  | .reasoning r => some { text := some r.text, thought := some true }
  | .image img => some (binaryToPart c img.source)
  | .audio a => some (binaryToPart c a.source)
  | .file f => some (binaryToPart c f.source)
  | .toolCall tc =>
    some { functionCall := some { name := tc.name, args := callArgs c tc.arguments } }
  | .toolResult tr =>
    -- a result no call is known for goes under its id
    some
      { functionResponse := some
          { name := (names.lookup tr.toolCallId).getD tr.toolCallId
            response := wrapToolResultContent tr.content } }
  | .redactedReasoning _ | .unsupported _ => none

/-- The role of a content; system messages have none. -/
def contentRole : MessageRole → Option String
  | .user => some "user"
  | .assistant => some "model"
  | .tool => some "function"
  | .system => none

def contentOf? (names : List (String × String)) (msg : Message) : Option Content :=
  match contentRole msg.role with
  | none => none
  | some role =>
    -- the vendor refuses a content without parts
    let parts := msg.content.filterMap (blockToPart c names)
    if parts.isEmpty then none else some { role := role, parts := parts }

def buildContents (messages : List Message) : List Content :=
  messages.filterMap (contentOf? c (collectToolCallNames messages))

/-! ## The other members -/

/-- The texts of the instructions, then those of the system messages. -/
def buildSystemInstruction (req : CanonicalRequest) : Option Content :=
  let blocks := req.system.flatMap SystemInstruction.content ++
    (req.messages.filter fun msg => msg.role == .system).flatMap Message.content
  let parts := (blocks.filterMap ContentBlock.text?).map fun text => { text := some text : Part }
  if parts.isEmpty then none else some { role := "user", parts := parts }

def functionDeclaration (t : ToolDefinition) : FunctionDeclaration where
  name := t.name
  description := t.description
  parameters := some t.inputSchema

def buildTools (tools : List ToolDefinition) : Option (List Tool) :=
  if tools.isEmpty then none else some [{ functionDeclarations := tools.map functionDeclaration }]

def effortToBudget : ReasoningEffort → Int
  | .minimal => 128
  | .low => 256
  | .medium => 1024
  | .high => 4096
  | .xhigh => 16384
  | .max => 24576

def thinkingBudget (p : ResolvedPolicy) : Option Int :=
  (p.reasoningBudgetTokens.map Int.ofNat).or (p.reasoningEffort.map effortToBudget)

def thinkingConfig (p : ResolvedPolicy) : Option ThinkingConfig :=
  (thinkingBudget p).map fun budget =>
    { thinkingBudget := some budget, includeThoughts := some true }

def responseMime : Option ResponseFormat → Option String
  | none | some .text => none
  | some _ => some "application/json"

def responseSchema : Option ResponseFormat → Option Json
  | some (.jsonSchema _ schema _) => some schema
  | _ => none

/-- Nothing where no knob is set. -/
def buildGenerationConfig (req : CanonicalRequest) : Option GenerationConfig :=
  let g := req.generation
  let config : GenerationConfig :=
    { temperature := g.temperature
      topP := g.topP
      topK := g.topK.map Int.ofNat
      maxOutputTokens := g.maxTokens.map Int.ofNat
      stopSequences := if g.stopSequences.isEmpty then none else some g.stopSequences
      responseMimeType := responseMime req.responseFormat
      responseSchema := responseSchema req.responseFormat
      thinkingConfig := thinkingConfig req.resolvedPolicy }
  let anyFieldSet := config.maxOutputTokens.isSome || config.temperature.isSome ||
    config.topP.isSome || config.topK.isSome || config.stopSequences.isSome ||
    config.responseMimeType.isSome || config.responseSchema.isSome ||
    config.thinkingConfig.isSome
  if anyFieldSet then some config else none

/-- The model is named in the URL, so the target is not read. -/
def build (req : CanonicalRequest) (_target : BackendTarget) : GenerateContentRequest where
  contents := buildContents c req.messages
  systemInstruction := buildSystemInstruction req
  tools := buildTools req.tools
  generationConfig := buildGenerationConfig req

end AgentShim.GeminiEncode
