import AgentShim.Core.Request

/-
  Encoding a request for an Anthropic upstream

  Each message becomes one of its role, with the blocks the vendor has a shape
  for. What a canonical block keeps under an extension key goes back into its
  field, under the key of this namespace or, where the frontend wrote it, the bare
  one.

  Correspondence (Rust ↔ Lean):
    `wire::Outgoing*`              ↔ the same names
    `build`                        ↔ `build`; `to_value` of the body is the body
    `cache_control_from_ext`,      ↔ `cacheControlFromExt`, `signatureFromExt`, by
      `signature_from_ext`           `fromExt`
    `content_block_to_outgoing`    ↔ `contentBlockToOutgoing`
    `image_block_to_outgoing`      ↔ `imageBlockToOutgoing`, by `outgoingSource`
    `build_*`, `effort_to_budget`, ↔ the same names
      `anthropic_effort_str`
    `str::trim`, `str::split(',')` ↔ `trim`, `List.splitOn ','`
-/

namespace AgentShim.AnthropicEncode

/-! ## The outbound body -/

inductive OutgoingToolResultContent
  | text (t : String)
  | blocks (b : List Json)

inductive OutgoingContentBlock
  | text (text : String) (cacheControl : Option Json)
  | image (source : Json) (cacheControl : Option Json)
  | toolUse (id name : String) (input : Json) (cacheControl : Option Json)
  | toolResult (toolUseId : String) (isError : Option Bool)
    (content : Option OutgoingToolResultContent) (cacheControl : Option Json)
  | thinking (thinking : String) (signature : Option String)
  | redactedThinking (data : String)

structure OutgoingMessage where
  role : String
  content : List OutgoingContentBlock

inductive OutgoingSystem
  | text (t : String)
  | blocks (bs : List OutgoingContentBlock)

structure OutgoingTool where
  name : String
  description : Option String
  inputSchema : Json
  cacheControl : Option Json

inductive OutgoingToolChoice
  | auto
  | any
  | tool (name : String)
  | none
  deriving DecidableEq, Repr

structure OutgoingThinking where
  ty : String
  budgetTokens : Option Nat
  deriving DecidableEq, Repr

structure OutgoingOutputConfig where
  effort : String
  deriving DecidableEq, Repr

structure OutgoingRequest where
  model : String
  messages : List OutgoingMessage
  system : Option OutgoingSystem
  tools : Option (List OutgoingTool)
  toolChoice : Option OutgoingToolChoice
  maxTokens : Nat
  temperature : Option F64
  topP : Option F64
  topK : Option Nat
  stopSequences : Option (List String)
  stream : Bool
  metadata : Option Json
  thinking : Option OutgoingThinking
  outputConfig : Option OutgoingOutputConfig

/-! ## Extensions -/

/-- What stands under the key of this namespace, else under the bare one. -/
def fromExt (key : String) (ext : OrdMap Json) : Option Json :=
  (ext.get? ("anthropic." ++ key)).or (ext.get? key)

def cacheControlFromExt (ext : OrdMap Json) : Option Json := fromExt "cache_control" ext

def signatureFromExt (ext : OrdMap Json) : Option String :=
  (fromExt "signature" ext).bind Json.asStr

/-! ## Blocks -/

variable (c : Codec)

def urlSource (url : String) : Json := .obj [("type", .str "url"), ("url", .str url)]

def base64Source (mediaType payload : String) : Json :=
  .obj [("type", .str "base64"), ("media_type", .str mediaType), ("data", .str payload)]

/-- The vendor has no shape for a file of a provider. -/
def outgoingSource : BinarySource → Option Json
  | .base64 mediaType data => some (base64Source mediaType (c.encodeBase64 data))
  | .bytes mediaType data => some (base64Source mediaType (c.encodeBase64 data))
  | .url url => some (urlSource url)
  | .providerFileId _ => none

def imageBlockToOutgoing (img : ImageBlock) : Option OutgoingContentBlock :=
  (outgoingSource c img.source).map fun source =>
    .image source (cacheControlFromExt img.extensions)

def toolInput : ToolCallArguments → Json
  | .complete value => value
  | .streaming data => (c.parseJson data).getD (.obj [])

def toolResultContent : Json → Option OutgoingToolResultContent
  | .null => none
  | .str s => some (.text s)
  | .arr arr => some (.blocks arr)
  | other => some (.text (c.renderJson other))

def contentBlockToOutgoing : ContentBlock → Option OutgoingContentBlock
  | .text t => some (.text t.text (cacheControlFromExt t.extensions))
  | .image img => imageBlockToOutgoing c img
  | .toolCall tc =>
    some (.toolUse tc.id tc.name (toolInput c tc.arguments) (cacheControlFromExt tc.extensions))
  | .toolResult tr =>
    some (.toolResult tr.toolCallId (if tr.isError then some true else none)
      (toolResultContent c tr.content) (cacheControlFromExt tr.extensions))
  | .reasoning r => some (.thinking r.text (signatureFromExt r.extensions))
  | .redactedReasoning r => some (.redactedThinking r.data)
  | .audio _ | .file _ => none
  -- also a block the frontend kept whole
  | .unsupported _ => none

def roleToAnthropic : MessageRole → String
  | .user => "user"
  | .assistant => "assistant"
  -- results are the user's here
  | .tool => "user"
  | .system => "system"

def messageToOutgoing (msg : Message) : OutgoingMessage where
  role := roleToAnthropic msg.role
  content := msg.content.filterMap (contentBlockToOutgoing c)

/-! ## The other members -/

def isSimpleTextBlock : ContentBlock → Bool
  | .text t => t.extensions.entries.isEmpty
  | _ => false

/-- Texts without extensions are joined; else the blocks go out as they are. -/
def buildSystem (system : List SystemInstruction) : Option OutgoingSystem :=
  let contents := system.flatMap SystemInstruction.content
  if contents.all isSimpleTextBlock then
    let joined := "\n\n".intercalate (contents.filterMap ContentBlock.text?)
    if Text.isEmpty joined then none else some (.text joined)
  else
    let blocks := contents.filterMap (contentBlockToOutgoing c)
    if blocks.isEmpty then none else some (.blocks blocks)

def outgoingTool (t : ToolDefinition) : OutgoingTool where
  name := t.name
  description := t.description
  inputSchema := t.inputSchema
  cacheControl := cacheControlFromExt t.extensions

def buildTools (tools : List ToolDefinition) : Option (List OutgoingTool) :=
  if tools.isEmpty then none else some (tools.map outgoingTool)

def buildToolChoice : ToolChoice → Option OutgoingToolChoice
  | .auto => none
  | .required => some .any
  | .none => some .none
  | .specific name => some (.tool name)

def anthropicEffortStr : ReasoningEffort → String
  | .minimal => "low"
  | .low => "low"
  | .medium => "medium"
  | .high => "high"
  | .xhigh => "xhigh"
  | .max => "max"

def effortToBudget : ReasoningEffort → Nat
  | .minimal => 128
  | .low => 512
  | .medium => 2048
  | .high => 8192
  | .xhigh => 16384
  | .max => 16384

/-- `char::is_whitespace`. -/
def isWhitespace (ch : Char) : Bool :=
  let n := ch.toNat
  (9 ≤ n && n ≤ 13) || n == 32 || n == 0x85 || n == 0xA0 || n == 0x1680 ||
    (0x2000 ≤ n && n ≤ 0x200A) || n == 0x2028 || n == 0x2029 || n == 0x202F || n == 0x205F ||
    n == 0x3000

def trim (chars : List Char) : String :=
  String.ofList ((chars.dropWhile isWhitespace).reverse.dropWhile isWhitespace).reverse

def namesEffortBeta (value : String) : Bool :=
  (value.toList.splitOn ',').any fun seg => trim seg == "effort-2025-11-24"

/-- The effort with its beta header, a budget without it. -/
def buildReasoningBlocks (p : ResolvedPolicy) :
    Option OutgoingThinking × Option OutgoingOutputConfig :=
  if p.reasoningEffort.isNone && p.reasoningBudgetTokens.isNone then (none, none)
  else if p.anthropicHeaders.any fun h => isBeta h.1 && namesEffortBeta h.2 then
    -- adaptive thinking needs an effort, so a budget alone stands for high
    (some { ty := "adaptive", budgetTokens := none },
      some { effort := anthropicEffortStr (p.reasoningEffort.getD .high) })
  else
    match p.reasoningBudgetTokens.or (p.reasoningEffort.map effortToBudget) with
    | none => (none, none)
    | some budget => (some { ty := "enabled", budgetTokens := some budget }, none)

def buildMetadata (req : CanonicalRequest) : Option Json :=
  req.metadata.userId.map fun userId => .obj [("user_id", .str userId)]

def defaultMaxTokens : Nat := 4096

def build (req : CanonicalRequest) (target : BackendTarget) : OutgoingRequest where
  model := target.model
  messages := req.messages.map (messageToOutgoing c)
  system := buildSystem c req.system
  tools := buildTools req.tools
  toolChoice := buildToolChoice req.toolChoice
  maxTokens := req.generation.maxTokens.getD defaultMaxTokens
  temperature := req.generation.temperature
  topP := req.generation.topP
  topK := req.generation.topK
  stopSequences :=
    if req.generation.stopSequences.isEmpty then none else some req.generation.stopSequences
  stream := req.stream
  metadata := buildMetadata req
  thinking := (buildReasoningBlocks req.resolvedPolicy).1
  outputConfig := (buildReasoningBlocks req.resolvedPolicy).2

end AgentShim.AnthropicEncode
