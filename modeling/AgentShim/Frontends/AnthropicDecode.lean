import AgentShim.Core.Request
import AgentShim.Frontends.PreludeFold

/-
  Decoding an Anthropic Messages request

  A block becomes the canonical block of its kind, with what has no field there
  under an extension key. An image whose source is none of those known is kept
  whole, as a block that nothing stands for.

  Correspondence (Rust ↔ Lean):
    `wire::{MessagesRequest, Inbound*, ↔ the same names; `metadata` and
      SystemField, ToolResultContent}`   `thinking`, which nothing reads, are left
                                         out, and `output_config` is its effort
    `role_from_anthropic`              ↔ `roleFromAnthropic`
    `from_value::<BinarySource>`       ↔ `binarySourceOfValue`: an object by the
                                         names of its members, an array by place
    `inbound_block_to_canonical`       ↔ `inboundBlockToCanonical` (its `Result` is
                                         always `Ok`)
    `ExtensionMap::new` and one insert ↔ `extensionOf`
    the body of the loop               ↔ `decodeMessage`
    `decode_request`                   ↔ `decode`; the fresh `RequestId` is a
                                         parameter

  What is proved:
    1. `decode_spec` — which instructions and which messages a request decodes to,
       one by one.
-/

namespace AgentShim

namespace AnthropicMessages

open OpenAiResponses (FrontendError Decoding)

/-! ## Wire types -/

inductive ToolResultContent
  | text (t : String)
  | blocks (b : List Json)

inductive InboundContentBlock
  | text (text : String) (cacheControl : Option Json)
  | image (source : Json) (cacheControl : Option Json)
  | toolUse (id name : String) (input : Json) (cacheControl : Option Json)
  | toolResult (toolUseId : String) (isError : Option Bool) (content : Option ToolResultContent)
    (cacheControl : Option Json)
  | thinking (thinking signature : String)
  | redactedThinking (data : String)

inductive InboundMessageContent
  | text (t : String)
  | blocks (bs : List InboundContentBlock)

structure InboundMessage where
  role : String
  content : InboundMessageContent

inductive SystemField
  | text (t : String)
  | blocks (bs : List InboundContentBlock)

structure InboundTool where
  name : String
  description : Option String := none
  inputSchema : Json := .obj []
  cacheControl : Option Json := none

inductive InboundToolChoice
  | auto
  | any
  | tool (name : String)
  | none
  deriving DecidableEq, Repr

structure MessagesRequest where
  model : String
  messages : List InboundMessage
  system : Option SystemField := none
  tools : Option (List InboundTool) := none
  toolChoice : Option InboundToolChoice := none
  maxTokens : Nat
  temperature : Option F64 := none
  topP : Option F64 := none
  topK : Option Nat := none
  stopSequences : Option (List String) := none
  stream : Option Bool := none
  effort : Option String := none

/-! ## Blocks -/

variable (c : Codec)

def roleFromAnthropic (s : String) : Option MessageRole :=
  match s with
  | "user" => some .user
  | "assistant" => some .assistant
  | "system" => some .system
  | _ => none

/-- The variant of a type with the fields read for it. -/
def variantOf (type : String) (fields : List Json) : Option BinarySource :=
  match type, fields with
  | "url", [.str url] => some (.url url)
  | "base64", [.str mediaType, .str payload] =>
    (c.decodeBase64 payload).map (.base64 mediaType)
  | "provider_file_id", [.str fileId] => some (.providerFileId fileId)
  -- `bytes` is never deserialized
  | _, _ => none

/-- The fields of a type, in their order. -/
def fieldNames (type : String) : List String :=
  match type with
  | "url" => ["url"]
  | "base64" => ["media_type", "data"]
  | "provider_file_id" => ["file_id"]
  | _ => []

def binarySourceOfValue (v : Json) : Option BinarySource :=
  match v with
  | .obj members =>
    match members.lookup "type" with
    | some (.str type) =>
      -- other members are ignored, each field has to be there
      ((fieldNames type).mapM fun name => members.lookup name).bind (variantOf c type)
    | _ => none
  | .arr (.str type :: fields) => variantOf c type fields
  | _ => none

/-- No extension, or one under a key. -/
def extensionOf (key : String) : Option Json → OrdMap Json
  | some v => OrdMap.empty.insert key v
  | none => .empty

def resultValue : Option ToolResultContent → Json
  | none => .null
  | some (.text t) => .str t
  | some (.blocks b) => .arr b

/-- An image whose source is not read. -/
def unreadImage (source : Json) (cacheControl : Option Json) : UnsupportedBlock where
  origin := "anthropic_messages"
  raw := .obj ([("type", .str "image"), ("source", source)] ++
    Json.member "cache_control" cacheControl)

def inboundBlockToCanonical : InboundContentBlock → ContentBlock
  | .text text cacheControl =>
    .text { text := text, extensions := extensionOf "cache_control" cacheControl }
  | .image source cacheControl =>
    match binarySourceOfValue c source with
    | some bin => .image { source := bin, extensions := extensionOf "cache_control" cacheControl }
    -- kept for the upstream to refuse
    | none => .unsupported (unreadImage source cacheControl)
  | .toolUse id name input cacheControl =>
    .toolCall
      { id := id, name := name, arguments := .complete input
        extensions := extensionOf "cache_control" cacheControl }
  | .toolResult toolUseId isError content cacheControl =>
    .toolResult
      { toolCallId := toolUseId, content := resultValue content, isError := isError.getD false
        extensions := extensionOf "cache_control" cacheControl }
  | .thinking thinking signature =>
    .reasoning
      { text := thinking, extensions := extensionOf "signature" (some (.str signature)) }
  | .redactedThinking data => .redactedReasoning { data := data }

/-! ## Messages -/

/-- The blocks of a content; a string is a text. -/
def InboundMessageContent.toBlocks : InboundMessageContent → List InboundContentBlock
  | .text t => [.text t none]
  | .blocks bs => bs

def messageContent (m : InboundMessage) : List ContentBlock :=
  m.content.toBlocks.map (inboundBlockToCanonical c)

def instruction (content : List ContentBlock) : SystemInstruction where
  source := .anthropicSystem
  content := content

/-- A system message after the leading run. -/
def systemMessage (m : InboundMessage) : Message where
  role := .system
  content := messageContent c m
  source := some .anthropicSystem

def turnMessage (role : MessageRole) (m : InboundMessage) : Message where
  role := role
  content := messageContent c m

def decodeMessage (s : Decoding) (m : InboundMessage) : Except FrontendError Decoding :=
  match roleFromAnthropic m.role with
  | none => .error (.invalidBody s!"unknown role: {m.role}")
  | some .system =>
    if s.preludePhase then
      .ok { s with system := s.system ++ [instruction (messageContent c m)] }
    else
      -- after the first turn it stays at its place
      .ok { s with out := s.out ++ [systemMessage c m] }
  | some role => .ok (s.push (turnMessage c role m))

/-- The instruction of the top-level field. -/
def decodeSystem : Option SystemField → List SystemInstruction
  | none => []
  | some (.text text) => [instruction [.ofText text]]
  | some (.blocks blocks) => [instruction (blocks.map (inboundBlockToCanonical c))]

/-! ## The request -/

def toolDefinition (t : InboundTool) : ToolDefinition where
  name := t.name
  description := t.description
  inputSchema := t.inputSchema
  extensions := extensionOf "cache_control" t.cacheControl

def decodeToolChoice : Option InboundToolChoice → ToolChoice
  | none => .auto
  | some .auto => .auto
  | some .any => .required
  | some .none => .none
  | some (.tool name) => .specific name

def decode (id : String) (req : MessagesRequest) : Except FrontendError CanonicalRequest :=
  let start : Decoding := { Decoding.start with system := decodeSystem c req.system }
  (req.messages.foldlM (decodeMessage c) start).map
    fun s =>
      { id := id
        frontend := { kind := .anthropicMessages, requestedModel := req.model }
        model := req.model
        system := s.system
        messages := s.out
        tools := (req.tools.getD []).map toolDefinition
        toolChoice := decodeToolChoice req.toolChoice
        generation :=
          { maxTokens := some req.maxTokens
            temperature := req.temperature
            topP := req.topP
            topK := req.topK
            stopSequences := req.stopSequences.getD []
            reasoning := (req.effort.bind ReasoningEffort.parse).map fun effort =>
              { effort := some effort } }
        stream := req.stream.getD false }

/-! ## The messages one by one -/

def InboundMessage.isSystem (m : InboundMessage) : Bool := m.role == "system"

/-- What a message after the leading run decodes to. -/
structure DecodesTo (m : InboundMessage) (msg : Message) : Prop where
  role : roleFromAnthropic m.role = some msg.role
  content : msg.content = messageContent c m

variable {c} {s s' : Decoding} {m : InboundMessage}

theorem isSystem_iff : m.isSystem = true ↔ roleFromAnthropic m.role = some .system := by
  rw [InboundMessage.isSystem, beq_iff_eq]
  constructor
  · intro hrole
    rw [hrole]
    rfl
  · intro hrole
    unfold roleFromAnthropic at hrole
    split at hrole <;> simp_all

theorem foldsPrelude :
    FoldsPrelude (decodeMessage c) InboundMessage.isSystem
      (fun m sys => sys = instruction (messageContent c m)) (DecodesTo c) where
  leading := by
    intro s s' m h hsystem hphase
    simp only [decodeMessage, isSystem_iff.mp hsystem, hphase, if_true] at h
    cases h
    exact ⟨_, rfl, by rw [hphase]⟩
  later := by
    intro s s' m h hlater
    unfold decodeMessage at h
    split at h
    case h_1 => cases h
    case h_2 hrole =>
      have hphase := hlater (isSystem_iff.mpr hrole)
      simp only [hphase, Bool.false_eq_true, if_false] at h
      cases h
      exact ⟨_, ⟨hrole, rfl⟩, rfl, rfl, rfl⟩
    case h_3 role hnot hrole =>
      cases h
      exact ⟨_, ⟨hrole, rfl⟩, rfl, rfl, rfl⟩

/-- A decoded request: the instruction of the top-level field, those of the leading
run, and the messages after it. -/
structure Decoded (c : Codec) (req : MessagesRequest) (canonical : CanonicalRequest) : Prop where
  system : ∃ leading, canonical.system = decodeSystem c req.system ++ leading ∧
    List.Forall₂ (fun m sys => sys = instruction (messageContent c m))
      (req.messages.takeWhile InboundMessage.isSystem) leading
  messages : List.Forall₂ (DecodesTo c) (req.messages.dropWhile InboundMessage.isSystem)
    canonical.messages
  tools : canonical.tools = (req.tools.getD []).map toolDefinition
  toolChoice : canonical.toolChoice = decodeToolChoice req.toolChoice

theorem decode_spec {id : String} {req : MessagesRequest} {canonical : CanonicalRequest}
    (h : decode c id req = .ok canonical) : Decoded c req canonical := by
  obtain ⟨s, hs, rfl⟩ := Checks.map_eq_ok.mp h
  obtain ⟨leading, out, hleading, hlater, hsystem, hout⟩ := foldsPrelude.foldlM rfl hs
  have hmessages : s.out = out := hout
  refine ⟨⟨leading, hsystem, hleading⟩, ?_, rfl, rfl⟩
  show List.Forall₂ (DecodesTo c) _ s.out
  rw [hmessages]
  exact hlater

end AnthropicMessages

end AgentShim
