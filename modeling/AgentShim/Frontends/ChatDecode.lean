import AgentShim.Core.Request
import AgentShim.Frontends.PreludeFold

/-
  Decoding a Chat Completions request

  The messages of a request become canonical ones: the leading run of system and
  developer messages becomes session instructions, a tool message a result with the
  first part of its content, and any other message its parts and its tool calls.

  Correspondence (Rust ↔ Lean):
    `wire::*`                      ↔ the same names; `type` members that nothing
                                     reads are left out, and the payloads of an
                                     `image_url` and of a `function` are inlined
    `RoleClass`, `role_to_canonical` ↔ `RoleClass`, `roleToCanonical`
    `image_url_to_binary_source`   ↔ `imageUrlToBinarySource`
    the locals of the loop         ↔ `Decoding`
    the body of the loop           ↔ `decodeMessage`, by `textContent`,
                                     `systemMessage`, `toolMessage`, `turnMessage`
    `serde_json::to_value` of a    ↔ `blockValue`, as far as a part decodes to it
      block
    `decode`                       ↔ `decode`; the fresh `RequestId` is a parameter

  What is proved:
    1. `decodeMessages_spec` — which instructions and which messages a list of
       messages decodes to, one by one.
    2. `imageUrl_imageUrlToBinarySource` — an accepted image URL is written as it was
       read.
-/

namespace AgentShim.OpenAiChat

open OpenAiResponses (FrontendError Decoding)

/-! ## Wire types -/

inductive InboundContentPart
  | text (text : String)
  | imageUrl (url : String)
  deriving DecidableEq, Repr

inductive InboundMessageContent
  | text (t : String)
  | parts (ps : List InboundContentPart)
  deriving DecidableEq, Repr

structure InboundToolCall where
  id : String
  name : String
  arguments : String
  deriving DecidableEq, Repr

structure InboundMessage where
  role : String
  content : Option InboundMessageContent := none
  name : Option String := none
  toolCalls : List InboundToolCall := []
  toolCallId : Option String := none
  deriving DecidableEq, Repr

structure InboundTool where
  name : String
  description : Option String := none
  parameters : Option Json := none

inductive InboundToolChoice
  | mode (s : String)
  | specific (name : String)
  deriving DecidableEq, Repr

inductive StopField
  | one (s : String)
  | many (ss : List String)
  deriving DecidableEq, Repr

def StopField.intoVec : StopField → List String
  | .one s => [s]
  | .many ss => ss

structure InboundJsonSchema where
  name : String
  schema : Json
  strict : Option Bool := none

structure InboundResponseFormat where
  ty : String
  jsonSchema : Option InboundJsonSchema := none

structure ChatCompletionsRequest where
  model : String
  messages : List InboundMessage
  tools : Option (List InboundTool) := none
  toolChoice : Option InboundToolChoice := none
  maxTokens : Option Nat := none
  maxCompletionTokens : Option Nat := none
  temperature : Option F64 := none
  topP : Option F64 := none
  presencePenalty : Option F64 := none
  frequencyPenalty : Option F64 := none
  stop : Option StopField := none
  stream : Option Bool := none
  responseFormat : Option InboundResponseFormat := none
  seed : Option Nat := none
  user : Option String := none
  reasoningEffort : Option String := none

/-! ## Decoding -/

inductive RoleClass
  | message (role : MessageRole)
  | system (source : SystemSource)
  deriving DecidableEq, Repr

def roleToCanonical (role : String) : Option RoleClass :=
  match role with
  | "user" => some (.message .user)
  | "assistant" => some (.message .assistant)
  | "tool" => some (.message .tool)
  | "system" => some (.system .openAiSystem)
  | "developer" => some (.system .openAiDeveloper)
  | _ => none

variable (c : Codec)

/-- The same rule as the Responses frontend's. -/
def imageUrlToBinarySource (url : String) : Option BinarySource :=
  OpenAiResponses.imageUrlToBinarySource c url

def decodePart : InboundContentPart → ContentBlock
  | .text text => .ofText text
  | .imageUrl url =>
    match imageUrlToBinarySource c url with
    | some source => .image { source := source }
    | none =>
      .unsupported
        { origin := "openai_chat"
          raw := .obj [("type", .str "image_url"), ("image_url", .obj [("url", .str url)])] }

/-- The parts of a content; a string is a text. -/
def InboundMessageContent.toParts : InboundMessageContent → List InboundContentPart
  | .text t => [.text t]
  | .parts ps => ps

/-- The parts of a message, none where there is no content. -/
def InboundMessage.parts (m : InboundMessage) : List InboundContentPart :=
  (m.content.map InboundMessageContent.toParts).getD []

def textContent (m : InboundMessage) : List ContentBlock := m.parts.map (decodePart c)

def sourceValue : BinarySource → Option Json
  | .url url => some (.obj [("type", .str "url"), ("url", .str url)])
  | .base64 mediaType data =>
    some (.obj [("type", .str "base64"), ("media_type", .str mediaType),
      ("data", .str (c.encodeBase64 data))])
  | .bytes _ _ => none
  | .providerFileId fileId =>
    some (.obj [("type", .str "provider_file_id"), ("file_id", .str fileId)])

/-- The value of a block without extensions. -/
def blockValue : ContentBlock → Json
  | .image b =>
    match sourceValue c b.source with
    | some source => .obj [("type", .str "image"), ("source", source)]
    | none => .null
  | .unsupported b =>
    .obj [("type", .str "unsupported"), ("origin", .str b.origin), ("raw", b.raw)]
  -- no part decodes to a block of another kind, and a text is not asked for its value
  | _ => .null

/-- The content of a result: the first block, a text as a string. -/
def toolContent (blocks : List ContentBlock) : Json :=
  match blocks.head? with
  | some (.text b) => .str b.text
  | some other => blockValue c other
  | none => .null

/-- Arguments that are no JSON are kept as a string. -/
def decodeToolCall (tc : InboundToolCall) : ToolCallBlock where
  id := tc.id
  name := tc.name
  arguments := .complete ((c.parseJson tc.arguments).getD (.str tc.arguments))

def instruction (source : SystemSource) (m : InboundMessage) : SystemInstruction where
  source := source
  content := textContent c m

def systemMessage (source : SystemSource) (m : InboundMessage) : Message where
  role := .system
  content := textContent c m
  name := m.name
  source := some source

def toolMessage (toolCallId : String) (m : InboundMessage) : Message where
  role := .tool
  content := [.toolResult { toolCallId := toolCallId, content := toolContent c (textContent c m) }]
  name := m.name

/-- A message of a user or an assistant. -/
def turnMessage (role : MessageRole) (m : InboundMessage) : Message where
  role := role
  content := textContent c m ++ m.toolCalls.map fun tc => .toolCall (decodeToolCall c tc)
  name := m.name

def decodeMessage (s : Decoding) (m : InboundMessage) : Except FrontendError Decoding :=
  match roleToCanonical m.role with
  | none => .error (.invalidBody s!"unknown role: {m.role}")
  | some (.system source) =>
    if s.preludePhase then .ok { s with system := s.system ++ [instruction c source m] }
    else .ok { s with out := s.out ++ [systemMessage c source m] }
  | some (.message .tool) =>
    match m.toolCallId with
    | none => .error (.invalidBody "tool message missing tool_call_id")
    | some toolCallId => .ok (s.push (toolMessage c toolCallId m))
  | some (.message role) => .ok (s.push (turnMessage c role m))

def decodeMessages (msgs : List InboundMessage) : Except FrontendError Decoding :=
  msgs.foldlM (decodeMessage c) .start

def toolDefinition (t : InboundTool) : ToolDefinition where
  name := t.name
  description := t.description
  inputSchema := t.parameters.getD (.obj [])

def decodeToolChoice : Option InboundToolChoice → ToolChoice
  | none => .auto
  | some (.mode "none") => .none
  | some (.mode "required") => .required
  | some (.mode _) => .auto
  | some (.specific name) => .specific name

def decodeResponseFormat (rf : InboundResponseFormat) : Option ResponseFormat :=
  match rf.ty with
  | "json_object" => some .jsonObject
  | "json_schema" =>
    rf.jsonSchema.map fun js => .jsonSchema js.name js.schema (js.strict.getD false)
  | _ => none

def decode (id : String) (req : ChatCompletionsRequest) : Except FrontendError CanonicalRequest :=
  (decodeMessages c req.messages).map fun s =>
    { id := id
      frontend := { kind := .openAiChat, requestedModel := req.model }
      model := req.model
      system := s.system
      messages := s.out
      tools := (req.tools.getD []).map toolDefinition
      toolChoice := decodeToolChoice req.toolChoice
      generation :=
        { maxTokens := req.maxCompletionTokens.or req.maxTokens
          temperature := req.temperature
          topP := req.topP
          presencePenalty := req.presencePenalty
          frequencyPenalty := req.frequencyPenalty
          stopSequences := (req.stop.map StopField.intoVec).getD []
          seed := req.seed
          reasoning := (req.reasoningEffort.bind ReasoningEffort.parse).map fun effort =>
            { effort := some effort } }
      responseFormat := req.responseFormat.bind decodeResponseFormat
      stream := req.stream.getD false
      metadata := { userId := req.user } }

/-! ## The messages one by one -/

/-- A message of a system or developer role. -/
def InboundMessage.isSystem (m : InboundMessage) : Bool :=
  match roleToCanonical m.role with
  | some (.system _) => true
  | _ => false

/-- What a message of the leading run decodes to. -/
def DecodesLeading (m : InboundMessage) (sys : SystemInstruction) : Prop :=
  ∃ source, roleToCanonical m.role = some (.system source) ∧ sys = instruction c source m

/-- What a message after it decodes to. -/
inductive DecodesLater (m : InboundMessage) : Message → Prop
  | system {source : SystemSource} (hrole : roleToCanonical m.role = some (.system source)) :
    DecodesLater m (systemMessage c source m)
  | tool {toolCallId : String} (hrole : roleToCanonical m.role = some (.message .tool))
    (hid : m.toolCallId = some toolCallId) : DecodesLater m (toolMessage c toolCallId m)
  | turn {role : MessageRole} (hrole : roleToCanonical m.role = some (.message role))
    (hturn : role = .user ∨ role = .assistant) : DecodesLater m (turnMessage c role m)

variable {c} {s s' : Decoding} {m : InboundMessage}

/-- Only user, assistant and tool are roles of their own. -/
theorem role_of_message {role : MessageRole} {name : String}
    (h : roleToCanonical name = some (.message role)) :
    role = .user ∨ role = .assistant ∨ role = .tool := by
  unfold roleToCanonical at h
  split at h <;> simp_all

/-- Any message but a leading system message is pushed. -/
theorem decodeMessage_later (h : decodeMessage c s m = .ok s')
    (hlater : m.isSystem = true → s.preludePhase = false) :
    ∃ msg, DecodesLater c m msg ∧ s'.system = s.system ∧ s'.out = s.out ++ [msg] ∧
      s'.preludePhase = false := by
  unfold decodeMessage at h
  unfold InboundMessage.isSystem at hlater
  cases hrole : roleToCanonical m.role with
  | none =>
    rw [hrole] at h
    cases h
  | some cls =>
    rw [hrole] at h hlater
    cases cls with
    | system source =>
      have hphase := hlater rfl
      simp only [hphase, Bool.false_eq_true, if_false] at h
      cases h
      exact ⟨_, .system hrole, rfl, rfl, rfl⟩
    | message role =>
      rcases role_of_message hrole with rfl | rfl | rfl
      · cases h
        exact ⟨_, .turn hrole (Or.inl rfl), rfl, rfl, rfl⟩
      · cases h
        exact ⟨_, .turn hrole (Or.inr rfl), rfl, rfl, rfl⟩
      · cases hid : m.toolCallId with
        | none =>
          rw [hid] at h
          cases h
        | some toolCallId =>
          rw [hid] at h
          cases h
          exact ⟨_, .tool hrole hid, rfl, rfl, rfl⟩

theorem decodeMessage_leading (h : decodeMessage c s m = .ok s') (hsystem : m.isSystem = true)
    (hphase : s.preludePhase = true) :
    ∃ sys, DecodesLeading c m sys ∧ s' = { s with system := s.system ++ [sys] } := by
  unfold decodeMessage at h
  unfold InboundMessage.isSystem at hsystem
  cases hrole : roleToCanonical m.role with
  | none =>
    rw [hrole] at hsystem
    cases hsystem
  | some cls =>
    rw [hrole] at h hsystem
    cases cls with
    | message role => cases hsystem
    | system source =>
      simp only [hphase, if_true] at h
      cases h
      exact ⟨_, ⟨source, hrole, rfl⟩, by rw [hphase]⟩

theorem foldsPrelude :
    FoldsPrelude (decodeMessage c) InboundMessage.isSystem (DecodesLeading c) (DecodesLater c) where
  leading := decodeMessage_leading
  later := decodeMessage_later

/-- The instructions are the leading run of system messages, the messages the rest. -/
theorem decodeMessages_spec {msgs : List InboundMessage} (h : decodeMessages c msgs = .ok s) :
    List.Forall₂ (DecodesLeading c) (msgs.takeWhile InboundMessage.isSystem) s.system ∧
      List.Forall₂ (DecodesLater c) (msgs.dropWhile InboundMessage.isSystem) s.out :=
  foldsPrelude.decoded h

/-! ## Images -/

/-- An accepted image URL is written as it was read. -/
theorem imageUrl_imageUrlToBinarySource
    (hbase64 : ∀ payload data, c.decodeBase64 payload = some data → c.encodeBase64 data = payload)
    {url : String} {source : BinarySource} (h : imageUrlToBinarySource c url = some source) :
    source.imageUrl? c = some url := by
  unfold imageUrlToBinarySource OpenAiResponses.imageUrlToBinarySource at h
  split at h
  case h_1 rest hrest =>
    split at h
    case h_1 => cases h
    case h_2 header payload hsplit =>
      cases hheader : Text.splitOnce header ';' with
      | none => simp [hheader] at h
      | some pair =>
        obtain ⟨mediaType, encoding⟩ := pair
        simp only [hheader, Option.getD_some] at h
        split at h
        case isTrue => cases h
        case isFalse hencoding =>
          obtain ⟨data, hdata, rfl⟩ := Option.map_eq_some_iff.mp h
          have hbase : encoding = "base64" := by simpa using hencoding
          have hurl : url = "data:" ++ (mediaType ++ ";" ++ encoding ++ "," ++ payload) := by
            have hcomma := Text.splitOnce_eq_some hsplit
            have hsemicolon := Text.splitOnce_eq_some hheader
            rw [Text.stripStart_eq_some hrest, hcomma, hsemicolon]
            rfl
          rw [BinarySource.imageUrl?, hbase64 payload data hdata, hurl, hbase]
          simp only [String.append_assoc]
          rfl
  case h_2 =>
    split at h
    case isTrue =>
      cases h
      rfl
    case isFalse => cases h

end AgentShim.OpenAiChat
