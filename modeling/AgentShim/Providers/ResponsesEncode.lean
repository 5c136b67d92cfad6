import AgentShim.Core.Content
import AgentShim.Lib.Lists
import AgentShim.Providers.Capabilities

/-
  Encoding a request for a Responses upstream

  Every message of the canonical request becomes some items of the `input`: a
  tool message the outputs of its results, a system message none, any other a
  message item or, where it has tool calls, its text and its calls.

  What is proved:
    1. `toolItems_messageItems` — a message's tool items are those its role
       emits.
    2. `responses_lossless_iff` — nothing is lost iff results stand in tool
       messages, tool messages hold only results, and no message with calls has
       a single empty text.
    3. `user_result_lost` — a tool result of a user message is.

  Correspondence (Rust ↔ Lean):
    `responses_api::encode_request::build` ↔ `build`; one round of its loop over
                                             the messages ↔ `messageItems`
    `extract_text`, `extract_text_only`    ↔ `joinText`
    `build_message_content`                ↔ `buildMessageContent`
-/

namespace AgentShim.ResponsesEncode

open AgentShim.Providers

variable (c : Codec)

/-! ## The input items -/

def messageItem (role : String) (content : Json) : Json :=
  .obj [("type", .str "message"), ("role", .str role), ("content", content)]

def functionCallItem (tc : ToolCallBlock) : Json :=
  .obj [("type", .str "function_call"), ("call_id", .str tc.id), ("name", .str tc.name),
    ("arguments", .str (tc.arguments.toText c))]

/-- A result's content as text: a string is itself. -/
def resultText : Json → String
  | .str s => s
  | other => c.renderJson other

def functionCallOutputItem (tr : ToolResultBlock) : Json :=
  .obj [("type", .str "function_call_output"), ("call_id", .str tr.toolCallId),
    ("output", .str (resultText c tr.content))]

/-- One part of a content array. Calls and results have none: they are items of
their own. -/
def contentPart? : ContentBlock → Option Json
  | .text b => some (.obj [("type", .str "input_text"), ("text", .str b.text)])
  | .image b => (b.source.imageUrl? c).map fun url =>
      .obj [("type", .str "input_image"), ("image_url", .str url)]
  | _ => none

/-- The content of a message item: a string, or parts where there is an
image. -/
def buildMessageContent (blocks : List ContentBlock) : Json :=
  if blocks.any ContentBlock.isImage then .arr (blocks.filterMap (contentPart? c))
  else .str (joinText blocks)

/-- The items of a user or assistant message. -/
def turnItems (role : String) (msg : Message) : List Json :=
  if msg.toolCalls.isEmpty then [messageItem role (buildMessageContent c msg.content)]
  else
    let text := joinText msg.content
    (if Text.isEmpty text then [] else [messageItem role (.str text)]) ++
      msg.toolCalls.map (functionCallItem c)

def messageItems (msg : Message) : List Json :=
  match msg.role with
  | .user => turnItems c "user" msg
  | .assistant => turnItems c "assistant" msg
  | .tool => msg.toolResults.map (functionCallOutputItem c)
  | .system => []

/-! ## The body -/

/-- The texts of the system messages of a conversation. -/
def midConvSystems (messages : List Message) : List String :=
  messages.filterMap fun msg =>
    if msg.role = .system ∧ joinText msg.content ≠ "" then some (joinText msg.content) else none

def functionTool (t : ToolDefinition) : Json :=
  .obj ([("type", .str "function"), ("name", .str t.name), ("parameters", t.inputSchema)] ++
    t.description.toList.map fun desc => ("description", .str desc))

/-- The built-in tools kept from the frontend. -/
def builtinTools (req : CanonicalRequest) : List Json :=
  ((req.extensions.get? "builtin_tools").bind Json.asArray).getD []

def toolChoiceJson : ToolChoice → Json
  | .auto => .str "auto"
  | .none => .str "none"
  | .required => .str "required"
  | .specific name => .obj [("type", .str "function"), ("name", .str name)]

/-- A double as JSON; one that is not finite is null. -/
def floatJson (x : F64) : Json := if x.isFinite then .num (.float x) else .null

/-- A member that is left out without a value. -/
def member? (key : String) (value : Option Json) : List (String × Json) :=
  value.toList.map fun v => (key, v)

def build (req : CanonicalRequest) (target : BackendTarget) : Json :=
  let instructions := req.system.map (fun s => joinText s.content) ++ midConvSystems req.messages
  let tools := req.tools.map functionTool ++ builtinTools req
  .obj <|
    [("model", .str target.model), ("stream", .bool req.stream),
      ("input", .arr (req.messages.flatMap (messageItems c)))] ++
    member? "instructions"
      (if instructions.isEmpty then none else some (.str ("\n".intercalate instructions))) ++
    member? "tools" (if tools.isEmpty then none else some (.arr tools)) ++
    member? "tool_choice"
      (if !req.tools.isEmpty || req.extensions.containsKey "builtin_tools" then
        some (toolChoiceJson req.toolChoice)
      else none) ++
    member? "max_output_tokens" (req.generation.maxTokens.map fun n => .num (.int n)) ++
    member? "temperature" (req.generation.temperature.map floatJson) ++
    member? "top_p" (req.generation.topP.map floatJson) ++
    member? "reasoning"
      ((responsesEffort req.resolvedPolicy).map fun effort => .obj [("effort", .str effort)])

/-- The items of a body. -/
def inputItems (body : Json) : List Json := (body.getArray "input").getD []

theorem inputItems_build (req : CanonicalRequest) (target : BackendTarget) :
    inputItems (build c req target) = req.messages.flatMap (messageItems c) :=
  rfl

/-! ## The calls and results of the input -/

/-- A call or an output, as the upstream reads it. -/
inductive ToolItem
  | call (callId name arguments : String)
  | output (callId output : String)
  deriving DecidableEq, Repr

/-- The tool item of an input item. -/
def toolItem? (item : Json) : Option ToolItem :=
  match item.getStr "type" with
  | some "function_call" =>
    (item.getStr "call_id").bind fun callId =>
      (item.getStr "name").bind fun name =>
        (item.getStr "arguments").map fun arguments => .call callId name arguments
  | some "function_call_output" =>
    (item.getStr "call_id").bind fun callId =>
      (item.getStr "output").map fun output => .output callId output
  | _ => none

def callOf (tc : ToolCallBlock) : ToolItem := .call tc.id tc.name (tc.arguments.toText c)

def outputOf (tr : ToolResultBlock) : ToolItem := .output tr.toolCallId (resultText c tr.content)

/-- What a block of a message has to become: every result an output, every call
but a system message's a call. -/
def owed (place : MessageRole × ContentBlock) : Option ToolItem :=
  match place.2 with
  | .toolResult tr => some (outputOf c tr)
  | .toolCall tc => if place.1 = .system then none else some (callOf c tc)
  | _ => none

/-- What it becomes, by the role of its message. -/
def emitted (place : MessageRole × ContentBlock) : Option ToolItem :=
  match place with
  | (.tool, .toolResult tr) => some (outputOf c tr)
  | (.user, .toolCall tc) => some (callOf c tc)
  | (.assistant, .toolCall tc) => some (callOf c tc)
  | _ => none

/-- The blocks of a conversation, each with the role of its message. -/
def places (messages : List Message) : List (MessageRole × ContentBlock) :=
  messages.flatMap fun msg => msg.content.map fun b => (msg.role, b)

theorem emitted_weaker : Lists.Weaker (emitted c) (owed c) := by
  rintro ⟨role, b⟩
  cases role <;> cases b <;> simp [emitted, owed]

@[simp] theorem toolItem?_messageItem (role : String) (content : Json) :
    toolItem? (messageItem role content) = none :=
  rfl

@[simp] theorem toolItem?_functionCallItem (tc : ToolCallBlock) :
    toolItem? (functionCallItem c tc) = some (callOf c tc) :=
  rfl

@[simp] theorem toolItem?_functionCallOutputItem (tr : ToolResultBlock) :
    toolItem? (functionCallOutputItem c tr) = some (outputOf c tr) :=
  rfl

theorem toolItems_turnItems (role : String) (msg : Message) :
    (turnItems c role msg).filterMap toolItem? = msg.toolCalls.map (callOf c) := by
  have hcalls : (msg.toolCalls.map (functionCallItem c)).filterMap toolItem? =
      msg.toolCalls.map (callOf c) := by
    simp [List.filterMap_map, Function.comp_def]
  unfold turnItems
  split
  · rename_i hempty
    simp [List.isEmpty_iff.mp hempty]
  · rw [List.filterMap_append, hcalls]
    split
    · rfl
    · simp

/-- A message's tool items are those its role emits. -/
theorem toolItems_messageItems (msg : Message) :
    (messageItems c msg).filterMap toolItem? =
      msg.content.filterMap fun b => emitted c (msg.role, b) := by
  unfold messageItems
  cases hrole : msg.role with
  | user =>
    dsimp only
    rw [toolItems_turnItems, Message.toolCalls, List.map_filterMap]
    apply List.filterMap_congr
    intro b _
    cases b <;> rfl
  | assistant =>
    dsimp only
    rw [toolItems_turnItems, Message.toolCalls, List.map_filterMap]
    apply List.filterMap_congr
    intro b _
    cases b <;> rfl
  | tool =>
    dsimp only
    rw [List.filterMap_map, Message.toolResults, List.filterMap_filterMap]
    apply List.filterMap_congr
    intro b _
    cases b <;> rfl
  | system =>
    symm
    rw [List.filterMap_nil, List.filterMap_eq_nil_iff]
    intro b _
    cases b <;> rfl

theorem toolItems_build (req : CanonicalRequest) (target : BackendTarget) :
    (inputItems (build c req target)).filterMap toolItem? =
      (places req.messages).filterMap (emitted c) := by
  rw [inputItems_build, List.filterMap_flatMap, places, List.filterMap_flatMap]
  congr 1
  funext msg
  rw [toolItems_messageItems, List.filterMap_map]
  rfl

/-- Where a block becomes what it has to. -/
theorem emitted_eq_owed_iff (role : MessageRole) (b : ContentBlock) :
    emitted c (role, b) = owed c (role, b) ↔
      (b.toolResult?.isSome → role = .tool) ∧ (b.toolCall?.isSome → role ≠ .tool) := by
  cases role <;> cases b <;>
    simp [emitted, owed, ContentBlock.toolResult?, ContentBlock.toolCall?]

/-! ## The texts -/

/-- The text of a content part, where it is one. -/
def inputText? (part : Json) : Option String :=
  if part.getStr "type" = some "input_text" then part.getStr "text" else none

/-- A content that holds these texts: joined, or one part each. -/
def HoldsTexts (texts : List String) : Json → Prop
  | .str s => s = "\n".intercalate texts
  | .arr parts => parts.filterMap inputText? = texts
  | _ => False

/-- The texts of a message are in a message item among these. -/
def TextsCarried (msg : Message) (items : List Json) : Prop :=
  msg.texts = [] ∨ ∃ role content, messageItem role content ∈ items ∧ HoldsTexts msg.texts content

theorem holdsTexts_buildMessageContent (blocks : List ContentBlock) :
    HoldsTexts (blocks.filterMap ContentBlock.text?) (buildMessageContent c blocks) := by
  unfold buildMessageContent
  split
  · show (blocks.filterMap (contentPart? c)).filterMap inputText? = _
    rw [List.filterMap_filterMap]
    apply List.filterMap_congr
    intro b _
    cases b with
    | text b => rfl
    | image b =>
      cases himage : b.source.imageUrl? c with
      | none => simp [contentPart?, himage, ContentBlock.text?]
      | some url =>
        simp only [contentPart?, himage, Option.map_some, Option.bind_some, ContentBlock.text?]
        rfl
    | _ => rfl
  · rfl

/-- A user or assistant message loses its texts iff it has calls and a single
empty text. -/
theorem textsCarried_turnItems (role : String) (msg : Message) :
    TextsCarried msg (turnItems c role msg) ↔ (msg.toolCalls ≠ [] → msg.texts ≠ [""]) := by
  unfold turnItems
  cases hcalls : msg.toolCalls with
  | nil =>
    -- without calls the whole content is one message item
    refine iff_of_true (Or.inr ⟨role, buildMessageContent c msg.content, ?_, ?_⟩) ?_
    · exact List.mem_singleton_self _
    · exact holdsTexts_buildMessageContent c msg.content
    · exact fun h => absurd rfl h
  | cons tc rest =>
    have hempty : Text.isEmpty (joinText msg.content) = true ↔
        msg.texts = [] ∨ msg.texts = [""] := by
      rw [Text.isEmpty, List.isEmpty_iff, String.toList_eq_nil_iff, joinText_eq_empty_iff]
      rfl
    simp only [List.isEmpty_cons, Bool.false_eq_true, if_false, ne_eq, reduceCtorEq,
      not_false_eq_true, true_implies]
    -- with calls the texts are joined, and an empty join is left out
    constructor
    · rintro (hnone | ⟨role', content, hmem, -⟩) hsingle
      · rw [hnone] at hsingle
        cases hsingle
      · rw [if_pos (hempty.mpr (Or.inr hsingle)), List.nil_append] at hmem
        obtain ⟨tc', -, heq⟩ := List.mem_map.mp hmem
        simp [functionCallItem, messageItem] at heq
    · intro hsingle
      by_cases htexts : msg.texts = []
      · exact Or.inl htexts
      · refine Or.inr ⟨role, .str (joinText msg.content), ?_, rfl⟩
        rw [if_neg fun h => (hempty.mp h).elim htexts hsingle]
        exact List.mem_append_left _ (List.mem_singleton_self _)

/-! ## Nothing is lost -/

/-- Every call and result of the messages is an item of the body, with its id and
content, in their order, and the texts of every message but a system one are in
its items. -/
structure Lossless (req : CanonicalRequest) (body : Json) : Prop where
  tools : (inputItems body).filterMap toolItem? = (places req.messages).filterMap (owed c)
  texts : ∀ msg ∈ req.messages, msg.role ≠ .system → TextsCarried msg (messageItems c msg)

/-- Results stand in tool messages, which hold nothing else to be carried, and a
message with calls has more of a text than a single empty one, or none. -/
structure Placed (msg : Message) : Prop where
  results : msg.toolResults ≠ [] → msg.role = .tool
  tool : msg.role = .tool → msg.toolCalls = [] ∧ msg.texts = []
  text : msg.role = .user ∨ msg.role = .assistant → msg.toolCalls ≠ [] → msg.texts ≠ [""]

theorem textsCarried_iff {msg : Message} (hsystem : msg.role ≠ .system) :
    TextsCarried msg (messageItems c msg) ↔ (msg.role = .tool → msg.texts = []) ∧
      (msg.role = .user ∨ msg.role = .assistant → msg.toolCalls ≠ [] → msg.texts ≠ [""]) := by
  unfold messageItems
  cases hrole : msg.role with
  | user => simpa using textsCarried_turnItems c "user" msg
  | assistant => simpa using textsCarried_turnItems c "assistant" msg
  | tool =>
    simp only [true_implies, reduceCtorEq, or_self, false_implies, and_true]
    constructor
    · rintro (hnone | ⟨role, content, hmem, -⟩)
      · exact hnone
      · obtain ⟨tr, -, heq⟩ := List.mem_map.mp hmem
        simp [functionCallOutputItem, messageItem] at heq
    · exact Or.inl
  | system => exact absurd hrole hsystem

theorem toolCalls_eq_nil_iff {msg : Message} :
    msg.toolCalls = [] ↔ ∀ b ∈ msg.content, b.toolCall? = none :=
  List.filterMap_eq_nil_iff

theorem toolResults_eq_nil_iff {msg : Message} :
    msg.toolResults = [] ↔ ∀ b ∈ msg.content, b.toolResult? = none :=
  List.filterMap_eq_nil_iff

/-- The calls and results of a message become what they have to iff its results
have the tool role and its calls another. -/
theorem emitted_eq_owed_all {msg : Message} :
    (∀ b ∈ msg.content, emitted c (msg.role, b) = owed c (msg.role, b)) ↔
      (msg.toolResults ≠ [] → msg.role = .tool) ∧ (msg.role = .tool → msg.toolCalls = []) := by
  simp only [emitted_eq_owed_iff]
  by_cases hrole : msg.role = .tool
  · simp [hrole, toolCalls_eq_nil_iff]
  · simp [hrole, toolResults_eq_nil_iff]

/-- The input of a Responses body loses nothing iff every message is placed. -/
theorem responses_lossless_iff (req : CanonicalRequest) (target : BackendTarget) :
    Lossless c req (build c req target) ↔ ∀ msg ∈ req.messages, Placed msg := by
  have htools : (inputItems (build c req target)).filterMap toolItem? =
        (places req.messages).filterMap (owed c) ↔
      ∀ msg ∈ req.messages, ∀ b ∈ msg.content,
        emitted c (msg.role, b) = owed c (msg.role, b) := by
    rw [toolItems_build, Lists.filterMap_eq_iff_of_weaker (emitted_weaker c)]
    simp only [places, List.forall_mem_flatMap, List.forall_mem_map]
  constructor
  · intro h msg hmsg
    obtain ⟨hresults, hcalls⟩ := (emitted_eq_owed_all c).mp (htools.mp h.tools msg hmsg)
    refine ⟨hresults, fun hrole => ⟨hcalls hrole, ?_⟩, fun hrole => ?_⟩
    · have hsystem : msg.role ≠ .system := by simp [hrole]
      exact ((textsCarried_iff c hsystem).mp (h.texts msg hmsg hsystem)).1 hrole
    · have hsystem : msg.role ≠ .system := by
        rcases hrole with hrole | hrole <;> simp [hrole]
      exact ((textsCarried_iff c hsystem).mp (h.texts msg hmsg hsystem)).2 hrole
  · intro h
    refine ⟨htools.mpr fun msg hmsg => ?_, fun msg hmsg hsystem => ?_⟩
    · exact (emitted_eq_owed_all c).mpr ⟨(h msg hmsg).results, fun hr => ((h msg hmsg).tool hr).1⟩
    · exact (textsCarried_iff c hsystem).mpr ⟨fun hr => ((h msg hmsg).tool hr).2, (h msg hmsg).text⟩

/-! ## A result in a user message -/

/-- A call and its result as the Anthropic frontend decodes them: the result
stays in a user message. -/
def userResult : CanonicalRequest where
  id := "req_1"
  frontend := { kind := .anthropicMessages, requestedModel := "gpt-5" }
  model := "gpt-5"
  messages :=
    [.assistant [.toolCall { id := "toolu_1", name := "search", arguments := .complete (.obj []) }],
      .user [.toolResult { toolCallId := "toolu_1", content := .str "sunny" }]]

def gpt5 : BackendTarget where
  provider := "openai"
  model := "gpt-5"
  policy := { defaultReasoningEffort := none, defaultAnthropicBeta := none, reasoningMapping := [] }

/-- The call is sent, its result is not. -/
theorem user_result_lost :
    (inputItems (build objectCodec userResult gpt5)).filterMap toolItem? =
        [.call "toolu_1" "search" "{}"] ∧
      ¬ Lossless objectCodec userResult (build objectCodec userResult gpt5) := by
  have hsent : (inputItems (build objectCodec userResult gpt5)).filterMap toolItem? =
      [.call "toolu_1" "search" "{}"] := by decide
  refine ⟨hsent, fun h => ?_⟩
  have htools := h.tools
  rw [hsent] at htools
  exact absurd htools (by decide)

end AgentShim.ResponsesEncode
