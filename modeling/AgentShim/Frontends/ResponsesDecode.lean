import AgentShim.Core.Content
import AgentShim.Lib.Checks

/-
  Decoding the input of a Responses request

  The `input` of a request is a text, a list of messages, or a list of typed
  items. Messages of the leading run of system and developer roles become
  session instructions; a function call and its output become one message each,
  a reasoning item joins the assistant message before it.

  What is proved:
    1. `toolBlocks_decodeItems` — the tool blocks of the decoded messages are
       those of the items, in order.
    2. `tools_paired_iff` — calls and outputs joined by a `call_id` decode to
       blocks with one id iff no answered call has an `id` of its own.
    3. `replayed_call_not_paired` — the gateway's own output, sent back to it.

  Correspondence (Rust ↔ Lean):
    `InputItem`, `InputMessage` and their parts ↔ the same names; ids and
      statuses that the decoder ignores are left out
    `image_url_to_binary_source` ↔ `imageUrlToBinarySource`
    `decode_message_content`     ↔ `decodeMessageContent`
    `decode_messages`,           ↔ `decodeMessages`, `decodeItems`, the folds of
      `decode_items`               `decodeMessage` and `decodeItem`
    `decode_input`               ↔ `decodeInput`
-/

namespace AgentShim.OpenAiResponses

/-! ## Wire types -/

inductive InputContentPart
  | inputText (text : String)
  | inputImage (imageUrl : String)
  | outputText (text : String)
  | other
  deriving DecidableEq, Repr

inductive InputMessageContent
  | text (t : String)
  | parts (ps : List InputContentPart)
  deriving Repr

structure InputMessage where
  role : String
  content : Option InputMessageContent

/-- A part of a reasoning item's `content` or `summary`: a text of the expected
type, or anything else. -/
inductive ReasoningPart
  | text (t : String)
  | other
  deriving DecidableEq, Repr

inductive InputItem
  | message (role : String) (content : Option InputMessageContent)
  | functionCall (id : Option String) (callId : String) (name : String) (arguments : Json)
  | functionCallOutput (callId : String) (output : Json)
  | reasoning (summary : Option (List ReasoningPart)) (content : Option (List ReasoningPart))
  | other

inductive InputField
  | text (t : String)
  | messages (msgs : List InputMessage)
  | items (items : List InputItem)

inductive FrontendError
  | invalidBody (message : String)
  deriving DecidableEq, Repr

/-! ## Decoding -/

variable (c : Codec)

/-- A data URI in base64, or an http URL; nothing else. -/
def imageUrlToBinarySource (url : String) : Option BinarySource :=
  match Text.stripStart url "data:" with
  | some rest =>
    match Text.splitOnce rest ',' with
    | none => none
    | some (header, payload) =>
      let (mediaType, encoding) := (Text.splitOnce header ';').getD (header, "")
      if encoding != "base64" then none
      else (c.decodeBase64 payload).map (.base64 mediaType)
  | none =>
    if Text.startsWith url "http://" || Text.startsWith url "https://" then some (.url url)
    else none

def decodePart : InputContentPart → Option ContentBlock
  | .inputText text => some (.ofText text)
  | .outputText text => some (.ofText text)
  | .inputImage imageUrl =>
    match imageUrlToBinarySource c imageUrl with
    | some source => some (.image { source := source })
    | none =>
      some (.unsupported
        { origin := "openai_responses"
          raw := .obj [("type", .str "input_image"), ("image_url", .str imageUrl)] })
  | .other => none

def decodeMessageContent : Option InputMessageContent → List ContentBlock
  | none => []
  | some (.text t) => [.ofText t]
  | some (.parts ps) => ps.filterMap (decodePart c)

/-- What the loop has decoded: the session instructions, the messages, and
whether the leading run of system messages still goes on. -/
structure Decoding where
  system : List SystemInstruction
  out : List Message
  preludePhase : Bool

def Decoding.start : Decoding := { system := [], out := [], preludePhase := true }

namespace Decoding

def push (s : Decoding) (msg : Message) : Decoding :=
  { s with out := s.out ++ [msg], preludePhase := false }

/-- A system or developer message: an instruction while the prelude goes on, a
message at its place after it. -/
def pushSystem (s : Decoding) (source : SystemSource) (content : List ContentBlock) : Decoding :=
  if s.preludePhase then
    { s with system := s.system ++ [{ source := source, content := content }] }
  else { s with out := s.out ++ [.system source content] }

/-- A reasoning block joins an assistant message at the end, else it is a
message of its own. -/
def pushReasoning (s : Decoding) (block : ContentBlock) : Decoding :=
  match s.out.getLast? with
  | some msg =>
    if msg.role = .assistant then
      { s with
        out := s.out.dropLast ++ [{ msg with content := msg.content ++ [block] }]
        preludePhase := false }
    else s.push (.assistant [block])
  | none => s.push (.assistant [block])

end Decoding

/-- A message of either list; `what` names it in the error. -/
def decodeMessage (what : String) (s : Decoding) (role : String)
    (content : Option InputMessageContent) : Except FrontendError Decoding :=
  match role with
  | "system" => .ok (s.pushSystem .openAiSystem (decodeMessageContent c content))
  | "developer" => .ok (s.pushSystem .openAiDeveloper (decodeMessageContent c content))
  | "user" => .ok (s.push (.user (decodeMessageContent c content)))
  | "assistant" => .ok (s.push (.assistant (decodeMessageContent c content)))
  | other => .error (.invalidBody s!"unknown role in {what}: {other}")

/-- Arguments given as text are read as JSON where they are. -/
def decodeArguments : Json → Json
  | .str s => (c.parseJson s).getD (.str s)
  | other => other

/-- The call of a `function_call` item, under its `id` where it has one. -/
def decodeCall (id : Option String) (callId name : String) (arguments : Json) : ToolCallBlock where
  id := id.getD callId
  name := name
  arguments := .complete (decodeArguments c arguments)

def decodeOutput (callId : String) (output : Json) : ToolResultBlock where
  toolCallId := callId
  content := output

def ReasoningPart.text? : ReasoningPart → Option String
  | .text t => some t
  | .other => none

/-- The texts of `content`, else those of `summary`. -/
def extractReasoningText (content summary : Option (List ReasoningPart)) : String :=
  let fromContent := String.join ((content.getD []).filterMap ReasoningPart.text?)
  if !Text.isEmpty fromContent then fromContent
  else String.join ((summary.getD []).filterMap ReasoningPart.text?)

def decodeItem (s : Decoding) : InputItem → Except FrontendError Decoding
  | .message role content => decodeMessage c "input item" s role content
  | .functionCall id callId name arguments =>
    .ok (s.push (.assistant [.toolCall (decodeCall c id callId name arguments)]))
  | .functionCallOutput callId output =>
    .ok (s.push { role := .tool, content := [.toolResult (decodeOutput callId output)] })
  | .reasoning summary content =>
    .ok (s.pushReasoning (.reasoning { text := extractReasoningText content summary }))
  | .other => .ok { s with preludePhase := false }

def decodeItems (items : List InputItem) :
    Except FrontendError (List SystemInstruction × List Message) :=
  (items.foldlM (decodeItem c) .start).map fun s => (s.system, s.out)

def decodeMessages (msgs : List InputMessage) :
    Except FrontendError (List SystemInstruction × List Message) :=
  (msgs.foldlM (fun s msg => decodeMessage c "input message" s msg.role msg.content) .start).map
    fun s => (s.system, s.out)

def decodeInput : InputField → Except FrontendError (List SystemInstruction × List Message)
  | .text t => .ok ([], [.user [.ofText t]])
  | .messages msgs => decodeMessages c msgs
  | .items items => decodeItems c items

/-! ## The tool blocks of the decoded messages -/

variable {c}

/-- The tool block of an item. -/
def toolBlock? (c : Codec) : InputItem → Option ContentBlock
  | .functionCall id callId name arguments =>
    some (.toolCall (decodeCall c id callId name arguments))
  | .functionCallOutput callId output => some (.toolResult (decodeOutput callId output))
  | _ => none

/-- A decoded content has no tool blocks. -/
theorem filter_isTool_decodeMessageContent (content : Option InputMessageContent) :
    (decodeMessageContent c content).filter ContentBlock.isTool = [] := by
  match content with
  | none => rfl
  | some (.text t) => rfl
  | some (.parts ps) =>
    rw [List.filter_eq_nil_iff]
    intro b hb
    obtain ⟨part, -, hpart⟩ := List.mem_filterMap.mp hb
    cases part with
    | inputText text =>
      cases hpart
      simp [ContentBlock.isTool, ContentBlock.ofText, ContentBlock.toolCall?,
        ContentBlock.toolResult?]
    | outputText text =>
      cases hpart
      simp [ContentBlock.isTool, ContentBlock.ofText, ContentBlock.toolCall?,
        ContentBlock.toolResult?]
    | inputImage imageUrl =>
      rw [decodePart] at hpart
      split at hpart <;> cases hpart <;>
        simp [ContentBlock.isTool, ContentBlock.toolCall?, ContentBlock.toolResult?]
    | other => cases hpart

namespace Decoding

theorem toolBlocks_push (s : Decoding) (msg : Message) :
    toolBlocks (s.push msg).out = toolBlocks s.out ++ msg.content.filter ContentBlock.isTool := by
  rw [push, toolBlocks_append, toolBlocks_singleton]

theorem toolBlocks_pushSystem (s : Decoding) (source : SystemSource)
    (content : Option InputMessageContent) :
    toolBlocks (s.pushSystem source (decodeMessageContent c content)).out = toolBlocks s.out := by
  unfold pushSystem
  split
  · rfl
  · rw [toolBlocks_append, toolBlocks_singleton, Message.system,
      filter_isTool_decodeMessageContent, List.append_nil]

theorem toolBlocks_pushReasoning (s : Decoding) (text : String) :
    toolBlocks (s.pushReasoning (.reasoning { text := text })).out = toolBlocks s.out := by
  have hblock : [ContentBlock.reasoning { text := text }].filter ContentBlock.isTool = [] := rfl
  unfold pushReasoning
  split
  · rename_i msg hlast
    obtain ⟨before, hout⟩ := List.getLast?_eq_some_iff.mp hlast
    split
    · rw [hout, List.dropLast_concat, toolBlocks_append, toolBlocks_append, toolBlocks_singleton,
        toolBlocks_singleton, List.filter_append, hblock, List.append_nil]
    · rw [toolBlocks_push, Message.assistant, hblock, List.append_nil]
  · rw [toolBlocks_push, Message.assistant, hblock, List.append_nil]

end Decoding

/-- A message adds no tool block. -/
theorem toolBlocks_decodeMessage {what role : String} {s s' : Decoding}
    {content : Option InputMessageContent} (h : decodeMessage c what s role content = .ok s') :
    toolBlocks s'.out = toolBlocks s.out := by
  unfold decodeMessage at h
  split at h
  · cases h
    exact s.toolBlocks_pushSystem .openAiSystem content
  · cases h
    exact s.toolBlocks_pushSystem .openAiDeveloper content
  · cases h
    rw [Decoding.toolBlocks_push, Message.user, filter_isTool_decodeMessageContent,
      List.append_nil]
  · cases h
    rw [Decoding.toolBlocks_push, Message.assistant, filter_isTool_decodeMessageContent,
      List.append_nil]
  · cases h

theorem toolBlocks_decodeItem {s s' : Decoding} {item : InputItem}
    (h : decodeItem c s item = .ok s') :
    toolBlocks s'.out = toolBlocks s.out ++ (toolBlock? c item).toList := by
  cases item with
  | message role content =>
    rw [toolBlocks_decodeMessage h]
    exact (List.append_nil _).symm
  | functionCall id callId name arguments =>
    cases h
    rw [Decoding.toolBlocks_push]
    rfl
  | functionCallOutput callId output =>
    cases h
    rw [Decoding.toolBlocks_push]
    rfl
  | reasoning summary content =>
    cases h
    rw [Decoding.toolBlocks_pushReasoning]
    exact (List.append_nil _).symm
  | other =>
    cases h
    exact (List.append_nil _).symm

/-- The tool blocks of the decoded messages are those of the items, in order. -/
theorem toolBlocks_decodeItems {items : List InputItem} {system : List SystemInstruction}
    {messages : List Message} (h : decodeItems c items = .ok (system, messages)) :
    toolBlocks messages = items.filterMap (toolBlock? c) := by
  obtain ⟨s, hs, heq⟩ := Checks.map_eq_ok.mp h
  cases heq
  have hstep : ∀ s item s', decodeItem c s item = .ok s' →
      toolBlocks s'.out = toolBlocks s.out ++ (toolBlock? c item).toList :=
    fun _ _ _ => toolBlocks_decodeItem
  rw [List.filterMap_eq_flatMap_toList]
  exact Checks.foldlM_appends hstep hs

/-! ## Calls and their outputs -/

/-- The place of the tool block of the item after these, among all of them. -/
def toolPlace (c : Codec) (before : List InputItem) : Nat :=
  (before.filterMap (toolBlock? c)).length

/-- An output that names the `call_id` of an earlier call decodes to a result
that names that call's block. -/
def ToolsPaired (c : Codec) (items : List InputItem) (messages : List Message) : Prop :=
  ∀ before id callId name arguments between output after,
    items = before ++ .functionCall id callId name arguments ::
      (between ++ .functionCallOutput callId output :: after) →
    ∃ call result,
      (toolBlocks messages)[toolPlace c before]? = some (.toolCall call) ∧
      (toolBlocks messages)[toolPlace c before + (1 + toolPlace c between)]? =
        some (.toolResult result) ∧
      result.toolCallId = call.id

/-- A call that is answered later on has no `id`, or its `call_id` for one. -/
def AnsweredByCallId (items : List InputItem) : Prop :=
  ∀ before id callId name arguments between output after,
    items = before ++ .functionCall id callId name arguments ::
      (between ++ .functionCallOutput callId output :: after) →
    id = none ∨ id = some callId

theorem tools_paired_iff {items : List InputItem} {system : List SystemInstruction}
    {messages : List Message} (h : decodeItems c items = .ok (system, messages)) :
    ToolsPaired c items messages ↔ AnsweredByCallId items := by
  have hblocks := toolBlocks_decodeItems h
  have hplaces : ∀ before id callId name arguments between output after,
      items = before ++ .functionCall id callId name arguments ::
        (between ++ .functionCallOutput callId output :: after) →
      (toolBlocks messages)[toolPlace c before]? =
          some (.toolCall (decodeCall c id callId name arguments)) ∧
        (toolBlocks messages)[toolPlace c before + (1 + toolPlace c between)]? =
          some (.toolResult (decodeOutput callId output)) := by
    intro before id callId name arguments between output after hitems
    rw [hblocks, hitems, List.filterMap_append, toolPlace, toolPlace]
    constructor
    · simp [toolBlock?]
    · rw [List.getElem?_append_right (Nat.le_add_right _ _), Nat.add_sub_cancel_left]
      simp [toolBlock?, Nat.add_comm 1]
  constructor
  · intro hpaired before id callId name arguments between output after hitems
    obtain ⟨hcall, hresult⟩ := hplaces _ _ _ _ _ _ _ _ hitems
    obtain ⟨call, result, hcall', hresult', hid⟩ := hpaired _ _ _ _ _ _ _ _ hitems
    obtain rfl : decodeCall c id callId name arguments = call := by
      simpa using hcall.symm.trans hcall'
    obtain rfl : decodeOutput callId output = result := by
      simpa using hresult.symm.trans hresult'
    -- the result's id is the `call_id`, the call's is its `id` where it has one
    cases id with
    | none => exact Or.inl rfl
    | some own => exact Or.inr (congrArg some hid.symm)
  · intro hanswered before id callId name arguments between output after hitems
    obtain ⟨hcall, hresult⟩ := hplaces _ _ _ _ _ _ _ _ hitems
    refine ⟨_, _, hcall, hresult, ?_⟩
    rcases hanswered _ _ _ _ _ _ _ _ hitems with rfl | rfl
    · rfl
    · rfl

/-! ## One call and its output -/

/-- A call and its output, with this `id` on the call. -/
def callAndOutput (id : Option String) : List InputItem :=
  [.functionCall id "call_1" "search" (.str "{}"), .functionCallOutput "call_1" (.str "sunny")]

theorem callAndOutput_eq {id id' : Option String} {before between after : List InputItem}
    {callId name : String} {arguments output : Json}
    (h : callAndOutput id = before ++ .functionCall id' callId name arguments ::
      (between ++ .functionCallOutput callId output :: after)) : id' = id := by
  cases before with
  | nil =>
    obtain ⟨hcall, -⟩ := List.cons.inj h
    cases hcall
    rfl
  | cons item before =>
    -- two more items would not fit behind the first
    have hlength := congrArg List.length h
    simp only [callAndOutput, List.length_cons, List.length_append, List.length_nil] at hlength
    omega

/-- A call without an `id` is paired with its output. -/
theorem call_without_id_paired : ∃ system messages,
    decodeItems objectCodec (callAndOutput none) = .ok (system, messages) ∧
      ToolsPaired objectCodec (callAndOutput none) messages :=
  ⟨_, _, rfl, (tools_paired_iff rfl).mpr fun _ _ _ _ _ _ _ _ h => Or.inl (callAndOutput_eq h)⟩

/-- A call as the gateway itself sends it, with an item id beside its
`call_id`, is not. -/
theorem replayed_call_not_paired : ∃ system messages,
    decodeItems objectCodec (callAndOutput (some "fc_0")) = .ok (system, messages) ∧
      ¬ ToolsPaired objectCodec (callAndOutput (some "fc_0")) messages := by
  refine ⟨_, _, rfl, fun h => ?_⟩
  obtain ⟨call, result, hcall, hresult, hid⟩ :=
    h [] (some "fc_0") "call_1" "search" (.str "{}") [] (.str "sunny") [] rfl
  cases hcall
  cases hresult
  exact absurd hid (by decide)

end AgentShim.OpenAiResponses
