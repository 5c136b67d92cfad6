import AgentShim.Frontends.AnthropicDecode
import AgentShim.Lib.Lists
import AgentShim.Lib.Saturating

/-
  The token count of an Anthropic request

  The counting endpoint reads its body as a message request, decodes it as the frontend
  would and adds up what every piece of it takes, each addition stopping at the largest
  `u32`. Whether a system message is folded into the instructions or stays among the
  messages, it takes the same, so the count is a sum over the pieces of the body, in
  whatever order the messages come.

  Correspondence (Rust ↔ Lean):
    `agent_shim_tokens`' `encode_ordinary(..)`  ↔ `encodedLen`, a parameter
      `.len()`
    `count_tokens::{count, count_message,       ↔ the same names; one round of the loop
      count_block, count_tool,                    over the instructions ↔ `countSystem`
      count_tool_choice, count_text}`
    `count_tokens_wire::CountTokensRequest`     ↔ `CountTokensRequest` (less what the
                                                  decoder does not read)
    `into_messages_request`                     ↔ `CountTokensRequest.intoMessagesRequest`
    `anthropic_count_tokens::handle`            ↔ `handle`, from what serde reads of the body

  What is proved:
    1. `countBlock_eq`, `count_eq` — a count is the sum of what the pieces take, cut once.
    2. `decode_accepts_iff` — which bodies are decoded.
    3. `handle_eq_ok_iff` — which bodies are answered, and with what.
-/

namespace AgentShim

namespace CountTokens

open AnthropicMessages
open OpenAiResponses (FrontendError Decoding)

def perMessage : Nat := 4
def perSystem : Nat := 4
def perToolUse : Nat := 8
def perToolResult : Nat := 6
def perReasoning : Nat := 4
def perToolDef : Nat := 10
def perToolChoice : Nat := 6
def perImage : Nat := 200

/-- `u32::MAX`. -/
abbrev maxCount : Nat := 4294967295

variable (c : Codec) (encodedLen : String → Nat)

/-- The length is cast to a `u32`. -/
def countText (s : String) : Nat := Wire.asU32 (encodedLen s)

def countBlock : ContentBlock → Nat
  | .text b => countText encodedLen b.text
  | .toolCall b =>
    Saturating.add maxCount
      (Saturating.add maxCount (countText encodedLen b.name)
        (countText encodedLen (b.arguments.toText c)))
      perToolUse
  | .toolResult b =>
    Saturating.add maxCount (countText encodedLen (c.renderJson b.content)) perToolResult
  | .reasoning b => Saturating.add maxCount (countText encodedLen b.text) perReasoning
  | .redactedReasoning b => Saturating.add maxCount (Wire.asU32 (Text.len b.data) / 4) perReasoning
  -- an image that the decoder could not read
  | .unsupported _ => perImage
  | .image _ | .audio _ | .file _ => perImage

def countMessage (msg : Message) : Nat :=
  msg.content.foldl (fun t block => Saturating.add maxCount t (countBlock c encodedLen block))
    perMessage

def countTool (t : ToolDefinition) : Nat :=
  Saturating.add maxCount
    (Saturating.add maxCount
      (Saturating.add maxCount (countText encodedLen t.name)
        (countText encodedLen (t.description.getD "")))
      (countText encodedLen (c.renderJson t.inputSchema)))
    perToolDef

def countToolChoice : ToolChoice → Nat
  | .auto => 0
  | .none | .required => perToolChoice
  | .specific name => Saturating.add maxCount (countText encodedLen name) perToolChoice

def countSystem (total : Nat) (sys : SystemInstruction) : Nat :=
  sys.content.foldl
    (fun total block => Saturating.add maxCount total (countBlock c encodedLen block))
    (Saturating.add maxCount total perSystem)

def count (req : CanonicalRequest) : Nat :=
  let total := req.system.foldl (countSystem c encodedLen) 0
  let total := req.messages.foldl
    (fun t msg => Saturating.add maxCount t (countMessage c encodedLen msg)) total
  let total := req.tools.foldl
    (fun t tool => Saturating.add maxCount t (countTool c encodedLen tool)) total
  Saturating.add maxCount total (countToolChoice encodedLen req.toolChoice)

/-! ## The endpoint -/

/-- A message request whose cap may be missing. -/
structure CountTokensRequest where
  model : String
  messages : List InboundMessage
  system : Option SystemField := none
  tools : Option (List InboundTool) := none
  toolChoice : Option InboundToolChoice := none
  maxTokens : Option Nat := none
  temperature : Option F64 := none
  topP : Option F64 := none
  topK : Option Nat := none
  stopSequences : Option (List String) := none

def CountTokensRequest.intoMessagesRequest (req : CountTokensRequest) : MessagesRequest where
  model := req.model
  messages := req.messages
  system := req.system
  tools := req.tools
  toolChoice := req.toolChoice
  maxTokens := req.maxTokens.getD 0
  temperature := req.temperature
  topP := req.topP
  topK := req.topK
  stopSequences := req.stopSequences

structure CountTokensResponse where
  inputTokens : Nat
  deriving DecidableEq, Repr

/-- `body` is what serde reads; the id of the canonical request is fresh. -/
def handle (id : String) (body : Except String CountTokensRequest) :
    Except FrontendError CountTokensResponse := do
  let req ← body.mapError .invalidBody
  let canonical ← decode c id req.intoMessagesRequest
  return { inputTokens := count c encodedLen canonical }

/-! ## What the pieces take -/

def blockTokens : ContentBlock → Nat
  | .text b => countText encodedLen b.text
  | .toolCall b =>
    countText encodedLen b.name + countText encodedLen (b.arguments.toText c) + perToolUse
  | .toolResult b => countText encodedLen (c.renderJson b.content) + perToolResult
  | .reasoning b => countText encodedLen b.text + perReasoning
  | .redactedReasoning b => Wire.asU32 (Text.len b.data) / 4 + perReasoning
  | .unsupported _ | .image _ | .audio _ | .file _ => perImage

def contentTokens (content : List ContentBlock) : Nat :=
  (content.map (blockTokens c encodedLen)).sum

def messageTokens (content : List ContentBlock) : Nat :=
  perMessage + contentTokens c encodedLen content

def toolTokens (t : ToolDefinition) : Nat :=
  countText encodedLen t.name + countText encodedLen (t.description.getD "") +
    countText encodedLen (c.renderJson t.inputSchema) + perToolDef

def choiceTokens : ToolChoice → Nat
  | .auto => 0
  | .none | .required => perToolChoice
  | .specific name => countText encodedLen name + perToolChoice

/-- What a request takes; an instruction takes what a message with its content does. -/
def requestTokens (req : CanonicalRequest) : Nat :=
  (req.system.map fun sys => messageTokens c encodedLen sys.content).sum +
    (req.messages.map fun msg => messageTokens c encodedLen msg.content).sum +
    (req.tools.map (toolTokens c encodedLen)).sum + choiceTokens encodedLen req.toolChoice

/-- What a body takes, piece by piece. -/
def bodyTokens (req : CountTokensRequest) : Nat :=
  ((decodeSystem c req.system).map fun sys => messageTokens c encodedLen sys.content).sum +
    (req.messages.map fun m => messageTokens c encodedLen (messageContent c m)).sum +
    ((req.tools.getD []).map fun t => toolTokens c encodedLen (toolDefinition t)).sum +
    choiceTokens encodedLen (decodeToolChoice req.toolChoice)

/-! ## The counts -/

variable {c encodedLen}

theorem countText_lt (s : String) : countText encodedLen s < 4294967296 :=
  Nat.mod_lt _ (by decide)

theorem countBlock_eq (b : ContentBlock) :
    countBlock c encodedLen b = min (blockTokens c encodedLen b) maxCount := by
  cases b with
  | text b =>
    have hle : countText encodedLen b.text ≤ maxCount := Nat.lt_succ_iff.mp (countText_lt b.text)
    exact (Nat.min_eq_left hle).symm
  | toolCall b =>
    simp only [countBlock, blockTokens, Saturating.add]
    omega
  | toolResult b | reasoning b | redactedReasoning b => rfl
  | unsupported b | image b | audio b | file b => rfl

theorem foldl_countBlock (content : List ContentBlock) {t : Nat} (ht : t ≤ maxCount) :
    content.foldl (fun t block => Saturating.add maxCount t (countBlock c encodedLen block)) t =
      Saturating.add maxCount t (contentTokens c encodedLen content) := by
  apply Saturating.foldl_eq_add content _ ht
  intro t block _
  rw [countBlock_eq, Saturating.add_min_right]

theorem countMessage_eq (msg : Message) :
    countMessage c encodedLen msg = min (messageTokens c encodedLen msg.content) maxCount :=
  foldl_countBlock msg.content (by decide)

theorem countSystem_eq (total : Nat) (sys : SystemInstruction) :
    countSystem c encodedLen total sys =
      Saturating.add maxCount total (messageTokens c encodedLen sys.content) := by
  rw [countSystem, foldl_countBlock sys.content (Saturating.add_le _ _ _)]
  simp only [Saturating.add, messageTokens, perMessage, perSystem]
  omega

theorem countTool_eq (t : ToolDefinition) :
    countTool c encodedLen t = min (toolTokens c encodedLen t) maxCount := by
  simp only [countTool, toolTokens, Saturating.add]
  omega

theorem countToolChoice_eq (choice : ToolChoice) :
    countToolChoice encodedLen choice = min (choiceTokens encodedLen choice) maxCount := by
  cases choice <;> rfl

theorem foldl_countSystem (system : List SystemInstruction) :
    system.foldl (countSystem c encodedLen) 0 =
      Saturating.add maxCount 0
        (system.map fun sys => messageTokens c encodedLen sys.content).sum :=
  Saturating.foldl_eq_add system (fun t sys _ => countSystem_eq t sys) (Nat.zero_le _)

theorem foldl_countMessage (messages : List Message) {t : Nat} (ht : t ≤ maxCount) :
    messages.foldl (fun t msg => Saturating.add maxCount t (countMessage c encodedLen msg)) t =
      Saturating.add maxCount t
        (messages.map fun msg => messageTokens c encodedLen msg.content).sum := by
  apply Saturating.foldl_eq_add messages _ ht
  intro t msg _
  rw [countMessage_eq, Saturating.add_min_right]

theorem foldl_countTool (tools : List ToolDefinition) {t : Nat} (ht : t ≤ maxCount) :
    tools.foldl (fun t tool => Saturating.add maxCount t (countTool c encodedLen tool)) t =
      Saturating.add maxCount t (tools.map (toolTokens c encodedLen)).sum := by
  apply Saturating.foldl_eq_add tools _ ht
  intro t tool _
  rw [countTool_eq, Saturating.add_min_right]

/-- Cutting at every step is cutting once. -/
theorem count_eq (req : CanonicalRequest) :
    count c encodedLen req = min (requestTokens c encodedLen req) maxCount := by
  rw [count, foldl_countSystem, foldl_countMessage _ (Saturating.add_le _ _ _),
    foldl_countTool _ (Saturating.add_le _ _ _), countToolChoice_eq, Saturating.add_min_right,
    requestTokens]
  simp only [Saturating.add]
  omega

/-! ## Bodies -/

theorem decodeMessage_accepts_iff (s : Decoding) (m : InboundMessage) :
    (∃ s', decodeMessage c s m = .ok s') ↔ roleFromAnthropic m.role ≠ none := by
  unfold decodeMessage
  cases hrole : roleFromAnthropic m.role with
  | none => simp
  | some role =>
    apply iff_of_true _ (Option.some_ne_none role)
    cases role with
    | system => by_cases hphase : s.preludePhase <;> simp [hphase]
    | _ => exact ⟨_, rfl⟩

theorem foldlM_accepts_iff (msgs : List InboundMessage) (s : Decoding) :
    (∃ s', msgs.foldlM (decodeMessage c) s = .ok s') ↔
      ∀ m ∈ msgs, roleFromAnthropic m.role ≠ none := by
  induction msgs generalizing s with
  | nil => exact iff_of_true ⟨s, rfl⟩ fun _ hm => absurd hm List.not_mem_nil
  | cons m msgs ih =>
    rw [List.foldlM_cons, List.forall_mem_cons, ← decodeMessage_accepts_iff (c := c) s m]
    constructor
    · intro h
      obtain ⟨s', hs'⟩ := h
      obtain ⟨s₁, hs₁, hrest⟩ := Checks.do_eq_ok.mp hs'
      exact ⟨⟨s₁, hs₁⟩, (ih s₁).mp ⟨s', hrest⟩⟩
    · intro h
      obtain ⟨⟨s₁, hs₁⟩, hroles⟩ := h
      obtain ⟨s', hs'⟩ := (ih s₁).mpr hroles
      exact ⟨s', Checks.do_eq_ok.mpr ⟨s₁, hs₁, hs'⟩⟩

/-- A body is decoded iff the role of each of its messages is known. -/
theorem decode_accepts_iff (id : String) (req : MessagesRequest) :
    (∃ canonical, decode c id req = .ok canonical) ↔
      ∀ m ∈ req.messages, roleFromAnthropic m.role ≠ none := by
  rw [← foldlM_accepts_iff (c := c) req.messages
    { Decoding.start with system := decodeSystem c req.system }]
  constructor
  · intro h
    obtain ⟨canonical, hcanonical⟩ := h
    obtain ⟨s, hs, -⟩ := Checks.map_eq_ok.mp hcanonical
    exact ⟨s, hs⟩
  · intro h
    obtain ⟨s, hs⟩ := h
    exact ⟨_, Checks.map_eq_ok.mpr ⟨s, hs, rfl⟩⟩

/-- A message takes the same in the leading run and behind it. -/
theorem requestTokens_decoded {req : CountTokensRequest} {canonical : CanonicalRequest}
    (h : Decoded c req.intoMessagesRequest canonical) :
    requestTokens c encodedLen canonical = bodyTokens c encodedLen req := by
  obtain ⟨leading, hsystem, hleading⟩ := h.system
  have hfront : leading.map (fun sys => messageTokens c encodedLen sys.content) =
      (req.messages.takeWhile InboundMessage.isSystem).map
        fun m => messageTokens c encodedLen (messageContent c m) :=
    Lists.map_eq_of_forall₂ hleading fun m sys hsys => by rw [hsys]; rfl
  have hback : canonical.messages.map (fun msg => messageTokens c encodedLen msg.content) =
      (req.messages.dropWhile InboundMessage.isSystem).map
        fun m => messageTokens c encodedLen (messageContent c m) :=
    Lists.map_eq_of_forall₂ h.messages fun m msg hmsg => by rw [hmsg.content]
  have hall : (req.messages.map fun m => messageTokens c encodedLen (messageContent c m)).sum =
      ((req.messages.takeWhile InboundMessage.isSystem).map
        fun m => messageTokens c encodedLen (messageContent c m)).sum +
      ((req.messages.dropWhile InboundMessage.isSystem).map
        fun m => messageTokens c encodedLen (messageContent c m)).sum := by
    rw [← List.sum_append, ← List.map_append, List.takeWhile_append_dropWhile]
  have htools : canonical.tools.map (toolTokens c encodedLen) =
      (req.tools.getD []).map fun t => toolTokens c encodedLen (toolDefinition t) := by
    rw [h.tools, List.map_map]
    rfl
  have hchoice : canonical.toolChoice = decodeToolChoice req.toolChoice := h.toolChoice
  have hfield : canonical.system = decodeSystem c req.system ++ leading := hsystem
  rw [requestTokens, bodyTokens, hfield, List.map_append, List.sum_append, hfront, hback, htools,
    hchoice, hall]
  omega

theorem handle_ok (id : String) (req : CountTokensRequest) :
    handle c encodedLen id (.ok req) =
      (decode c id req.intoMessagesRequest).map
        fun canonical => { inputTokens := count c encodedLen canonical } := by
  show (decode c id req.intoMessagesRequest).bind _ = _
  cases decode c id req.intoMessagesRequest <;> rfl

/-- A body is answered iff the role of each of its messages is known, and then with what
its pieces take, cut to a `u32`. -/
theorem handle_eq_ok_iff (id : String) (req : CountTokensRequest) (out : CountTokensResponse) :
    handle c encodedLen id (.ok req) = .ok out ↔
      (∀ m ∈ req.messages, roleFromAnthropic m.role ≠ none) ∧
        out.inputTokens = min (bodyTokens c encodedLen req) maxCount := by
  have hroles := decode_accepts_iff (c := c) id req.intoMessagesRequest
  have hcount : ∀ canonical, decode c id req.intoMessagesRequest = .ok canonical →
      count c encodedLen canonical = min (bodyTokens c encodedLen req) maxCount := by
    intro canonical hcanonical
    rw [count_eq, requestTokens_decoded (decode_spec hcanonical)]
  rw [handle_ok, Checks.map_eq_ok]
  constructor
  · intro h
    obtain ⟨canonical, hcanonical, rfl⟩ := h
    exact ⟨hroles.mp ⟨canonical, hcanonical⟩, hcount canonical hcanonical⟩
  · intro h
    obtain ⟨hknown, hout⟩ := h
    obtain ⟨canonical, hcanonical⟩ := hroles.mpr hknown
    refine ⟨canonical, hcanonical, ?_⟩
    rw [hcount canonical hcanonical, ← hout]

end CountTokens

end AgentShim
