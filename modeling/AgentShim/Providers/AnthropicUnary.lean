import AgentShim.Core.Content
import AgentShim.Providers.AnthropicSse
import AgentShim.Stream.Serial

/-
  The Anthropic unary parser

  A whole Anthropic message becomes the events of a stream. A body with an error is one
  error event; of any other body serde reads the response, and each block of its content
  is put out at its place. Thoughts come with their text only, redacted thoughts without
  their data.

  Correspondence (Rust ↔ Lean):
    `wire::{IncomingMessagesResponse,        ↔ the same; `read` is what serde reads of
      IncomingContentBlock}`                    a JSON object
    `parse_unary`, `parse_unary_inner`       ↔ `parseUnary`, `parseUnaryInner`
    the error envelope                       ↔ `upstreamError`
    the body of its loop                     ↔ `unaryBlock`
    `is_usage_empty`                         ↔ `isUsageEmpty`

  What is proved:
    1. `parseUnaryInner_eq` — the events are those of a whole response.
    2. `message_lifecycle_iff` — they keep the contract iff the blocks fit a word.
-/

namespace AgentShim

namespace AnthropicSse

open SerialResponse (placedFrom blockEvents)

/-! ## The wire -/

inductive IncomingContentBlock
  | text (text : String)
  | toolUse (id name : String) (input : Json)
  | thinking (thinking : String) (signature : Option String)
  | redactedThinking (data : String)

structure IncomingMessagesResponse where
  id : String
  model : String := ""
  content : List IncomingContentBlock := []
  stopReason : Option String := none
  stopSequence : Option String := none
  usage : Option IncomingUsage := none

/-- A member that is an option: absent or null is none. -/
def readOption {α : Type} (read : Json → Option α) (v : Json) (key : String) : Option (Option α) :=
  match v.get key with
  | none | some .null => some none
  | some member => (read member).map some

/-- A member that has a default where it is absent. -/
def readDefault {α : Type} (default : α) (read : Json → Option α) (v : Json) (key : String) :
    Option α :=
  match v.get key with
  | none => some default
  | some member => read member

/-- An integer that fits 32 unsigned bits. -/
def readU32 (v : Json) : Option Nat :=
  v.asU64.filter (· < 4294967296)

def IncomingContentBlock.read (v : Json) : Option IncomingContentBlock :=
  match v.getStr "type" with
  | some "text" => (v.getStr "text").map .text
  | some "tool_use" =>
    (v.getStr "id").bind fun id =>
      (v.getStr "name").bind fun name => (v.get "input").map (.toolUse id name)
  | some "thinking" =>
    (v.getStr "thinking").bind fun thinking =>
      (readOption Json.asStr v "signature").map (.thinking thinking)
  | some "redacted_thinking" => (v.getStr "data").map .redactedThinking
  | _ => none

def IncomingUsage.read (v : Json) : Option IncomingUsage :=
  match v with
  | .obj _ =>
    (readOption readU32 v "input_tokens").bind fun input =>
      (readOption readU32 v "output_tokens").bind fun output =>
        (readOption readU32 v "cache_creation_input_tokens").bind fun creation =>
          (readOption readU32 v "cache_read_input_tokens").map fun cached =>
            { inputTokens := input, outputTokens := output,
              cacheCreationInputTokens := creation, cacheReadInputTokens := cached }
  | _ => none

/-- The blocks of an array, if each is one. -/
def readContentBlocks (v : Json) : Option (List IncomingContentBlock) :=
  v.asArray.bind (·.mapM IncomingContentBlock.read)

def IncomingMessagesResponse.read (v : Json) : Option IncomingMessagesResponse :=
  (v.getStr "id").bind fun id =>
    (readDefault "" Json.asStr v "model").bind fun model =>
      (readDefault [] readContentBlocks v "content").bind fun content =>
        (readOption Json.asStr v "stop_reason").bind fun stopReason =>
          (readOption Json.asStr v "stop_sequence").bind fun stopSequence =>
            (readOption IncomingUsage.read v "usage").map fun usage =>
              { id := id, model := model, content := content, stopReason := stopReason,
                stopSequence := stopSequence, usage := usage }

/-! ## The parser -/

variable (c : Codec)

def isUsageEmpty (u : Usage) : Bool :=
  u.inputTokens.isNone && u.outputTokens.isNone && u.cacheCreationInputTokens.isNone &&
    u.cacheReadInputTokens.isNone

def upstreamError (err : Json) : StreamEvent :=
  .error ("upstream " ++ (err.getStr "type").getD "api_error" ++ ": " ++
    (err.getStr "message").getD "upstream error")

def unaryBlock (index : Nat) : IncomingContentBlock → List StreamEvent
  | .text text =>
    [.contentBlockStart index .text] ++ (if text = "" then [] else [.textDelta index text]) ++
      [.contentBlockStop index]
  | .toolUse id name input =>
    [.contentBlockStart index .toolCall, .toolCallStart index id name,
      .toolCallArgumentsDelta index (c.renderJson input), .toolCallStop index,
      .contentBlockStop index]
  | .thinking thinking _ =>
    [.contentBlockStart index .reasoning] ++
      (if thinking = "" then [] else [.reasoningDelta index thinking]) ++
      [.contentBlockStop index]
  | .redactedThinking _ =>
    [.contentBlockStart index .redactedReasoning, .contentBlockStop index]

def unaryStopReason (resp : IncomingMessagesResponse) : StopReason :=
  (resp.stopReason.map stopReasonFromAnthropic).getD .endTurn

/-- The body as JSON, if it is, and what serde reads of it as a response. -/
def parseUnaryInner (body : Option Json) (typed : Except String IncomingMessagesResponse) :
    Except String (List StreamEvent) :=
  match body.bind fun v => v.get "error" with
  | some err => .ok [upstreamError err]
  | none =>
    match typed with
    | .error e => .error ("anthropic unary json parse: " ++ e)
    | .ok resp =>
      let usage := (resp.usage.map mapUsage).getD {}
      .ok ([.responseStart resp.id resp.model 0, .messageStart .assistant] ++
        (if isUsageEmpty usage then [] else [.usageDelta usage]) ++
        (resp.content.zipIdx.flatMap fun b => unaryBlock c (Wire.asU32 b.2) b.1) ++
        [.messageStop (unaryStopReason resp) resp.stopSequence,
          .responseStop (if isUsageEmpty usage then none else some usage)])

def parseUnary (body : Option Json) (typed : Except String IncomingMessagesResponse) :
    List (Except StreamError StreamEvent) :=
  match parseUnaryInner c body typed with
  | .ok events => events.map .ok
  | .error e => [.error (.decode e)]

/-! ## The whole response of a message -/

def wholeBlock : IncomingContentBlock → SerialBlock
  | .text text => .text (SerialBlock.inOnePiece text)
  | .toolUse id name input => .toolCall id name [c.renderJson input]
  | .thinking thinking _ => .reasoning (SerialBlock.inOnePiece thinking)
  | .redactedThinking _ => .redactedReasoning

/-- The usage, if it has a count. -/
def toldUsage (resp : IncomingMessagesResponse) : Option Usage :=
  (resp.usage.map mapUsage).filter fun u => !isUsageEmpty u

def wholeMessage (resp : IncomingMessagesResponse) : SerialResponse where
  id := resp.id
  model := resp.model
  created := 0
  opening := toldUsage resp
  blocks := placedFrom 0 (resp.content.map (wholeBlock c))
  stopReason := unaryStopReason resp
  stopSequence := resp.stopSequence
  usage := toldUsage resp

variable {c} {body : Option Json} {resp : IncomingMessagesResponse}

theorem unaryBlock_eq (index : Nat) (b : IncomingContentBlock) :
    unaryBlock c index b = (wholeBlock c b).events index := by
  cases b with
  | text text => by_cases h : text = "" <;> simp [unaryBlock, wholeBlock, SerialBlock.events,
      SerialBlock.inside, SerialBlock.kind, SerialBlock.inOnePiece, h]
  | thinking thinking signature => by_cases h : thinking = "" <;> simp [unaryBlock, wholeBlock,
      SerialBlock.events, SerialBlock.inside, SerialBlock.kind, SerialBlock.inOnePiece, h]
  | toolUse id name input => rfl
  | redactedThinking data => rfl

theorem unaryBlocks_eq (start : Nat) (content : List IncomingContentBlock) :
    ((content.zipIdx start).flatMap fun b => unaryBlock c (Wire.asU32 b.2) b.1) =
      blockEvents (placedFrom start (content.map (wholeBlock c))) := by
  rw [blockEvents, placedFrom, List.zipIdx_map, List.map_map, List.flatMap_map]
  simp only [unaryBlock_eq]
  rfl

theorem toldUsage_eq (resp : IncomingMessagesResponse) :
    toldUsage resp =
      if isUsageEmpty ((resp.usage.map mapUsage).getD {}) then none
      else some ((resp.usage.map mapUsage).getD {}) := by
  rw [toldUsage]
  cases resp.usage with
  | none => rfl
  | some u => cases hempty : isUsageEmpty (mapUsage u) <;> simp [hempty]

/-- The events of a message are those of its whole response. -/
theorem parseUnaryInner_eq (herror : (body.bind fun v => v.get "error") = none) :
    parseUnaryInner c body (.ok resp) = .ok (wholeMessage c resp).events := by
  have hopening : (if isUsageEmpty ((resp.usage.map mapUsage).getD {}) then []
      else [StreamEvent.usageDelta ((resp.usage.map mapUsage).getD {})]) =
      ((toldUsage resp).map StreamEvent.usageDelta).toList := by
    rw [toldUsage_eq]
    cases isUsageEmpty ((resp.usage.map mapUsage).getD {}) <;> rfl
  rw [parseUnaryInner, herror]
  simp only [hopening, ← toldUsage_eq, unaryBlocks_eq]
  rfl

/-- The events of a message keep the contract, with the tool events of each block in
order, iff the places of its blocks fit a word. -/
theorem message_lifecycle_iff (c : Codec) (herror : (body.bind fun v => v.get "error") = none)
    (resp : IncomingMessagesResponse) :
    ∃ events, parseUnaryInner c body (.ok resp) = .ok events ∧
      (LifecycleValid events ∧ ToolsNested events ↔ resp.content.length ≤ 4294967296) := by
  refine ⟨_, parseUnaryInner_eq herror, ?_⟩
  rw [SerialResponse.lifecycle_iff, wholeMessage, SerialResponse.nodup_placed_iff, List.length_map]

theorem message_lifecycle_text :
    ∃ events, parseUnaryInner objectCodec none (.ok { id := "msg_1", content := [.text "Hi."] }) =
        .ok events ∧ (LifecycleValid events ∧ ToolsNested events ↔ 1 ≤ 4294967296) :=
  message_lifecycle_iff objectCodec rfl { id := "msg_1", content := [.text "Hi."] }

end AnthropicSse

end AgentShim
