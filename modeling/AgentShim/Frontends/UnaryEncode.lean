import AgentShim.Core.Content
import AgentShim.Frontends.AnthropicStream
import AgentShim.Frontends.ChatStream
import AgentShim.Frontends.ResponsesStream
import AgentShim.Providers.TextRuns
import Mathlib.Data.List.Chain

/-
  The unary encoders

  A client that does not stream is answered with one JSON body, in the dialect it
  asked in. Each frontend writes the blocks its dialect has and leaves the others out:
  Anthropic keeps all it can in order, Chat joins the texts into one content beside the
  calls, and Responses makes one message of the texts between two other items.

  Correspondence (Rust ↔ Lean):
    `anthropic_messages::wire::{MessagesResponse, ↔ `MessagesResponse`,
      OutboundContentBlock}`                        `OutboundContentBlock`
    `anthropic_messages::encode_unary::encode`    ↔ `AnthropicMessages.encodeUnary`
    `openai_chat::wire::{ChatCompletionOut, …}`   ↔ `ChatCompletionOut`, `UnaryToolCall`
    `openai_chat::encode_unary`                   ↔ `OpenAiChat.encodeUnary`
    `openai_responses::encode_unary`, its locals, ↔ `OpenAiResponses.encodeUnary`,
      `flush_text`                                  `UnaryState`, `flushText`
    `SystemTime::now`, `clock_override`           ↔ the parameter `created`

  What is proved:
    1. `output_eq` — the items of a Responses answer are the runs of its content, in
       order and numbered from 0 on.
    2. `separated_runsOf`, `runsOf_of_separated` — runs have no two texts in a row, and
       what has none is its own runs.
-/

namespace AgentShim

/-! ## Anthropic Messages -/

namespace AnthropicMessages

open Json (number member)

inductive OutboundContentBlock
  | text (text : String)
  | toolUse (id name : String) (input : Json)
  | thinking (thinking : String)
  | redactedThinking (data : String)

def OutboundContentBlock.toJson : OutboundContentBlock → Json
  | text s => .obj [("type", .str "text"), ("text", .str s)]
  | toolUse id name input =>
    .obj [("type", .str "tool_use"), ("id", .str id), ("name", .str name), ("input", input)]
  | thinking s => .obj [("type", .str "thinking"), ("thinking", .str s)]
  | redactedThinking data => .obj [("type", .str "redacted_thinking"), ("data", .str data)]

def OutboundUsage.toJson (u : OutboundUsage) : Json :=
  .obj ([("input_tokens", number u.inputTokens), ("output_tokens", number u.outputTokens)] ++
    member "cache_creation_input_tokens" (u.cacheCreationInputTokens.map number) ++
    member "cache_read_input_tokens" (u.cacheReadInputTokens.map number))

structure MessagesResponse where
  id : String
  content : List OutboundContentBlock
  model : String
  stopReason : String
  stopSequence : Option String
  usage : OutboundUsage

def MessagesResponse.toJson (r : MessagesResponse) : Json :=
  .obj ([("id", .str r.id), ("type", .str "message"), ("role", .str "assistant"),
    ("content", .arr (r.content.map OutboundContentBlock.toJson)), ("model", .str r.model),
    ("stop_reason", .str r.stopReason)] ++
    member "stop_sequence" (r.stopSequence.map Json.str) ++ [("usage", r.usage.toJson)])

/-- The input of a call; text that is no JSON is kept as a string. -/
def unaryInput (c : Codec) : ToolCallArguments → Json
  | .complete value => value
  | .streaming data => (c.parseJson data).getD (.str data)

def outboundBlock (c : Codec) : ContentBlock → Option OutboundContentBlock
  | .text b => some (.text b.text)
  | .toolCall b => some (.toolUse b.id b.name (unaryInput c b.arguments))
  | .reasoning b => some (.thinking b.text)
  | .redactedReasoning b => some (.redactedThinking b.data)
  | .image _ | .audio _ | .file _ | .toolResult _ | .unsupported _ => none

def outboundUsage (u : Usage) : OutboundUsage where
  inputTokens := u.inputTokens.getD 0
  outputTokens := u.outputTokens.getD 0
  cacheCreationInputTokens := u.cacheCreationInputTokens
  cacheReadInputTokens := u.cacheReadInputTokens

def encodeUnary (c : Codec) (response : CanonicalResponse) : MessagesResponse where
  id := response.id
  content := response.content.filterMap (outboundBlock c)
  model := response.model
  stopReason := stopReasonToAnthropic response.stopReason
  stopSequence := response.stopSequence
  usage := (response.usage.map outboundUsage).getD {}

end AnthropicMessages

/-! ## Chat Completions -/

namespace OpenAiChat

open Json (number member)

structure UnaryToolCall where
  id : String
  name : String
  arguments : String
  deriving DecidableEq, Repr

def UnaryToolCall.toJson (call : UnaryToolCall) : Json :=
  .obj [("id", .str call.id), ("type", .str "function"),
    ("function", .obj [("name", .str call.name), ("arguments", .str call.arguments)])]

/-- With one choice, of index 0 and the role "assistant". -/
structure ChatCompletionOut where
  id : String
  created : Nat
  model : String
  content : Option String
  toolCalls : List UnaryToolCall
  finishReason : String
  usage : Option UsageOut
  deriving DecidableEq, Repr

def ChatCompletionOut.message (out : ChatCompletionOut) : Json :=
  .obj ([("role", .str "assistant")] ++ member "content" (out.content.map Json.str) ++
    (if out.toolCalls = [] then []
      else [("tool_calls", .arr (out.toolCalls.map UnaryToolCall.toJson))]))

def ChatCompletionOut.choice (out : ChatCompletionOut) : Json :=
  .obj [("index", number 0), ("message", out.message), ("finish_reason", .str out.finishReason)]

def ChatCompletionOut.toJson (out : ChatCompletionOut) : Json :=
  .obj ([("id", .str out.id), ("object", .str "chat.completion"), ("created", number out.created),
    ("model", .str out.model), ("choices", .arr [out.choice])] ++
    member "usage" (out.usage.map UsageOut.toJson))

def unaryToolCall (c : Codec) (b : ToolCallBlock) : UnaryToolCall where
  id := b.id
  name := b.name
  arguments := b.arguments.toText c

/-- The texts joined, if there is one. -/
def unaryContent (texts : List String) : Option String :=
  if texts = [] then none else some (String.join texts)

def encodeUnary (c : Codec) (created : Nat) (response : CanonicalResponse) :
    ChatCompletionOut where
  id := response.id
  created := created
  model := response.model
  content := unaryContent (response.content.filterMap ContentBlock.text?)
  toolCalls := (response.content.filterMap ContentBlock.toolCall?).map (unaryToolCall c)
  finishReason := finishReasonFromCanonical response.stopReason
  usage := response.usage.map usageOut

end OpenAiChat

/-! ## Responses -/

namespace OpenAiResponses

open Json (number member)

structure UnaryState where
  output : List OutputItem := []
  textParts : List String := []
  msgIndex : Nat := 0

def flushText (s : UnaryState) : UnaryState :=
  if s.textParts = [] then s
  else
    { output := s.output ++ [.message ("msg_" ++ toString s.msgIndex) "completed"
        [.outputText (String.join s.textParts)]]
      textParts := []
      msgIndex := Wire.addU32 s.msgIndex 1 }

/-- Adds an item behind the text so far. -/
def pushItem (item : Nat → OutputItem) (s : UnaryState) : UnaryState :=
  let s := flushText s
  { s with output := s.output ++ [item s.msgIndex], msgIndex := Wire.addU32 s.msgIndex 1 }

def unaryBlock (c : Codec) (s : UnaryState) : ContentBlock → UnaryState
  | .text b => { s with textParts := s.textParts ++ [b.text] }
  | .toolCall b =>
    pushItem (fun i => .functionCall ("fc_" ++ toString i) b.id b.name (b.arguments.toText c)
      "completed") s
  | .reasoning b =>
    pushItem (fun i => .reasoning ("rs_" ++ toString i) "completed" [.reasoning b.text]) s
  | .image _ | .audio _ | .file _ | .toolResult _ | .redactedReasoning _ | .unsupported _ => s

def unaryOutput (c : Codec) (content : List ContentBlock) : List OutputItem :=
  (flushText (content.foldl (unaryBlock c) {})).output

structure ResponseObject where
  id : String
  status : String
  model : String
  createdAt : Nat
  output : List OutputItem
  usage : Option UsageOut
  deriving DecidableEq, Repr

def ResponseObject.toJson (r : ResponseObject) : Json :=
  .obj ([("id", .str r.id), ("object", .str "response"), ("status", .str r.status),
    ("model", .str r.model), ("created_at", number r.createdAt),
    ("output", .arr (r.output.map OutputItem.toJson))] ++
    member "usage" (r.usage.map UsageOut.toJson))

def usageOut (u : Usage) : UsageOut where
  inputTokens := u.inputTokens.getD 0
  outputTokens := u.outputTokens.getD 0

def encodeUnary (c : Codec) (created : Nat) (response : CanonicalResponse) : ResponseObject where
  id := "resp_" ++ response.id
  status := statusFromStopReason response.stopReason
  model := response.model
  createdAt := created
  output := unaryOutput c response.content
  usage := response.usage.map usageOut

/-! ### The items are the runs of the content -/

/-- What a block says, if the dialect has a word for it. -/
def spokenBlock (c : Codec) : ContentBlock → Option Spoken
  | .text b => some (.text b.text)
  | .toolCall b => some (.call b.id b.name (b.arguments.toText c))
  | .reasoning b => some (.reasoning b.text)
  | .image _ | .audio _ | .file _ | .toolResult _ | .redactedReasoning _ | .unsupported _ => none

/-- A text joins the run of texts; anything else ends it. -/
def saying (d : Draft) : Spoken → Draft
  | .text s => d.say .text s
  | x => d.tell x

/-- What is said with texts that follow one another made one. -/
def runsOf (said : List Spoken) : List Spoken := (said.foldl saying {}).readings

/-- The item of what is said, under a number. -/
def spokenItem (i : Nat) : Spoken → OutputItem
  | .text s => .message ("msg_" ++ toString i) "completed" [.outputText s]
  | .reasoning s => .reasoning ("rs_" ++ toString i) "completed" [.reasoning s]
  | .call id name arguments =>
    .functionCall ("fc_" ++ toString i) id name arguments "completed"

/-- The items of a list, numbered from 0 on in `u32`. -/
def numbered (said : List Spoken) : List OutputItem :=
  said.zipIdx.map fun x => spokenItem (Wire.asU32 x.2) x.1

/-- The items so far are what was said before the open run, and the run is what is kept. -/
structure Itemizes (d : Draft) (s : UnaryState) : Prop where
  output : s.output = numbered d.ended
  next : s.msgIndex = Wire.asU32 d.ended.length
  run : d.run = if s.textParts = [] then none else some (.text, String.join s.textParts)

variable {c : Codec} {d : Draft} {s : UnaryState}

theorem numbered_concat (said : List Spoken) (x : Spoken) :
    numbered (said ++ [x]) = numbered said ++ [spokenItem (Wire.asU32 said.length) x] := by
  simp [numbered, List.zipIdx_append]

theorem next_asU32 (n : Nat) : Wire.addU32 (Wire.asU32 n) 1 = Wire.asU32 (n + 1) := by
  simp only [Wire.addU32, Wire.asU32]
  omega

theorem Itemizes.flush (h : Itemizes d s) : Itemizes d.endRun (flushText s) := by
  have hrun := h.run
  by_cases hparts : s.textParts = []
  · rw [if_pos hparts] at hrun
    have hended : d.endRun.ended = d.ended := by
      simp [Draft.endRun, Draft.readings, hrun]
    rw [flushText, if_pos hparts]
    refine ⟨?_, ?_, ?_⟩
    · rw [hended]
      exact h.output
    · rw [hended]
      exact h.next
    · rw [if_pos hparts]
      rfl
  · rw [if_neg hparts] at hrun
    have hended : d.endRun.ended = d.ended ++ [.text (String.join s.textParts)] := by
      simp [Draft.endRun, Draft.readings, hrun, runReading]
    rw [flushText, if_neg hparts]
    refine ⟨?_, ?_, rfl⟩
    · rw [hended, numbered_concat, h.output, h.next]
      rfl
    · rw [hended, List.length_append, h.next]
      exact next_asU32 _

theorem Itemizes.push (h : Itemizes d s) {item : Nat → OutputItem} {x : Spoken}
    (hitem : ∀ i, item i = spokenItem i x) : Itemizes (d.tell x) (pushItem item s) := by
  have hflush := h.flush
  have hended : (d.tell x).ended = d.endRun.ended ++ [x] := rfl
  have hparts : (flushText s).textParts = [] := by
    by_cases hparts : s.textParts = [] <;> simp [flushText, hparts]
  refine ⟨?_, ?_, ?_⟩
  · calc (pushItem item s).output
        = (flushText s).output ++ [item (flushText s).msgIndex] := rfl
      _ = numbered d.endRun.ended ++ [spokenItem (Wire.asU32 d.endRun.ended.length) x] := by
          rw [hflush.output, hitem, hflush.next]
      _ = numbered (d.tell x).ended := by rw [hended, numbered_concat]
  · calc (pushItem item s).msgIndex
        = Wire.addU32 (flushText s).msgIndex 1 := rfl
      _ = Wire.asU32 (d.endRun.ended.length + 1) := by rw [hflush.next, next_asU32]
      _ = Wire.asU32 (d.tell x).ended.length := by rw [hended, List.length_append]; rfl
  · show none = if (flushText s).textParts = [] then none else _
    rw [if_pos hparts]

theorem Itemizes.text (h : Itemizes d s) (text : String) :
    Itemizes (d.say .text text) { s with textParts := s.textParts ++ [text] } := by
  have hrun := h.run
  by_cases hparts : s.textParts = []
  · rw [if_pos hparts] at hrun
    have hother : ∀ before, d.run ≠ some (DeltaKind.text, before) := by simp [hrun]
    have hsay := Draft.say_of_ne hother text
    have hended : (d.say .text text).ended = d.ended := by
      simp [hsay, Draft.readings, hrun]
    refine ⟨?_, ?_, ?_⟩
    · rw [hended]
      exact h.output
    · rw [hended]
      exact h.next
    · simp [hsay, hparts]
  · rw [if_neg hparts] at hrun
    have hsay := Draft.say_of_eq hrun text
    have hended : (d.say .text text).ended = d.ended := by rw [hsay]
    refine ⟨?_, ?_, ?_⟩
    · rw [hended]
      exact h.output
    · rw [hended]
      exact h.next
    · simp [hsay, String.join_append]

theorem Itemizes.blocks (h : Itemizes d s) (content : List ContentBlock) :
    Itemizes ((content.filterMap (spokenBlock c)).foldl saying d)
      (content.foldl (unaryBlock c) s) := by
  induction content generalizing d s with
  | nil => exact h
  | cons b content ih =>
    cases b with
    | text b => exact ih (h.text b.text)
    | toolCall b => exact ih (h.push (x := .call _ _ _) fun _ => rfl)
    | reasoning b => exact ih (h.push (x := .reasoning _) fun _ => rfl)
    | _ => exact ih h

/-- The items of an answer are the runs of what its content says, numbered in order. -/
theorem output_eq (c : Codec) (content : List ContentBlock) :
    unaryOutput c content = numbered (runsOf (content.filterMap (spokenBlock c))) := by
  have hinit : Itemizes {} {} := ⟨rfl, rfl, rfl⟩
  exact ((hinit.blocks (c := c) content).flush).output

/-! ### Runs -/

def isText : Spoken → Bool
  | .text _ => true
  | .reasoning _ | .call _ _ _ => false

/-- No two texts follow one another. -/
def Separated (said : List Spoken) : Prop :=
  said.IsChain fun a b => ¬ (isText a = true ∧ isText b = true)

/-- The runs so far: the open one is the last and the only text that may grow. -/
structure RunsSoFar (said : List Spoken) (d : Draft) : Prop where
  separated : Separated d.readings
  growing : d.run = none → ∀ x ∈ d.readings.getLast?, isText x = false
  ofText : ∀ kind text, d.run = some (kind, text) → kind = .text
  short : d.readings.length ≤ said.length

theorem separated_concat {said : List Spoken} {x : Spoken} :
    Separated (said ++ [x]) ↔
      Separated said ∧ ∀ y ∈ said.getLast?, ¬ (isText y = true ∧ isText x = true) := by
  unfold Separated
  rw [List.isChain_append]
  simp

theorem RunsSoFar.tell {said : List Spoken} (h : RunsSoFar said d) {x : Spoken}
    (hx : isText x = false) : RunsSoFar (said ++ [x]) (d.tell x) where
  separated := by
    rw [Draft.readings_tell, separated_concat]
    exact ⟨h.separated, fun _ _ hboth => by simp [hx] at hboth⟩
  growing := by
    intro _ y hy
    rw [Draft.readings_tell, List.getLast?_concat] at hy
    rw [← Option.mem_some_iff.mp hy, hx]
  ofText := fun _ _ hrun => by cases hrun
  short := by
    rw [Draft.readings_tell, List.length_append, List.length_append]
    exact Nat.add_le_add_right h.short 1

theorem RunsSoFar.text {said : List Spoken} (h : RunsSoFar said d) (text : String) :
    RunsSoFar (said ++ [.text text]) (d.say .text text) := by
  cases hrun : d.run with
  | none =>
    have hother : ∀ before, d.run ≠ some (DeltaKind.text, before) := by simp [hrun]
    have hsay := Draft.say_of_ne hother text
    have hreadings : (d.say .text text).readings = d.readings ++ [.text text] := by
      rw [hsay]
      rfl
    refine ⟨?_, ?_, ?_, ?_⟩
    · rw [hreadings, separated_concat]
      refine ⟨h.separated, fun y hy hboth => ?_⟩
      rw [h.growing hrun y hy] at hboth
      cases hboth.1
    · rw [hsay]
      exact fun hnone => by cases hnone
    · rw [hsay]
      intro kind text hsome
      cases hsome
      rfl
    · rw [hreadings, List.length_append, List.length_append]
      exact Nat.add_le_add_right h.short 1
  | some run =>
    obtain ⟨kind, before⟩ := run
    obtain rfl : kind = .text := h.ofText kind before hrun
    have hsay := Draft.say_of_eq hrun text
    have hbefore : d.readings = d.ended ++ [.text before] := by
      simp [Draft.readings, hrun, runReading]
    have hreadings : (d.say .text text).readings = d.ended ++ [.text (before ++ text)] := by
      rw [hsay]
      rfl
    refine ⟨?_, ?_, ?_, ?_⟩
    · have hseparated := h.separated
      rw [hbefore, separated_concat] at hseparated
      rw [hreadings, separated_concat]
      exact hseparated
    · rw [hsay]
      exact fun hnone => by cases hnone
    · rw [hsay]
      intro kind text hsome
      cases hsome
      rfl
    · have hshort := h.short
      rw [hbefore, List.length_append] at hshort
      rw [hreadings, List.length_append, List.length_append]
      simp only [List.length_cons, List.length_nil] at hshort ⊢
      omega

theorem runsSoFar (said : List Spoken) : RunsSoFar said (said.foldl saying {}) := by
  induction said using List.reverseRecOn with
  | nil =>
    exact ⟨List.isChain_nil, fun _ x hx => by simp [Draft.readings] at hx,
      fun kind text hrun => by simp at hrun, Nat.le_refl 0⟩
  | append_singleton said x ih =>
    rw [List.foldl_append, List.foldl_cons, List.foldl_nil]
    cases x with
    | text text => exact ih.text text
    | reasoning text => exact ih.tell rfl
    | call id name arguments => exact ih.tell rfl

theorem separated_runsOf (said : List Spoken) : Separated (runsOf said) :=
  (runsSoFar said).separated

theorem length_runsOf_le (said : List Spoken) : (runsOf said).length ≤ said.length :=
  (runsSoFar said).short

/-- Where no two texts follow one another there is nothing to join. -/
theorem runsOf_of_separated {said : List Spoken} (h : Separated said) : runsOf said = said := by
  induction said using List.reverseRecOn with
  | nil => rfl
  | append_singleton said x ih =>
    obtain ⟨hsaid, hlast⟩ := separated_concat.mp h
    have hreadings : (said.foldl saying {}).readings = said := ih hsaid
    rw [runsOf, List.foldl_append, List.foldl_cons, List.foldl_nil]
    cases x with
    | reasoning text =>
      show ((said.foldl saying {}).tell (.reasoning text)).readings = _
      rw [Draft.readings_tell, hreadings]
    | call id name arguments =>
      show ((said.foldl saying {}).tell (.call id name arguments)).readings = _
      rw [Draft.readings_tell, hreadings]
    | text text =>
      have hidle : ∀ before, (said.foldl saying {}).run ≠ some (.text, before) := by
        intro before hrun
        have hend : said.getLast? = some (.text before) := by
          rw [← hreadings, Draft.readings, hrun]
          exact List.getLast?_concat
        exact hlast _ hend ⟨rfl, rfl⟩
      rw [saying, Draft.say_of_ne hidle]
      show (said.foldl saying {}).readings ++ [.text text] = _
      rw [hreadings]

end OpenAiResponses

end AgentShim
