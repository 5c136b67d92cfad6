import AgentShim.Frontends.UnaryEncode
import AgentShim.Gateway.SerialCollect
import AgentShim.Providers.AnthropicUnary
import AgentShim.Providers.ChatUnary
import AgentShim.Providers.GeminiReplay

/-
  One gateway behind another

  The unary encoder of a frontend and the unary parser of the provider that speaks the
  same dialect are mirror images: what one gateway answers, a gateway in front of it
  reads, collects and answers again. What a dialect cannot say is lost on the first
  hop; after that nothing changes, however many gateways follow.

  What is proved:
    1. `read_messagesResponse` — what serde reads of an Anthropic answer.
    2. `anthropicHop_eq`, `chatHop_eq` — what comes through one hop.
    3. `anthropic_relayed`, `chat_relayed` — and through any number of them.
    4. `replay_recreates_iff` — which responses come through the replay of Gemini.
-/

namespace AgentShim.Gateway

open Json (number member)

variable (c : Codec)

/-- The response behind a number of hops. -/
def relayed (hop : CanonicalResponse → Except HandlerError CanonicalResponse) :
    Nat → CanonicalResponse → Except HandlerError CanonicalResponse
  | 0, r => .ok r
  | n + 1, r => (hop r).bind (relayed hop n)

/-- The counts of a usage that the wire has fit their type. -/
def WordCounts (u : Usage) : Prop :=
  ∀ n, u.inputTokens = some n ∨ u.outputTokens = some n ∨
    u.cacheCreationInputTokens = some n ∨ u.cacheReadInputTokens = some n → n < 4294967296

/-- A hop that leaves alone what came through it may be repeated. -/
theorem relayed_succ {hop : CanonicalResponse → Except HandlerError CanonicalResponse}
    {r r' : CanonicalResponse} (hfirst : hop r = .ok r') (hlater : hop r' = .ok r') (n : Nat) :
    relayed hop (n + 1) r = .ok r' := by
  have hstay : ∀ n, relayed hop n r' = .ok r' := by
    intro n
    induction n with
    | zero => rfl
    | succ n ih =>
      rw [relayed, hlater]
      exact ih
  rw [relayed, hfirst]
  exact hstay n

/-- A count that fits its type does so with its default. -/
theorem getD_lt {count : Option Nat} (h : ∀ n, count = some n → n < 4294967296) :
    count.getD 0 < 4294967296 := by
  cases count with
  | none => exact Nat.zero_lt_succ _
  | some n => exact h n rfl

theorem getD_word {count : Option Nat} {n : Nat} (he : count.getD 0 = n)
    (h : ∀ n, count = some n → n < 4294967296) : n < 4294967296 := he ▸ getD_lt h

/-- An answer with a thought, a text and a call. -/
def zoomAnswer : CanonicalResponse where
  id := "msg_1"
  model := "sonnet"
  content := [.reasoning { text := "the map" }, .ofText "Zooming.",
    .toolCall { id := "call_1", name := "zoom", arguments := .complete (.obj []) }]
  stopReason := .toolUse
  stopSequence := none
  usage := some { inputTokens := some 7, outputTokens := some 3 }

theorem zoomAnswer_counts : ∀ u, zoomAnswer.usage = some u → WordCounts u := by
  intro u hu n hn
  cases hu
  simp only [Option.some.injEq, reduceCtorEq, or_false] at hn
  omega

theorem zoomAnswer_call {b : ToolCallBlock} (h : .toolCall b ∈ zoomAnswer.content) :
    b.arguments = .complete (.obj []) := by
  simp only [zoomAnswer, ContentBlock.ofText, List.mem_cons, reduceCtorEq,
    ContentBlock.toolCall.injEq, List.not_mem_nil, or_false, false_or] at h
  rw [h]

/-! ## Anthropic -/

section anthropic

open AnthropicMessages AnthropicSse

/-- Written by the frontend, read by the provider and collected again. -/
def anthropicHop (freshId serdeError : String) (r : CanonicalResponse) :
    Except HandlerError CanonicalResponse :=
  let body := (encodeUnary c r).toJson
  collectStream c freshId (parseUnary c (some body)
    ((IncomingMessagesResponse.read body).elim (.error serdeError) .ok))

/-- The usage with all its counts, 0 where the provider told none. -/
def anthropicUsage (u : Option Usage) : Usage where
  inputTokens := some ((u.bind Usage.inputTokens).getD 0)
  outputTokens := some ((u.bind Usage.outputTokens).getD 0)
  cacheCreationInputTokens := u.bind Usage.cacheCreationInputTokens
  cacheReadInputTokens := u.bind Usage.cacheReadInputTokens

/-- Texts with something in them and calls with their input come through. -/
def anthropicMirrorBlock : ContentBlock → Option ContentBlock
  | .text b => if b.text = "" then none else some (.ofText b.text)
  | .toolCall b =>
    some (.toolCall
      { id := b.id, name := b.name, arguments := .complete (unaryInput c b.arguments) })
  | .image _ | .audio _ | .file _ | .toolResult _ | .reasoning _ | .redactedReasoning _
  | .unsupported _ => none

def anthropicMirror (r : CanonicalResponse) : CanonicalResponse where
  id := r.id
  model := r.model
  content := r.content.filterMap (anthropicMirrorBlock c)
  stopReason := stopReasonFromAnthropic (stopReasonToAnthropic r.stopReason)
  stopSequence := r.stopSequence
  usage := some (anthropicUsage r.usage)

/-- The input of each call is read back as it was written. -/
def InputsReadBack (content : List ContentBlock) : Prop :=
  ∀ b, .toolCall b ∈ content →
    c.parseJson (c.renderJson (unaryInput c b.arguments)) = some (unaryInput c b.arguments)

/-- How a block that was written reads. -/
def incomingBlock : OutboundContentBlock → IncomingContentBlock
  | .text s => .text s
  | .toolUse id name input => .toolUse id name input
  | .thinking s => .thinking s none
  | .redactedThinking data => .redactedThinking data

def incomingUsage (u : OutboundUsage) : IncomingUsage where
  inputTokens := some u.inputTokens
  outputTokens := some u.outputTokens
  cacheCreationInputTokens := u.cacheCreationInputTokens
  cacheReadInputTokens := u.cacheReadInputTokens

variable {c} {r : CanonicalResponse}

theorem read_outboundBlock (b : OutboundContentBlock) :
    IncomingContentBlock.read b.toJson = some (incomingBlock b) := by
  cases b <;> rfl

theorem read_content (bs : List OutboundContentBlock) :
    readContentBlocks (.arr (bs.map OutboundContentBlock.toJson)) =
      some (bs.map incomingBlock) := by
  show (bs.map OutboundContentBlock.toJson).mapM IncomingContentBlock.read = _
  induction bs with
  | nil => rfl
  | cons b bs ih =>
    rw [List.map_cons, List.mapM_cons, read_outboundBlock, ih]
    rfl

theorem readU32_number {n : Nat} (h : n < 4294967296) : readU32 (number n) = some n := by
  rw [readU32, Json.asU64_number h, Option.filter_some, if_pos (by simpa using h)]

/-- A count that fits its type is read as it was written. -/
theorem readOption_count {v : Json} {key : String} {count : Option Nat}
    (hget : v.get key = count.map number) (hword : ∀ n, count = some n → n < 4294967296) :
    readOption readU32 v key = some count := by
  rw [readOption, hget]
  cases count with
  | none => rfl
  | some n =>
    show (readU32 (number n)).map some = _
    rw [readU32_number (hword n rfl)]
    rfl

theorem read_outboundUsage {u : OutboundUsage} (hinput : u.inputTokens < 4294967296)
    (houtput : u.outputTokens < 4294967296)
    (hcreation : ∀ n, u.cacheCreationInputTokens = some n → n < 4294967296)
    (hcached : ∀ n, u.cacheReadInputTokens = some n → n < 4294967296) :
    IncomingUsage.read u.toJson = some (incomingUsage u) := by
  obtain ⟨input, output, creation, cached⟩ := u
  have hget₁ : (OutboundUsage.toJson ⟨input, output, creation, cached⟩).get "input_tokens" =
      (some input).map number := rfl
  have hget₂ : (OutboundUsage.toJson ⟨input, output, creation, cached⟩).get "output_tokens" =
      (some output).map number := rfl
  have hget₃ : (OutboundUsage.toJson ⟨input, output, creation, cached⟩).get
      "cache_creation_input_tokens" = creation.map number := by
    cases creation <;> cases cached <;> rfl
  have hget₄ : (OutboundUsage.toJson ⟨input, output, creation, cached⟩).get
      "cache_read_input_tokens" = cached.map number := by
    cases creation <;> cases cached <;> rfl
  have hfields : ∀ fields, IncomingUsage.read (.obj fields) =
      (readOption readU32 (.obj fields) "input_tokens").bind fun input =>
        (readOption readU32 (.obj fields) "output_tokens").bind fun output =>
          (readOption readU32 (.obj fields) "cache_creation_input_tokens").bind fun creation =>
            (readOption readU32 (.obj fields) "cache_read_input_tokens").map fun cached =>
              ⟨input, output, creation, cached⟩ := fun _ => rfl
  rw [OutboundUsage.toJson] at hget₁ hget₂ hget₃ hget₄ ⊢
  rw [hfields, readOption_count hget₁ (by simpa using hinput),
    readOption_count hget₂ (by simpa using houtput), readOption_count hget₃ hcreation,
    readOption_count hget₄ hcached]
  rfl

/-- What serde reads of an answer. -/
theorem read_messagesResponse {m : MessagesResponse}
    (husage : IncomingUsage.read m.usage.toJson = some (incomingUsage m.usage)) :
    IncomingMessagesResponse.read m.toJson =
      some { id := m.id, model := m.model, content := m.content.map incomingBlock
             stopReason := some m.stopReason, stopSequence := m.stopSequence
             usage := some (incomingUsage m.usage) } := by
  obtain ⟨id, content, model, stopReason, stopSequence, usage⟩ := m
  have hid : (MessagesResponse.toJson ⟨id, content, model, stopReason, stopSequence, usage⟩).getStr
      "id" = some id := rfl
  have hmodel : readDefault "" Json.asStr
      (MessagesResponse.toJson ⟨id, content, model, stopReason, stopSequence, usage⟩) "model" =
      some model := rfl
  have hcontent : readDefault [] readContentBlocks
      (MessagesResponse.toJson ⟨id, content, model, stopReason, stopSequence, usage⟩) "content" =
      some (content.map incomingBlock) := read_content content
  have hreason : readOption Json.asStr
      (MessagesResponse.toJson ⟨id, content, model, stopReason, stopSequence, usage⟩)
      "stop_reason" = some (some stopReason) := rfl
  have hsequence : readOption Json.asStr
      (MessagesResponse.toJson ⟨id, content, model, stopReason, stopSequence, usage⟩)
      "stop_sequence" = some stopSequence := by
    cases stopSequence <;> rfl
  have hcounts : readOption IncomingUsage.read
      (MessagesResponse.toJson ⟨id, content, model, stopReason, stopSequence, usage⟩) "usage" =
      some (some (incomingUsage usage)) := by
    have hget : (MessagesResponse.toJson ⟨id, content, model, stopReason, stopSequence,
        usage⟩).get "usage" = some usage.toJson := by
      cases stopSequence <;> rfl
    rw [readOption, hget]
    show (IncomingUsage.read usage.toJson).map some = _
    rw [husage]
    rfl
  rw [IncomingMessagesResponse.read, hid, hmodel, hcontent, hreason, hsequence, hcounts]
  rfl

theorem wordCounts_outbound (hcounts : ∀ u, r.usage = some u → WordCounts u) :
    IncomingUsage.read (encodeUnary c r).usage.toJson =
      some (incomingUsage (encodeUnary c r).usage) := by
  cases husage : r.usage with
  | none =>
    apply read_outboundUsage <;> simp [encodeUnary, husage]
  | some u =>
    have hu := hcounts u husage
    apply read_outboundUsage <;> simp only [encodeUnary, husage, Option.map_some, Option.getD_some,
      outboundUsage]
    · exact getD_lt fun n hn => hu n (.inl hn)
    · exact getD_lt fun n hn => hu n (.inr (.inl hn))
    · exact fun n hn => hu n (.inr (.inr (.inl hn)))
    · exact fun n hn => hu n (.inr (.inr (.inr hn)))

/-- The block that comes of a block which was written, read and put out. -/
theorem collected_written (b : ContentBlock)
    (hread : ∀ tc, b = .toolCall tc →
      c.parseJson (c.renderJson (unaryInput c tc.arguments)) = some (unaryInput c tc.arguments)) :
    ((outboundBlock c b).map fun o => wholeBlock c (incomingBlock o)).bind (collectedBlock c) =
      anthropicMirrorBlock c b := by
  cases b with
  | toolCall tc =>
    show collectedBlock c (.toolCall tc.id tc.name [c.renderJson (unaryInput c tc.arguments)]) = _
    rw [collected_callInOne, toolBlock, hread tc rfl]
    rfl
  | text b => exact collected_textInOne c b.text
  | _ => rfl

theorem content_hop (hread : InputsReadBack c r.content) :
    (SerialResponse.placedFrom 0 (((r.content.filterMap (outboundBlock c)).map incomingBlock).map
        (wholeBlock c))).filterMap (fun b => collectedBlock c b.2) =
      r.content.filterMap (anthropicMirrorBlock c) := by
  calc _ = ((SerialResponse.placedFrom 0 (((r.content.filterMap (outboundBlock c)).map
          incomingBlock).map (wholeBlock c))).map Prod.snd).filterMap (collectedBlock c) := by
        rw [List.filterMap_map]
        rfl
    _ = r.content.filterMap fun b => ((outboundBlock c b).map fun o =>
          wholeBlock c (incomingBlock o)).bind (collectedBlock c) := by
        rw [SerialResponse.map_snd_placedFrom, List.map_map, List.map_filterMap,
          List.filterMap_filterMap]
        rfl
    _ = r.content.filterMap (anthropicMirrorBlock c) := by
        apply List.filterMap_congr
        intro b hb
        apply collected_written
        intro tc htc
        exact hread tc (htc ▸ hb)

/-- What comes through one hop. -/
theorem anthropicHop_eq (freshId serdeError : String)
    (hcounts : ∀ u, r.usage = some u → WordCounts u) (hread : InputsReadBack c r.content) :
    anthropicHop c freshId serdeError r = .ok (anthropicMirror c r) := by
  have herror : ((some (encodeUnary c r).toJson).bind fun v => v.get "error") = none := by
    show (MessagesResponse.toJson _).get "error" = none
    cases hsequence : r.stopSequence <;> simp only [encodeUnary, hsequence] <;> rfl
  have hbody := read_messagesResponse (wordCounts_outbound (c := c) hcounts)
  rw [anthropicHop]
  simp only [hbody, Option.elim_some]
  rw [parseUnary, parseUnaryInner_eq herror]
  show collectStream c freshId ((SerialResponse.events _).map .ok) = _
  rw [collect_serial, collectedSerial]
  refine congrArg Except.ok ?_
  have hcontent := content_hop hread
  have htold : toldUsage { id := r.id, model := (encodeUnary c r).model
                           content := (encodeUnary c r).content.map incomingBlock
                           stopReason := some (encodeUnary c r).stopReason
                           stopSequence := (encodeUnary c r).stopSequence
                           usage := some (incomingUsage (encodeUnary c r).usage) } =
      some (anthropicUsage r.usage) := by
    cases hu : r.usage <;>
      simp [toldUsage, isUsageEmpty, incomingUsage, mapUsage, encodeUnary, hu, anthropicUsage,
        outboundUsage]
  simp only [anthropicMirror, CanonicalResponse.mk.injEq]
  exact ⟨rfl, rfl, hcontent, rfl, rfl, Option.or_self.trans htold⟩

/-- What came through one hop is left alone by the next. -/
theorem anthropicMirror_mirror (r : CanonicalResponse) :
    anthropicMirror c (anthropicMirror c r) = anthropicMirror c r := by
  have hreason : ∀ reason, stopReasonFromAnthropic (stopReasonToAnthropic
      (stopReasonFromAnthropic (stopReasonToAnthropic reason))) =
      stopReasonFromAnthropic (stopReasonToAnthropic reason) := by
    intro reason
    cases reason <;> rfl
  have hblock : ∀ b, (anthropicMirrorBlock c b).bind (anthropicMirrorBlock c) =
      anthropicMirrorBlock c b := by
    intro b
    cases b with
    | text b =>
      by_cases hempty : b.text = "" <;> simp [anthropicMirrorBlock, hempty, ContentBlock.ofText]
    | _ => rfl
  have husage : anthropicUsage (some (anthropicUsage r.usage)) = anthropicUsage r.usage := by
    cases r.usage <;> simp [anthropicUsage]
  simp only [anthropicMirror, CanonicalResponse.mk.injEq, true_and]
  refine ⟨?_, hreason _, congrArg some husage⟩
  rw [List.filterMap_filterMap]
  exact List.filterMap_congr fun b _ => hblock b

theorem wordCounts_mirror (hcounts : ∀ u, r.usage = some u → WordCounts u) :
    ∀ u, (anthropicMirror c r).usage = some u → WordCounts u := by
  intro u hu n hn
  obtain rfl : anthropicUsage r.usage = u := Option.some.inj hu
  cases husage : r.usage with
  | none =>
    simp only [husage, anthropicUsage, Option.bind_none, Option.getD_none, Option.some.injEq,
      reduceCtorEq, or_false] at hn
    omega
  | some u =>
    have hword := hcounts u husage
    simp only [husage, anthropicUsage, Option.bind_some] at hn
    rcases hn with hn | hn | hn | hn
    · exact getD_word (Option.some.inj hn) fun k hk => hword k (.inl hk)
    · exact getD_word (Option.some.inj hn) fun k hk => hword k (.inr (.inl hk))
    · exact hword n (.inr (.inr (.inl hn)))
    · exact hword n (.inr (.inr (.inr hn)))

theorem inputsReadBack_mirror (hread : InputsReadBack c r.content) :
    InputsReadBack c (anthropicMirror c r).content := by
  intro b hb
  obtain ⟨b', hb', hmirror⟩ := List.mem_filterMap.mp hb
  cases b' with
  | toolCall tc =>
    cases hmirror
    exact hread tc hb'
  | text t =>
    by_cases hempty : t.text = ""
    · simp [anthropicMirrorBlock, hempty] at hmirror
    · simp [anthropicMirrorBlock, hempty, ContentBlock.ofText] at hmirror
  | _ => cases hmirror

/-- Behind one gateway or behind many, a client of an Anthropic frontend is told the
same: every text that is not empty and every call with its input, in order, with the stop
and the counts; the thoughts are lost at the first. -/
theorem anthropic_relayed (freshId serdeError : String)
    (hcounts : ∀ u, r.usage = some u → WordCounts u) (hread : InputsReadBack c r.content)
    (n : Nat) :
    relayed (anthropicHop c freshId serdeError) (n + 1) r = .ok (anthropicMirror c r) := by
  apply relayed_succ
  · exact anthropicHop_eq freshId serdeError hcounts hread
  · rw [anthropicHop_eq freshId serdeError (wordCounts_mirror hcounts)
      (inputsReadBack_mirror hread), anthropicMirror_mirror]

theorem zoomAnswer_anthropic :
    relayed (anthropicHop objectCodec "resp_0" "") 3 zoomAnswer =
      .ok (anthropicMirror objectCodec zoomAnswer) :=
  anthropic_relayed "resp_0" "" zoomAnswer_counts
    (fun b hb => by rw [zoomAnswer_call hb]; rfl) 2

end anthropic

/-! ## Chat -/

section chat

open OpenAiChat ChatUnary

def chatHop (freshId : String) (created : Nat) (r : CanonicalResponse) :
    Except HandlerError CanonicalResponse :=
  collectStream c freshId (parse (.ok (encodeUnary c created r).toJson))

/-- The text of all text blocks. -/
def chatText (r : CanonicalResponse) : String :=
  String.join (r.content.filterMap ContentBlock.text?)

def chatUsage (u : Usage) : Usage where
  inputTokens := some (u.inputTokens.getD 0)
  outputTokens := some (u.outputTokens.getD 0)

/-- The texts come through as one, in front of the calls. -/
def chatMirror (r : CanonicalResponse) : CanonicalResponse where
  id := r.id
  model := r.model
  content := (if chatText r = "" then [] else [.ofText (chatText r)]) ++
    (r.content.filterMap ContentBlock.toolCall?).map fun b =>
      toolBlock c (b.id, b.name) (b.arguments.toText c)
  stopReason := .fromProviderString (finishReasonFromCanonical r.stopReason)
  stopSequence := none
  usage := r.usage.map chatUsage

/-- What is read of the arguments of each call is read back as it is written. -/
def ArgumentsReadBack (content : List ContentBlock) : Prop :=
  ∀ b, .toolCall b ∈ content →
    let value := (c.parseJson (b.arguments.toText c)).getD .null
    c.parseJson (c.renderJson value) = some value

variable {c} {r : CanonicalResponse}

theorem message_content (out : ChatCompletionOut) :
    (ChatWire.nonEmpty out.message "content").toList.map (fun text => SerialBlock.text [text.val]) =
      if out.content.getD "" = "" then [] else [.text [out.content.getD ""]] := by
  have hget : out.message.getStr "content" = out.content := by
    cases hcontent : out.content <;> simp only [ChatCompletionOut.message, hcontent] <;>
      by_cases hcalls : out.toolCalls = [] <;> simp only [hcalls, if_true, if_false] <;> rfl
  unfold ChatWire.nonEmpty
  rw [hget]
  cases out.content with
  | none => rfl
  | some text => by_cases hempty : text = "" <;> simp [hempty]

theorem message_calls (out : ChatCompletionOut) :
    ((out.message.getArray "tool_calls").getD []).map wholeCall =
      out.toolCalls.map fun call => .toolCall call.id call.name [call.arguments] := by
  have hget : (out.message.getArray "tool_calls").getD [] =
      out.toolCalls.map UnaryToolCall.toJson := by
    cases hcontent : out.content <;> simp only [ChatCompletionOut.message, hcontent] <;>
      by_cases hcalls : out.toolCalls = [] <;> simp only [hcalls, if_true, if_false] <;> rfl
  rw [hget, List.map_map]
  rfl

/-- The whole response that is read of an answer. -/
theorem parse_completion (out : ChatCompletionOut) :
    parse (.ok out.toJson) = (whole mapUsage out.toJson [out.choice]).events.map .ok := by
  have herror : out.toJson.get "error" = none := by
    cases husage : out.usage <;> simp only [ChatCompletionOut.toJson, husage] <;> rfl
  have hchoices : out.toJson.getArray "choices" = some [out.choice] := by
    cases husage : out.usage <;> simp only [ChatCompletionOut.toJson, husage] <;> rfl
  rw [parse, parseInner_eq herror hchoices]

theorem completion_usage {out : ChatCompletionOut} {u : Usage} (hword : WordCounts u)
    (husage : out.usage = some (usageOut u)) :
    (out.toJson.get "usage").map mapUsage = some (chatUsage u) := by
  have hcount : ∀ count : Option Nat, (∀ n, count = some n → n < 4294967296) →
      ((number (count.getD 0)).asU64).map Wire.asU32 = some (count.getD 0) := by
    intro count hall
    rw [Json.asU64_number (getD_lt hall), Option.map_some, Wire.asU32,
      Nat.mod_eq_of_lt (getD_lt hall)]
  have hget : out.toJson.get "usage" = some (usageOut u).toJson := by
    simp only [ChatCompletionOut.toJson, husage]
    rfl
  have hprompt : (usageOut u).toJson.get "prompt_tokens" =
      some (number (u.inputTokens.getD 0)) := rfl
  have hcompletion : (usageOut u).toJson.get "completion_tokens" =
      some (number (u.outputTokens.getD 0)) := rfl
  rw [hget, Option.map_some, mapUsage, Json.getU64, Json.getU64, hprompt, hcompletion,
    Option.bind_some, Option.bind_some, hcount _ fun n hn => hword n (.inl hn),
    hcount _ fun n hn => hword n (.inr (.inl hn)), chatUsage]

theorem unaryContent_getD (texts : List String) :
    (unaryContent texts).getD "" = String.join texts := by
  unfold unaryContent
  by_cases hnil : texts = []
  · rw [if_pos hnil, hnil]
    rfl
  · rw [if_neg hnil]
    rfl

/-- What comes through one hop. -/
theorem chatHop_eq (freshId : String) (created : Nat)
    (hcounts : ∀ u, r.usage = some u → WordCounts u) :
    chatHop c freshId created r = .ok (chatMirror c r) := by
  let out := encodeUnary c created r
  have hblocks : [out.choice].flatMap choiceBlocks =
      (if chatText r = "" then [] else [.text [chatText r]]) ++
        (r.content.filterMap ContentBlock.toolCall?).map fun b =>
          .toolCall b.id b.name [b.arguments.toText c] := by
    have htext : out.content.getD "" = chatText r := unaryContent_getD _
    have hmessage : messageBlocks out.message = _ :=
      congrArg₂ (· ++ ·) (message_content out) (message_calls out)
    rw [htext] at hmessage
    calc [out.choice].flatMap choiceBlocks = messageBlocks out.message := by
          simp only [List.flatMap_cons, List.flatMap_nil, List.append_nil]
          rfl
      _ = _ := by
          have hcalls : out.toolCalls =
              (r.content.filterMap ContentBlock.toolCall?).map (unaryToolCall c) := rfl
          rw [hmessage, hcalls, List.map_map]
          rfl
  have husage : (out.toJson.get "usage").map mapUsage = r.usage.map chatUsage := by
    cases hu : r.usage with
    | none =>
      have hnone : out.usage = none := by simp only [out, encodeUnary, hu, Option.map_none]
      have hget : out.toJson.get "usage" = none := by
        simp only [ChatCompletionOut.toJson, hnone]
        rfl
      rw [hget]
      rfl
    | some u =>
      exact completion_usage (hcounts u hu) (by simp only [out, encodeUnary, hu, Option.map_some])
  have hcontent : (whole mapUsage out.toJson [out.choice]).blocks.filterMap
      (fun b => collectedBlock c b.2) = (chatMirror c r).content := by
    calc _ = ((SerialResponse.placedFrom 0 ([out.choice].flatMap choiceBlocks)).map
            Prod.snd).filterMap (collectedBlock c) := by
          rw [List.filterMap_map]
          rfl
      _ = (chatMirror c r).content := by
          rw [SerialResponse.map_snd_placedFrom, hblocks, List.filterMap_append, List.filterMap_map]
          refine congrArg₂ (· ++ ·) ?_ ?_
          · by_cases hempty : chatText r = "" <;> simp [hempty, collectedBlock]
          · rw [← List.filterMap_eq_map]
            exact List.filterMap_congr fun b _ => collected_callInOne c b.id b.name _
  rw [chatHop, parse_completion, collect_serial]
  refine congrArg Except.ok ?_
  simp only [collectedSerial, chatMirror, CanonicalResponse.mk.injEq]
  refine ⟨?_, ?_, hcontent, ?_, rfl, ?_⟩
  · rfl
  · rfl
  · rfl
  · exact Option.or_none.trans husage

theorem texts_mirror (r : CanonicalResponse) :
    (chatMirror c r).content.filterMap ContentBlock.text? =
      if chatText r = "" then [] else [chatText r] := by
  have hcalls : ((r.content.filterMap ContentBlock.toolCall?).map fun b =>
      toolBlock c (b.id, b.name) (b.arguments.toText c)).filterMap ContentBlock.text? = [] := by
    apply List.filterMap_eq_nil_iff.mpr
    intro b hb
    obtain ⟨tc, _, rfl⟩ := List.mem_map.mp hb
    rfl
  rw [chatMirror, List.filterMap_append, hcalls, List.append_nil]
  by_cases hempty : chatText r = "" <;> simp [hempty, ContentBlock.ofText, ContentBlock.text?]

theorem calls_mirror (r : CanonicalResponse) :
    (chatMirror c r).content.filterMap ContentBlock.toolCall? =
      (r.content.filterMap ContentBlock.toolCall?).map fun b =>
        { id := b.id, name := b.name
          arguments := .complete ((c.parseJson (b.arguments.toText c)).getD .null) } := by
  have htext : (if chatText r = "" then [] else [ContentBlock.ofText (chatText r)]).filterMap
      ContentBlock.toolCall? = [] := by
    by_cases hempty : chatText r = "" <;> simp [hempty, ContentBlock.ofText, ContentBlock.toolCall?]
  rw [chatMirror, List.filterMap_append, htext, List.nil_append, List.filterMap_map,
    ← List.filterMap_eq_map]
  rfl

/-- What came through one hop is left alone by the next. -/
theorem chatMirror_mirror (hread : ArgumentsReadBack c r.content) :
    chatMirror c (chatMirror c r) = chatMirror c r := by
  have htext : chatText (chatMirror c r) = chatText r := by
    rw [chatText, texts_mirror]
    by_cases hempty : chatText r = "" <;> simp [hempty]
  have hcalls : ((chatMirror c r).content.filterMap ContentBlock.toolCall?).map (fun b =>
      toolBlock c (b.id, b.name) (b.arguments.toText c)) =
      (r.content.filterMap ContentBlock.toolCall?).map fun b =>
        toolBlock c (b.id, b.name) (b.arguments.toText c) := by
    rw [calls_mirror, List.map_map]
    apply List.map_congr_left
    intro b hb
    obtain ⟨b', hb', htc⟩ := List.mem_filterMap.mp hb
    have hmem : .toolCall b ∈ r.content := by
      cases b' with
      | toolCall tc =>
        cases htc
        exact hb'
      | _ => cases htc
    have hvalue := hread b hmem
    show toolBlock c (b.id, b.name) (c.renderJson _) = _
    rw [toolBlock, hvalue, toolBlock]
    rfl
  have hreason : ∀ reason, StopReason.fromProviderString (finishReasonFromCanonical
      (.fromProviderString (finishReasonFromCanonical reason))) =
      .fromProviderString (finishReasonFromCanonical reason) := by
    intro reason
    cases reason <;> rfl
  have husage : ((r.usage.map chatUsage).map chatUsage) = r.usage.map chatUsage := by
    cases r.usage <;> rfl
  rw [chatMirror, htext, hcalls]
  simp only [chatMirror, CanonicalResponse.mk.injEq, true_and]
  exact ⟨hreason _, husage⟩

theorem chatCounts_mirror (hcounts : ∀ u, r.usage = some u → WordCounts u) :
    ∀ u, (chatMirror c r).usage = some u → WordCounts u := by
  intro u hu n hn
  obtain ⟨u', hu', rfl⟩ := Option.map_eq_some_iff.mp hu
  have hword := hcounts u' hu'
  simp only [chatUsage, Option.some.injEq, reduceCtorEq, or_false] at hn
  cases hn with
  | inl hn => exact getD_word hn fun k hk => hword k (.inl hk)
  | inr hn => exact getD_word hn fun k hk => hword k (.inr (.inl hk))

/-- Behind one gateway or behind many, a client of a Chat frontend is told the same: the
texts as one in front of the calls, with their arguments, the reason and the counts. -/
theorem chat_relayed (freshId : String) (created : Nat)
    (hcounts : ∀ u, r.usage = some u → WordCounts u) (hread : ArgumentsReadBack c r.content)
    (n : Nat) : relayed (chatHop c freshId created) (n + 1) r = .ok (chatMirror c r) := by
  apply relayed_succ
  · exact chatHop_eq freshId created hcounts
  · rw [chatHop_eq freshId created (chatCounts_mirror hcounts), chatMirror_mirror hread]

theorem zoomAnswer_chat :
    relayed (chatHop objectCodec "resp_0" 1700000000) 3 zoomAnswer =
      .ok (chatMirror objectCodec zoomAnswer) :=
  chat_relayed "resp_0" 1700000000 zoomAnswer_counts
    (fun b hb => by rw [zoomAnswer_call hb]; rfl) 2

end chat

/-! ## Gemini -/

section gemini

open Gemini

/-- Replayed as a stream and collected from it. -/
def replayHop (host : Host) (freshId replayId : String) (r : CanonicalResponse) :
    Except HandlerError CanonicalResponse :=
  collectStream c freshId ((canonicalResponseToEvents c host replayId r).map .ok)

/-- A block that a stream carries with all it has. -/
def Replayable : ContentBlock → Prop
  | .text b => b.text ≠ "" ∧ b.extensions = .empty
  | .toolCall b => ∃ value, b.arguments = .complete value ∧ b.extensions = .empty ∧
      (c.parseJson (c.renderJson value)).getD .null = value
  | .image _ | .audio _ | .file _ | .toolResult _ | .reasoning _ | .redactedReasoning _
  | .unsupported _ => False

variable {c} {r : CanonicalResponse}

theorem replayed_collected_iff (b : ContentBlock) :
    (replayed c b).bind (collectedBlock c) = some b ↔ Replayable c b := by
  cases b with
  | text b =>
    obtain ⟨text, extensions⟩ := b
    show collectedBlock c (.text (SerialBlock.inOnePiece text)) = _ ↔ _
    rw [collected_textInOne]
    by_cases hempty : text = ""
    · simp [hempty, Replayable]
    · simp [hempty, Replayable, ContentBlock.ofText, eq_comm]
  | toolCall b =>
    obtain ⟨id, name, arguments, extensions⟩ := b
    show collectedBlock c (.toolCall id name [arguments.toText c]) = _ ↔ _
    rw [collected_callInOne]
    cases arguments with
    | streaming data => simp [toolBlock, Replayable]
    | complete value =>
      simp only [toolBlock, Replayable, ToolCallArguments.toText, Option.some.injEq,
        ContentBlock.toolCall.injEq, ToolCallBlock.mk.injEq, true_and,
        ToolCallArguments.complete.injEq, exists_eq_left']
      constructor
      · exact fun h => ⟨h.2.symm, h.1⟩
      · exact fun h => ⟨h.2, h.1.symm⟩
  | _ => simp [replayed, Replayable, collectedBlock]

theorem content_replayed (content : List ContentBlock) :
    (wrapped (replayedFrom c 0 content)).filterMap (fun b => collectedBlock c b.2) =
      content.filterMap fun b => (replayed c b).bind (collectedBlock c) := by
  have hfrom : ∀ start, (replayedFrom c start content).filterMap (fun b => collectedBlock c b.2) =
      content.filterMap fun b => (replayed c b).bind (collectedBlock c) := by
    induction content with
    | nil => exact fun _ => rfl
    | cons b content ih =>
      intro start
      rw [replayedFrom_cons, List.filterMap_append, ih (start + 1)]
      cases hb : replayed c b with
      | none => simp [hb]
      | some w => cases hw : collectedBlock c w <;> simp [hb, hw]
  rw [wrapped, List.filterMap_map]
  exact hfrom 0

/-- The replay of a response and the collector give it back, under its new id, iff it has
nothing but texts that are not empty and whole calls, none with an extension. -/
theorem replay_recreates_iff (c : Codec) (host : Host) (freshId replayId : String)
    (r : CanonicalResponse) :
    replayHop c host freshId replayId r = .ok { r with id := replayId } ↔
      ∀ b ∈ r.content, Replayable c b := by
  have hcontent := content_replayed (c := c) r.content
  rw [replayHop, canonicalResponseToEvents_eq, collect_serial, Except.ok.injEq]
  simp only [collectedSerial, wholeReplay, hcontent, CanonicalResponse.mk.injEq, true_and,
    Option.or_none, and_true, Lists.filterMap_eq_self_iff, replayed_collected_iff]

end gemini

end AgentShim.Gateway
