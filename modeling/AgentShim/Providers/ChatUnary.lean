import AgentShim.Providers.DeepSeekUnary
import AgentShim.Stream.Serial

/-
  The Chat unary parser

  A whole chat completion of an OpenAI-compatible provider or of Copilot becomes the
  events of a stream. DeepSeek and GLM have a clone of it that reads more of the usage,
  so the two are shown to put out the same whole response.

  Correspondence (Rust ↔ Lean):
    `chat_unary_parser::{parse, parse_inner}` ↔ `parse`, `parseInner`
    the body of its loop                      ↔ `DeepSeekSse.readChoice`, the same text
    its usage                                 ↔ `mapUsage`

  What is proved:
    1. `puts_readChoice`, `puts_choices` — what the loop puts out, from any state.
    2. `parseInner_eq`, `parseUnaryInner_eq` — both parsers put out the whole response
       of the choices.
    3. `unary_lifecycle_iff` — which keeps the contract iff its blocks fit a word.
-/

namespace AgentShim

namespace ChatUnary

open Transducer ChatWire DeepSeekSse
open SerialResponse (placedFrom blockEvents placedFrom_append blockEvents_append)

def mapUsage (u : Json) : Usage where
  inputTokens := (u.getU64 "prompt_tokens").map Wire.asU32
  outputTokens := (u.getU64 "completion_tokens").map Wire.asU32

def parseInner (body : Except String Json) : Except String (List StreamEvent) :=
  match body with
  | .error e => .error ("json parse: " ++ e)
  | .ok v =>
    match v.get "error" with
    | some err => .ok [.error (errorMessage err)]
    | none =>
      match v.getArray "choices" with
      | none => .error "missing choices"
      | some choices =>
        let (s, events) := forEach readChoice choices {}
        .ok ([.responseStart (chunkId v) (chunkModel v) (chunkCreated v),
            .messageStart .assistant] ++
          events ++
          [.messageStop s.stopReason none, .responseStop ((v.get "usage").map mapUsage)])

def parse (body : Except String Json) : List Item :=
  match parseInner body with
  | .ok events => events.map .ok
  | .error e => [.error (.decode e)]

/-! ## The whole response of a body -/

def wholeCall (tc : Json) : SerialBlock :=
  .toolCall ((tc.getStr "id").getD "call_unknown") (toolName tc) [wholeArguments tc]

def messageBlocks (message : Json) : List SerialBlock :=
  (nonEmpty message "content").toList.map (fun text => .text [text.val]) ++
    ((message.getArray "tool_calls").getD []).map wholeCall

def choiceBlocks (choice : Json) : List SerialBlock :=
  ((choice.get "message").map messageBlocks).getD []

/-- The last finish reason of the choices, the end of a turn where there is none. -/
def finish (choices : List Json) : StopReason :=
  ((choices.filterMap fun choice => choice.getStr "finish_reason").getLast?.map
    StopReason.fromProviderString).getD .endTurn

def whole (usageOf : Json → Usage) (v : Json) (choices : List Json) : SerialResponse where
  id := chunkId v
  model := chunkModel v
  created := chunkCreated v
  blocks := placedFrom 0 (choices.flatMap choiceBlocks)
  stopReason := finish choices
  stopSequence := none
  usage := (v.get "usage").map usageOf

/-! ## What the loop puts out -/

/-- Puts out the blocks from the next place on, and notes the last finish reason. -/
def Puts (f : UnaryParse) (bs : List SerialBlock) (reasons : List String) : Prop :=
  ∀ start reason,
    f { stopReason := reason, blockIndex := Wire.asU32 start } =
      ({ stopReason := (reasons.getLast?.map StopReason.fromProviderString).getD reason
         blockIndex := Wire.asU32 (start + bs.length) },
        blockEvents (placedFrom start bs))

variable {f g : UnaryParse} {as bs : List SerialBlock} {reasons more : List String}

theorem puts_skip : Puts skip [] [] := fun _ _ => rfl

theorem Puts.andThen (hf : Puts f as reasons) (hg : Puts g bs more) :
    Puts (andThen f g) (as ++ bs) (reasons ++ more) := by
  intro start reason
  have hreason : ((reasons ++ more).getLast?.map StopReason.fromProviderString).getD reason =
      (more.getLast?.map StopReason.fromProviderString).getD
        ((reasons.getLast?.map StopReason.fromProviderString).getD reason) := by
    rw [List.getLast?_append]
    cases more.getLast? <;> simp
  rw [andThen_apply, hf, hg, hreason, placedFrom_append, blockEvents_append, List.length_append,
    Nat.add_assoc]

theorem puts_wholeBlock {events : Nat → List StreamEvent} {b : SerialBlock}
    (h : ∀ i, events i = b.events i) : Puts (wholeBlock events) [b] [] := by
  intro start reason
  have hnext : Wire.addU32 (Wire.asU32 start) 1 = Wire.asU32 (start + 1) := by
    simp only [Wire.addU32, Wire.asU32]
    omega
  simp only [wholeBlock, hnext, h]
  simp [placedFrom, blockEvents]

theorem puts_textBlock (text : NonEmptyString) : Puts (textBlock text) [.text [text.val]] [] :=
  puts_wholeBlock fun _ => rfl

theorem puts_callBlock (tc : Json) : Puts (callBlock tc) [wholeCall tc] [] :=
  puts_wholeBlock fun _ => rfl

theorem puts_forEach {ι : Type} {step : ι → UnaryParse} {view : ι → List SerialBlock}
    {told : ι → List String} (h : ∀ i, Puts (step i) (view i) (told i)) (is : List ι) :
    Puts (forEach step is) (is.flatMap view) (is.flatMap told) := by
  induction is with
  | nil => exact puts_skip
  | cons i is ih =>
    rw [forEach_cons, List.flatMap_cons, List.flatMap_cons]
    exact (h i).andThen ih

theorem puts_readMessage (message : Json) :
    Puts (readMessage message) (messageBlocks message) [] := by
  have htext : Puts (ifSome (nonEmpty message "content") textBlock)
      ((nonEmpty message "content").toList.map fun text => .text [text.val]) [] := by
    cases nonEmpty message "content" with
    | none => exact puts_skip
    | some text => exact puts_textBlock text
  have hcalls : Puts (ifSome (message.getArray "tool_calls") fun tcs => forEach callBlock tcs)
      (((message.getArray "tool_calls").getD []).map wholeCall) [] := by
    cases message.getArray "tool_calls" with
    | none => exact puts_skip
    | some tcs =>
      have hnone : tcs.flatMap (fun _ => ([] : List String)) = [] := by simp
      have hall := puts_forEach puts_callBlock tcs
      rw [hnone, ← List.map_eq_flatMap] at hall
      exact hall
  rw [readMessage, inOrder_cons, inOrder_cons, inOrder_nil, andThen_skip]
  exact htext.andThen hcalls

theorem puts_readChoice (choice : Json) :
    Puts (readChoice choice) (choiceBlocks choice) (choice.getStr "finish_reason").toList := by
  have hreason : Puts (ifSome (choice.getStr "finish_reason") noteFinish) []
      (choice.getStr "finish_reason").toList := by
    cases choice.getStr "finish_reason" with
    | none => exact puts_skip
    | some reason => exact fun _ _ => rfl
  have hmessage : Puts (ifSome (choice.get "message") readMessage) (choiceBlocks choice) [] := by
    unfold choiceBlocks
    cases choice.get "message" with
    | none => exact puts_skip
    | some message => exact puts_readMessage message
  have hboth := hreason.andThen hmessage
  rw [List.nil_append, List.append_nil] at hboth
  rw [readChoice, inOrder_cons, inOrder_cons, inOrder_nil, andThen_skip]
  exact hboth

theorem puts_choices (choices : List Json) :
    forEach readChoice choices {} =
      ({ stopReason := finish choices
         blockIndex := Wire.asU32 (choices.flatMap choiceBlocks).length },
        blockEvents (placedFrom 0 (choices.flatMap choiceBlocks))) := by
  have hrun := puts_forEach puts_readChoice choices 0 .endTurn
  rw [Nat.zero_add] at hrun
  rw [finish, List.filterMap_eq_flatMap_toList]
  exact hrun

/-! ## Both parsers -/

variable {v : Json} {choices : List Json}

/-- The shared parser puts out the whole response of the choices. -/
theorem parseInner_eq (herror : v.get "error" = none)
    (hchoices : v.getArray "choices" = some choices) :
    parseInner (.ok v) = .ok (whole mapUsage v choices).events := by
  simp only [parseInner, herror, hchoices, puts_choices]
  rfl

/-- And so does the clone, with its own reading of the usage. -/
theorem parseUnaryInner_eq (herror : v.get "error" = none)
    (hchoices : v.getArray "choices" = some choices) :
    parseUnaryInner (.ok v) = .ok (whole DeepSeekSse.mapUsage v choices).events := by
  simp only [parseUnaryInner, herror, hchoices, puts_choices]
  rfl

/-- Of every body with choices both parsers put out events that keep the contract, with
the tool events of each block in order, iff the blocks fit a word. -/
theorem unary_lifecycle_iff (herror : v.get "error" = none)
    (hchoices : v.getArray "choices" = some choices) :
    ∃ shared cloned, parseInner (.ok v) = .ok shared ∧ parseUnaryInner (.ok v) = .ok cloned ∧
      (LifecycleValid shared ∧ ToolsNested shared ↔
        (choices.flatMap choiceBlocks).length ≤ 4294967296) ∧
      (LifecycleValid cloned ∧ ToolsNested cloned ↔
        (choices.flatMap choiceBlocks).length ≤ 4294967296) := by
  have hiff : ∀ usageOf, LifecycleValid (whole usageOf v choices).events ∧
      ToolsNested (whole usageOf v choices).events ↔
      (choices.flatMap choiceBlocks).length ≤ 4294967296 := by
    intro usageOf
    rw [SerialResponse.lifecycle_iff, whole, SerialResponse.nodup_placed_iff]
  exact ⟨_, _, parseInner_eq herror hchoices, parseUnaryInner_eq herror hchoices, hiff _, hiff _⟩

/-- A completion with a text and a call. -/
def zoomCompletion : Json :=
  .obj [("id", .str "chatcmpl_1"), ("choices", .arr [.obj [("message", .obj
    [("content", .str "Zooming."), ("tool_calls", .arr [.obj [("id", .str "call_1"),
      ("function", .obj [("name", .str "zoom"), ("arguments", .str "\x7b\x7d")])]])]),
    ("finish_reason", .str "tool_calls")]])]

theorem zoomCompletion_lifecycle :
    ∃ shared cloned, parseInner (.ok zoomCompletion) = .ok shared ∧
      parseUnaryInner (.ok zoomCompletion) = .ok cloned ∧
      (LifecycleValid shared ∧ ToolsNested shared ↔ 2 ≤ 4294967296) ∧
      (LifecycleValid cloned ∧ ToolsNested cloned ↔ 2 ≤ 4294967296) :=
  unary_lifecycle_iff (v := zoomCompletion) rfl rfl

end ChatUnary

end AgentShim
