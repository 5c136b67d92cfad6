import AgentShim.Providers.DeepSeekSse
import AgentShim.Stream.Readings

/-
  The DeepSeek unary parser

  A whole chat completion of the DeepSeek and GLM dialects becomes the events of a
  stream. The parser is a clone of the shared one: for each choice it puts out the
  content as one text block and each tool call as one block, and it reads no
  reasoning.

  Correspondence (Rust ↔ Lean):
    `parse_unary`, `parse_unary_inner`  ↔ `parseUnary`, `parseUnaryInner`
    its locals                          ↔ `UnaryState`
    the body of its loop                ↔ `readChoice`, `textBlock`, `callBlock`
    a single-choice completion          ↔ `Completion`, `completion`

  What is proved:
    1. `heard_parseUnaryInner` — what the events of a single-choice completion come
       to: its content, its calls, its finish reason and its usage.
-/

namespace AgentShim

namespace DeepSeekSse

open Transducer ChatWire

structure UnaryState where
  stopReason : StopReason := .endTurn
  blockIndex : Nat := 0

abbrev UnaryParse := Emitter UnaryState StreamEvent

def noteFinish (reason : String) : UnaryParse :=
  update fun s => { s with stopReason := .fromProviderString reason }

/-- Puts out a block and moves on to the next index. -/
def wholeBlock (events : Nat → List StreamEvent) : UnaryParse := fun s =>
  ({ s with blockIndex := Wire.addU32 s.blockIndex 1 }, events s.blockIndex)

def textBlock (text : NonEmptyString) : UnaryParse :=
  wholeBlock fun i => [.contentBlockStart i .text, .textDelta i text.val, .contentBlockStop i]

/-- The arguments of a whole call, the empty object where there are none. -/
def wholeArguments (tc : Json) : String :=
  (((tc.get "function").bind fun f => f.get "arguments").bind Json.asStr).getD "\x7b\x7d"

def callBlock (tc : Json) : UnaryParse :=
  wholeBlock fun i => [
    .contentBlockStart i .toolCall,
    .toolCallStart i ((tc.getStr "id").getD "call_unknown") (toolName tc),
    .toolCallArgumentsDelta i (wholeArguments tc),
    .toolCallStop i,
    .contentBlockStop i]

def readMessage (message : Json) : UnaryParse :=
  inOrder [
    ifSome (nonEmpty message "content") textBlock,
    ifSome (message.getArray "tool_calls") fun toolCalls => forEach callBlock toolCalls]

def readChoice (choice : Json) : UnaryParse :=
  inOrder [
    ifSome (choice.getStr "finish_reason") noteFinish,
    ifSome (choice.get "message") readMessage]

def parseUnaryInner (body : Except String Json) : Except String (List StreamEvent) :=
  match body with
  | .error e => .error ("json parse: " ++ e)
  | .ok v =>
    match v.get "error" with
    | some err => .ok [.error (errorMessage err)]
    | none =>
      match v.getArray "choices" with
      | none => .error "missing choices"
      | some choices =>
        let (s, events) := forEach readChoice choices {}
        .ok ([.responseStart (chunkId v) (chunkModel v) (chunkCreated v),
            .messageStart .assistant] ++
          events ++
          [.messageStop s.stopReason none, .responseStop ((v.get "usage").map mapUsage)])

def parseUnary (body : Except String Json) : List Item :=
  match parseUnaryInner body with
  | .ok events => events.map .ok
  | .error e => [.error (.decode e)]

/-! ## A completion with one choice -/

/-- A tool call of a message. -/
structure WireCall where
  id : Option String := none
  name : Option String := none
  arguments : Option String := none
  deriving DecidableEq, Repr

/-- What a completion with one choice has. -/
structure Completion where
  content : Option String := none
  reasoningContent : Option String := none
  toolCalls : List WireCall := []
  finishReason : Option String := none
  usage : Option Json := none

/-- A string member of the `function` of a tool call. -/
def functionStr (tc : Json) (key : String) : Option String :=
  ((tc.get "function").bind fun f => f.get key).bind Json.asStr

def wireCall (tc : Json) : WireCall where
  id := tc.getStr "id"
  name := functionStr tc "name"
  arguments := functionStr tc "arguments"

/-- Reads a body that is no error and has one choice with a message. -/
def completion (v : Json) : Option Completion :=
  match v.get "error", v.getArray "choices" with
  | none, some [choice] =>
    (choice.get "message").map fun message =>
      { content := message.getStr "content"
        reasoningContent := message.getStr "reasoning_content"
        toolCalls := ((message.getArray "tool_calls").getD []).map wireCall
        finishReason := choice.getStr "finish_reason"
        usage := v.get "usage" }
  | _, _ => none

/-! ## What the unary parser makes of it -/

/-- How a whole call reads. -/
def WireCall.whole (call : WireCall) : Spoken :=
  .call (call.id.getD "call_unknown") (call.name.getD "") (call.arguments.getD "\x7b\x7d")

def textReadings (text : Option String) : List Spoken :=
  (text.filter (· ≠ "")).toList.map .text

def Completion.stopReason (M : Completion) : StopReason :=
  (M.finishReason.map StopReason.fromProviderString).getD .endTurn

/-- The blocks so far read as a list, and nothing was told of the end. -/
structure ReadsAs (rs : List Spoken) (m : Heard) : Prop where
  told : m.blocks.reverse.map Block.reading = rs.map some
  quiet : m.stops = [] ∧ m.usages = []

variable {rs : List Spoken} {reason : StopReason}

theorem ReadsAs.cons {m : Heard} (h : ReadsAs rs m) {b : Block} {x : Spoken}
    (hb : b.reading = some x) : ReadsAs (rs ++ [x]) { m with blocks := b :: m.blocks } where
  told := by
    rw [List.reverse_cons, List.map_append, h.told, List.map_append, List.map_singleton, hb]
    rfl
  quiet := h.quiet

/-- The blocks so far, and the stop reason noted. -/
def UnaryReads (reason : StopReason) (rs : List Spoken) (s : UnaryState) (m : Heard) : Prop :=
  s.stopReason = reason ∧ ReadsAs rs m

theorem reads_noteFinish (next : Option String) :
    Accepts hear (UnaryReads reason rs) (ifSome next noteFinish)
      (UnaryReads ((next.map StopReason.fromProviderString).getD reason) rs) := by
  cases next with
  | none => exact accepts_skip
  | some next => exact fun _ m h => ⟨m, rfl, rfl, h.2⟩

theorem reads_textBlock (text : NonEmptyString) :
    Accepts hear (UnaryReads reason rs) (textBlock text)
      (UnaryReads reason (rs ++ [.text text.val])) := by
  intro s m h
  obtain ⟨hreason, hreads⟩ := h
  refine ⟨{ m with blocks := { index := s.blockIndex, kind := .text, text := text.val } ::
    m.blocks }, ?_, hreason, hreads.cons rfl⟩
  simp [textBlock, wholeBlock, Runs.exec_cons, hear, Heard.after, addPart, Block.add]

theorem reads_callBlock (tc : Json) :
    Accepts hear (UnaryReads reason rs) (callBlock tc)
      (UnaryReads reason (rs ++ [(wireCall tc).whole])) :=
  fun s m h => ⟨_, exec_hear_call m s.blockIndex _ _ _, h.1, h.2.cons rfl⟩

theorem reads_callBlocks (tcs : List Json) :
    Accepts hear (UnaryReads reason rs) (forEach callBlock tcs)
      (UnaryReads reason (rs ++ (tcs.map wireCall).map WireCall.whole)) := by
  induction tcs generalizing rs with
  | nil =>
    rw [List.map_nil, List.map_nil, List.append_nil]
    exact accepts_skip
  | cons tc tcs ih =>
    rw [forEach_cons, List.map_cons, List.map_cons, List.append_cons]
    exact (reads_callBlock tc).andThen ih

theorem nonEmpty_eq (v : Json) (key : String) :
    (nonEmpty v key).map Subtype.val = (v.getStr key).filter (· ≠ "") := by
  unfold nonEmpty
  cases v.getStr key with
  | none => rfl
  | some s => by_cases h : s = "" <;> simp [h, Option.filter]

theorem reads_readMessage (message : Json) :
    Accepts hear (UnaryReads reason rs) (readMessage message)
      (UnaryReads reason (rs ++ textReadings (message.getStr "content") ++
        (((message.getArray "tool_calls").getD []).map wireCall).map WireCall.whole)) := by
  have htext : Accepts hear (UnaryReads reason rs) (ifSome (nonEmpty message "content") textBlock)
      (UnaryReads reason (rs ++ textReadings (message.getStr "content"))) := by
    rw [textReadings, ← nonEmpty_eq]
    cases nonEmpty message "content" with
    | none => simpa using accepts_skip
    | some text => exact reads_textBlock text
  rw [readMessage, inOrder_cons, inOrder_cons, inOrder_nil, andThen_skip]
  refine htext.andThen ?_
  cases message.getArray "tool_calls" with
  | none => simpa using accepts_skip
  | some tcs => exact reads_callBlocks tcs

/-- What is heard of the events of a single-choice completion. -/
theorem heard_parseUnaryInner {v : Json} {M : Completion} (h : completion v = some M) :
    ∃ es, parseUnaryInner (.ok v) = .ok es ∧
      (blocks es).map Block.reading =
        (textReadings M.content ++ M.toolCalls.map WireCall.whole).map some ∧
      stops es = [(M.stopReason, none)] ∧ usages es = (M.usage.map mapUsage).toList := by
  unfold completion at h
  split at h
  case h_2 => cases h
  case h_1 choice herror hchoices =>
  obtain ⟨message, hmessage, rfl⟩ := Option.map_eq_some_iff.mp h
  have hchoice : Accepts hear (UnaryReads .endTurn []) (forEach readChoice [choice])
      (UnaryReads ((choice.getStr "finish_reason").map StopReason.fromProviderString |>.getD
        .endTurn) ([] ++ textReadings (message.getStr "content") ++
        (((message.getArray "tool_calls").getD []).map wireCall).map WireCall.whole)) := by
    rw [forEach_singleton, readChoice, hmessage, inOrder_cons, inOrder_cons, inOrder_nil,
      andThen_skip, ifSome_some]
    exact (reads_noteFinish _).andThen (reads_readMessage message)
  obtain ⟨m, hexec, hreason, htold, hstops, husages⟩ := hchoice {} {} ⟨rfl, rfl, rfl, rfl⟩
  refine ⟨_, by simp only [parseUnaryInner, herror, hchoices]; rfl, ?_⟩
  have hheard : Runs.exec hear {} ([.responseStart (chunkId v) (chunkModel v) (chunkCreated v),
      .messageStart .assistant] ++ (forEach readChoice [choice] {}).2 ++
      [.messageStop (forEach readChoice [choice] {}).1.stopReason none,
        .responseStop ((v.get "usage").map mapUsage)]) =
      some { blocks := m.blocks, stops := [((forEach readChoice [choice] {}).1.stopReason, none)],
             usages := ((v.get "usage").map mapUsage).toList } := by
    refine Runs.exec_append_eq_some.mpr ⟨m, hexec, ?_⟩
    cases (v.get "usage").map mapUsage <;>
      simp [Runs.exec_cons, hear, Heard.after, hstops, husages]
  rw [exec_hear, Option.some.injEq, Heard.mk.injEq] at hheard
  obtain ⟨hblocks, hs, hu⟩ := hheard
  refine ⟨?_, by rw [hs, hreason]; rfl, hu⟩
  rw [← List.reverse_reverse (blocks _), hblocks, htold]
  rfl

end DeepSeekSse

end AgentShim
