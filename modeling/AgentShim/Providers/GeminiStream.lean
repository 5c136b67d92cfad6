import AgentShim.Providers.ChatFragments
import AgentShim.Providers.Interleaver

/-
  The Gemini stream state machine

  Each chunk of a Gemini stream carries the parts that are new since the last.
  Text and thought parts go into one open block at a time, a function call is a
  block of its own, and the finish, or the end of the stream, closes the message.

  Correspondence (Rust ↔ Lean):
    `wire::{GenerateContentResponse,       ↔ `GenerateContentResponse`, `Candidate`,
      Candidate, Part, FunctionCall, …}`     `Part`, `FunctionCall`, … (the fields a
                                             streaming parser reads, and the parts
                                             it passes over)
    `OpenBlock::{Text, Reasoning}`         ↔ `OpenBlock`, by `DeltaKind`
    `StreamState`                          ↔ `StreamState`; `minted` counts the ids
                                             drawn from the id source
    `handle`, `handle_part`, `finalize`    ↔ `handle`, `handlePart`, `finalize`
    `ensure_{text,reasoning}_block`,       ↔ `ensureTextBlock`, `ensureReasoningBlock`,
      `open_{text,reasoning}_block`          `openTextBlock`, `openReasoningBlock`
    `emit_tool_call`, `alloc_index`        ↔ `emitToolCall`, `allocIndex`
    `GeminiStreamParser` to its end        ↔ `poll`
    the clock, the id source and the       ↔ `Host`
      printing of a JSON value

  What is proved:
    1. `handlePart_text`, `handlePart_call` — a part goes into the block it
       belongs to, or closes the open one and opens its own.
-/

namespace AgentShim

namespace Gemini

open Transducer ChatWire

/-- What the parser asks of its surroundings. -/
structure Host where
  nowUnix : Nat
  responseId : String
  toolCallId : Nat → String
  render : Json → String

structure InlineData where
  mimeType : String
  data : String
  deriving DecidableEq, Repr

structure FileData where
  mimeType : String
  fileUri : String
  deriving DecidableEq, Repr

structure FunctionCall where
  name : String
  args : Option Json := none
  id : Option String := none
  deriving Repr

structure Part where
  text : Option String := none
  thought : Option Bool := none
  inlineData : Option InlineData := none
  fileData : Option FileData := none
  functionCall : Option FunctionCall := none
  deriving Repr

structure WireSafetyRating where
  category : String
  probability : String
  deriving DecidableEq, Repr

structure UsageMetadata where
  promptTokenCount : Option Int := none
  candidatesTokenCount : Option Int := none
  thoughtsTokenCount : Option Int := none
  deriving DecidableEq, Repr

structure Candidate where
  parts : List Part
  finishReason : Option String := none
  safetyRatings : List WireSafetyRating := []
  deriving Repr

structure GenerateContentResponse where
  candidates : List Candidate := []
  usageMetadata : Option UsageMetadata := none
  deriving Repr

/-- The open text or reasoning block. -/
structure OpenBlock where
  kind : DeltaKind
  index : Nat
  deriving DecidableEq, Repr

structure StreamState where
  model : String
  responseId : String
  started : Bool := false
  stopped : Bool := false
  nextBlockIndex : Nat := 0
  openBlock : Option OpenBlock := none
  hasToolCall : Bool := false
  lastUsage : Option UsageMetadata := none
  lastSafetyRatings : Option (List SafetyRating) := none
  minted : Nat := 0
  deriving Repr

def StreamState.new (host : Host) (model : String) : StreamState :=
  { model := model, responseId := host.responseId }

abbrev Parse := Emitter StreamState StreamEvent

/-! ## Metadata -/

/-- `n.max(0) as u32`. -/
def tokenCount (n : Int) : Nat := Wire.asU32 n.toNat

def usageMetadataToUsage (counts : UsageMetadata) : Usage :=
  { inputTokens := counts.promptTokenCount.map tokenCount
    outputTokens := counts.candidatesTokenCount.map tokenCount
    reasoningTokens := counts.thoughtsTokenCount.map tokenCount }

def wireToCanonicalSafetyRatings (wire : List WireSafetyRating) : List SafetyRating :=
  wire.map fun r =>
    { category := .ofString r.category, probability := .ofString r.probability }

def mapFinishReason (reason : Option String) (hasToolCall : Bool) : StopReason :=
  if hasToolCall then .toolUse
  else
    match reason with
    | some "STOP" => .endTurn
    | some "MAX_TOKENS" => .maxTokens
    | some "SAFETY" => .contentFilter
    | some "RECITATION" => .contentFilter
    | some other => .other other
    | none => .endTurn

/-- The usage of the response stop: the latest counts and ratings together. -/
def finalUsage (s : StreamState) : Option Usage :=
  match s.lastUsage.map usageMetadataToUsage, s.lastSafetyRatings with
  | some u, some r => some { u with safetyRatings := some r }
  | some u, none => some u
  | none, some r => some { safetyRatings := some r }
  | none, none => none

/-! ## The blocks -/

/-- `alloc_index`: the index, and the state that gives out the next. -/
def allocIndex (s : StreamState) : Nat × StreamState :=
  (s.nextBlockIndex, { s with nextBlockIndex := Wire.addU32 s.nextBlockIndex 1 })

def openDeltaBlock (kind : DeltaKind) : Parse := fun s =>
  let (index, s) := allocIndex s
  ({ s with openBlock := some { kind := kind, index := index } },
    [.contentBlockStart index kind.blockKind])

def openTextBlock : Parse := openDeltaBlock .text

def openReasoningBlock : Parse := openDeltaBlock .reasoning

def closeOpenBlock : Parse := fun s =>
  match s.openBlock with
  | some block => ({ s with openBlock := none }, [.contentBlockStop block.index])
  | none => (s, [])

def ensureDeltaBlock (kind : DeltaKind) : Parse := fun s =>
  match s.openBlock with
  | some block =>
    if block.kind = kind then (s, []) else andThen closeOpenBlock (openDeltaBlock kind) s
  | none => openDeltaBlock kind s

def ensureTextBlock : Parse := ensureDeltaBlock .text

def ensureReasoningBlock : Parse := ensureDeltaBlock .reasoning

/-- A delta into the open block, if it is of the kind. -/
def emitDelta (kind : DeltaKind) (text : String) : Parse := fun s =>
  match s.openBlock with
  | some block => if block.kind = kind then (s, [kind.delta block.index text]) else (s, [])
  | none => (s, [])

/-- The id of a tool call, drawn from the id source where the wire has none. -/
def callId (host : Host) (fc : FunctionCall) (s : StreamState) : String × StreamState :=
  match fc.id with
  | some id => (id, s)
  | none => (host.toolCallId s.minted, { s with minted := s.minted + 1 })

def callArguments (host : Host) (fc : FunctionCall) : String :=
  match fc.args with
  | some value => host.render value
  | none => "\x7b\x7d"

def emitToolCall (host : Host) (fc : FunctionCall) : Parse := fun s =>
  let (index, s) := allocIndex { s with hasToolCall := true }
  let (id, s) := callId host fc s
  (s, [.contentBlockStart index .toolCall, .toolCallStart index id fc.name,
    .toolCallArgumentsDelta index (callArguments host fc), .toolCallStop index,
    .contentBlockStop index])

def handlePart (host : Host) (part : Part) : Parse :=
  match part.functionCall with
  | some fc => andThen closeOpenBlock (emitToolCall host fc)
  | none =>
    match part.text with
    | some text =>
      if part.thought = some true then
        andThen ensureReasoningBlock (emitDelta .reasoning text)
      else andThen ensureTextBlock (emitDelta .text text)
    | none => skip

/-! ## The response -/

def startResponse (host : Host) : Parse := fun s =>
  if s.started then (s, [])
  else
    ({ s with started := true },
      [.responseStart s.responseId s.model host.nowUnix, .messageStart .assistant])

def noteUsage (usage : Option UsageMetadata) : Parse :=
  update fun s => { s with lastUsage := usage.or s.lastUsage }

def noteRatings (ratings : List WireSafetyRating) : Parse := update fun s =>
  if ratings = [] then s
  else { s with lastSafetyRatings := some (wireToCanonicalSafetyRatings ratings) }

/-- Stops the message and the response, with what was noted for it. -/
def stopResponse (reason : Bool → StopReason) : Parse := fun s =>
  ({ s with stopped := true, lastUsage := none, lastSafetyRatings := none },
    [.messageStop (reason s.hasToolCall) none, .responseStop (finalUsage s)])

def handleCandidate (host : Host) (candidate : Candidate) : Parse :=
  inOrder [
    noteRatings candidate.safetyRatings,
    forEach (handlePart host) candidate.parts,
    ifSome candidate.finishReason fun reason =>
      andThen closeOpenBlock (stopResponse (mapFinishReason (some reason)))]

def handle (host : Host) (resp : GenerateContentResponse) : Parse := fun s =>
  if s.stopped then (s, [])
  else
    inOrder [
      startResponse host,
      noteUsage resp.usageMetadata,
      ifSome resp.candidates.head? (handleCandidate host)] s

def finalize : Parse := fun s =>
  if !s.started || s.stopped then (s, [])
  else
    andThen closeOpenBlock
      (stopResponse fun hasToolCall => if hasToolCall then .toolUse else .endTurn) s

/-! ## The stream of items -/

def handleItem (host : Host) : Except StreamError GenerateContentResponse → Emitter StreamState Item
  | .ok resp => okItems (handle host resp)
  | .error e => emit (.error e)

/-- Everything the parser yields before its end. -/
def poll (host : Host) (model : String)
    (source : List (Except StreamError GenerateContentResponse)) : List Item :=
  (andThen (forEach (handleItem host) source) (okItems finalize) (.new host model)).2

/-- The events of a sequence of chunks. -/
def events (host : Host) (model : String) (chunks : List GenerateContentResponse) :
    List StreamEvent :=
  okEvents (poll host model (chunks.map .ok))

theorem events_eq (host : Host) (model : String) (chunks : List GenerateContentResponse) :
    events host model chunks =
      (andThen (forEach (handle host) chunks) finalize (.new host model)).2 := by
  have hall : forEach (handleItem host) (chunks.map .ok) =
      okItems (forEach (handle host) chunks) := by
    rw [forEach_map]
    exact forEach_okItems _ _
  rw [events, poll, hall]
  simp only [andThen, okItems, ← List.map_append, okEvents_map_ok]

/-! ## The parts, by what they do to the open block -/

/-- The block a part's text goes into. -/
def Part.kind (part : Part) : DeltaKind :=
  if part.thought = some true then .reasoning else .text

theorem handlePart_call (host : Host) {part : Part} {fc : FunctionCall}
    (h : part.functionCall = some fc) :
    handlePart host part = andThen closeOpenBlock (emitToolCall host fc) := by
  rw [handlePart, h]

theorem handlePart_text (host : Host) {part : Part} {text : String}
    (hcall : part.functionCall = none) (htext : part.text = some text) :
    handlePart host part = andThen (ensureDeltaBlock part.kind) (emitDelta part.kind text) := by
  rw [handlePart, hcall, htext, Part.kind]
  by_cases h : part.thought = some true
  · simp only [if_pos h]
    rfl
  · simp only [if_neg h]
    rfl

theorem handlePart_none (host : Host) {part : Part} (hcall : part.functionCall = none)
    (htext : part.text = none) : handlePart host part = skip := by
  rw [handlePart, hcall, htext]

end Gemini

end AgentShim
