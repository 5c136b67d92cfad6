import AgentShim.Providers.ChatFragments
import AgentShim.Providers.Interleaver
import Mathlib.Data.List.Sort

/-
  The DeepSeek stream parser

  The parser of the DeepSeek and GLM dialects. Text and reasoning go through the
  interleaver; a tool call gets the block after the interleaver's blocks and the
  tool blocks open already.

  Correspondence (Rust ↔ Lean):
    `StreamState`                   ↔ `StreamState`
    `handle_done`, `finalize`       ↔ `handleDone`, `finalize`
    `parse_chunk`, its loop bodies  ↔ `parseChunk`, `parseChoice`, `parseDelta`,
                                      `parseToolCall`
    `ensure_message_start`          ↔ `ensureMessageStart`
    `drain_open_tool_blocks`        ↔ `drainOpenToolBlocks`
    `usage::map_usage`              ↔ `mapUsage`
    `DeepSeekStreamParser`          ↔ `handlers`

  What is proved:
    1. `parseChunk_eq` — a chunk is handled as its fragments, one after the other.
-/

namespace AgentShim

namespace DeepSeekSse

open Transducer ChatWire

structure StreamState where
  emittedResponseStart : Bool := false
  emittedMessageStart : Bool := false
  emittedMessageStop : Bool := false
  emittedResponseStop : Bool := false
  interleaver : ReasoningInterleaver := {}
  openToolBlocks : List (Nat × Nat) := []
  responseId : String := ""
  responseModel : String := ""
  completed : Bool := false
  deriving DecidableEq, Repr

abbrev Parse := Emitter StreamState StreamEvent

def mapUsage (raw : Json) : Usage where
  inputTokens := ((raw.getU64 "prompt_cache_miss_tokens").map Wire.asU32).or
    ((raw.getU64 "prompt_tokens").map Wire.asU32)
  outputTokens := (raw.getU64 "completion_tokens").map Wire.asU32
  cacheReadInputTokens := (raw.getU64 "prompt_cache_hit_tokens").map Wire.asU32
  providerRaw := some raw

/-! ## Steps the handlers share -/

def ensureResponseStart (id model : String) (created : Nat) : Parse := fun s =>
  if s.emittedResponseStart then (s, [])
  else
    ({ s with emittedResponseStart := true, responseId := id, responseModel := model },
      [.responseStart id model created])

/-- The response start of a stream without chunks. -/
def ensureEmptyResponseStart : Parse := fun s =>
  if s.emittedResponseStart then (s, [])
  else
    ({ s with emittedResponseStart := true }, [.responseStart s.responseId s.responseModel 0])

def ensureMessageStart : Parse := fun s =>
  if s.emittedMessageStart then (s, [])
  else ({ s with emittedMessageStart := true }, [.messageStart .assistant])

def ensureMessageStop (reason : StopReason) : Parse := fun s =>
  if s.emittedMessageStop then (s, [])
  else ({ s with emittedMessageStop := true }, [.messageStop reason none])

/-- `MessageStop` whether or not it has been put out before. -/
def stopMessage (reason : StopReason) : Parse := fun s =>
  ({ s with emittedMessageStop := true }, [.messageStop reason none])

def stopResponse : Parse := fun s =>
  ({ s with emittedResponseStop := true }, [.responseStop none])

def ensureResponseStop : Parse := fun s =>
  if s.emittedResponseStop then (s, []) else stopResponse s

def markCompleted : Parse := update fun s => { s with completed := true }

def onInterleaver (f : ReasoningInterleaver.Interleave) : Parse := fun s =>
  ({ s with interleaver := (f s.interleaver).1 }, (f s.interleaver).2)

def flush : Parse := onInterleaver ReasoningInterleaver.flush

def drainOpenToolBlocks : Parse := fun s =>
  ({ s with openToolBlocks := [] },
    Envelope.closeTools ((s.openToolBlocks.map Prod.snd).insertionSort (· ≤ ·)))

theorem drainOpenToolBlocks_of_none {s : StreamState} (h : s.openToolBlocks = []) :
    drainOpenToolBlocks s = (s, []) := by
  cases s
  cases h
  rfl

theorem ensureMessageStop_of_stopped {reason : StopReason} {s : StreamState}
    (h : s.emittedMessageStop = true) : ensureMessageStop reason s = (s, []) := by
  rw [ensureMessageStop, if_pos h]

theorem ensureMessageStop_of_running {reason : StopReason} {s : StreamState}
    (h : s.emittedMessageStop = false) : ensureMessageStop reason s = stopMessage reason s := by
  rw [ensureMessageStop, h]
  rfl

/-! ## The handlers -/

def handleDone : Parse :=
  inOrder [ensureEmptyResponseStart, ensureMessageStart, flush, drainOpenToolBlocks,
    ensureMessageStop .endTurn, ensureResponseStop, markCompleted]

def finalize : Parse := fun s =>
  if s.emittedResponseStop then (s, [])
  else if s.emittedResponseStart then
    inOrder [ensureMessageStart, flush, drainOpenToolBlocks, ensureMessageStop .endTurn,
      stopResponse] s
  else (s, [])

def providerIndex (tc : Json) : Nat := Wire.asU32 ((tc.getU64 "index").getD 0)

/-- The index a new tool block gets. -/
def allocated (s : StreamState) : Nat :=
  Wire.addU32 s.interleaver.nextIndex (Wire.asU32 s.openToolBlocks.length)

def blockIndex (s : StreamState) (provider : Nat) : Nat :=
  (s.openToolBlocks.lookup provider).getD (allocated s)

def openTool (provider : Nat) : Parse := fun s =>
  match s.openToolBlocks.lookup provider with
  | some _ => (s, [])
  | none =>
    ({ s with openToolBlocks := s.openToolBlocks ++ [(provider, allocated s)] },
      [.contentBlockStart (allocated s) .toolCall])

def handleToolCall (provider : Nat) (call : Option (String × String)) (arguments : String) :
    Parse := fun s =>
  inOrder [
    openTool provider,
    ifSome call fun call => emit (.toolCallStart (blockIndex s provider) call.1 call.2),
    emitArguments (blockIndex s provider) arguments] s

def parseToolCall (tc : Json) : Parse :=
  handleToolCall (providerIndex tc) ((tc.getStr "id").map fun id => (id, toolName tc))
    (toolArguments tc)

def pushDelta (kind : DeltaKind) (text : NonEmptyString) : Parse :=
  inOrder [ensureMessageStart, onInterleaver (ReasoningInterleaver.push kind text.val)]

def parseDelta (delta : Json) : Parse :=
  inOrder [
    ifSome (delta.getStr "role") fun _ => ensureMessageStart,
    ifSome (nonEmpty delta "reasoning_content") (pushDelta .reasoning),
    ifSome (nonEmpty delta "content") (pushDelta .text),
    ifSome (delta.getArray "tool_calls") fun toolCalls =>
      inOrder [ensureMessageStart, flush, forEach parseToolCall toolCalls]]

def parseFinish (reason : String) : Parse :=
  inOrder [flush, drainOpenToolBlocks, stopMessage (.fromProviderString reason), markCompleted]

def parseChoice (choice : Json) : Parse :=
  inOrder [
    ifSome (choice.get "delta") parseDelta,
    ifSome (nonEmpty choice "finish_reason") fun reason => parseFinish reason.val]

/-- The usage of a chunk; a null `usage` is none. -/
def usageOf (v : Json) : Option Usage := ((v.get "usage").filter fun u => !u.isNull).map mapUsage

def parseChunk (v : Json) : Parse :=
  match v.get "error" with
  | some err => emit (.error (errorMessage err))
  | none =>
    inOrder [
      ensureResponseStart (chunkId v) (chunkModel v) (chunkCreated v),
      match v.getArray "choices" with
      | none => emitUsage (usageOf v)
      | some choices => inOrder [forEach parseChoice choices, emitUsage (usageOf v)]]

def handleTransportError (message : String) : Emitter StreamState Item := fun s =>
  if s.completed then (s, []) else (s, [.error (.upstream message)])

def handlers : Handlers StreamState where
  done := handleDone
  chunk := parseChunk
  transportError := handleTransportError
  finalize := finalize

/-- The events of a stream of chunks that may end in `[DONE]`. -/
def events (chunks : List Json) (done : Bool) : List StreamEvent :=
  okEvents (handlers.poll {} (source chunks done))

/-! ## Chunks by their fragments -/

def dialect : Dialect DeltaKind where
  content := fun delta =>
    (nonEmpty delta "reasoning_content").toList.map (fun text => (.reasoning, text)) ++
      (nonEmpty delta "content").toList.map fun text => (.text, text)
  toolIndex := providerIndex
  usageAlone := usageOf
  usageAfter := usageOf

def apply : Fragment DeltaKind → Parse
  | .chunk id model created => ensureResponseStart id model created
  | .role => ensureMessageStart
  | .content kind text => pushDelta kind text
  | .toolCalls => inOrder [ensureMessageStart, flush]
  | .toolCall provider call arguments => handleToolCall provider call arguments
  | .finish reason => parseFinish reason
  | .usage usage => emit (.usageDelta usage)
  | .error message => emit (.error message)

theorem parseToolCall_eq (tc : Json) :
    parseToolCall tc = apply (toolCallFragment dialect tc) := rfl

theorem parseDelta_eq (delta : Json) :
    parseDelta delta = forEach apply (deltaFragments dialect delta) := by
  rw [deltaFragments, forEach_append, forEach_append,
    forEach_toolCallFragments parseToolCall_eq, parseDelta]
  simp only [inOrder_cons, inOrder_nil, andThen_skip, ifSome_eq _ (pushDelta _),
    ifSome_eq (delta.getStr "role"), roleFragments, contentFragments, dialect, forEach_map,
    List.map_append, forEach_append, apply, andThen_assoc]

theorem parseChoice_eq (choice : Json) :
    parseChoice choice = forEach apply (choiceFragments dialect choice) := by
  rw [forEach_choiceFragments parseDelta_eq, parseChoice]
  simp only [inOrder_cons, inOrder_nil, andThen_skip, apply]

/-- A chunk is handled as its fragments, one after the other. -/
theorem parseChunk_eq (v : Json) : parseChunk v = forEach apply (fragments dialect v) := by
  unfold parseChunk
  cases herror : v.get "error" with
  | some err =>
    rw [fragments, herror]
    exact (forEach_singleton _ _).symm
  | none =>
    rw [forEach_fragments parseChoice_eq (fun _ => rfl) herror]
    simp only [inOrder_cons, inOrder_nil, andThen_skip]
    cases v.getArray "choices" <;> rfl

end DeepSeekSse

end AgentShim
