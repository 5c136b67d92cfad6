import AgentShim.Providers.ChatFragments
import AgentShim.Stream.Envelope

/-
  The Chat Completions stream parser

  Chunks of a Chat Completions stream become canonical events: one text block at
  index 0, tool blocks at the wire index plus one, a message and a response
  around them. The set of open tool blocks is a hash set; the order in which it
  hands out its elements is a parameter.

  Correspondence (Rust ↔ Lean):
    `ParserState`                          ↔ `ParserState` (less the counters and
                                             texts that only the log reads)
    `handle_transport_error`               ↔ `handleTransportError`
    `handle_done`, `finalize`              ↔ `handleDone`, `finalize`
    `parse_chunk`, its loop bodies         ↔ `parseChunk`, `parseChoice`,
                                             `parseToolCall`
    `parse_usage`                          ↔ `parseUsage`
    `HashSet::drain`                       ↔ `DrainOrder`
    `ChatSseParser`, `poll_next` to its end ↔ `handlers`, `Handlers.poll`

  What is proved:
    1. `parseChunk_eq` — a chunk is handled as the fragments read off it, one
       after the other.
-/

namespace AgentShim

/-- The order in which a hash set hands out its elements: any, but each once. -/
structure DrainOrder where
  order : List Nat → List Nat
  perm : ∀ l, (order l).Perm l

namespace ChatSse

open Transducer ChatWire

structure ParserState where
  emittedResponseStart : Bool := false
  emittedMessageStart : Bool := false
  emittedMessageStop : Bool := false
  emittedResponseStop : Bool := false
  textBlockOpen : Bool := false
  openToolBlocks : List Nat := []
  responseId : String := ""
  responseModel : String := ""
  streamCompleted : Bool := false
  deriving DecidableEq, Repr

abbrev Parse := Emitter ParserState StreamEvent

/-! ## Steps the handlers share -/

def ensureMessageStart : Parse := fun s =>
  if s.emittedMessageStart then (s, [])
  else ({ s with emittedMessageStart := true }, [.messageStart .assistant])

def ensureMessageStop (reason : StopReason) : Parse := fun s =>
  if s.emittedMessageStop then (s, [])
  else ({ s with emittedMessageStop := true }, [.messageStop reason none])

def openText : Parse := fun s =>
  if s.textBlockOpen then (s, [])
  else ({ s with textBlockOpen := true }, [.contentBlockStart 0 .text])

def closeText : Parse := fun s =>
  if s.textBlockOpen then ({ s with textBlockOpen := false }, [.contentBlockStop 0])
  else (s, [])

def openTool (index : Nat) : Parse := fun s =>
  if index ∈ s.openToolBlocks then (s, [])
  else
    ({ s with openToolBlocks := s.openToolBlocks ++ [index] },
      [.contentBlockStart index .toolCall])

/-- `drain`: every open tool block is stopped and closed. -/
def drainTools (d : DrainOrder) : Parse := fun s =>
  ({ s with openToolBlocks := [] }, Envelope.closeTools (d.order s.openToolBlocks))

def markCompleted : Parse := update fun s => { s with streamCompleted := true }

theorem closeText_of_closed {s : ParserState} (h : s.textBlockOpen = false) :
    closeText s = (s, []) := by
  rw [closeText, h]
  rfl

theorem drainTools_of_none {d : DrainOrder} {s : ParserState} (h : s.openToolBlocks = []) :
    drainTools d s = (s, []) := by
  cases s
  cases h
  rw [drainTools, List.Perm.eq_nil (d.perm [])]
  rfl

theorem ensureMessageStop_of_stopped {reason : StopReason} {s : ParserState}
    (h : s.emittedMessageStop = true) : ensureMessageStop reason s = (s, []) := by
  rw [ensureMessageStop, if_pos h]

theorem ensureMessageStop_of_running {reason : StopReason} {s : ParserState}
    (h : s.emittedMessageStop = false) : ensureMessageStop reason s =
      ({ s with emittedMessageStop := true }, [.messageStop reason none]) := by
  rw [ensureMessageStop, h]
  rfl

/-- Nothing is left to close. -/
theorem closing_of_stopped {d : DrainOrder} {reason : StopReason} {s : ParserState}
    (htext : s.textBlockOpen = false) (htools : s.openToolBlocks = [])
    (hstop : s.emittedMessageStop = true) :
    andThen closeText (andThen (drainTools d) (ensureMessageStop reason)) s = (s, []) := by
  simp only [andThen, closeText_of_closed htext, drainTools_of_none htools,
    ensureMessageStop_of_stopped hstop, List.append_nil]

/-! ## The handlers -/

/-- The response start of a stream without chunks: no id or model to copy. -/
def ensureEmptyResponseStart : Parse := fun s =>
  if s.emittedResponseStart then (s, [])
  else
    ({ s with emittedResponseStart := true }, [.responseStart s.responseId s.responseModel 0])

def stopResponse : Parse := fun s =>
  ({ s with emittedResponseStop := true }, [.responseStop none])

def ensureResponseStop : Parse := fun s =>
  if s.emittedResponseStop then (s, []) else stopResponse s

def handleDone (d : DrainOrder) : Parse :=
  inOrder [
    ensureEmptyResponseStart,
    ensureMessageStart,
    closeText,
    drainTools d,
    ensureMessageStop .endTurn,
    ensureResponseStop,
    markCompleted]

def finalize (d : DrainOrder) : Parse := fun s =>
  if s.emittedResponseStop then (s, [])
  else if s.emittedResponseStart then
    inOrder [
      ensureMessageStart,
      closeText,
      drainTools d,
      ensureMessageStop .endTurn,
      stopResponse] s
  else (s, [])

def parseUsage (v : Json) : Option Usage :=
  (v.get "usage").map fun u =>
    { inputTokens := (u.getU64 "prompt_tokens").map Wire.asU32
      outputTokens := (u.getU64 "completion_tokens").map Wire.asU32
      cacheCreationInputTokens := (u.getU64 "cache_creation_input_tokens").map Wire.asU32
      cacheReadInputTokens :=
        (((u.get "cache_read_input_tokens").or
          ((u.get "prompt_tokens_details").bind fun d => d.get "cached_tokens")).bind
            Json.asU64).map Wire.asU32 }

/-- The block of a tool call: text has index 0. -/
def toolBlockIndex (tc : Json) : Nat :=
  Wire.addU32 (Wire.asU32 ((tc.getU64 "index").getD 0)) 1

def startTool (index : Nat) (id name : String) : Parse :=
  inOrder [openTool index, emit (.toolCallStart index id name)]

def parseToolCall (tc : Json) : Parse :=
  inOrder [
    ifSome (tc.getStr "id") fun id => startTool (toolBlockIndex tc) id (toolName tc),
    emitArguments (toolBlockIndex tc) (toolArguments tc)]

def parseText (text : NonEmptyString) : Parse :=
  inOrder [ensureMessageStart, openText, emit (.textDelta 0 text.val)]

theorem parseText_eq (text : NonEmptyString) :
    parseText text =
      andThen ensureMessageStart (andThen openText (emit (.textDelta 0 text.val))) := by
  simp only [parseText, inOrder_cons, inOrder_nil, andThen_skip]

def parseDelta (delta : Json) : Parse :=
  inOrder [
    ifSome (delta.getStr "role") fun _ => ensureMessageStart,
    ifSome (nonEmpty delta "content") parseText,
    ifSome (delta.getArray "tool_calls") fun toolCalls =>
      inOrder [ensureMessageStart, closeText, forEach parseToolCall toolCalls]]

def parseFinish (d : DrainOrder) (reason : String) : Parse :=
  inOrder [closeText, drainTools d, ensureMessageStop (.fromProviderString reason), markCompleted]

def parseChoice (d : DrainOrder) (choice : Json) : Parse :=
  inOrder [
    ifSome (choice.get "delta") parseDelta,
    ifSome (nonEmpty choice "finish_reason") fun reason => parseFinish d reason.val]

/-- The usage of a chunk with choices: a null `usage` is none. -/
def usageAfter (v : Json) : Option Usage :=
  ((v.get "usage").filter fun u => !u.isNull).bind fun _ => parseUsage v

def ensureResponseStart (id model : String) (created : Nat) : Parse := fun s =>
  if s.emittedResponseStart then (s, [])
  else
    ({ s with emittedResponseStart := true, responseId := id, responseModel := model },
      [.responseStart id model created])

def parseChunk (d : DrainOrder) (v : Json) : Parse :=
  match v.get "error" with
  | some err => emit (.error (errorMessage err))
  | none =>
    inOrder [
      ensureResponseStart (chunkId v) (chunkModel v) (chunkCreated v),
      match v.getArray "choices" with
      | none => emitUsage (parseUsage v)
      | some choices => inOrder [forEach (parseChoice d) choices, emitUsage (usageAfter v)]]

def handleTransportError (message : String) : Emitter ParserState Item := fun s =>
  if s.streamCompleted then (s, []) else (s, [.error (.upstream message)])

def handlers (d : DrainOrder) : Handlers ParserState where
  done := handleDone d
  chunk := parseChunk d
  transportError := handleTransportError
  finalize := finalize d

/-- The events of a stream of chunks that may end in `[DONE]`. -/
def events (d : DrainOrder) (chunks : List Json) (done : Bool) : List StreamEvent :=
  okEvents ((handlers d).poll {} (source chunks done))

/-! ## Chunks by their fragments -/

def dialect : Dialect Unit where
  content := fun delta => (nonEmpty delta "content").toList.map fun text => ((), text)
  toolIndex := toolBlockIndex
  usageAlone := parseUsage
  usageAfter := usageAfter

def apply (d : DrainOrder) : Fragment Unit → Parse
  | .chunk id model created => ensureResponseStart id model created
  | .role => ensureMessageStart
  | .content _ text => parseText text
  | .toolCalls => inOrder [ensureMessageStart, closeText]
  | .toolCall index call arguments =>
    inOrder [
      ifSome call fun call => startTool index call.1 call.2,
      emitArguments index arguments]
  | .finish reason => parseFinish d reason
  | .usage usage => emit (.usageDelta usage)
  | .error message => emit (.error message)

theorem parseToolCall_eq (d : DrainOrder) (tc : Json) :
    parseToolCall tc = apply d (toolCallFragment dialect tc) := by
  unfold parseToolCall toolCallFragment
  cases tc.getStr "id" <;> rfl

theorem parseDelta_eq (d : DrainOrder) (delta : Json) :
    parseDelta delta = forEach (apply d) (deltaFragments dialect delta) := by
  rw [deltaFragments, forEach_append, forEach_append,
    forEach_toolCallFragments (parseToolCall_eq d), parseDelta]
  simp only [inOrder_cons, inOrder_nil, andThen_skip, ifSome_eq _ parseText,
    ifSome_eq (delta.getStr "role"), roleFragments, contentFragments, dialect, forEach_map,
    apply, andThen_assoc]

theorem parseChoice_eq (d : DrainOrder) (choice : Json) :
    parseChoice d choice = forEach (apply d) (choiceFragments dialect choice) := by
  rw [forEach_choiceFragments (parseDelta_eq d), parseChoice]
  simp only [inOrder_cons, inOrder_nil, andThen_skip, apply]

/-- A chunk is handled as its fragments, one after the other. -/
theorem parseChunk_eq (d : DrainOrder) (v : Json) :
    parseChunk d v = forEach (apply d) (fragments dialect v) := by
  unfold parseChunk
  cases herror : v.get "error" with
  | some err =>
    rw [fragments, herror]
    exact (forEach_singleton _ _).symm
  | none =>
    rw [forEach_fragments (parseChoice_eq d) (fun _ => rfl) herror]
    simp only [inOrder_cons, inOrder_nil, andThen_skip]
    cases v.getArray "choices" <;> rfl

end ChatSse

end AgentShim
