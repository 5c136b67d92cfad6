import AgentShim.Providers.ChatFragments
import Mathlib.Data.List.AList
import Mathlib.Data.List.Sort

/-
  The Responses stream parser

  Events of a Responses stream become canonical events. The parser trusts the
  upstream's output indices and its order; it remembers which blocks are open
  only for the drain, which closes what the upstream left open.

  Correspondence (Rust ↔ Lean):
    `ParserState`                     ↔ `ParserState`; the hash map of open blocks
                                        is an `AList`, sorted where it is drained
    `parse_event`, its branches       ↔ `parseEvent`, `startResponse`, `addItem`,
                                        `parseText`, `parseArguments`, `finishItem`,
                                        `completeResponse`
    `finalize`                        ↔ `finalize`
    the closure of `parse`            ↔ `handle`
    `parse` to its end                ↔ `poll`

  What is proved:
    1. `parseEvent_eq` — an event is handled as the signal read off it.
-/

namespace AgentShim

namespace ResponsesSse

open Transducer ChatWire

abbrev BlockMap := AList fun _ : Nat => ContentBlockKind

structure ParserState where
  emittedResponseStart : Bool := false
  emittedMessageStart : Bool := false
  emittedMessageStop : Bool := false
  emittedResponseStop : Bool := false
  streamCompleted : Bool := false
  openBlocks : BlockMap := ∅

abbrev Parse := Emitter ParserState StreamEvent

/-! ## The end of the stream -/

def ensureMessageStart : Parse := fun s =>
  if s.emittedMessageStart then (s, [])
  else ({ s with emittedMessageStart := true }, [.messageStart .assistant])

/-- The open blocks by index. -/
def orphaned (blocks : BlockMap) : List (Nat × ContentBlockKind) :=
  (blocks.entries.map fun b => (b.1, b.2)).mergeSort fun a b => a.1 ≤ b.1

def closeOrphaned : Parse := fun s =>
  ({ s with openBlocks := ∅ }, Envelope.closeBlocks (orphaned s.openBlocks))

def ensureMessageStop : Parse := fun s =>
  if s.emittedMessageStop then (s, [])
  else ({ s with emittedMessageStop := true }, [.messageStop .endTurn none])

def stopResponse (usage : Option Usage) : Parse := fun s =>
  ({ s with emittedResponseStop := true }, [.responseStop usage])

def finalize : Parse := fun s =>
  if s.emittedResponseStop then (s, [])
  else if s.emittedResponseStart then
    inOrder [ensureMessageStart, closeOrphaned, ensureMessageStop, stopResponse none] s
  else (s, [])

/-! ## The events -/

def startResponse (id model : String) (createdAt : Nat) : Parse := fun s =>
  if s.emittedResponseStart then (s, [])
  else ({ s with emittedResponseStart := true }, [.responseStart id model createdAt])

def item (data : Json) : Json := (data.get "item").getD data

def itemType (data : Json) : String := ((item data).getStr "type").getD ""

def outputIndex (data : Json) : Nat := Wire.asU32 ((data.getU64 "output_index").getD 0)

def openBlock (index : Nat) (kind : ContentBlockKind) : Parse := fun s =>
  ({ s with openBlocks := s.openBlocks.insert index kind }, [.contentBlockStart index kind])

def startCall (index : Nat) (callId name : String) : Parse :=
  andThen (openBlock index .toolCall) (emit (.toolCallStart index callId name))

def closeBlock (index : Nat) : Parse := fun s =>
  ({ s with openBlocks := s.openBlocks.erase index }, [.contentBlockStop index])

def addItem (data : Json) : Parse :=
  andThen ensureMessageStart
    (match itemType data with
    | "message" => openBlock (outputIndex data) .text
    | "function_call" =>
      startCall (outputIndex data) (((item data).getStr "call_id").getD "")
        (((item data).getStr "name").getD "")
    | _ => skip)

def parseText (data : Json) : Parse :=
  ifSome (nonEmpty data "delta") fun text => emit (.textDelta (outputIndex data) text.val)

def parseArguments (data : Json) : Parse :=
  ifSome (nonEmpty data "delta") fun arguments =>
    emit (.toolCallArgumentsDelta (outputIndex data) arguments.val)

def finishItem (data : Json) : Parse :=
  match itemType data with
  | "function_call" =>
    andThen (emit (.toolCallStop (outputIndex data))) (closeBlock (outputIndex data))
  | "message" => closeBlock (outputIndex data)
  | _ => skip

def stopReason (data : Json) : StopReason :=
  match (data.getStr "status").getD "completed" with
  | "incomplete" => .contentFilter
  | _ => .endTurn

def parseUsage (data : Json) : Option Usage :=
  (data.get "usage").map fun u =>
    { inputTokens := (u.getU64 "input_tokens").map Wire.asU32
      outputTokens := (u.getU64 "output_tokens").map Wire.asU32 }

def stopMessage (reason : StopReason) : Parse := fun s =>
  ({ s with emittedMessageStop := true }, [.messageStop reason none])

def completeResponse (data : Json) : Parse :=
  andThen (stopMessage (stopReason data)) (stopResponse (parseUsage data))

def failureMessage (data : Json) : String :=
  ((data.get "error").bind fun e => e.getStr "message").getD "upstream response failed"

def parseEvent (eventType : String) (data : Json) : Parse :=
  match eventType with
  | "response.created" | "response.in_progress" =>
    startResponse ((data.getStr "id").getD "unknown") ((data.getStr "model").getD "unknown")
      ((data.getU64 "created_at").getD 0)
  | "response.output_item.added" => addItem data
  | "response.output_text.delta" => parseText data
  | "response.function_call_arguments.delta" => parseArguments data
  | "response.output_text.done" | "response.content_part.done" => skip
  | "response.function_call_arguments.done" => skip
  | "response.output_item.done" => finishItem data
  | "response.completed" => completeResponse data
  | "response.failed" => emit (.error (failureMessage data))
  | "error" => emit (.error ((data.getStr "message").getD "unknown error"))
  | _ => skip

/-! ## The stream of items -/

/-- What the event source yields: an event with the JSON of its data or why it
did not parse, or a transport error. -/
inductive SourceItem
  | event (eventType : String) (data : Except String Json)
  | transportError (message : String)

/-- The upstream's end of the stream, noted before its data is read. -/
def noteEnd (eventType : String) : Parse := update fun s =>
  if eventType = "response.completed" ∨ eventType = "response.failed" then
    { s with streamCompleted := true }
  else s

def handleEvent (eventType : String) (data : Json) : Parse :=
  andThen (noteEnd eventType) (parseEvent eventType data)

def handle : SourceItem → Emitter ParserState Item
  | .event eventType (.ok data) => okItems (handleEvent eventType data)
  | .event eventType (.error e) =>
    andThen (okItems (noteEnd eventType))
      (emit (.error (.decode ("json parse for " ++ eventType ++ ": " ++ e))))
  | .transportError message => fun s =>
    if s.streamCompleted then (s, []) else (s, [.error (.upstream message)])

/-- Everything the parser yields before its end. -/
def poll (items : List SourceItem) : List Item :=
  (andThen (forEach handle items) (okItems finalize) {}).2

/-- The canonical events of a list of events of the upstream. -/
def events (upstream : List (String × Json)) : List StreamEvent :=
  okEvents (poll (upstream.map fun e => .event e.1 (.ok e.2)))

/-! ## Events by their signals -/

/-- The items the parser opens a block for. -/
inductive ItemKind
  | message
  | functionCall
  deriving DecidableEq, Repr

def ItemKind.block : ItemKind → ContentBlockKind
  | message => .text
  | functionCall => .toolCall

inductive AddedItem
  | message
  | functionCall (callId name : String)
  deriving DecidableEq, Repr

def AddedItem.kind : AddedItem → ItemKind
  | message => .message
  | functionCall _ _ => .functionCall

/-- What the parser acts on in an event; an added item of another kind only opens
the message. -/
inductive Signal
  | created (id model : String) (createdAt : Nat)
  | added (index : Nat) (item : Option AddedItem)
  | text (index : Nat) (text : NonEmptyString)
  | arguments (index : Nat) (fragment : NonEmptyString)
  | done (index : Nat) (kind : ItemKind)
  | completed (reason : StopReason) (usage : Option Usage)
  | failed (ended : Bool) (message : String)
  deriving Repr

def addedItem (data : Json) : Option AddedItem :=
  match itemType data with
  | "message" => some .message
  | "function_call" =>
    some (.functionCall (((item data).getStr "call_id").getD "")
      (((item data).getStr "name").getD ""))
  | _ => none

def finishedKind (data : Json) : Option ItemKind :=
  match itemType data with
  | "function_call" => some .functionCall
  | "message" => some .message
  | _ => none

def signal (eventType : String) (data : Json) : Option Signal :=
  match eventType with
  | "response.created" | "response.in_progress" =>
    some (.created ((data.getStr "id").getD "unknown") ((data.getStr "model").getD "unknown")
      ((data.getU64 "created_at").getD 0))
  | "response.output_item.added" => some (.added (outputIndex data) (addedItem data))
  | "response.output_text.delta" => (nonEmpty data "delta").map (.text (outputIndex data))
  | "response.function_call_arguments.delta" =>
    (nonEmpty data "delta").map (.arguments (outputIndex data))
  | "response.output_item.done" => (finishedKind data).map (.done (outputIndex data))
  | "response.completed" => some (.completed (stopReason data) (parseUsage data))
  | "response.failed" => some (.failed true (failureMessage data))
  | "error" => some (.failed false ((data.getStr "message").getD "unknown error"))
  | _ => none

def markCompleted : Parse := update fun s => { s with streamCompleted := true }

def apply : Signal → Parse
  | .created id model createdAt => startResponse id model createdAt
  | .added _ none => ensureMessageStart
  | .added index (some .message) => andThen ensureMessageStart (openBlock index .text)
  | .added index (some (.functionCall callId name)) =>
    andThen ensureMessageStart (startCall index callId name)
  | .text index text => emit (.textDelta index text.val)
  | .arguments index fragment => emit (.toolCallArgumentsDelta index fragment.val)
  | .done index .functionCall => andThen (emit (.toolCallStop index)) (closeBlock index)
  | .done index .message => closeBlock index
  | .completed reason usage =>
    andThen markCompleted (andThen (stopMessage reason) (stopResponse usage))
  | .failed true message => andThen markCompleted (emit (.error message))
  | .failed false message => emit (.error message)

theorem noteEnd_of_running {eventType : String} (h₁ : eventType ≠ "response.completed")
    (h₂ : eventType ≠ "response.failed") : noteEnd eventType = skip := by
  funext s
  rw [noteEnd, update, if_neg (not_or.mpr ⟨h₁, h₂⟩)]
  rfl

theorem addItem_eq (data : Json) :
    addItem data = apply (.added (outputIndex data) (addedItem data)) := by
  unfold addItem addedItem
  split
  · rfl
  · rfl
  · exact andThen_skip _

theorem finishItem_eq (data : Json) :
    finishItem data =
      forEach apply ((finishedKind data).map (.done (outputIndex data))).toList := by
  unfold finishItem finishedKind
  split
  · exact (forEach_singleton apply (.done _ .functionCall)).symm
  · exact (forEach_singleton apply (.done _ .message)).symm
  · rfl

theorem emitNonEmpty_eq {data : Json} {key : String} {f : NonEmptyString → StreamEvent}
    {g : NonEmptyString → Signal} (h : ∀ text, apply (g text) = emit (f text)) :
    (ifSome (nonEmpty data key) fun text => emit (f text)) =
      forEach apply ((nonEmpty data key).map g).toList := by
  cases nonEmpty data key with
  | none => rfl
  | some text => exact (h text).symm.trans (forEach_singleton apply (g text)).symm

theorem parseEvent_eq {eventType : String} (data : Json) (h₁ : eventType ≠ "response.completed")
    (h₂ : eventType ≠ "response.failed") :
    parseEvent eventType data = forEach apply (signal eventType data).toList := by
  unfold parseEvent signal
  split
  · exact (forEach_singleton _ _).symm
  · exact (forEach_singleton _ _).symm
  · exact (addItem_eq data).trans (forEach_singleton _ _).symm
  · exact emitNonEmpty_eq fun _ => rfl
  · exact emitNonEmpty_eq fun _ => rfl
  · rfl
  · rfl
  · rfl
  · exact finishItem_eq data
  · exact absurd rfl h₁
  · exact absurd rfl h₂
  · exact (forEach_singleton _ _).symm
  · split
    all_goals first | contradiction | rfl

/-- An event is handled as the signal read off it. -/
theorem handleEvent_eq (eventType : String) (data : Json) :
    handleEvent eventType data = forEach apply (signal eventType data).toList := by
  by_cases h₁ : eventType = "response.completed"
  · subst h₁
    exact (forEach_singleton apply (.completed _ _)).symm
  by_cases h₂ : eventType = "response.failed"
  · subst h₂
    exact (forEach_singleton apply (.failed true _)).symm
  rw [handleEvent, noteEnd_of_running h₁ h₂, skip_andThen, parseEvent_eq data h₁ h₂]

end ResponsesSse

end AgentShim
