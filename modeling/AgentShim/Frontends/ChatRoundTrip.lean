import AgentShim.Frontends.ChatStream
import AgentShim.Providers.ChatSseLifecycle
import AgentShim.Stream.Calls

/-
  The Chat Completions stream, written and read back

  The wire keeps no blocks, so what comes back is compared by what is said: the
  text, the calls with their arguments, and how the message stopped. Neither the
  encoder nor the parser needs to know what came before to pass a piece on, so the
  pieces of the stream come back one by one, the calls under the next index.

  What is proved:
    1. `said_sent`, `callsOf_sent` — shifted indices and left out empty pieces change
       neither the text nor the calls.
    2. `carries_apply`, `ends_apply` — what the parser makes of a fragment, whatever came
       before it.
    3. `chat_round_trip` — the round trip of a stream.
-/

namespace AgentShim

namespace OpenAiChat

open Transducer ChatWire ChatSse
open Json (number asU64_number)

/-! ## What is said -/

inductive Piece
  | text (text : String)
  | call (index : Nat) (id name : String)
  | arguments (index : Nat) (fragment : String)
  deriving DecidableEq, Repr

structure ToolCall where
  id : String
  name : String
  arguments : String
  deriving DecidableEq, Repr

namespace Piece

def text? : Piece → Option String
  | .text s => some s
  | .call _ _ _ | .arguments _ _ => none

/-- The arguments a piece adds to the call under an index. -/
def fragment? (index : Nat) : Piece → Option String
  | .arguments i fragment => if i = index then some fragment else none
  | .text _ | .call _ _ _ => none

/-- A piece as it comes back: the calls are under the next index, and what is empty is
left out. -/
def sent : Piece → Option Piece
  | .text s => if s = "" then none else some (.text s)
  | .call index id name => some (.call (index + 1) id name)
  | .arguments index fragment =>
    if fragment = "" then none else some (.arguments (index + 1) fragment)

end Piece

def said (ps : List Piece) : String := String.join (ps.filterMap Piece.text?)

def argumentsOf (index : Nat) (ps : List Piece) : String :=
  String.join (ps.filterMap (Piece.fragment? index))

/-- The call that a piece starts, with its arguments among the pieces `ps`. -/
def callOf (ps : List Piece) : Piece → Option ToolCall
  | .call index id name => some { id := id, name := name, arguments := argumentsOf index ps }
  | .text _ | .arguments _ _ => none

/-- The calls in the order of their starts. -/
def callsOf (ps : List Piece) : List ToolCall := ps.filterMap (callOf ps)

theorem said_sent (ps : List Piece) : said (ps.filterMap Piece.sent) = said ps := by
  induction ps with
  | nil => rfl
  | cons p ps ih =>
    cases p with
    | text text =>
      by_cases h : text = ""
      · simpa [said, List.filterMap_cons, Piece.sent, Piece.text?, h] using ih
      · simpa [said, List.filterMap_cons, Piece.sent, Piece.text?, h] using ih
    | call index id name => simpa [said, List.filterMap_cons, Piece.sent, Piece.text?] using ih
    | arguments index fragment =>
      by_cases h : fragment = ""
      · simpa [said, List.filterMap_cons, Piece.sent, Piece.text?, h] using ih
      · simpa [said, List.filterMap_cons, Piece.sent, Piece.text?, h] using ih

theorem argumentsOf_sent (index : Nat) (ps : List Piece) :
    argumentsOf (index + 1) (ps.filterMap Piece.sent) = argumentsOf index ps := by
  induction ps with
  | nil => rfl
  | cons p ps ih =>
    cases p with
    | text text =>
      by_cases h : text = ""
      · simpa [argumentsOf, List.filterMap_cons, Piece.sent, Piece.fragment?, h] using ih
      · simpa [argumentsOf, List.filterMap_cons, Piece.sent, Piece.fragment?, h] using ih
    | call i id name =>
      simpa [argumentsOf, List.filterMap_cons, Piece.sent, Piece.fragment?] using ih
    | arguments i fragment =>
      by_cases h : fragment = "" <;> by_cases hi : i = index <;>
        simpa [argumentsOf, List.filterMap_cons, Piece.sent, Piece.fragment?, h, hi] using ih

theorem callsOf_sent (ps : List Piece) : callsOf (ps.filterMap Piece.sent) = callsOf ps := by
  have hcall : ∀ p : Piece, p.sent.bind (callOf (ps.filterMap Piece.sent)) = callOf ps p := by
    intro p
    cases p with
    | text text =>
      by_cases h : text = "" <;> simp [Piece.sent, callOf, h]
    | call index id name => simp [Piece.sent, callOf, argumentsOf_sent]
    | arguments index fragment =>
      by_cases h : fragment = "" <;> simp [Piece.sent, callOf, h]
  rw [callsOf, List.filterMap_filterMap, callsOf]
  exact List.filterMap_congr fun p _ => hcall p

/-- What an event says. -/
def pieceOf : StreamEvent → Option Piece
  | .textDelta _ text => some (.text text)
  | .toolCallStart index id name => some (.call index id name)
  | .toolCallArgumentsDelta index fragment => some (.arguments index fragment)
  | _ => none

def pieces (es : List StreamEvent) : List Piece := es.filterMap pieceOf

theorem pieces_append (es fs : List StreamEvent) : pieces (es ++ fs) = pieces es ++ pieces fs :=
  List.filterMap_append

/-! ## What the parser makes of a fragment -/

/-- A step of the parser that carries the pieces `ps`, whatever the state. -/
def Carries (f : Parse) (ps : List Piece) : Prop := ∀ s, pieces (f s).2 = ps

/-- A step that stops the message for the first of `reasons`, if it is not stopped. -/
def Ends (f : Parse) (reasons : List StopReason) : Prop :=
  ∀ s, stops (f s).2 =
      (if s.emittedMessageStop then [] else reasons.head?.toList.map fun r => (r, none)) ∧
    (f s).1.emittedMessageStop = (s.emittedMessageStop || !reasons.isEmpty)

variable {f g : Parse} {ps qs : List Piece} {rs ts : List StopReason} {d : DrainOrder}

theorem carries_skip : Carries skip [] := fun _ => rfl

theorem Carries.andThen (hf : Carries f ps) (hg : Carries g qs) :
    Carries (andThen f g) (ps ++ qs) := by
  intro s
  rw [andThen_apply, pieces_append, hf, hg]

theorem Carries.forEach {ι : Type} {step : ι → Parse} {view : ι → List Piece}
    (h : ∀ i, Carries (step i) (view i)) (is : List ι) :
    Carries (forEach step is) (is.flatMap view) := by
  induction is with
  | nil => exact carries_skip
  | cons i is ih =>
    rw [forEach_cons, List.flatMap_cons]
    exact (h i).andThen ih

theorem ends_skip : Ends skip [] := by
  intro s
  cases hs : s.emittedMessageStop <;> simp [skip, stops, hs]

theorem Ends.andThen (hf : Ends f rs) (hg : Ends g ts) : Ends (andThen f g) (rs ++ ts) := by
  intro s
  obtain ⟨hfs, hfe⟩ := hf s
  obtain ⟨hgs, hge⟩ := hg (f s).1
  rw [andThen_apply]
  refine ⟨?_, ?_⟩
  · rw [stops_append, hfs, hgs, hfe]
    cases hs : s.emittedMessageStop <;> cases rs <;> simp
  · rw [hge, hfe]
    cases hs : s.emittedMessageStop <;> cases rs <;> simp

theorem Ends.forEach {ι : Type} {step : ι → Parse} {view : ι → List StopReason}
    (h : ∀ i, Ends (step i) (view i)) (is : List ι) :
    Ends (forEach step is) (is.flatMap view) := by
  induction is with
  | nil => exact ends_skip
  | cons i is ih =>
    rw [forEach_cons, List.flatMap_cons]
    exact (h i).andThen ih

/-- A step that does not concern the stop. -/
theorem ends_nil (hstops : ∀ s, stops (f s).2 = [])
    (hstate : ∀ s, (f s).1.emittedMessageStop = s.emittedMessageStop) : Ends f [] := by
  intro s
  rw [hstops, hstate]
  cases s.emittedMessageStop <;> simp

/-- Such a step, where it says nothing either. -/
structure Quiet (f : Parse) : Prop where
  carries : Carries f []
  ends : Ends f []

theorem quiet_skip : Quiet skip := ⟨carries_skip, ends_skip⟩

theorem Quiet.andThen (hf : Quiet f) (hg : Quiet g) : Quiet (andThen f g) :=
  ⟨hf.carries.andThen hg.carries, hf.ends.andThen hg.ends⟩

theorem quiet_inOrder {fs : List Parse} (h : ∀ f ∈ fs, Quiet f) : Quiet (inOrder fs) := by
  induction fs with
  | nil => exact quiet_skip
  | cons f fs ih =>
    obtain ⟨hf, hfs⟩ := List.forall_mem_cons.mp h
    exact hf.andThen (ih hfs)

/-- What puts out an event that says nothing, or puts out nothing. -/
theorem quiet_of_split {e : StreamEvent} (hpiece : pieceOf e = none) (hstop : e.stop = none)
    (h : ∀ s, (f s).2 = [] ∨ (f s).2 = [e])
    (hstate : ∀ s, (f s).1.emittedMessageStop = s.emittedMessageStop) : Quiet f := by
  refine ⟨fun s => ?_, ends_nil (fun s => ?_) hstate⟩
  · rcases h s with h | h <;> simp [h, pieces, hpiece]
  · rcases h s with h | h <;> simp [h, stops, hstop]

theorem quiet_ensureMessageStart : Quiet ensureMessageStart := by
  refine quiet_of_split (e := .messageStart .assistant) rfl rfl (fun s => ?_) fun s => ?_ <;>
    unfold ensureMessageStart <;> split <;> simp

theorem quiet_openText : Quiet openText := by
  refine quiet_of_split (e := .contentBlockStart 0 .text) rfl rfl (fun s => ?_) fun s => ?_ <;>
    unfold openText <;> split <;> simp

theorem quiet_closeText : Quiet closeText := by
  refine quiet_of_split (e := .contentBlockStop 0) rfl rfl (fun s => ?_) fun s => ?_ <;>
    unfold closeText <;> split <;> simp

theorem quiet_openTool (index : Nat) : Quiet (openTool index) := by
  refine quiet_of_split (e := .contentBlockStart index .toolCall) rfl rfl (fun s => ?_)
    fun s => ?_ <;> unfold openTool <;> split <;> simp

theorem quiet_ensureEmptyResponseStart : Quiet ensureEmptyResponseStart := by
  refine ⟨fun s => ?_, ends_nil (fun s => ?_) fun s => ?_⟩ <;>
    unfold ensureEmptyResponseStart <;> split <;> rfl

theorem quiet_ensureResponseStart (id model : String) (created : Nat) :
    Quiet (ensureResponseStart id model created) := by
  refine quiet_of_split (e := .responseStart id model created) rfl rfl (fun s => ?_)
    fun s => ?_ <;> unfold ensureResponseStart <;> split <;> simp

theorem quiet_stopResponse : Quiet stopResponse :=
  quiet_of_split (e := .responseStop none) rfl rfl (fun _ => Or.inr rfl) fun _ => rfl

theorem quiet_ensureResponseStop : Quiet ensureResponseStop := by
  refine quiet_of_split (e := .responseStop none) rfl rfl (fun s => ?_) fun s => ?_ <;>
    unfold ensureResponseStop <;> split <;> simp [stopResponse]

theorem quiet_markCompleted : Quiet markCompleted :=
  ⟨fun _ => rfl, ends_nil (fun _ => rfl) fun _ => rfl⟩

theorem quiet_drainTools : Quiet (drainTools d) := by
  have hcloses : ∀ is e, e ∈ Envelope.closeTools is → pieceOf e = none ∧ e.stop = none := by
    intro is e he
    obtain ⟨i, -, he⟩ := List.mem_flatMap.mp he
    rcases List.mem_cons.mp he with rfl | he
    · exact ⟨rfl, rfl⟩
    · obtain rfl := List.mem_singleton.mp he
      exact ⟨rfl, rfl⟩
  refine ⟨fun s => ?_, ends_nil (fun s => ?_) fun _ => rfl⟩
  · exact List.filterMap_eq_nil_iff.mpr fun e he => (hcloses _ e he).1
  · exact List.filterMap_eq_nil_iff.mpr fun e he => (hcloses _ e he).2

theorem quiet_emit {e : StreamEvent} (hpiece : pieceOf e = none) (hstop : e.stop = none) :
    Quiet (emit e) :=
  quiet_of_split hpiece hstop (fun _ => Or.inr rfl) fun _ => rfl

theorem carries_emit {e : StreamEvent} {p : Piece} (h : pieceOf e = some p) :
    Carries (emit e) [p] := by
  intro s
  simp [emit, pieces, h]

theorem ends_emit {e : StreamEvent} (h : e.stop = none) : Ends (emit e) [] :=
  ends_nil (fun s => by simp [emit, stops, h]) fun _ => rfl

theorem carries_ensureMessageStop (reason : StopReason) :
    Carries (ensureMessageStop reason) [] := by
  intro s
  unfold ensureMessageStop
  split <;> rfl

theorem ends_ensureMessageStop (reason : StopReason) :
    Ends (ensureMessageStop reason) [reason] := by
  intro s
  cases hs : s.emittedMessageStop with
  | true =>
    rw [ensureMessageStop_of_stopped hs]
    exact ⟨rfl, hs⟩
  | false =>
    rw [ensureMessageStop_of_running hs]
    exact ⟨rfl, rfl⟩

/-- What a fragment says. -/
def fragmentPieces : Fragment Unit → List Piece
  | .content _ text => [.text text.val]
  | .toolCall index call arguments =>
    call.toList.map (fun call => .call index call.1 call.2) ++
      if arguments = "" then [] else [.arguments index arguments]
  | _ => []

def fragmentReasons : Fragment Unit → List StopReason
  | .finish reason => [.fromProviderString reason]
  | _ => []

theorem carries_apply (f : Fragment Unit) : Carries (apply d f) (fragmentPieces f) := by
  cases f with
  | chunk id model created => exact (quiet_ensureResponseStart id model created).carries
  | role => exact quiet_ensureMessageStart.carries
  | content kind text =>
    have htext := quiet_ensureMessageStart.carries.andThen
      (quiet_openText.carries.andThen (carries_emit (e := .textDelta 0 text.val) rfl))
    rwa [← parseText_eq] at htext
  | toolCalls => exact (quiet_inOrder (by simp [quiet_ensureMessageStart, quiet_closeText])).carries
  | toolCall index call arguments =>
    have hcall : Carries (ifSome call fun call => startTool index call.1 call.2)
        (call.toList.map fun call => .call index call.1 call.2) := by
      cases call with
      | none => exact carries_skip
      | some call =>
        exact (quiet_openTool index).carries.andThen
          ((carries_emit (e := .toolCallStart index call.1 call.2) rfl).andThen carries_skip)
    have harguments : Carries (emitArguments index arguments)
        (if arguments = "" then [] else [.arguments index arguments]) := by
      unfold emitArguments
      split
      · exact carries_skip
      · exact carries_emit rfl
    have hboth := hcall.andThen (harguments.andThen carries_skip)
    rwa [List.append_nil] at hboth
  | finish reason =>
    exact quiet_closeText.carries.andThen (quiet_drainTools.carries.andThen
      ((carries_ensureMessageStop _).andThen (quiet_markCompleted.carries.andThen carries_skip)))
  | usage usage => exact (quiet_emit rfl rfl).carries
  | error message => exact (quiet_emit rfl rfl).carries

theorem ends_apply (f : Fragment Unit) : Ends (apply d f) (fragmentReasons f) := by
  cases f with
  | chunk id model created => exact (quiet_ensureResponseStart id model created).ends
  | role => exact quiet_ensureMessageStart.ends
  | content kind text =>
    have htext := quiet_ensureMessageStart.ends.andThen
      (quiet_openText.ends.andThen (ends_emit (e := .textDelta 0 text.val) rfl))
    rwa [← parseText_eq] at htext
  | toolCalls => exact (quiet_inOrder (by simp [quiet_ensureMessageStart, quiet_closeText])).ends
  | toolCall index call arguments =>
    have hcall : Ends (ifSome call fun call => startTool index call.1 call.2) [] := by
      cases call with
      | none => exact ends_skip
      | some call =>
        exact (quiet_openTool index).ends.andThen ((ends_emit rfl).andThen ends_skip)
    have harguments : Ends (emitArguments index arguments) [] := by
      unfold emitArguments
      split
      · exact ends_skip
      · exact ends_emit rfl
    exact hcall.andThen (harguments.andThen ends_skip)
  | finish reason =>
    exact quiet_closeText.ends.andThen (quiet_drainTools.ends.andThen
      ((ends_ensureMessageStop _).andThen (quiet_markCompleted.ends.andThen ends_skip)))
  | usage usage => exact (quiet_emit rfl rfl).ends
  | error message => exact (quiet_emit rfl rfl).ends

/-! ## What the parser makes of a frame -/

/-- A data line as the event source yields it. -/
def Frame.item : Frame → SseItem
  | data v => .data (.ok v)
  | done => .done

def parseFrame (d : DrainOrder) : Frame → Parse
  | .data v => parseChunk d v
  | .done => handleDone d

/-- The canonical stream that is read back. -/
def readBack (d : DrainOrder) (clockOverride : Option Nat) (now : Nat) (es : List StreamEvent) :
    List StreamEvent :=
  okEvents ((handlers d).poll {} ((encode clockOverride now (es.map .ok)).map Frame.item))

theorem readBack_eq (d : DrainOrder) (clockOverride : Option Nat) (now : Nat)
    (es : List StreamEvent) :
    readBack d clockOverride now es =
      (andThen (forEach (parseFrame d) (encode clockOverride now (es.map .ok))) (finalize d)
        {}).2 := by
  have hframes : forEach (handlers d).handle
      ((encode clockOverride now (es.map .ok)).map Frame.item) =
        okItems (forEach (parseFrame d) (encode clockOverride now (es.map .ok))) := by
    rw [forEach_map, ← forEach_okItems]
    congr 1
    funext frame
    cases frame <;> rfl
  rw [readBack, Handlers.poll, hframes]
  simp only [andThen, okItems, ← List.map_append, okEvents_map_ok]
  rfl

def framePieces : Frame → List Piece
  | .data v => (fragments dialect v).flatMap fragmentPieces
  | .done => []

def frameReasons : Frame → List StopReason
  | .data v => (fragments dialect v).flatMap fragmentReasons
  | .done => [.endTurn]

theorem carries_parseFrame (frame : Frame) : Carries (parseFrame d frame) (framePieces frame) := by
  cases frame with
  | data v =>
    rw [parseFrame, parseChunk_eq]
    exact Carries.forEach carries_apply _
  | done =>
    exact quiet_ensureEmptyResponseStart.carries.andThen
      (quiet_ensureMessageStart.carries.andThen (quiet_closeText.carries.andThen
        (quiet_drainTools.carries.andThen ((carries_ensureMessageStop _).andThen
          (quiet_ensureResponseStop.carries.andThen
            (quiet_markCompleted.carries.andThen carries_skip))))))

theorem ends_parseFrame (frame : Frame) : Ends (parseFrame d frame) (frameReasons frame) := by
  cases frame with
  | data v =>
    rw [parseFrame, parseChunk_eq]
    exact Ends.forEach ends_apply _
  | done =>
    exact quiet_ensureEmptyResponseStart.ends.andThen
      (quiet_ensureMessageStart.ends.andThen (quiet_closeText.ends.andThen
        (quiet_drainTools.ends.andThen ((ends_ensureMessageStop _).andThen
          (quiet_ensureResponseStop.ends.andThen
            (quiet_markCompleted.ends.andThen ends_skip))))))

theorem carries_finalize : Carries (finalize d) [] := by
  have hrest : Carries (inOrder [ensureMessageStart, closeText, drainTools d,
      ensureMessageStop .endTurn, stopResponse]) [] :=
    quiet_ensureMessageStart.carries.andThen (quiet_closeText.carries.andThen
      (quiet_drainTools.carries.andThen ((carries_ensureMessageStop _).andThen
        (quiet_stopResponse.carries.andThen carries_skip))))
  intro s
  unfold finalize
  split
  · rfl
  · split
    · exact hrest s
    · rfl

/-- The drain of a message that was stopped does not stop it again. -/
theorem stops_finalize {s : ParserState} (h : s.emittedMessageStop = true) :
    stops (finalize d s).2 = [] := by
  have hrest : Ends (inOrder [ensureMessageStart, closeText, drainTools d,
      ensureMessageStop .endTurn, stopResponse]) [.endTurn] :=
    quiet_ensureMessageStart.ends.andThen (quiet_closeText.ends.andThen
      (quiet_drainTools.ends.andThen ((ends_ensureMessageStop _).andThen
        (quiet_stopResponse.ends.andThen ends_skip))))
  unfold finalize
  split
  · rfl
  · split
    · rw [(hrest s).1, if_pos h]
    · rfl

/-! ## What the encoder writes of an event -/

/-- The index of a call is read as the next one. -/
theorem toolBlockIndex_of_get {tc : Json} {i : Nat} (hi : i < 4294967295)
    (h : tc.get "index" = some (number i)) : toolBlockIndex tc = i + 1 := by
  rw [toolBlockIndex, Json.getU64, h, Option.bind_some, asU64_number (by omega), Option.getD_some,
    Wire.asU32, Wire.addU32, Nat.mod_eq_of_lt (show i < 4294967296 by omega),
    Nat.mod_eq_of_lt (by omega)]

/-- The reason that is read of the finish reason of a stop. -/
def collapse : StopReason → StopReason
  | .stopSequence | .other _ => .endTurn
  | reason => reason

def eventReasons : StreamEvent → List StopReason
  | .messageStop reason _ => [collapse reason]
  | .responseStop _ => [.endTurn]
  | _ => []

/-- The call of an event, if it has one, is under an index below the last of `u32`. -/
def IndexFits : StreamEvent → Prop
  | .toolCallStart index _ _ | .toolCallArgumentsDelta index _ => index < 4294967295
  | _ => True

variable {clock : Option Nat}

/-- What is read of a chunk with one choice is read of its delta and its finish reason. -/
theorem flatMap_chunkOut {β : Type} {read : Fragment Unit → List β}
    (hread : ∀ id model created, read (.chunk id model created) = []) (s : EncoderState)
    (delta : DeltaOut) (finishReason : Option String) :
    (fragments dialect (chunkOut s.responseId s.created s.model
      [{ delta := delta, finishReason := finishReason }] none)).flatMap read =
        (deltaFragments dialect delta.toJson ++ finishFragments
          (ChoiceOut.toJson { delta := delta, finishReason := finishReason })).flatMap read := by
  obtain ⟨choice, hchoice⟩ : ∃ choice : ChoiceOut,
      choice = { delta := delta, finishReason := finishReason } := ⟨_, rfl⟩
  rw [← hchoice]
  obtain ⟨v, hv⟩ : ∃ v, v = chunkOut s.responseId s.created s.model [choice] none := ⟨_, rfl⟩
  have herror : v.get "error" = none := by rw [hv]; rfl
  have hchoices : v.getArray "choices" = some [choice.toJson] := by rw [hv]; rfl
  have husage : v.get "usage" = none := by rw [hv]; rfl
  have hdelta : choice.toJson.get "delta" = some delta.toJson := by rw [hchoice]; rfl
  have hnone : dialect.usageAfter v = none := by
    show ((v.get "usage").filter _).bind _ = none
    rw [husage]
    rfl
  simp only [← hv, fragments, herror, hchoices, hnone, usageFragments, choiceFragments, hdelta,
    Option.toList_some, Option.toList_none, List.map_nil, List.append_nil, List.flatMap_cons,
    List.flatMap_nil, hread, List.nil_append]

/-- Nothing is read of a chunk with a usage only. -/
theorem flatMap_usageChunk {β : Type} {read : Fragment Unit → List β}
    (hread : ∀ id model created, read (.chunk id model created) = [])
    (husage : ∀ usage, read (.usage usage) = []) (s : EncoderState) (usage : UsageOut) :
    (fragments dialect (chunkOut s.responseId s.created s.model [] (some usage))).flatMap read =
      [] := by
  obtain ⟨v, hv⟩ : ∃ v, v = chunkOut s.responseId s.created s.model [] (some usage) := ⟨_, rfl⟩
  have herror : v.get "error" = none := by rw [hv]; rfl
  have hchoices : v.getArray "choices" = some [] := by rw [hv]; rfl
  simp only [← hv, fragments, herror, hchoices, List.flatMap_cons, hread, List.flatMap_nil,
    List.nil_append, usageFragments]
  cases dialect.usageAfter v with
  | none => rfl
  | some usage => simp [husage]

theorem deltaFragments_text (text : String) :
    deltaFragments dialect (DeltaOut.toJson { content := some text }) =
      if h : text ≠ "" then [.content () ⟨text, h⟩] else [] := by
  show ((if h : text ≠ "" then some (⟨text, h⟩ : NonEmptyString) else none).toList.map
    fun text => ((), text)).map _ ++ [] = _
  by_cases h : text = ""
  · simp [h]
  · simp [h]

theorem deltaFragments_call {tc : ToolCallDeltaOut} (hi : tc.index < 4294967295) :
    deltaFragments dialect (DeltaOut.toJson { toolCalls := [tc] }) =
      [.toolCalls, .toolCall (tc.index + 1) (tc.id.map fun id => (id, tc.function.name.getD ""))
        (tc.function.arguments.getD "")] := by
  have hindex : toolBlockIndex tc.toJson = tc.index + 1 := toolBlockIndex_of_get hi rfl
  show [.toolCalls, Fragment.toolCall (toolBlockIndex tc.toJson) _ _] = _
  rw [hindex]
  obtain ⟨index, id, ty, name, arguments⟩ := tc
  cases id <;> cases ty <;> cases name <;> cases arguments <;> rfl

theorem pieces_sendDelta (delta : DeltaOut) (s : EncoderState) :
    (sendDelta delta none s).2.flatMap framePieces =
      (deltaFragments dialect delta.toJson).flatMap fragmentPieces := by
  have hfinish : finishFragments (κ := Unit)
      (ChoiceOut.toJson { delta := delta, finishReason := none }) = [] := rfl
  rw [sendDelta, List.flatMap_singleton]
  refine (flatMap_chunkOut (fun _ _ _ => rfl) s delta none).trans ?_
  rw [hfinish, List.append_nil]

theorem finishFragments_stop (reason : StopReason) :
    finishFragments (κ := Unit) (ChoiceOut.toJson
      { delta := {}, finishReason := some (finishReasonFromCanonical reason) }) =
        [.finish (finishReasonFromCanonical reason)] := by
  cases reason <;> rfl

theorem fromProviderString_finishReason (reason : StopReason) :
    StopReason.fromProviderString (finishReasonFromCanonical reason) = collapse reason := by
  cases reason <;> rfl

theorem carries_encodeEvent {e : StreamEvent} (hindex : IndexFits e) (s : EncoderState) :
    (encodeEvent clock e s).2.flatMap framePieces = ((pieceOf e).bind Piece.sent).toList := by
  cases e with
  | responseStart id model created => exact pieces_sendDelta { role := some "assistant" } _
  | textDelta index text =>
    rw [encodeEvent, pieces_sendDelta, deltaFragments_text]
    by_cases h : text = "" <;> simp [h, pieceOf, Piece.sent, fragmentPieces]
  | toolCallStart index id name =>
    rw [encodeEvent, pieces_sendDelta, deltaFragments_call]
    · rfl
    · exact hindex
  | toolCallArgumentsDelta index fragment =>
    rw [encodeEvent, pieces_sendDelta, deltaFragments_call]
    · by_cases h : fragment = "" <;> simp [h, pieceOf, Piece.sent, fragmentPieces]
    · exact hindex
  | responseStop usage =>
    cases usage with
    | none => rfl
    | some usage =>
      have hnone : framePieces (makeUsageChunk s usage) = [] :=
        flatMap_usageChunk (fun _ _ _ => rfl) (fun _ => rfl) s _
      show framePieces (makeUsageChunk s usage) ++ _ = _
      rw [hnone]
      rfl
  | messageStop reason sequence =>
    rw [encodeEvent, sendDelta, List.flatMap_singleton]
    refine (flatMap_chunkOut (fun _ _ _ => rfl) s _ _).trans ?_
    rw [finishFragments_stop]
    rfl
  | _ => rfl

theorem reasons_encodeEvent (e : StreamEvent) (s : EncoderState) :
    (encodeEvent clock e s).2.flatMap frameReasons = eventReasons e := by
  have hdelta : ∀ delta s, frameReasons (makeChunk s delta none) =
      (deltaFragments dialect delta.toJson).flatMap fragmentReasons := by
    intro delta s
    have hfinish : finishFragments (κ := Unit)
        (ChoiceOut.toJson { delta := delta, finishReason := none }) = [] := rfl
    refine (flatMap_chunkOut (fun _ _ _ => rfl) s delta none).trans ?_
    rw [hfinish, List.append_nil]
  cases e with
  | responseStart id model created =>
    rw [encodeEvent, startResponse, sendDelta, List.flatMap_singleton, hdelta]
    rfl
  | textDelta index text =>
    rw [encodeEvent, sendDelta, List.flatMap_singleton, hdelta, deltaFragments_text]
    by_cases h : text = "" <;> simp [h, eventReasons, fragmentReasons]
  | toolCallStart index id name =>
    rw [encodeEvent, sendDelta, List.flatMap_singleton, hdelta]
    rfl
  | toolCallArgumentsDelta index fragment =>
    rw [encodeEvent, sendDelta, List.flatMap_singleton, hdelta]
    rfl
  | responseStop usage =>
    cases usage with
    | none => rfl
    | some usage =>
      have hnone : frameReasons (makeUsageChunk s usage) = [] :=
        flatMap_usageChunk (fun _ _ _ => rfl) (fun _ => rfl) s _
      show frameReasons (makeUsageChunk s usage) ++ _ = _
      rw [hnone]
      rfl
  | messageStop reason sequence =>
    rw [encodeEvent, sendDelta, List.flatMap_singleton]
    refine (flatMap_chunkOut (fun _ _ _ => rfl) s _ _).trans ?_
    rw [finishFragments_stop]
    exact congrArg (fun r => [r]) (fromProviderString_finishReason reason)
  | _ => rfl

/-! ## The round trip -/

theorem done_encodeEvent {e : StreamEvent} (h : e.isResponseStop = false) (s : EncoderState) :
    (encodeEvent clock e s).1.done = s.done := by
  cases e with
  | responseStop usage => cases h
  | _ => rfl

/-- The whole stream is written, and its last event ends it. -/
theorem encode_eq {front : List StreamEvent} (last : StreamEvent) (now : Nat)
    (h : ∀ e ∈ front, e.isResponseStop = false) :
    encode clock now ((front ++ [last]).map .ok) =
      (forEach (encodeEvent clock) (front ++ [last]) { created := clock.getD now }).2 := by
  rw [encode, untilDone_map_concat Except.ok last
    (fun e he s hs => (done_encodeEvent (h e he) s).trans hs) rfl]
  rfl

/-- The tool events of a stream of the envelope are under the indices of its tool
blocks. -/
theorem indexFits_of_exec {es : List StreamEvent} {m : Envelope}
    (h : Runs.exec (Envelope.step false) {} es = some m)
    (hindices : ∀ b ∈ started es, b.2 = .toolCall → b.1 < 4294967295) :
    ∀ e ∈ es, IndexFits e := by
  intro e he
  have hstarted : ∀ i x, toolEvent i e = some x → i < 4294967295 := by
    intro i x hx
    have hmem : x ∈ toolEvents i es := List.mem_filterMap.mpr ⟨e, he, hx⟩
    exact hindices (i, .toolCall) (started_of_toolEvent h hmem) rfl
  cases e with
  | toolCallStart i id name => exact hstarted i .start (if_pos rfl)
  | toolCallArgumentsDelta i fragment => exact hstarted i .arguments (if_pos rfl)
  | _ => trivial

theorem reasons_of_stops {front : List StreamEvent} {usage : Option Usage}
    {stop : StopReason × Option String} (hstop : stops front = [stop])
    (hnoEnd : ∀ e ∈ front, e.isResponseStop = false) :
    (front ++ [StreamEvent.responseStop usage]).flatMap eventReasons =
      [collapse stop.1, .endTurn] := by
  have hone : ∀ e ∈ front, eventReasons e = e.stop.toList.map fun stop => collapse stop.1 := by
    intro e he
    have hend := hnoEnd e he
    cases e <;> first | rfl | cases hend
  rw [List.flatMap_append, List.flatMap_singleton, List.flatMap_congr hone, ← List.map_flatMap,
    ← List.filterMap_eq_flatMap_toList, ← stops, hstop]
  rfl

/-- A lifecycle-valid stream whose tool blocks have indices below the last of `u32` is read
back with its text, its calls in the order of their starts, and its stop reason as far as
the wire has it. -/
theorem chat_round_trip {es : List StreamEvent} (hvalid : LifecycleValid es)
    (hlast : es.getLast?.any StreamEvent.isResponseStop = true)
    (hindices : ∀ b ∈ started es, b.2 = .toolCall → b.1 < 4294967295) (d : DrainOrder)
    (clockOverride : Option Nat) (now : Nat) :
    said (pieces (readBack d clockOverride now es)) = said (pieces es) ∧
      callsOf (pieces (readBack d clockOverride now es)) = callsOf (pieces es) ∧
      stops (readBack d clockOverride now es) =
        (stops es).map fun stop => (collapse stop.1, none) := by
  obtain ⟨front, usage, m, rfl, hexec, hstop, -, hnoEnd⟩ := hvalid.split hlast
  obtain ⟨m', hm', -⟩ := lifecycleValid_iff.mp hvalid
  obtain ⟨stop, hone⟩ := stops_of_stopped hexec hstop
  have hfits := indexFits_of_exec hm' hindices
  obtain ⟨frames, hwritten⟩ : ∃ frames, frames =
      encode clockOverride now ((front ++ [StreamEvent.responseStop usage]).map .ok) := ⟨_, rfl⟩
  have hframes := hwritten.trans (encode_eq (.responseStop usage) now hnoEnd)
  have hpieces : pieces (readBack d clockOverride now (front ++ [.responseStop usage])) =
      (pieces (front ++ [.responseStop usage])).filterMap Piece.sent := by
    have hread : Carries (andThen (forEach (parseFrame d) frames) (finalize d))
        (frames.flatMap framePieces ++ []) :=
      (Carries.forEach carries_parseFrame frames).andThen carries_finalize
    rw [readBack_eq, ← hwritten, hread, List.append_nil, hframes,
      flatMap_forEach fun e he s => carries_encodeEvent (hfits e he) s, pieces,
      List.filterMap_filterMap, List.filterMap_eq_flatMap_toList]
  have hreasons : frames.flatMap frameReasons = [collapse stop.1, .endTurn] := by
    rw [hframes, flatMap_forEach fun e _ s => reasons_encodeEvent e s, reasons_of_stops hone hnoEnd]
  have hends : Ends (forEach (parseFrame d) frames) [collapse stop.1, .endTurn] := by
    rw [← hreasons]
    exact Ends.forEach ends_parseFrame frames
  obtain ⟨hstops, hstopped⟩ := hends {}
  refine ⟨by rw [hpieces, said_sent], by rw [hpieces, callsOf_sent], ?_⟩
  have hsame : stops (front ++ [.responseStop usage]) = [stop] := by
    rw [stops_append, hone]
    rfl
  rw [readBack_eq, ← hwritten, andThen_apply, stops_append, stops_finalize hstopped, hstops, hsame]
  rfl

/-- Arguments of two calls and a text that come in turns. -/
def inTurns : List StreamEvent :=
  [.responseStart "1" "gpt" 0, .messageStart .assistant, .contentBlockStart 0 .toolCall,
    .toolCallStart 0 "call_1" "search", .contentBlockStart 7 .toolCall,
    .toolCallStart 7 "call_2" "read", .toolCallArgumentsDelta 0 "\x7b", .contentBlockStart 3 .text,
    .toolCallArgumentsDelta 7 "{}", .textDelta 3 "Wait.", .toolCallArgumentsDelta 0 "\x7d",
    .toolCallStop 7, .contentBlockStop 7, .toolCallStop 0, .contentBlockStop 0,
    .contentBlockStop 3, .messageStop .toolUse none, .responseStop none]

theorem inTurns_round_trip :
    said (pieces (readBack asInserted none 0 inTurns)) = said (pieces inTurns) ∧
      callsOf (pieces (readBack asInserted none 0 inTurns)) = callsOf (pieces inTurns) ∧
      stops (readBack asInserted none 0 inTurns) =
        (stops inTurns).map fun stop => (collapse stop.1, none) :=
  chat_round_trip (by decide) (by decide) (by decide) asInserted none 0

end OpenAiChat

end AgentShim
