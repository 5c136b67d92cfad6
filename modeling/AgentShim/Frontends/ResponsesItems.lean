import AgentShim.Frontends.ResponsesRoundTrip

/-
  The items of a Responses stream

  A client of the stream reads it by output index: an item is added, takes its deltas
  and is done, and what it is done with repeats the deltas. Each text and reasoning
  block is an item from its start on, each tool block from its call on.

  What is proved:
    1. `moves_startText`, …, `moves_stopCall` — what the encoder does to the item of a block
       and to what it keeps of it.
    2. `Writes.add`, `Writes.delta`, `Writes.done`, `Writes.rest` — the rules for an event
       that adds an item, brings a piece of it, ends it or leaves the items alone.
    3. `writes_encodeEvent`, `writes_front` — after any events of a stream each item is
       written as far as its block has come.
    4. `encode_follows` — the chunks of a stream, item by item.
    5. `calls_misplaced` — streams with one call in each tool block that are not written so.
-/

namespace AgentShim

namespace OpenAiResponses

open Buffers Transducer
open Json (number asU64_number)

/-! What a client reads. -/

def chunkEvent : Chunk → Option String
  | .ok (event, _) => some event
  | .error _ => none

def chunkIndex : Chunk → Option Nat
  | .ok (_, data) => data.getU64 "output_index"
  | .error _ => none

/-- The chunks under an output index. -/
def underIndex (n : Nat) (chunks : List Chunk) : List Chunk :=
  chunks.filter fun c => chunkIndex c = some n

/-- The output index of an item that is added. -/
def addedIndex (c : Chunk) : Option Nat :=
  if chunkEvent c = some "response.output_item.added" then chunkIndex c else none

/-! What an item should be. -/

/-- The kinds of block that become items. -/
def hasItem : ContentBlockKind → Bool
  | .text | .reasoning | .toolCall => true
  | _ => false

/-- The blocks that become items, in the order in which they are announced. -/
def items (es : List StreamEvent) : List (Nat × ContentBlockKind) :=
  (starts (announcedParts es)).filter fun b => hasItem b.2

/-- The same blocks in the order of their starts. -/
def startedItems (es : List StreamEvent) : List (Nat × ContentBlockKind) :=
  (started es).filter fun b => hasItem b.2

def pieceAt (index : Nat) : StreamEvent → Option String
  | .textDelta i s | .reasoningDelta i s | .toolCallArgumentsDelta i s =>
    if i = index then some s else none
  | _ => none

def callAt (index : Nat) : StreamEvent → Option (String × String)
  | .toolCallStart i id name => if i = index then some (id, name) else none
  | _ => none

/-- The deltas of a block. -/
def deltasOf (index : Nat) (es : List StreamEvent) : List String := es.filterMap (pieceAt index)

/-- The id and the name that a block is called with. -/
def callOf (index : Nat) (es : List StreamEvent) : String × String :=
  (es.findSome? (callAt index)).getD ("", "")

def idPrefix : ContentBlockKind → String
  | .text => "msg_"
  | .reasoning => "rs_"
  | _ => "fc_"

def itemIdOf (kind : ContentBlockKind) (n : Nat) : String := idPrefix kind ++ toString n

/-- An item is added. -/
def opening (kind : ContentBlockKind) (n : Nat) (call : String × String) : List Chunk :=
  match kind with
  | .text =>
    [itemAdded n (.message (itemIdOf .text n) "in_progress" []),
      contentPart "response.content_part.added" (itemIdOf .text n) n (.outputText "")]
  | .reasoning => [itemAdded n (.reasoning (itemIdOf .reasoning n) "in_progress" [])]
  | _ => [itemAdded n (.functionCall (itemIdOf .toolCall n) call.1 call.2 "" "in_progress")]

def deltaChunk (kind : ContentBlockKind) (n : Nat) (delta : String) : Chunk :=
  match kind with
  | .text => textDelta (itemIdOf .text n) n delta
  | .reasoning => reasoningDelta (itemIdOf .reasoning n) n delta
  | _ => functionCallArgsDelta (itemIdOf .toolCall n) n delta

/-- An item is done. -/
def closing (kind : ContentBlockKind) (n : Nat) (call : String × String) (text : String) :
    List Chunk :=
  match kind with
  | .text => finishText n (itemIdOf .text n) text
  | .reasoning => finishReasoning n (itemIdOf .reasoning n) text
  | _ =>
    [functionCallArgsDone (itemIdOf .toolCall n) n text,
      itemDone n (.functionCall (itemIdOf .toolCall n) call.1 call.2 text "completed")]

/-- All the chunks of an item: it is added, its deltas come in order, and it is done with what
    they come to. -/
def script (es : List StreamEvent) (n : Nat) (b : Nat × ContentBlockKind) : List Chunk :=
  opening b.2 n (callOf b.1 es) ++ (deltasOf b.1 es).map (deltaChunk b.2 n) ++
    closing b.2 n (callOf b.1 es) (String.join (deltasOf b.1 es))

/-- The chunks are those of the items `bs` under 0, 1, 2, …, added in this order, and the
    response is completed last and once. -/
structure Follows (bs : List (Nat × ContentBlockKind)) (es : List StreamEvent)
    (chunks : List Chunk) : Prop where
  noErrors : ∀ c ∈ chunks, (chunkEvent c).isSome = true
  items : ∀ n, underIndex n chunks = (bs[n]?).elim [] (script es n)
  ordered : chunks.filterMap addedIndex = List.range bs.length
  completed : ∃ front response, chunks = front ++ [.ok ("response.completed", response)] ∧
    ∀ c ∈ front, chunkEvent c ≠ some "response.completed"

/-! What the encoder keeps of an item. -/

/-- What the tables have under an output index. -/
structure Row where
  id : Option String := none
  text : Option String := none
  reasoning : Option String := none
  arguments : Option String := none
  call : Option (String × String) := none

def EncoderState.row (s : EncoderState) (n : Nat) : Row where
  id := s.itemIds.lookup n
  text := s.textBuf.lookup n
  reasoning := s.reasoningBuf.lookup n
  arguments := s.toolArgsBuf.lookup n
  call := s.toolMeta.lookup n

/-- What they should have of an item: one that is live has a text, one that is done has none. -/
def itemRow (kind : ContentBlockKind) (n : Nat) (text : Option String) (call : String × String) :
    Row where
  id := some (itemIdOf kind n)
  text := if kind = .text then text else none
  reasoning := if kind = .reasoning then text else none
  arguments := if kind = .toolCall then text else none
  call := if kind = .toolCall then text.map fun _ => call else none

/-- The step puts out the chunks and leaves the row under the output index of the block; it
    touches no other row and maps no other block. -/
structure Moves (g : Encode) (s : EncoderState) (i n : Nat) (row : Row) (new : List Chunk) :
    Prop where
  out : (g s).2 = new
  row : (g s).1.row n = row
  others : ∀ k, k ≠ n → (g s).1.row k = s.row k
  mapped : ∀ j, j ≠ i → (g s).1.canonicalToOutput.lookup j = s.canonicalToOutput.lookup j

variable {s : EncoderState} {i n : Nat} {text piece id name : String} {call : String × String}

/-! An item is added. -/

theorem moves_startText (h : s.row s.outputIndex = {}) :
    Moves (startText i) s i s.outputIndex (itemRow .text s.outputIndex (some "") call)
      (opening .text s.outputIndex call) where
  out := rfl
  row := by
    simp only [EncoderState.row, Row.mk.injEq] at h
    simp [EncoderState.row, startText, EncoderState.take, itemRow, itemIdOf, idPrefix, h]
  others k hk := by
    simp [EncoderState.row, startText, EncoderState.take, AList.lookup_insert_ne hk]
  mapped j hj := AList.lookup_insert_ne hj

theorem moves_startReasoning (h : s.row s.outputIndex = {}) :
    Moves (startReasoning i) s i s.outputIndex (itemRow .reasoning s.outputIndex (some "") call)
      (opening .reasoning s.outputIndex call) where
  out := rfl
  row := by
    simp only [EncoderState.row, Row.mk.injEq] at h
    simp [EncoderState.row, startReasoning, EncoderState.take, itemRow, itemIdOf, idPrefix, h]
  others k hk := by
    simp [EncoderState.row, startReasoning, EncoderState.take, AList.lookup_insert_ne hk]
  mapped j hj := AList.lookup_insert_ne hj

theorem moves_startCall (h : s.row s.outputIndex = {}) :
    Moves (startCall i id name) s i s.outputIndex
      (itemRow .toolCall s.outputIndex (some "") (id, name))
      (opening .toolCall s.outputIndex (id, name)) where
  out := rfl
  row := by
    simp only [EncoderState.row, Row.mk.injEq] at h
    simp [EncoderState.row, startCall, EncoderState.take, itemRow, itemIdOf, idPrefix, h]
  others k hk := by
    simp [EncoderState.row, startCall, EncoderState.take, AList.lookup_insert_ne hk]
  mapped j hj := AList.lookup_insert_ne hj

/-! It takes a piece. -/

theorem moves_encodeText (hi : s.canonicalToOutput.lookup i = some n)
    (h : s.row n = itemRow .text n (some text) call) :
    Moves (encodeText i piece) s i n (itemRow .text n (some (text ++ piece)) call)
      [deltaChunk .text n piece] := by
  simp only [EncoderState.row, itemRow, Row.mk.injEq] at h
  obtain ⟨hid, htext, hrest⟩ := h
  have hstep : encodeText i piece s = _ := withOutput_of_lookup hi
  refine ⟨?_, ?_, fun k hk => ?_, fun j _ => ?_⟩ <;> rw [hstep]
  · simp [deltaChunk, EncoderState.itemId, hid]
  · simp [EncoderState.row, itemRow, lookup_pushText_self, hid, htext, hrest]
  · simp [EncoderState.row, lookup_pushText_ne hk]

theorem moves_encodeReasoning (hi : s.canonicalToOutput.lookup i = some n)
    (h : s.row n = itemRow .reasoning n (some text) call) :
    Moves (encodeReasoning i piece) s i n (itemRow .reasoning n (some (text ++ piece)) call)
      [deltaChunk .reasoning n piece] := by
  simp only [EncoderState.row, itemRow, Row.mk.injEq] at h
  obtain ⟨hid, htext, hreasoning, hrest⟩ := h
  have hstep : encodeReasoning i piece s = _ := withOutput_of_lookup hi
  refine ⟨?_, ?_, fun k hk => ?_, fun j _ => ?_⟩ <;> rw [hstep]
  · simp [deltaChunk, EncoderState.itemId, hid]
  · simp [EncoderState.row, itemRow, lookup_pushText_self, hid, htext, hreasoning, hrest]
  · simp [EncoderState.row, lookup_pushText_ne hk]

theorem moves_encodeArguments (hi : s.canonicalToOutput.lookup i = some n)
    (h : s.row n = itemRow .toolCall n (some text) call) :
    Moves (encodeArguments i piece) s i n (itemRow .toolCall n (some (text ++ piece)) call)
      [deltaChunk .toolCall n piece] := by
  simp only [EncoderState.row, itemRow, Row.mk.injEq] at h
  obtain ⟨hid, htext, hreasoning, harguments, hcall⟩ := h
  have hstep : encodeArguments i piece s = _ := withOutput_of_lookup hi
  refine ⟨?_, ?_, fun k hk => ?_, fun j _ => ?_⟩ <;> rw [hstep]
  · simp [deltaChunk, EncoderState.itemId, hid]
  · simp [EncoderState.row, itemRow, lookup_pushText_self, hid, htext, hreasoning, harguments,
      hcall]
  · simp [EncoderState.row, lookup_pushText_ne hk]

/-! It is done. -/

theorem moves_stopText (hi : s.canonicalToOutput.lookup i = some n)
    (h : s.row n = itemRow .text n (some text) call) :
    Moves (stopBlock i) s i n (itemRow .text n none call) (closing .text n call text) := by
  simp only [EncoderState.row, itemRow, Row.mk.injEq] at h
  obtain ⟨hid, htext, hrest⟩ := h
  have htext : s.textBuf.lookup n = some text := htext
  constructor
  case out => simp [stopBlock, hi, htext, closing, EncoderState.itemId, hid]
  case row => simp [stopBlock, hi, htext, EncoderState.row, itemRow, hid, hrest]
  case others =>
    intro k hk
    simp [stopBlock, hi, htext, EncoderState.row, AList.lookup_erase_ne hk]
  case mapped =>
    intro j hj
    simp [stopBlock, hi, htext, AList.lookup_erase_ne hj]

theorem moves_stopReasoning (hi : s.canonicalToOutput.lookup i = some n)
    (h : s.row n = itemRow .reasoning n (some text) call) :
    Moves (stopBlock i) s i n (itemRow .reasoning n none call)
      (closing .reasoning n call text) := by
  simp only [EncoderState.row, itemRow, Row.mk.injEq] at h
  obtain ⟨hid, htext, hreasoning, hrest⟩ := h
  have htext : s.textBuf.lookup n = none := htext
  have hreasoning : s.reasoningBuf.lookup n = some text := hreasoning
  constructor
  case out => simp [stopBlock, hi, htext, hreasoning, closing, EncoderState.itemId, hid]
  case row => simp [stopBlock, hi, htext, hreasoning, EncoderState.row, itemRow, hid, hrest]
  case others =>
    intro k hk
    simp [stopBlock, hi, htext, hreasoning, EncoderState.row, AList.lookup_erase_ne hk]
  case mapped =>
    intro j hj
    simp [stopBlock, hi, htext, hreasoning, AList.lookup_erase_ne hj]

theorem moves_stopCall (hi : s.canonicalToOutput.lookup i = some n)
    (h : s.row n = itemRow .toolCall n (some text) call) :
    Moves (stopCall i) s i n (itemRow .toolCall n none call) (closing .toolCall n call text) := by
  simp only [EncoderState.row, itemRow, Row.mk.injEq] at h
  obtain ⟨hid, htext, hreasoning, harguments, hcall⟩ := h
  have harguments : s.toolArgsBuf.lookup n = some text := harguments
  have hcall : s.toolMeta.lookup n = some call := hcall
  have hstep : stopCall i s = _ := withOutput_of_lookup hi
  refine ⟨?_, ?_, fun k hk => ?_, fun j _ => ?_⟩ <;> rw [hstep]
  · simp [closing, EncoderState.itemId, hid, harguments, hcall]
  · simp [EncoderState.row, itemRow, hid, htext, hreasoning]
  · simp [EncoderState.row, AList.lookup_erase_ne hk]

/-! ## The chunks of an item -/

/-- An event, not the last of a response, under the output index. -/
def Under (n : Option Nat) (c : Chunk) : Prop :=
  chunkIndex c = n ∧ ∃ event, chunkEvent c = some event ∧ event ≠ "response.completed"

theorem under_of_get {event : String} {data : Json} (hn : n < 4294967296)
    (hdata : data.get "output_index" = some (number n)) (hevent : event ≠ "response.completed") :
    Under (some n) (.ok (event, data)) := by
  refine ⟨?_, event, rfl, hevent⟩
  show data.getU64 "output_index" = some n
  rw [Json.getU64, hdata, Option.bind_some, asU64_number hn]

theorem under_opening (hn : n < 4294967296) (kind : ContentBlockKind)
    (call : String × String) : ∀ c ∈ opening kind n call, Under (some n) c := by
  intro c hc
  have hadded : ∀ item, Under (some n) (itemAdded n item) := fun _ =>
    under_of_get hn rfl (by decide)
  cases kind with
  | text =>
    rcases List.mem_cons.mp hc with rfl | hc
    · exact hadded _
    · obtain rfl := List.mem_singleton.mp hc
      exact under_of_get hn rfl (by decide)
  | _ =>
    obtain rfl := List.mem_singleton.mp hc
    exact hadded _

theorem under_deltaChunk (hn : n < 4294967296) (kind : ContentBlockKind) (piece : String) :
    Under (some n) (deltaChunk kind n piece) := by
  cases kind <;> exact under_of_get hn rfl (by decide)

theorem under_closing (hn : n < 4294967296) (kind : ContentBlockKind) (call : String × String)
    (text : String) : ∀ c ∈ closing kind n call text, Under (some n) c := by
  intro c hc
  have hdone : ∀ item, Under (some n) (itemDone n item) := fun _ =>
    under_of_get hn rfl (by decide)
  cases kind <;> simp only [closing, finishText, finishReasoning, List.mem_cons,
    List.not_mem_nil, or_false] at hc
  case text =>
    rcases hc with rfl | rfl | rfl
    · exact under_of_get hn rfl (by decide)
    · exact under_of_get hn rfl (by decide)
    · exact hdone _
  all_goals
    rcases hc with rfl | rfl
    · exact under_of_get hn rfl (by decide)
    · exact hdone _

theorem addedIndex_itemAdded (hn : n < 4294967296) (item : OutputItem) :
    addedIndex (itemAdded n item) = some n := by
  have hunder : Under (some n) (itemAdded n item) := under_of_get hn rfl (by decide)
  have hevent : chunkEvent (itemAdded n item) = some "response.output_item.added" := rfl
  rw [addedIndex, if_pos hevent, hunder.1]

theorem added_opening (hn : n < 4294967296) (kind : ContentBlockKind) (call : String × String) :
    (opening kind n call).filterMap addedIndex = [n] := by
  have hpart : ∀ itemId part,
      addedIndex (contentPart "response.content_part.added" itemId n part) = none :=
    fun _ _ => if_neg fun h => absurd (Option.some.inj h) (by decide)
  cases kind with
  | text =>
    rw [opening, List.filterMap_cons_some (addedIndex_itemAdded hn _),
      List.filterMap_cons_none (hpart _ _), List.filterMap_nil]
  | _ => exact List.filterMap_cons_some (addedIndex_itemAdded hn _)

theorem added_deltaChunk (kind : ContentBlockKind) (piece : String) :
    addedIndex (deltaChunk kind n piece) = none := by
  cases kind <;> rfl

theorem added_closing (kind : ContentBlockKind) (call : String × String) (text : String) :
    (closing kind n call text).filterMap addedIndex = [] := by
  cases kind <;> rfl

theorem underIndex_append (n : Nat) (chunks new : List Chunk) :
    underIndex n (chunks ++ new) = underIndex n chunks ++ underIndex n new :=
  List.filter_append ..

theorem underIndex_eq_self {chunks : List Chunk} (h : ∀ c ∈ chunks, chunkIndex c = some n) :
    underIndex n chunks = chunks :=
  List.filter_eq_self.mpr fun c hc => by simp [h c hc]

theorem underIndex_eq_nil {chunks : List Chunk} {o : Option Nat}
    (h : ∀ c ∈ chunks, chunkIndex c = o) (hn : o ≠ some n) : underIndex n chunks = [] :=
  List.filter_eq_nil_iff.mpr fun c hc => by simp [h c hc, hn]

/-! ## What a block has come to -/

/-- The item of a block is added and not done. -/
def isLive : BlockPhase → Bool
  | .opened .text | .opened .reasoning | .called => true
  | _ => false

theorem isOpen_of_isLive {p : BlockPhase} (h : isLive p = true) : p.isOpen = true := by
  cases p <;> first | rfl | cases h

/-- Nothing of the block has come. -/
def isIdle : BlockPhase → Bool
  | .fresh | .opened .toolCall => true
  | _ => false

variable {past es : List StreamEvent} {e : StreamEvent} {m : Envelope} {j : Nat}
  {b : Nat × ContentBlockKind}

theorem deltasOf_concat (i : Nat) (es : List StreamEvent) (e : StreamEvent) :
    deltasOf i (es ++ [e]) = deltasOf i es ++ (pieceAt i e).toList :=
  Lists.filterMap_concat _ _ _

theorem callOf_concat (h : callAt i e = none) : callOf i (es ++ [e]) = callOf i es := by
  rw [callOf, List.findSome?_append, List.findSome?_singleton, h, Option.or_none, callOf]

theorem callOf_concat_self (h : es.findSome? (callAt i) = none) (he : callAt i e = some call) :
    callOf i (es ++ [e]) = call := by
  rw [callOf, List.findSome?_append, List.findSome?_singleton, h, he]
  rfl

/-- An event brings nothing of the blocks that it is not about. -/
theorem nothing_of_ne (h : e.blockIndex ≠ some j) : pieceAt j e = none ∧ callAt j e = none := by
  cases e with
  | textDelta i text => exact ⟨if_neg fun hi => h (congrArg some hi), rfl⟩
  | reasoningDelta i text => exact ⟨if_neg fun hi => h (congrArg some hi), rfl⟩
  | toolCallArgumentsDelta i fragment => exact ⟨if_neg fun hi => h (congrArg some hi), rfl⟩
  | toolCallStart i id name => exact ⟨rfl, if_neg fun hi => h (congrArg some hi)⟩
  | _ => exact ⟨rfl, rfl⟩

/-- A block is idle after an event that is about it only where the event starts it. -/
theorem idle_of_after_self (hallow : m.Allows true e) (hi : e.blockIndex = some i)
    (h : isIdle ((m.after e).block i) = true) :
    isIdle (m.block i) = true ∧ pieceAt i e = none ∧ callAt i e = none := by
  cases e with
  | contentBlockStart j kind =>
    obtain rfl := Option.some.inj hi
    exact ⟨by rw [hallow.2.2]; rfl, rfl, rfl⟩
  | contentBlockStop j =>
    obtain rfl := Option.some.inj hi
    rw [Envelope.after, Envelope.setBlock_block_self] at h
    cases h
  | textDelta j text =>
    obtain rfl := Option.some.inj hi
    rw [Envelope.after, hallow.2] at h
    cases h
  | reasoningDelta j text =>
    obtain rfl := Option.some.inj hi
    rw [Envelope.after, hallow.2] at h
    cases h
  | toolCallStart j id name =>
    obtain rfl := Option.some.inj hi
    have hphase : m.block j = .opened .toolCall := by
      simpa [BlockPhase.takesStart] using hallow.2
    rw [Envelope.after, Envelope.setBlock_block_self, hphase] at h
    cases h
  | toolCallArgumentsDelta j fragment =>
    obtain rfl := Option.some.inj hi
    have hphase : m.block j = .called := by simpa [BlockPhase.takesArguments] using hallow.2
    rw [Envelope.after, hphase] at h
    cases h
  | toolCallStop j =>
    obtain rfl := Option.some.inj hi
    rw [Envelope.after, Envelope.setBlock_block_self] at h
    cases h
  | _ => cases hi

theorem idle_of_after (hallow : m.Allows true e) (h : isIdle ((m.after e).block i) = true) :
    isIdle (m.block i) = true ∧ pieceAt i e = none ∧ callAt i e = none := by
  by_cases hi : e.blockIndex = some i
  · exact idle_of_after_self hallow hi h
  · rw [Envelope.after_block_of_ne m hi] at h
    exact ⟨h, nothing_of_ne hi⟩

/-- Nothing has come of a block that is idle. -/
theorem nothing_of_idle (hexec : Runs.exec (Envelope.step true) {} past = some m)
    (h : isIdle (m.block i) = true) :
    deltasOf i past = [] ∧ past.findSome? (callAt i) = none := by
  induction past using List.reverseRecOn generalizing m with
  | nil => exact ⟨rfl, rfl⟩
  | append_singleton past e ih =>
    obtain ⟨m₁, hpast, hnext⟩ := Runs.exec_append_eq_some.mp hexec
    obtain ⟨hallow, rfl⟩ := Envelope.exec_singleton_iff.mp hnext
    obtain ⟨hidle, hpiece, hcall⟩ := idle_of_after hallow h
    obtain ⟨hdeltas, hcalls⟩ := ih hpast hidle
    constructor
    · rw [deltasOf_concat, hdeltas, hpiece]
      rfl
    · rw [List.findSome?_append, List.findSome?_singleton, hcalls, hcall]
      rfl

/-! ## The encoder along the stream -/

theorem items_concat (es : List StreamEvent) (e : StreamEvent) :
    items (es ++ [e]) = items es ++ (starts e.announced).filter fun b => hasItem b.2 := by
  rw [items, starts_announced_concat, List.filter_append, items]

theorem items_concat_of_none (past : List StreamEvent) (h : starts e.announced = []) :
    items (past ++ [e]) = items past := by
  rw [items_concat, h, List.filter_nil, List.append_nil]

/-- What the encoder should keep of an item. -/
def kept (past : List StreamEvent) (m : Envelope) (n : Nat) (b : Nat × ContentBlockKind) : Row :=
  itemRow b.2 n (if isLive (m.block b.1) then some (String.join (deltasOf b.1 past)) else none)
    (callOf b.1 past)

/-- What should be written of an item. -/
def scriptSoFar (past : List StreamEvent) (m : Envelope) (n : Nat)
    (b : Nat × ContentBlockKind) : List Chunk :=
  opening b.2 n (callOf b.1 past) ++ (deltasOf b.1 past).map (deltaChunk b.2 n) ++
    if isLive (m.block b.1) then []
    else closing b.2 n (callOf b.1 past) (String.join (deltasOf b.1 past))

theorem scriptSoFar_of_live (h : isLive (m.block b.1) = true) (past : List StreamEvent) (n : Nat) :
    scriptSoFar past m n b =
      opening b.2 n (callOf b.1 past) ++ (deltasOf b.1 past).map (deltaChunk b.2 n) := by
  rw [scriptSoFar, if_pos h, List.append_nil]

/-- An event does not bring anything of the block nor change whether its item is live. -/
structure Rests (m : Envelope) (e : StreamEvent) (j : Nat) : Prop where
  piece : pieceAt j e = none
  call : callAt j e = none
  live : isLive ((m.after e).block j) = isLive (m.block j)
  isOpen : ((m.after e).block j).isOpen = true → (m.block j).isOpen = true

theorem rests_of_ne (m : Envelope) (h : e.blockIndex ≠ some j) : Rests m e j := by
  obtain ⟨hpiece, hcall⟩ := nothing_of_ne h
  have hblock := Envelope.after_block_of_ne m h
  exact ⟨hpiece, hcall, by rw [hblock], fun hopen => hblock ▸ hopen⟩

theorem Rests.deltas (h : Rests m e j) (past : List StreamEvent) :
    deltasOf j (past ++ [e]) = deltasOf j past := by
  rw [deltasOf_concat, h.piece, Option.toList_none, List.append_nil]

theorem Rests.kept (h : Rests m e b.1) (past : List StreamEvent) (n : Nat) :
    kept (past ++ [e]) (m.after e) n b = OpenAiResponses.kept past m n b := by
  rw [OpenAiResponses.kept, h.deltas, callOf_concat h.call, h.live, OpenAiResponses.kept]

theorem Rests.scriptSoFar (h : Rests m e b.1) (past : List StreamEvent) (n : Nat) :
    scriptSoFar (past ++ [e]) (m.after e) n b = OpenAiResponses.scriptSoFar past m n b := by
  rw [OpenAiResponses.scriptSoFar, h.deltas, callOf_concat h.call, h.live,
    OpenAiResponses.scriptSoFar]

/-- The encoder and its output after the events `past`, which leave the envelope at `m`. -/
structure Writes (past : List StreamEvent) (m : Envelope) (s : EncoderState)
    (out : List Chunk) : Prop where
  next : s.outputIndex = (items past).length % 4294967296
  rows : ∀ n, s.row n = ((items past)[n]?).elim {} (kept past m n)
  chunks : ∀ n, underIndex n out = ((items past)[n]?).elim [] (scriptSoFar past m n)
  mapped : ∀ n b, (items past)[n]? = some b → (m.block b.1).isOpen = true →
    s.canonicalToOutput.lookup b.1 = some n
  known : ∀ j, (s.canonicalToOutput.lookup j).isSome = true → j ∈ (items past).map Prod.fst
  under : ∀ c ∈ out, ∃ o, Under o c
  ordered : out.filterMap addedIndex = List.range (items past).length

theorem writes_init (clock : Option Nat) :
    Writes [] {} { createdAt := clock.getD 0 } [] where
  next := rfl
  rows _ := rfl
  chunks _ := rfl
  mapped n b hb := by simp [items, announcedParts, starts] at hb
  known j hj := by cases hj
  under c hc := by cases hc
  ordered := rfl

variable {f : Nat → Nat} {out : List Chunk} {g : Encode}

/-- An event that writes nothing under an output index and leaves the items as they are. -/
theorem Writes.rest (h : Writes past m s out) (hitems : items (past ++ [e]) = items past)
    (hrests : ∀ b ∈ items past, Rests m e b.1) (hnext : (g s).1.outputIndex = s.outputIndex)
    (hrows : ∀ n, (g s).1.row n = s.row n)
    (hmapped : ∀ j, ((m.after e).block j).isOpen = true →
      (g s).1.canonicalToOutput.lookup j = s.canonicalToOutput.lookup j)
    (hknown : ∀ j, ((g s).1.canonicalToOutput.lookup j).isSome = true →
      (s.canonicalToOutput.lookup j).isSome = true)
    (hunder : ∀ c ∈ (g s).2, Under none c) :
    Writes (past ++ [e]) (m.after e) (g s).1 (out ++ (g s).2) where
  next := by rw [hitems, hnext, h.next]
  rows n := by
    rw [hitems, hrows, h.rows]
    cases hb : (items past)[n]? with
    | none => rfl
    | some b => exact ((hrests b (List.mem_of_getElem? hb)).kept past n).symm
  chunks n := by
    rw [hitems, underIndex_append, h.chunks,
      underIndex_eq_nil (fun c hc => (hunder c hc).1) (by simp), List.append_nil]
    cases hb : (items past)[n]? with
    | none => rfl
    | some b => exact ((hrests b (List.mem_of_getElem? hb)).scriptSoFar past n).symm
  mapped n b hb hopen := by
    rw [hitems] at hb
    rw [hmapped b.1 hopen]
    exact h.mapped n b hb ((hrests b (List.mem_of_getElem? hb)).isOpen hopen)
  known j hj := by
    rw [hitems]
    exact h.known j (hknown j hj)
  under c hc := by
    rcases List.mem_append.mp hc with hc | hc
    · exact h.under c hc
    · exact ⟨none, hunder c hc⟩
  ordered := by
    have hnone : (g s).2.filterMap addedIndex = [] := by
      refine List.filterMap_eq_nil_iff.mpr fun c hc => ?_
      rw [addedIndex, (hunder c hc).1, ite_self]
    rw [hitems, List.filterMap_append, h.ordered, hnone, List.append_nil]

/-- An event about a block whose item is the one under `N`. -/
theorem Writes.touch (h : Writes past m s out) {i N : Nat} {kind : ContentBlockKind}
    {new : List Chunk} (hindex : e.blockIndex = some i)
    (hplaced : Placed f (items (past ++ [e])))
    (hN : (items (past ++ [e]))[N]? = some (i, kind))
    (hprior : ∀ n, n ≠ N → (items (past ++ [e]))[n]? = (items past)[n]?)
    (hmoves : Moves g s i N (kept (past ++ [e]) (m.after e) N (i, kind)) new)
    (hnext : (g s).1.outputIndex = (items (past ++ [e])).length % 4294967296)
    (hself : ((m.after e).block i).isOpen = true →
      (g s).1.canonicalToOutput.lookup i = some N)
    (hunder : ∀ c ∈ new, Under (some N) c)
    (hscript : underIndex N out ++ new = scriptSoFar (past ++ [e]) (m.after e) N (i, kind))
    (hordered : List.range (items past).length ++ new.filterMap addedIndex =
      List.range (items (past ++ [e])).length) :
    Writes (past ++ [e]) (m.after e) (g s).1 (out ++ (g s).2) := by
  have hothers : ∀ n b, n ≠ N → (items (past ++ [e]))[n]? = some b → b.1 ≠ i := by
    intro n b hn hb he
    apply hn
    calc n = f b.1 := (hplaced n b hb).1.symm
      _ = f i := by rw [he]
      _ = N := (hplaced N (i, kind) hN).1
  have hrests : ∀ n b, n ≠ N → (items past)[n]? = some b → Rests m e b.1 := by
    intro n b hn hb
    rw [← hprior n hn] at hb
    apply rests_of_ne m
    intro he
    exact hothers n b hn hb (Option.some.inj (he.symm.trans hindex))
  refine ⟨hnext, fun n => ?_, fun n => ?_, fun n b hb hopen => ?_, fun j hj => ?_,
    fun c hc => ?_, ?_⟩
  · by_cases hn : n = N
    · rw [hn, hN, hmoves.row]
      rfl
    · rw [hprior n hn, hmoves.others n hn, h.rows]
      cases hb : (items past)[n]? with
      | none => rfl
      | some b => exact ((hrests n b hn hb).kept past n).symm
  · rw [hmoves.out, underIndex_append]
    by_cases hn : n = N
    · rw [hn, hN, underIndex_eq_self fun c hc => (hunder c hc).1, hscript]
      rfl
    · rw [hprior n hn, h.chunks, underIndex_eq_nil (fun c hc => (hunder c hc).1)
        fun he => hn (Option.some.inj he).symm, List.append_nil]
      cases hb : (items past)[n]? with
      | none => rfl
      | some b => exact ((hrests n b hn hb).scriptSoFar past n).symm
  · by_cases hn : n = N
    · rw [hn, hN] at hb
      obtain rfl := Option.some.inj hb
      rw [hn, hself hopen]
    · rw [hmoves.mapped b.1 (hothers n b hn hb)]
      rw [hprior n hn] at hb
      exact h.mapped n b hb ((hrests n b hn hb).isOpen hopen)
  · have hmem : i ∈ (items (past ++ [e])).map Prod.fst :=
      List.mem_map_of_mem (f := Prod.fst) (List.mem_of_getElem? hN)
    by_cases hji : j = i
    · rwa [hji]
    · rw [hmoves.mapped j hji] at hj
      rw [items_concat, List.map_append]
      exact List.mem_append_left _ (h.known j hj)
  · rw [hmoves.out] at hc
    rcases List.mem_append.mp hc with hc | hc
    · exact h.under c hc
    · exact ⟨some N, hunder c hc⟩
  · rw [hmoves.out, List.filterMap_append, h.ordered, hordered]

/-- An item is added for the next block. -/
theorem Writes.add (h : Writes past m s out) {i : Nat} {kind : ContentBlockKind}
    (hindex : e.blockIndex = some i) (hannounced : starts e.announced = [(i, kind)])
    (hkind : hasItem kind = true) (hplaced : Placed f (items (past ++ [e])))
    (hdeltas : deltasOf i (past ++ [e]) = []) (hlive : isLive ((m.after e).block i) = true)
    (hmoves : s.row s.outputIndex = {} →
      Moves g s i s.outputIndex (itemRow kind s.outputIndex (some "") (callOf i (past ++ [e])))
        (opening kind s.outputIndex (callOf i (past ++ [e]))))
    (hnext : (g s).1.outputIndex = Wire.addU32 s.outputIndex 1)
    (hself : (g s).1.canonicalToOutput.lookup i = some s.outputIndex) :
    Writes (past ++ [e]) (m.after e) (g s).1 (out ++ (g s).2) := by
  have hitems : items (past ++ [e]) = items past ++ [(i, kind)] := by
    rw [items_concat, hannounced, List.filter_cons_of_pos (by exact hkind), List.filter_nil]
  have hlast := hplaced
  rw [hitems] at hlast
  have hlt := hlast.last.2.1
  have hpos : s.outputIndex = (items past).length := by rw [h.next, Nat.mod_eq_of_lt hlt]
  have hvacant : s.row s.outputIndex = {} := by
    rw [h.rows, hpos, List.getElem?_eq_none le_rfl]
    rfl
  have hnothing : underIndex s.outputIndex out = [] := by
    rw [h.chunks, hpos, List.getElem?_eq_none le_rfl]
    rfl
  have hkept : kept (past ++ [e]) (m.after e) s.outputIndex (i, kind) =
      itemRow kind s.outputIndex (some "") (callOf i (past ++ [e])) := by
    rw [kept, if_pos hlive, hdeltas]
    rfl
  have hscript : scriptSoFar (past ++ [e]) (m.after e) s.outputIndex (i, kind) =
      opening kind s.outputIndex (callOf i (past ++ [e])) := by
    rw [scriptSoFar_of_live hlive, hdeltas, List.map_nil, List.append_nil]
  refine h.touch hindex hplaced (N := s.outputIndex) ?_ (fun n hn => ?_)
    (hkept ▸ hmoves hvacant) ?_ (fun _ => hself) (under_opening (hpos ▸ hlt) kind _) ?_ ?_
  · rw [hitems, hpos, List.getElem?_concat_length]
  · rw [hitems]
    by_cases hlen : n < (items past).length
    · rw [List.getElem?_append_left hlen]
    · have hout : (items past ++ [(i, kind)]).length ≤ n := by
        rw [List.length_append, List.length_singleton]
        omega
      rw [List.getElem?_eq_none hout, List.getElem?_eq_none (by omega)]
  · rw [hnext, h.next, hitems, List.length_append, List.length_singleton, Wire.addU32]
    simp
  · rw [hnothing, List.nil_append, hscript]
  · rw [added_opening (hpos ▸ hlt), hitems, List.length_append, List.length_singleton,
      List.range_succ, hpos]

/-- An event about a block that has its item. -/
theorem Writes.go (h : Writes past m s out) {i : Nat} {kind : ContentBlockKind}
    (new : Nat → List Chunk) (hindex : e.blockIndex = some i)
    (hannounced : starts e.announced = []) (hplaced : Placed f (items past))
    (hmem : (i, kind) ∈ items past) (hopen : (m.block i).isOpen = true)
    (hmoves : ∀ N, s.canonicalToOutput.lookup i = some N → s.row N = kept past m N (i, kind) →
      Moves g s i N (kept (past ++ [e]) (m.after e) N (i, kind)) (new N))
    (hnext : (g s).1.outputIndex = s.outputIndex)
    (hself : ((m.after e).block i).isOpen = true →
      (g s).1.canonicalToOutput.lookup i = s.canonicalToOutput.lookup i)
    (hunder : ∀ N < 4294967296, ∀ c ∈ new N, Under (some N) c)
    (hscript : ∀ N, scriptSoFar past m N (i, kind) ++ new N =
      scriptSoFar (past ++ [e]) (m.after e) N (i, kind))
    (hadded : ∀ N, (new N).filterMap addedIndex = []) :
    Writes (past ++ [e]) (m.after e) (g s).1 (out ++ (g s).2) := by
  have hitems := items_concat_of_none past hannounced
  obtain ⟨N, hN⟩ := List.mem_iff_getElem?.mp hmem
  have hlookup := h.mapped N (i, kind) hN hopen
  have hrow : s.row N = kept past m N (i, kind) := by
    rw [h.rows, hN]
    rfl
  have hchunks : underIndex N out = scriptSoFar past m N (i, kind) := by
    rw [h.chunks, hN]
    rfl
  refine h.touch hindex (hitems ▸ hplaced) (hitems ▸ hN) (fun n _ => by rw [hitems])
    (hmoves N hlookup hrow) ?_ (fun hstill => (hself hstill).trans hlookup)
    (hunder N (hplaced N _ hN).2) ?_ ?_
  · rw [hnext, hitems, h.next]
  · rw [hchunks, hscript]
  · rw [hadded, hitems, List.append_nil]

/-- A piece of a block goes to its item. -/
theorem Writes.delta (h : Writes past m s out) {i : Nat} {kind : ContentBlockKind}
    {piece : String} (hindex : e.blockIndex = some i) (hannounced : starts e.announced = [])
    (hpiece : pieceAt i e = some piece) (hcall : callAt i e = none) (hafter : m.after e = m)
    (hlive : isLive (m.block i) = true) (hplaced : Placed f (items past))
    (hmem : (i, kind) ∈ items past)
    (hmoves : ∀ N text call, s.canonicalToOutput.lookup i = some N →
      s.row N = itemRow kind N (some text) call →
      Moves g s i N (itemRow kind N (some (text ++ piece)) call) [deltaChunk kind N piece])
    (hnext : (g s).1.outputIndex = s.outputIndex)
    (hself : (g s).1.canonicalToOutput.lookup i = s.canonicalToOutput.lookup i) :
    Writes (past ++ [e]) (m.after e) (g s).1 (out ++ (g s).2) := by
  have hopen := isOpen_of_isLive hlive
  have hdeltas : deltasOf i (past ++ [e]) = deltasOf i past ++ [piece] := by
    rw [deltasOf_concat, hpiece, Option.toList_some]
  have hjoin : String.join (deltasOf i past ++ [piece]) =
      String.join (deltasOf i past) ++ piece := by
    simp
  refine h.go (fun N => [deltaChunk kind N piece]) hindex hannounced hplaced hmem hopen
    (fun N hN hrow => ?_) hnext (fun _ => hself) (fun N hN c hc => ?_) (fun N => ?_) fun N => ?_
  · rw [kept, if_pos hlive] at hrow
    rw [kept, hafter, if_pos hlive, hdeltas, callOf_concat hcall, hjoin]
    exact hmoves N _ _ hN hrow
  · obtain rfl := List.mem_singleton.mp hc
    exact under_deltaChunk hN kind piece
  · rw [hafter, scriptSoFar_of_live hlive, scriptSoFar_of_live hlive, hdeltas,
      callOf_concat hcall, List.map_append, List.map_singleton, List.append_assoc]
  · exact List.filterMap_cons_none (added_deltaChunk kind piece)

/-- The item of a block is done. -/
theorem Writes.done (h : Writes past m s out) {i : Nat} {kind : ContentBlockKind}
    (hindex : e.blockIndex = some i) (hannounced : starts e.announced = [])
    (hpiece : pieceAt i e = none) (hcall : callAt i e = none)
    (hlive : isLive (m.block i) = true) (hdone : isLive ((m.after e).block i) = false)
    (hplaced : Placed f (items past)) (hmem : (i, kind) ∈ items past)
    (hmoves : ∀ N text call, s.canonicalToOutput.lookup i = some N →
      s.row N = itemRow kind N (some text) call →
      Moves g s i N (itemRow kind N none call) (closing kind N call text))
    (hnext : (g s).1.outputIndex = s.outputIndex)
    (hself : ((m.after e).block i).isOpen = true →
      (g s).1.canonicalToOutput.lookup i = s.canonicalToOutput.lookup i) :
    Writes (past ++ [e]) (m.after e) (g s).1 (out ++ (g s).2) := by
  have hopen := isOpen_of_isLive hlive
  have hdeltas : deltasOf i (past ++ [e]) = deltasOf i past := by
    rw [deltasOf_concat, hpiece, Option.toList_none, List.append_nil]
  have hover : ¬ isLive ((m.after e).block i) = true := by simp [hdone]
  refine h.go (fun N => closing kind N (callOf i past) (String.join (deltasOf i past))) hindex
    hannounced hplaced hmem hopen (fun N hN hrow => ?_) hnext hself
    (fun N hN => under_closing hN kind _ _) (fun N => ?_) fun N => added_closing kind _ _
  · rw [kept, if_pos hlive] at hrow
    rw [kept, if_neg hover, callOf_concat hcall]
    exact hmoves N _ _ hN hrow
  · rw [scriptSoFar_of_live hlive, scriptSoFar, if_neg hover, hdeltas, callOf_concat hcall]

theorem mem_items {kind : ContentBlockKind} :
    (i, kind) ∈ items es ↔ (i, kind) ∈ starts (announcedParts es) ∧ hasItem kind = true :=
  List.mem_filter

/-- A text or a reasoning has its item from its start on. -/
theorem mem_items_of_opened (hexec : Runs.exec (Envelope.step true) {} past = some m)
    {kind : ContentBlockKind} (hphase : m.block i = .opened kind)
    (hlive : isLive (.opened kind) = true) : (i, kind) ∈ items past := by
  have hstart : (i, kind) ∈ started past :=
    (recalls_of_exec hexec).kind i kind (by rw [hphase]; rfl)
  refine mem_items.mpr ⟨mem_starts_announced.mpr (Or.inl ⟨?_, hstart⟩), ?_⟩
  · rintro rfl
    cases hlive
  · cases kind <;> first | rfl | cases hlive

theorem mem_items_of_called (hexec : Runs.exec (Envelope.step true) {} past = some m)
    (hphase : m.block i = .called ∨ m.block i = .ended) : (i, .toolCall) ∈ items past :=
  mem_items.mpr ⟨announced_of_called hexec hphase, rfl⟩

theorem placed_past (hplaced : Placed f (items (past ++ [e]))) : Placed f (items past) := by
  rw [items_concat] at hplaced
  exact hplaced.of_append

theorem outputIndex_stopBlock (i : Nat) (s : EncoderState) :
    (stopBlock i s).1.outputIndex = s.outputIndex := by
  simp only [stopBlock]
  split
  · rfl
  · split
    · rfl
    · split <;> rfl

theorem mapped_stopBlock (h : s.canonicalToOutput.lookup i = some n) :
    (stopBlock i s).1.canonicalToOutput = s.canonicalToOutput.erase i := by
  simp only [stopBlock, h]
  split
  · rfl
  · split <;> rfl

theorem lookup_stopBlock (i : Nat) (s : EncoderState) (j : Nat) :
    (stopBlock i s).1.canonicalToOutput.lookup j =
      if j = i then none else s.canonicalToOutput.lookup j := by
  cases hi : s.canonicalToOutput.lookup i with
  | none =>
    have hsame : stopBlock i s = (s, []) := by simp only [stopBlock, hi]
    rw [hsame]
    by_cases hj : j = i
    · rw [if_pos hj, hj, hi]
    · rw [if_neg hj]
  | some n =>
    rw [mapped_stopBlock hi]
    by_cases hj : j = i
    · rw [if_pos hj, hj, AList.lookup_erase]
    · rw [if_neg hj, AList.lookup_erase_ne hj]

/-- A block without a text is closed silently. -/
theorem stopBlock_silent (h : ∀ n, s.canonicalToOutput.lookup i = some n →
    s.textBuf.lookup n = none ∧ s.reasoningBuf.lookup n = none) :
    (stopBlock i s).2 = [] ∧ ∀ n, (stopBlock i s).1.row n = s.row n := by
  cases hi : s.canonicalToOutput.lookup i with
  | none =>
    have hstep : stopBlock i s = (s, []) := by simp only [stopBlock, hi]
    rw [hstep]
    exact ⟨rfl, fun _ => rfl⟩
  | some n =>
    obtain ⟨htext, hreasoning⟩ := h n hi
    have hstep : stopBlock i s =
        ({ s with canonicalToOutput := s.canonicalToOutput.erase i }, []) := by
      simp only [stopBlock, hi, htext, hreasoning]
    rw [hstep]
    exact ⟨rfl, fun _ => rfl⟩

/-- A block that is closed has no live item left. -/
theorem rests_contentBlockStop (h : isLive (m.block i) = false) (j : Nat) :
    Rests m (.contentBlockStop i) j := by
  by_cases hj : j = i
  · subst hj
    refine ⟨rfl, rfl, ?_, fun hopen => ?_⟩
    · rw [h, Envelope.after, Envelope.setBlock_block_self]
      rfl
    · rw [Envelope.after, Envelope.setBlock_block_self] at hopen
      cases hopen
  · exact rests_of_ne m fun he => hj (Option.some.inj he).symm

/-- A stop that leaves no item to end. -/
theorem Writes.rest_stopBlock (h : Writes past m s out) (hlive : isLive (m.block i) = false)
    (hempty : ∀ n, s.canonicalToOutput.lookup i = some n →
      s.textBuf.lookup n = none ∧ s.reasoningBuf.lookup n = none) :
    Writes (past ++ [.contentBlockStop i]) (m.after (.contentBlockStop i)) (stopBlock i s).1
      (out ++ (stopBlock i s).2) := by
  obtain ⟨hsilent, hrows⟩ := stopBlock_silent hempty
  refine h.rest (items_concat_of_none past rfl) (fun b _ => rests_contentBlockStop hlive b.1)
    (outputIndex_stopBlock i s) hrows (fun j hj => ?_) (fun j hj => ?_) (fun c hc => ?_)
  · have hji : j ≠ i := by
      rintro rfl
      rw [Envelope.after, Envelope.setBlock_block_self] at hj
      cases hj
    rw [lookup_stopBlock, if_neg hji]
  · rw [lookup_stopBlock] at hj
    split at hj
    · cases hj
    · exact hj
  · rw [hsilent] at hc
    cases hc

/-- A block of a kind that has no item is not mapped. -/
theorem Writes.unmapped (h : Writes past m s out)
    (hexec : Runs.exec (Envelope.step true) {} past = some m) {kind : ContentBlockKind}
    (hphase : m.block i = .opened kind) (hkind : hasItem kind = false) (n : Nat) :
    s.canonicalToOutput.lookup i ≠ some n := by
  intro hn
  obtain ⟨b, hb, hbi⟩ := List.mem_map.mp (h.known i (by rw [hn]; rfl))
  obtain ⟨j, kind'⟩ := b
  obtain rfl : j = i := hbi
  obtain ⟨hannounced, hitem⟩ := mem_items.mp hb
  have hsame := (recalls_of_exec hexec).rooted.kind_unique
    (started_of_announced hexec hannounced)
    ((recalls_of_exec hexec).kind j kind (by rw [hphase]; rfl))
  rw [hsame, hkind] at hitem
  cases hitem

/-- The item of an ended call has no text any more. -/
theorem Writes.ended_empty (h : Writes past m s out)
    (hexec : Runs.exec (Envelope.step true) {} past = some m) (hphase : m.block i = .ended)
    {n : Nat} (hn : s.canonicalToOutput.lookup i = some n) :
    s.textBuf.lookup n = none ∧ s.reasoningBuf.lookup n = none := by
  have hmem := mem_items_of_called hexec (Or.inr hphase)
  obtain ⟨N, hN⟩ := List.mem_iff_getElem?.mp hmem
  have hlookup := h.mapped N _ hN (by rw [hphase]; rfl)
  obtain rfl : N = n := Option.some.inj (hlookup.symm.trans hn)
  have hrow := h.rows N
  rw [hN] at hrow
  exact ⟨congrArg Row.text hrow, congrArg Row.reasoning hrow⟩

theorem writes_stopBlock (hexec : Runs.exec (Envelope.step true) {} past = some m)
    (hallow : m.Allows true (.contentBlockStop i)) (hplaced : Placed f (items past))
    (h : Writes past m s out) :
    Writes (past ++ [.contentBlockStop i]) (m.after (.contentBlockStop i)) (stopBlock i s).1
      (out ++ (stopBlock i s).2) := by
  have hclosed : (m.after (.contentBlockStop i)).block i = .closed :=
    Envelope.setBlock_block_self m i _
  have hdone : isLive ((m.after (.contentBlockStop i)).block i) = false := by rw [hclosed]; rfl
  have hself : ((m.after (.contentBlockStop i)).block i).isOpen = true →
      (stopBlock i s).1.canonicalToOutput.lookup i = s.canonicalToOutput.lookup i := by
    intro hopen
    rw [hclosed] at hopen
    cases hopen
  have hnext := outputIndex_stopBlock i s
  have hmay := hallow.2
  cases hphase : m.block i with
  | opened kind =>
    cases kind with
    | text =>
      exact h.done rfl rfl rfl rfl (by rw [hphase]; rfl) hdone hplaced
        (mem_items_of_opened hexec hphase rfl) (fun N text call => moves_stopText) hnext hself
    | reasoning =>
      exact h.done rfl rfl rfl rfl (by rw [hphase]; rfl) hdone hplaced
        (mem_items_of_opened hexec hphase rfl) (fun N text call => moves_stopReasoning) hnext hself
    | toolCall =>
      rw [hphase] at hmay
      cases hmay
    | _ =>
      exact h.rest_stopBlock (by rw [hphase]; rfl) fun n hn =>
        absurd hn (h.unmapped hexec hphase rfl n)
  | ended =>
    exact h.rest_stopBlock (by rw [hphase]; rfl) fun n hn => h.ended_empty hexec hphase hn
  | fresh | called | closed =>
    rw [hphase] at hmay
    cases hmay

/-- Each event takes the items one step further. -/
theorem writes_encodeEvent (hexec : Runs.exec (Envelope.step true) {} past = some m)
    (hallow : m.Allows true e) (hstop : e.isResponseStop = false) (herror : e.isError = false)
    (hplaced : Placed f (items (past ++ [e]))) (clock : Option Nat) (h : Writes past m s out) :
    Writes (past ++ [e]) (m.after e) (encodeEvent clock e s).1
      (out ++ (encodeEvent clock e s).2) := by
  have hold := placed_past hplaced
  have hquiet : ∀ g : Encode, (∀ b ∈ items past, Rests m e b.1) →
      items (past ++ [e]) = items past → (g s).1.outputIndex = s.outputIndex →
      (∀ n, (g s).1.row n = s.row n) → (g s).1.canonicalToOutput = s.canonicalToOutput →
      (∀ c ∈ (g s).2, Under none c) →
      Writes (past ++ [e]) (m.after e) (g s).1 (out ++ (g s).2) := by
    intro g hrests hitems hnext hrows hmapped hunder
    exact h.rest hitems hrests hnext hrows (fun j _ => by rw [hmapped])
      (fun j hj => by rwa [hmapped] at hj) hunder
  have hnone : ∀ c ∈ ([] : List Chunk), Under none c := fun c hc => by cases hc
  cases e with
  | responseStop usage => cases hstop
  | error message => cases herror
  | responseStart id model created =>
    refine hquiet _ (fun b _ => rests_of_ne m (by simp [StreamEvent.blockIndex]))
      (items_concat_of_none past rfl) rfl (fun _ => rfl) rfl fun c hc => ?_
    obtain rfl := List.mem_singleton.mp hc
    exact ⟨rfl, _, rfl, by decide⟩
  | messageStart | usageDelta | messageStop | rawProviderEvent =>
    exact hquiet _ (fun b _ => rests_of_ne m (by simp [StreamEvent.blockIndex]))
      (items_concat_of_none past rfl) rfl (fun _ => rfl) rfl hnone
  | contentBlockStart i kind =>
    have hidle : isIdle (m.block i) = true := by rw [hallow.2.2]; rfl
    have hdeltas : deltasOf i (past ++ [.contentBlockStart i kind]) = [] := by
      rw [deltasOf_concat, (nothing_of_idle hexec hidle).1]
      rfl
    have hopened : (m.after (.contentBlockStart i kind)).block i = .opened kind :=
      Envelope.setBlock_block_self m i _
    cases kind with
    | text =>
      exact h.add (g := startText i) rfl rfl rfl hplaced hdeltas (by rw [hopened]; rfl)
        moves_startText rfl (AList.lookup_insert _)
    | reasoning =>
      exact h.add (g := startReasoning i) rfl rfl rfl hplaced hdeltas (by rw [hopened]; rfl)
        moves_startReasoning rfl (AList.lookup_insert _)
    | toolCall | redactedReasoning | image | audio =>
      refine hquiet _ (fun b hb => rests_of_ne m fun he => ?_) ?_ rfl (fun _ => rfl) rfl hnone
      · exact ne_of_fresh hexec hallow.2.2 b (List.mem_of_mem_filter hb) (Option.some.inj he).symm
      · rw [items_concat]
        exact List.append_nil _
  | contentBlockStop i => exact writes_stopBlock hexec hallow hold h
  | textDelta i text =>
    have hphase := hallow.2
    exact h.delta rfl rfl (if_pos rfl) rfl rfl (by rw [hphase]; rfl) hold
      (mem_items_of_opened hexec hphase rfl) (fun N t call => moves_encodeText)
      (field_withOutput (fun _ _ => rfl) s)
      (congrArg (AList.lookup i) (field_withOutput (fun _ _ => rfl) s))
  | reasoningDelta i text =>
    have hphase := hallow.2
    exact h.delta rfl rfl (if_pos rfl) rfl rfl (by rw [hphase]; rfl) hold
      (mem_items_of_opened hexec hphase rfl) (fun N t call => moves_encodeReasoning)
      (field_withOutput (fun _ _ => rfl) s)
      (congrArg (AList.lookup i) (field_withOutput (fun _ _ => rfl) s))
  | toolCallArgumentsDelta i fragment =>
    have hphase : m.block i = .called := by simpa [BlockPhase.takesArguments] using hallow.2
    exact h.delta rfl rfl (if_pos rfl) rfl rfl (by rw [hphase]; rfl) hold
      (mem_items_of_called hexec (Or.inl hphase)) (fun N t call => moves_encodeArguments)
      (field_withOutput (fun _ _ => rfl) s)
      (congrArg (AList.lookup i) (field_withOutput (fun _ _ => rfl) s))
  | toolCallStop i =>
    have hphase : m.block i = .called := by simpa [BlockPhase.takesStop] using hallow.2
    have hended : (m.after (.toolCallStop i)).block i = .ended :=
      Envelope.setBlock_block_self m i _
    exact h.done rfl rfl rfl rfl (by rw [hphase]; rfl) (by rw [hended]; rfl) hold
      (mem_items_of_called hexec (Or.inl hphase)) (fun N t call => moves_stopCall)
      (field_withOutput (fun _ _ => rfl) s)
      (fun _ => congrArg (AList.lookup i) (field_withOutput (fun _ _ => rfl) s))
  | toolCallStart i id name =>
    have hphase : m.block i = .opened .toolCall := by
      simpa [BlockPhase.takesStart] using hallow.2
    have hcalled : (m.after (.toolCallStart i id name)).block i = .called := by
      rw [Envelope.after, Envelope.setBlock_block_self, hphase]
      rfl
    obtain ⟨hnothing, huncalled⟩ := nothing_of_idle hexec (i := i) (by rw [hphase]; rfl)
    have hdeltas : deltasOf i (past ++ [.toolCallStart i id name]) = [] := by
      rw [deltasOf_concat, hnothing]
      rfl
    have hcall : callOf i (past ++ [.toolCallStart i id name]) = (id, name) :=
      callOf_concat_self huncalled (if_pos rfl)
    exact h.add (g := startCall i id name) rfl rfl rfl hplaced hdeltas (by rw [hcalled]; rfl)
      (hcall ▸ moves_startCall) rfl (AList.lookup_insert _)

/-- After any events of a stream each item is written as far as its block has come. -/
theorem writes_front {front : List StreamEvent}
    (hexec : Runs.exec (Envelope.step true) {} front = some m)
    (hstop : ∀ e ∈ front, e.isResponseStop = false) (herrors : ∀ e ∈ front, e.isError = false)
    (hplaced : Placed f (items front)) (clock : Option Nat) :
    Writes front m (forEach (encodeEvent clock) front { createdAt := clock.getD 0 }).1
      (forEach (encodeEvent clock) front { createdAt := clock.getD 0 }).2 := by
  induction front using List.reverseRecOn generalizing m with
  | nil =>
    cases hexec
    exact writes_init clock
  | append_singleton front e ih =>
    obtain ⟨m₁, hpast, hnext⟩ := Runs.exec_append_eq_some.mp hexec
    obtain ⟨hallow, rfl⟩ := Envelope.exec_singleton_iff.mp hnext
    have hlast : e ∈ front ++ [e] := List.mem_append_right _ List.mem_cons_self
    have hwrites := ih hpast (fun e' he => hstop e' (List.mem_append_left _ he))
      (fun e' he => herrors e' (List.mem_append_left _ he)) (placed_past hplaced)
    rw [forEach_append, forEach_singleton, andThen_apply]
    exact writes_encodeEvent hpast hallow (hstop e hlast) (herrors e hlast) hplaced clock hwrites

theorem under_completeResponse (s : EncoderState) :
    ∃ response, (completeResponse s).2 = [.ok ("response.completed", response)] ∧
      chunkIndex (.ok ("response.completed", response)) = none := by
  refine ⟨_, rfl, ?_⟩
  rfl

/-- Every item of a block that was closed is written to its end. -/
theorem scriptSoFar_of_closed (h : isLive (m.block b.1) = false) (past : List StreamEvent)
    (n : Nat) : scriptSoFar past m n b = script past n b := by
  have hover : ¬ isLive (m.block b.1) = true := by simp [h]
  rw [scriptSoFar, if_neg hover, script]

theorem isLive_of_isOpen {p : BlockPhase} (h : p.isOpen = false) : isLive p = false := by
  cases p with
  | fresh | closed => rfl
  | _ => cases h

/-- The end of the response brings no item anything. -/
theorem script_concat_stop (past : List StreamEvent) (usage : Option Usage) (n : Nat)
    (b : Nat × ContentBlockKind) :
    script (past ++ [.responseStop usage]) n b = script past n b := by
  have hdeltas : deltasOf b.1 (past ++ [.responseStop usage]) = deltasOf b.1 past := by
    rw [deltasOf_concat]
    exact List.append_nil _
  rw [script, hdeltas, callOf_concat rfl, script]

/-- The stream of a lifecycle-valid response without errors, each tool block with one call
    around its arguments: its text, reasoning and tool blocks are the items 0, 1, 2, … in the
    order in which they are announced, each written from its start to its end, and the
    response is completed last. -/
theorem encode_follows {es : List StreamEvent} (hvalid : LifecycleValid es)
    (herrors : ∀ e ∈ es, e.isError = false) (hcalls : CallsComplete es)
    (hindices : ∀ b ∈ started es, b.1 < 4294967296) (clockOverride : Option Nat) :
    Follows (items es) es (encode clockOverride (es.map .ok)) ∧
      (items es).Perm (startedItems es) := by
  obtain ⟨m₀, hlenient, -⟩ := lifecycleValid_iff.mp hvalid
  obtain ⟨m', hexec, hclosed⟩ :=
    lifecycleValid_toolsNested_iff.mp ⟨hvalid, hcalls.toolsNested hlenient⟩
  have hperm := (starts_announced_perm hexec hcalls.calledOnce).filter fun b => hasItem b.2
  refine ⟨?_, hperm⟩
  obtain ⟨front, usage, m, rfl, -, -, -, hnoEnd⟩ := hvalid.split (hvalid.getLast herrors)
  have hrooted := rooted_announced hexec (callFits_of_calledOnce hexec hcalls.calledOnce)
  obtain ⟨m₁, hfront, hend⟩ := Runs.exec_append_eq_some.mp hexec
  obtain ⟨hallow, rfl⟩ := Envelope.exec_singleton_iff.mp hend
  have hsame : items (front ++ [.responseStop usage]) = items front :=
    items_concat_of_none front rfl
  have hplaced : Placed ((items front).map Prod.fst).idxOf (items front) := by
    rw [← hsame]
    refine placed_order (hrooted.nodup.sublist (List.filter_sublist.map Prod.fst)) fun b hb => ?_
    exact hindices b (started_of_announced hexec (mem_items.mp hb).1)
  have hwrites := writes_front hfront hnoEnd
    (fun e he => herrors e (List.mem_append_left _ he)) hplaced clockOverride
  rw [encode_eq (.responseStop usage) hnoEnd, forEach_append, forEach_singleton, andThen_apply]
  generalize forEach (encodeEvent clockOverride) front { createdAt := clockOverride.getD 0 } = r
    at hwrites
  obtain ⟨response, hlast, hindex⟩ := under_completeResponse (overrideUsage usage r.1)
  have hout : (encodeEvent clockOverride (.responseStop usage) r.1).2 =
      [.ok ("response.completed", response)] := hlast
  rw [hout]
  refine ⟨fun c hc => ?_, fun n => ?_, ?_, r.2, response, rfl, fun c hc => ?_⟩
  · rcases List.mem_append.mp hc with hc | hc
    · obtain ⟨o, -, event, hevent, -⟩ := hwrites.under c hc
      rw [hevent]
      rfl
    · obtain rfl := List.mem_singleton.mp hc
      rfl
  · have hnone : underIndex n [.ok ("response.completed", response)] = [] :=
      underIndex_eq_nil (fun c hc => by rw [List.mem_singleton.mp hc, hindex]) (by simp)
    rw [underIndex_append, hwrites.chunks, hsame, hnone, List.append_nil]
    cases hb : (items front)[n]? with
    | none => rfl
    | some b =>
      have hdone : isLive (m₁.block b.1) = false := isLive_of_isOpen (hclosed.2 b.1)
      exact (scriptSoFar_of_closed hdone front n).trans (script_concat_stop front usage n b).symm
  · rw [List.filterMap_append, hwrites.ordered, hsame]
    exact List.append_nil _
  · obtain ⟨o, -, event, hevent, hne⟩ := hwrites.under c hc
    rw [hevent]
    exact fun he => hne (Option.some.inj he)

/-- A reasoning, then a text within which a tool is called. -/
def callWithin : List StreamEvent :=
  [.responseStart "1" "gpt" 0, .messageStart .assistant, .contentBlockStart 7 .reasoning,
    .reasoningDelta 7 "Two", .reasoningDelta 7 " steps.", .contentBlockStop 7,
    .contentBlockStart 2 .toolCall, .contentBlockStart 0 .text, .textDelta 0 "Let me ",
    .toolCallStart 2 "call_1" "search", .toolCallArgumentsDelta 2 "{}", .textDelta 0 "look.",
    .toolCallStop 2, .contentBlockStop 0, .contentBlockStop 2, .messageStop .toolUse none,
    .responseStop none]

theorem callWithin_follows :
    Follows (items callWithin) callWithin (encode none (callWithin.map .ok)) ∧
      (items callWithin).Perm (startedItems callWithin) :=
  encode_follows (by decide) (by decide) (by decide) (by decide) none

/-- Every tool block has one start and one stop, wherever they stand. -/
def OneCallEach (es : List StreamEvent) : Prop :=
  ∀ b ∈ started es, b.2 = .toolCall →
    (toolEvents b.1 es).count .start = 1 ∧ (toolEvents b.1 es).count .stop = 1

instance : DecidablePred OneCallEach := fun _ => List.decidableBAll _ _

/-- A call whose arguments come before its start. -/
def argumentsFirst : List StreamEvent :=
  [.responseStart "1" "gpt" 0, .messageStart .assistant, .contentBlockStart 0 .toolCall,
    .toolCallArgumentsDelta 0 "{}", .toolCallStart 0 "call_1" "search", .toolCallStop 0,
    .contentBlockStop 0, .messageStop .toolUse none, .responseStop none]

/-- A call whose arguments come after its stop. -/
def argumentsLast : List StreamEvent :=
  [.responseStart "1" "gpt" 0, .messageStart .assistant, .contentBlockStart 0 .toolCall,
    .toolCallStart 0 "call_1" "search", .toolCallStop 0, .toolCallArgumentsDelta 0 "{}",
    .contentBlockStop 0, .messageStop .toolUse none, .responseStop none]

/-- A stream with one call in each tool block that is not written item by item in the order of
    the starts. -/
def Misplaced (es : List StreamEvent) : Prop :=
  LifecycleValid es ∧ (∀ e ∈ es, e.isError = false) ∧ OneCallEach es ∧
    ¬ Follows (startedItems es) es (encode none (es.map .ok))

theorem misplaced_of_events {es : List StreamEvent}
    (hvalid : LifecycleValid es ∧ (∀ e ∈ es, e.isError = false) ∧ OneCallEach es)
    (hunder : (underIndex 0 (encode none (es.map .ok))).map chunkEvent ≠
      (((startedItems es)[0]?).elim [] (script es 0)).map chunkEvent) : Misplaced es :=
  ⟨hvalid.1, hvalid.2.1, hvalid.2.2, fun h => hunder (congrArg (List.map chunkEvent) (h.items 0))⟩

/-- The first has an error, the second a delta after its item is done, and in the third the item
    of the call comes after that of the text. -/
theorem calls_misplaced :
    Misplaced argumentsFirst ∧ Misplaced argumentsLast ∧ Misplaced calledLate := by
  refine ⟨⟨by decide, by decide, by decide, fun h => ?_⟩,
    misplaced_of_events (by decide) (by decide), misplaced_of_events (by decide) (by decide)⟩
  have herror : ¬ ∀ c ∈ encode none (argumentsFirst.map .ok), (chunkEvent c).isSome = true := by
    decide
  exact herror h.noErrors

end OpenAiResponses

end AgentShim
