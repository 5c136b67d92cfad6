import AgentShim.Frontends.ResponsesRoundTrip
import AgentShim.Frontends.UnaryEncode
import AgentShim.Gateway.SerialCollect

/-
  A Responses answer, streamed and not

  A client of the Responses frontend that streams is told each item when it is done; a
  client that does not is told all of them at once. Both read the same canonical stream.
  Where its blocks come one after the other, in whatever pieces, the two are told the
  same items exactly if the collector loses nothing of the stream and the unary encoder
  has no texts to join.

  What is proved:
    1. `accepts_block`, `streamedItems_eq` — the stream has an item for every block that
       says something, numbered in order.
    2. `answeredItems_eq` — the answer has the runs of what was kept.
    3. `streamed_eq_answered_iff` — when the two are the same.
-/

namespace AgentShim.Gateway

open Buffers Transducer OpenAiResponses

/-! ## The items a client is told -/

/-- The item that a chunk is the end of. -/
def doneItem : Chunk → Option Json
  | .ok (event, data) => if event = "response.output_item.done" then data.get "item" else none
  | .error _ => none

/-- The items of the stream. -/
def streamedItems (clockOverride : Option Nat) (es : List StreamEvent) : List Json :=
  (OpenAiResponses.encode clockOverride (es.map .ok)).filterMap doneItem

/-- The items of the answer. -/
def answeredItems (c : Codec) (freshId : String) (created : Nat) (es : List StreamEvent) :
    Except HandlerError (List Json) :=
  (collectStream c freshId (es.map .ok)).map fun r =>
    (encodeUnary c created r).output.map OutputItem.toJson

/-! ## The stream -/

/-- What a block says. -/
def saidBlock : SerialBlock → Option Spoken
  | .text pieces => some (.text (String.join pieces))
  | .reasoning pieces => some (.reasoning (String.join pieces))
  | .redactedReasoning => none
  | .toolCall id name pieces => some (.call id name (String.join pieces))

/-- What the blocks of a response say. -/
def said (R : SerialResponse) : List Spoken := R.blocks.filterMap fun b => saidBlock b.2

/-- A client that keeps the items that are done. -/
def gatherDone (items : List Json) (chunk : Chunk) : Option (List Json) :=
  some (items ++ (doneItem chunk).toList)

theorem exec_gatherDone (items : List Json) (chunks : List Chunk) :
    Runs.exec gatherDone items chunks = some (items ++ chunks.filterMap doneItem) := by
  induction chunks generalizing items with
  | nil => rw [Runs.exec_nil, List.filterMap_nil, List.append_nil]
  | cons chunk chunks ih =>
    rw [Runs.exec_cons, gatherDone, Option.bind_some, ih]
    cases hdone : doneItem chunk <;> simp [hdone]

/-- The encoder keeps nothing of a block, and is about to number the next item. -/
structure Ready (said : List Spoken) (s : EncoderState) (items : List Json) : Prop where
  text : s.textBuf = ∅
  reasoning : s.reasoningBuf = ∅
  arguments : s.toolArgsBuf = ∅
  calls : s.toolMeta = ∅
  indices : s.canonicalToOutput = ∅
  next : s.outputIndex = Wire.asU32 said.length
  items : items = (numbered said).map OutputItem.toJson

variable {clock : Option Nat} {before : List Spoken}

/-- Pieces of an item: the buffer grows and no item is done. -/
theorem forEach_pieces {event : String → StreamEvent} {put : Buffer → EncoderState} {oi : Nat}
    (hevent : ∀ buf text, (encodeEvent clock (event text) (put buf)).1 =
        put (pushText buf oi text) ∧
      (encodeEvent clock (event text) (put buf)).2.filterMap doneItem = [])
    (pieces : List String) (sofar : String) :
    (forEach (encodeEvent clock) (pieces.map event) (put ((∅ : Buffer).insert oi sofar))).1 =
        put ((∅ : Buffer).insert oi (sofar ++ String.join pieces)) ∧
      (forEach (encodeEvent clock) (pieces.map event)
        (put ((∅ : Buffer).insert oi sofar))).2.filterMap doneItem = [] := by
  induction pieces generalizing sofar with
  | nil => exact ⟨by simp [skip], rfl⟩
  | cons text pieces ih =>
    obtain ⟨hstate, hquiet⟩ := hevent ((∅ : Buffer).insert oi sofar) text
    have hpushed : pushText ((∅ : Buffer).insert oi sofar) oi text =
        (∅ : Buffer).insert oi (sofar ++ text) := by
      rw [pushText, AList.lookup_insert, Option.getD_some, AList.insert_insert]
    rw [hpushed] at hstate
    obtain ⟨hrest, hquiet'⟩ := ih (sofar ++ text)
    rw [List.map_cons, forEach_cons, andThen_apply, hstate, List.filterMap_append, hquiet, hquiet',
      hrest, String.join_cons, String.append_assoc]
    exact ⟨rfl, rfl⟩

/-- An item that is started, brought in pieces and ended: the encoder is ready for the next. -/
theorem ready_item {s : EncoderState} {items : List Json} (h : Ready before s items)
    (x : Spoken) (ends : List StreamEvent) (put : Buffer → EncoderState) {start : StreamEvent}
    {piece : String → StreamEvent} {pieces : List String}
    (hstart : (encodeEvent clock start s).1 = put ((∅ : Buffer).insert s.outputIndex "") ∧
      (encodeEvent clock start s).2.filterMap doneItem = [])
    (hpiece : ∀ buf text, (encodeEvent clock (piece text) (put buf)).1 =
        put (pushText buf s.outputIndex text) ∧
      (encodeEvent clock (piece text) (put buf)).2.filterMap doneItem = [])
    (hends : (forEach (encodeEvent clock) ends
        (put ((∅ : Buffer).insert s.outputIndex (String.join pieces)))).2.filterMap doneItem =
      [(spokenItem s.outputIndex x).toJson])
    (hidle : ∀ s', (forEach (encodeEvent clock) ends
        (put ((∅ : Buffer).insert s.outputIndex (String.join pieces)))).1 = s' →
      s'.textBuf = ∅ ∧ s'.reasoningBuf = ∅ ∧ s'.toolArgsBuf = ∅ ∧ s'.toolMeta = ∅ ∧
        s'.canonicalToOutput = ∅ ∧ s'.outputIndex = Wire.addU32 s.outputIndex 1) :
    ∃ items', Runs.exec gatherDone items
        (forEach (encodeEvent clock) (start :: (pieces.map piece ++ ends)) s).2 = some items' ∧
      Ready (before ++ [x])
        (forEach (encodeEvent clock) (start :: (pieces.map piece ++ ends)) s).1 items' := by
  obtain ⟨hfirst, hquiet⟩ := hstart
  obtain ⟨hpieces, hsilent⟩ := forEach_pieces hpiece pieces ""
  rw [String.empty_append] at hpieces
  obtain ⟨htext, hreasoning, harguments, hcalls, hindices, hnext⟩ := hidle _ rfl
  rw [forEach_cons, forEach_append]
  refine ⟨_, exec_gatherDone items _, ?_⟩
  simp only [andThen_apply, hfirst, hpieces, List.filterMap_append, hquiet, hsilent, hends,
    List.nil_append]
  refine ⟨htext, hreasoning, harguments, hcalls, hindices, ?_, ?_⟩
  · rw [hnext, h.next, next_asU32, List.length_append]
    rfl
  · rw [h.items, h.next, numbered_concat, List.map_append]
    rfl

theorem accepts_block (i : Nat) (b : SerialBlock) :
    Accepts gatherDone (Ready before) (forEach (encodeEvent clock) (b.events i))
      (Ready (before ++ (saidBlock b).toList)) := by
  intro s items h
  cases b with
  | redactedReasoning =>
    have hstop : encodeEvent clock (.contentBlockStop i) s = (s, []) := by
      show stopBlock i s = _
      rw [stopBlock, h.indices]
      rfl
    have hrun : forEach (encodeEvent clock) (SerialBlock.redactedReasoning.events i) s =
        (s, []) := by
      show andThen skip (andThen (encodeEvent clock (.contentBlockStop i)) skip) s = _
      rw [skip_andThen, andThen_skip, hstop]
    rw [hrun]
    refine ⟨items, rfl, ?_⟩
    rw [saidBlock, Option.toList_none, List.append_nil]
    exact h
  | text pieces =>
    let itemId := "msg_" ++ toString s.outputIndex
    have hends : encodeEvent clock (.contentBlockStop i)
        { s.take i itemId with
          textBuf := (∅ : Buffer).insert s.outputIndex (String.join pieces) } =
        ({ s.take i itemId with textBuf := ∅, canonicalToOutput := ∅ },
          finishText s.outputIndex itemId (String.join pieces)) := by
      show stopBlock i _ = _
      simp only [stopBlock, EncoderState.take, h.indices, AList.lookup_insert, erase_insert_empty,
        EncoderState.itemId, Option.getD_some]
    refine ready_item h (.text (String.join pieces)) [.contentBlockStop i]
      (fun buf => { s.take i itemId with textBuf := buf }) ⟨?_, rfl⟩ ?_ ?_ ?_
    · show { s.take i itemId with textBuf := s.textBuf.insert s.outputIndex "" } = _
      rw [h.text]
    · intro buf text
      show (encodeText i text _).1 = _ ∧ (encodeText i text _).2.filterMap doneItem = []
      simp only [encodeText, withOutput, EncoderState.take, AList.lookup_insert, true_and]
      rfl
    · rw [forEach_singleton, hends]
      rfl
    · intro s' hs'
      rw [forEach_singleton, hends] at hs'
      subst hs'
      exact ⟨rfl, h.reasoning, h.arguments, h.calls, rfl, rfl⟩
  | reasoning pieces =>
    let itemId := "rs_" ++ toString s.outputIndex
    have hends : encodeEvent clock (.contentBlockStop i)
        { s.take i itemId with
          reasoningBuf := (∅ : Buffer).insert s.outputIndex (String.join pieces) } =
        ({ s.take i itemId with reasoningBuf := ∅, canonicalToOutput := ∅ },
          finishReasoning s.outputIndex itemId (String.join pieces)) := by
      show stopBlock i _ = _
      simp only [stopBlock, EncoderState.take, h.indices, h.text, AList.lookup_insert,
        AList.lookup_empty, erase_insert_empty, EncoderState.itemId, Option.getD_some]
    refine ready_item h (.reasoning (String.join pieces)) [.contentBlockStop i]
      (fun buf => { s.take i itemId with reasoningBuf := buf }) ⟨?_, rfl⟩ ?_ ?_ ?_
    · show { s.take i itemId with reasoningBuf := s.reasoningBuf.insert s.outputIndex "" } = _
      rw [h.reasoning]
    · intro buf text
      show (encodeReasoning i text _).1 = _ ∧ (encodeReasoning i text _).2.filterMap doneItem = []
      simp only [encodeReasoning, withOutput, EncoderState.take, AList.lookup_insert, true_and]
      rfl
    · rw [forEach_singleton, hends]
      rfl
    · intro s' hs'
      rw [forEach_singleton, hends] at hs'
      subst hs'
      exact ⟨h.text, rfl, h.arguments, h.calls, rfl, rfl⟩
  | toolCall id name pieces =>
    let itemId := "fc_" ++ toString s.outputIndex
    let called : Buffer → EncoderState := fun buf =>
      { s.take i itemId with
        toolArgsBuf := buf
        toolMeta := (∅ : AList fun _ : Nat => String × String).insert s.outputIndex (id, name) }
    have hstop : encodeEvent clock (.toolCallStop i)
        (called ((∅ : Buffer).insert s.outputIndex (String.join pieces))) =
        ({ s.take i itemId with toolArgsBuf := ∅, toolMeta := ∅ },
          [functionCallArgsDone itemId s.outputIndex (String.join pieces),
            itemDone s.outputIndex
              (.functionCall itemId id name (String.join pieces) "completed")]) := by
      show OpenAiResponses.stopCall i _ = _
      simp only [OpenAiResponses.stopCall, withOutput, called, EncoderState.take,
        AList.lookup_insert, erase_insert_empty, EncoderState.itemId, Option.getD_some]
    have hclose : encodeEvent clock (.contentBlockStop i)
        { s.take i itemId with toolArgsBuf := ∅, toolMeta := ∅ } =
        ({ s.take i itemId with toolArgsBuf := ∅, toolMeta := ∅, canonicalToOutput := ∅ }, []) := by
      show stopBlock i _ = _
      simp only [stopBlock, EncoderState.take, h.indices, h.text, h.reasoning, AList.lookup_insert,
        AList.lookup_empty, erase_insert_empty]
    have hends : forEach (encodeEvent clock) [.toolCallStop i, .contentBlockStop i]
        (called ((∅ : Buffer).insert s.outputIndex (String.join pieces))) =
        ({ s.take i itemId with toolArgsBuf := ∅, toolMeta := ∅, canonicalToOutput := ∅ },
          [functionCallArgsDone itemId s.outputIndex (String.join pieces),
            itemDone s.outputIndex
              (.functionCall itemId id name (String.join pieces) "completed")]) := by
      rw [forEach_cons, forEach_singleton, andThen_apply, hstop, hclose, List.append_nil]
    have hevents : (SerialBlock.toolCall id name pieces).events i =
        .contentBlockStart i .toolCall :: .toolCallStart i id name ::
          (pieces.map (.toolCallArgumentsDelta i) ++ [.toolCallStop i, .contentBlockStop i]) := by
      simp [SerialBlock.events, SerialBlock.inside, SerialBlock.kind]
    have hskip : encodeEvent clock (.contentBlockStart i .toolCall) = skip := rfl
    rw [hevents, forEach_cons, hskip, skip_andThen]
    refine ready_item h (.call id name (String.join pieces)) _ called ⟨?_, rfl⟩ ?_ ?_ ?_
    · show { s.take i itemId with
        toolArgsBuf := s.toolArgsBuf.insert s.outputIndex ""
        toolMeta := s.toolMeta.insert s.outputIndex (id, name) } = _
      rw [h.arguments, h.calls]
    · intro buf text
      show (encodeArguments i text _).1 = _ ∧ (encodeArguments i text _).2.filterMap doneItem = []
      simp only [encodeArguments, withOutput, called, EncoderState.take, AList.lookup_insert,
        true_and]
      rfl
    · rw [hends]
      rfl
    · intro s' hs'
      rw [hends] at hs'
      subst hs'
      exact ⟨h.text, h.reasoning, rfl, rfl, rfl, rfl⟩

theorem accepts_blocks (blocks : List (Nat × SerialBlock)) :
    Accepts gatherDone (Ready before)
      (forEach (encodeEvent clock) (SerialResponse.blockEvents blocks))
      (Ready (before ++ blocks.filterMap fun b => saidBlock b.2)) := by
  induction blocks generalizing before with
  | nil =>
    rw [List.filterMap_nil, List.append_nil]
    exact accepts_skip
  | cons b blocks ih =>
    have hsaid : before ++ (b :: blocks).filterMap (fun b => saidBlock b.2) =
        before ++ (saidBlock b.2).toList ++ blocks.filterMap fun b => saidBlock b.2 := by
      cases hb : saidBlock b.2 <;> simp [hb]
    rw [SerialResponse.blockEvents_cons, forEach_append, hsaid]
    exact (accepts_block b.1 b.2).andThen ih

/-- An event about no block leaves the items alone. -/
theorem accepts_frame {e : StreamEvent} (h : e.blockIndex = none) :
    Accepts gatherDone (Ready before) (encodeEvent clock e) (Ready before) := by
  intro s items hready
  have hboth : (encodeEvent clock e s).2.filterMap doneItem = [] ∧
      Ready before (encodeEvent clock e s).1 items := by
    cases e with
    | responseStop usage => cases usage <;> exact ⟨rfl, { hready with }⟩
    | contentBlockStart i kind => cases h
    | contentBlockStop i => cases h
    | textDelta i text => cases h
    | reasoningDelta i text => cases h
    | toolCallStart i id name => cases h
    | toolCallArgumentsDelta i fragment => cases h
    | toolCallStop i => cases h
    | _ => exact ⟨rfl, { hready with }⟩
  refine ⟨items, ?_, hboth.2⟩
  rw [exec_gatherDone, hboth.1, List.append_nil]

theorem accepts_frames {es : List StreamEvent} (h : ∀ e ∈ es, e.blockIndex = none) :
    Accepts gatherDone (Ready before) (forEach (encodeEvent clock) es) (Ready before) := by
  induction es with
  | nil => exact accepts_skip
  | cons e es ih =>
    obtain ⟨he, hes⟩ := List.forall_mem_cons.mp h
    rw [forEach_cons]
    exact (accepts_frame he).andThen (ih hes)

/-- The stream has an item for every block that says something, numbered in order. -/
theorem streamedItems_eq (clock : Option Nat) (R : SerialResponse) :
    streamedItems clock R.events = (numbered (said R)).map OutputItem.toJson := by
  obtain ⟨front, hevents, hnoEnd⟩ := R.exists_front
  have hopening : ∀ e ∈ [StreamEvent.responseStart R.id R.model R.created,
      .messageStart .assistant] ++ (R.opening.map StreamEvent.usageDelta).toList,
      e.blockIndex = none := by
    cases R.opening <;> simp [StreamEvent.blockIndex]
  have hready : Ready [] { createdAt := clock.getD 0 } [] := ⟨rfl, rfl, rfl, rfl, rfl, rfl, rfl⟩
  have hrun : Accepts gatherDone (Ready []) (forEach (encodeEvent clock) R.events)
      (Ready (said R)) := by
    rw [SerialResponse.events, forEach_append, forEach_append]
    exact ((accepts_frames hopening).andThen (accepts_blocks R.blocks)).andThen
      (accepts_frames (by simp [StreamEvent.blockIndex]))
  obtain ⟨items, hexec, hend⟩ := hrun _ _ hready
  rw [exec_gatherDone, List.nil_append, Option.some.injEq] at hexec
  rw [streamedItems, hevents, encode_eq _ hnoEnd, ← hevents, hexec, hend.items]

/-! ## The answer -/

/-- What the answer says of a block: the collector has no thoughts and no text of which no
piece came, and reads the arguments of a call as JSON. -/
def heardBlock (c : Codec) (b : SerialBlock) : Option Spoken :=
  (collectedBlock c b).bind (spokenBlock c)

def heard (c : Codec) (R : SerialResponse) : List Spoken :=
  R.blocks.filterMap fun b => heardBlock c b.2

variable {c : Codec}

/-- The answer has the runs of what was kept. -/
theorem answeredItems_eq (c : Codec) (freshId : String) (created : Nat) (R : SerialResponse) :
    answeredItems c freshId created R.events =
      .ok ((numbered (runsOf (heard c R))).map OutputItem.toJson) := by
  have hkept : (R.blocks.filterMap fun b => collectedBlock c b.2).filterMap (spokenBlock c) =
      heard c R := List.filterMap_filterMap
  rw [answeredItems, collect_serial]
  show Except.ok ((unaryOutput c (collectedSerial c R).content).map OutputItem.toJson) = _
  rw [output_eq, collectedSerial, hkept]

/-! ## When the two are the same -/

theorem toJson_spokenItem_inj {n : Nat} {x y : Spoken}
    (h : (spokenItem n x).toJson = (spokenItem n y).toJson) : x = y := by
  cases x <;> cases y <;>
    simp_all [spokenItem, OutputItem.toJson, contentsToJson, OutputContent.toJson]

/-- Items tell what they say. -/
theorem numbered_inj {as bs : List Spoken}
    (h : (numbered as).map OutputItem.toJson = (numbered bs).map OutputItem.toJson) : as = bs := by
  have hfrom : ∀ (as bs : List Spoken) (start : Nat),
      (as.zipIdx start).map (fun x => (spokenItem (Wire.asU32 x.2) x.1).toJson) =
        (bs.zipIdx start).map (fun x => (spokenItem (Wire.asU32 x.2) x.1).toJson) → as = bs := by
    intro as
    induction as with
    | nil =>
      intro bs start h
      cases bs with
      | nil => rfl
      | cons b bs => simp at h
    | cons a as ih =>
      intro bs start h
      cases bs with
      | nil => simp at h
      | cons b bs =>
        simp only [List.zipIdx_cons, List.map_cons, List.cons.injEq] at h
        rw [toJson_spokenItem_inj h.1, ih bs (start + 1) h.2]
  simp only [numbered, List.map_map] at h
  exact hfrom as bs 0 h

/-- A block of which the answer says what the stream does. -/
def HeardAsSaid (c : Codec) : SerialBlock → Prop
  | .text pieces => pieces ≠ []
  | .reasoning _ => False
  | .redactedReasoning => True
  | .toolCall _ _ pieces =>
    c.renderJson ((c.parseJson (String.join pieces)).getD .null) = String.join pieces

theorem heardAsSaid_iff (b : SerialBlock) :
    HeardAsSaid c b ↔ heardBlock c b = saidBlock b := by
  cases b with
  | text pieces =>
    by_cases hnil : pieces = [] <;>
      simp [HeardAsSaid, heardBlock, saidBlock, collectedBlock, hnil, spokenBlock,
        ContentBlock.ofText]
  | toolCall id name pieces =>
    simp [HeardAsSaid, heardBlock, saidBlock, collectedBlock, spokenBlock, toolBlock,
      ToolCallArguments.toText]
  | reasoning pieces => simp [HeardAsSaid, heardBlock, saidBlock, collectedBlock]
  | redactedReasoning => simp [HeardAsSaid, heardBlock, saidBlock, collectedBlock]

/-- What is heard of a block is of the kind that was said. -/
theorem heardBlock_eq_some {b : SerialBlock} {y : Spoken} (h : heardBlock c b = some y) :
    ∃ x, saidBlock b = some x ∧ isText x = isText y := by
  cases b with
  | text pieces =>
    by_cases hnil : pieces = []
    · simp [heardBlock, collectedBlock, hnil] at h
    · simp only [heardBlock, collectedBlock, if_neg hnil, Option.bind_some, ContentBlock.ofText,
        spokenBlock, Option.some.injEq] at h
      exact ⟨_, rfl, by rw [← h]⟩
  | toolCall id name pieces =>
    simp only [heardBlock, collectedBlock, Option.bind_some, toolBlock, spokenBlock,
      Option.some.injEq] at h
    exact ⟨_, rfl, by rw [← h]; rfl⟩
  | reasoning pieces => simp [heardBlock, collectedBlock] at h
  | redactedReasoning => simp [heardBlock, collectedBlock] at h

theorem isSome_said_of_heard {b : SerialBlock} (h : (heardBlock c b).isSome = true) :
    (saidBlock b).isSome = true := by
  obtain ⟨y, hy⟩ := Option.isSome_iff_exists.mp h
  obtain ⟨x, hx, _⟩ := heardBlock_eq_some hy
  rw [hx]
  rfl

theorem length_heard_le (c : Codec) (R : SerialResponse) :
    (heard c R).length ≤ (said R).length := by
  rw [heard, said, List.length_filterMap_eq_countP, List.length_filterMap_eq_countP]
  exact List.countP_mono_left fun b _ => isSome_said_of_heard

theorem isSome_eq_of_length (R : SerialResponse) (h : (heard c R).length = (said R).length) :
    ∀ b ∈ R.blocks, (heardBlock c b.2).isSome = (saidBlock b.2).isSome := by
  rw [heard, said, List.length_filterMap_eq_countP, List.length_filterMap_eq_countP] at h
  have hsome := Lists.imp_of_countP_eq (fun b _ => isSome_said_of_heard) h
  intro b hb
  rw [Bool.eq_iff_iff]
  exact ⟨isSome_said_of_heard, hsome b hb⟩

/-- Where as much is heard as is said, something is heard of every block that says
something, and it is of the same kind. -/
theorem kinds_of_length (R : SerialResponse) (h : (heard c R).length = (said R).length) :
    (heard c R).map isText = (said R).map isText := by
  have hsome := isSome_eq_of_length R h
  rw [heard, said, List.map_filterMap, List.map_filterMap]
  apply List.filterMap_congr
  intro b hb
  cases hheard : heardBlock c b.2 with
  | none =>
    have hsaid : saidBlock b.2 = none := by simpa [hheard] using (hsome b hb).symm
    rw [hsaid]
  | some y =>
    obtain ⟨x, hx, hkind⟩ := heardBlock_eq_some hheard
    rw [hx, Option.map_some, Option.map_some, hkind]

theorem separated_of_kinds {as bs : List Spoken} (h : as.map isText = bs.map isText)
    (hbs : Separated bs) : Separated as := by
  have hmap : ∀ said, Separated said ↔
      (said.map isText).IsChain fun a b => ¬ (a = true ∧ b = true) :=
    fun said => (List.isChain_map (R := fun a b => ¬ (a = true ∧ b = true)) isText).symm
  rw [hmap, h, ← hmap]
  exact hbs

/-- A client that streams is told the items of the answer iff no two texts of the stream
follow one another, no text is without a piece, there are no thoughts and the arguments of
every call are the text of a JSON value. -/
theorem streamed_eq_answered_iff (c : Codec) (clock : Option Nat) (freshId : String) (created : Nat)
    (R : SerialResponse) :
    answeredItems c freshId created R.events = .ok (streamedItems clock R.events) ↔
      Separated (said R) ∧ ∀ b ∈ R.blocks, HeardAsSaid c b.2 := by
  rw [answeredItems_eq, streamedItems_eq, Except.ok.injEq]
  constructor
  · intro h
    have hsame : runsOf (heard c R) = said R := numbered_inj h
    have hseparated : Separated (said R) := hsame ▸ separated_runsOf _
    have hlength : (heard c R).length = (said R).length := by
      have hruns := length_runsOf_le (heard c R)
      have hheard := length_heard_le c R
      rw [hsame] at hruns
      omega
    have hheard : runsOf (heard c R) = heard c R :=
      runsOf_of_separated (separated_of_kinds (kinds_of_length R hlength) hseparated)
    refine ⟨hseparated, fun b hb => (heardAsSaid_iff b.2).mpr ?_⟩
    exact Lists.eq_of_filterMap_eq (isSome_eq_of_length R hlength) (hheard.symm.trans hsame) b hb
  · intro h
    have hsame : heard c R = said R :=
      List.filterMap_congr fun b hb => (heardAsSaid_iff b.2).mp (h.2 b hb)
    rw [hsame, runsOf_of_separated h.1]

end AgentShim.Gateway
