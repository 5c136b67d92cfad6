import AgentShim.Providers.GeminiUnary

/-
  Gemini responses, whole and in chunks

  A response may come whole or in chunks, its parts spread over them and its texts
  cut anywhere. Both ways the client is to have the same: the stream parser is
  followed block by block, and what it has put out reads as the draft of the parts
  it has seen, which is what the unary parser makes of them.

  What is proved:
    1. `accepts_part` — a part does to what was heard what it does to the draft.
    2. `foldl_after_cut` — cutting a text changes nothing of the draft.
    3. `unary_streaming_agree` — the same content, the same stop and the same usage,
       for every response and every way of splitting it.
-/

namespace AgentShim

namespace Gemini

open Transducer

/-! ## The stream parser follows the draft -/

/-- The kind and the index of the open block. -/
def StreamState.current (s : StreamState) : Option (DeltaKind × Nat) :=
  s.openBlock.map fun block => (block.kind, block.index)

/-- What the parser and the listener have of a draft; nothing was stopped yet. -/
structure Speaks (b : Bool) (u : Option UsageMetadata) (r : Option (List SafetyRating))
    (d : PartsDraft) (s : StreamState) (m : Heard) : Prop where
  tells : Tells d.toDraft s.current m.blocks
  called : s.hasToolCall = d.called
  minted : s.minted = d.minted
  started : s.started = b
  unstopped : s.stopped = false
  usage : s.lastUsage = u
  ratings : s.lastSafetyRatings = r
  quiet : m.stops = [] ∧ m.usages = []

variable {host : Host} {b : Bool} {u : Option UsageMetadata} {r : Option (List SafetyRating)}
  {d : PartsDraft}

theorem current_eq_some {s : StreamState} {kind : DeltaKind} {i : Nat} :
    s.current = some (kind, i) ↔ s.openBlock = some { kind := kind, index := i } := by
  unfold StreamState.current
  cases s.openBlock with
  | none => simp
  | some block =>
    obtain ⟨k, j⟩ := block
    simp

theorem accepts_closeOpenBlock :
    Accepts hear (Speaks b u r d) closeOpenBlock (Speaks b u r d.endRun) := by
  intro s m h
  have hclose : Tells d.endRun.toDraft none m.blocks := h.tells.close
  unfold closeOpenBlock
  cases hopen : s.openBlock with
  | none =>
    have hcurrent : s.current = none := by rw [StreamState.current, hopen, Option.map_none]
    exact ⟨m, rfl, { h with tells := by rw [hcurrent]; exact hclose }⟩
  | some block => exact ⟨m, rfl, { h with tells := hclose }⟩

/-- A text of the kind of the open block. -/
theorem say_of_open {kind : DeltaKind} {i : Nat} {s : StreamState}
    (hopen : s.openBlock = some { kind := kind, index := i }) (text : String) :
    andThen (ensureDeltaBlock kind) (emitDelta kind text) s = (s, [kind.delta i text]) := by
  have hensure : ensureDeltaBlock kind s = (s, []) := by
    simp only [ensureDeltaBlock, hopen, if_true]
  rw [andThen_apply, hensure]
  simp only [emitDelta, hopen, if_true, List.nil_append]

/-- A text of another kind closes the open block and opens one of its own. -/
theorem say_of_other {kind : DeltaKind} {s : StreamState}
    (hother : ∀ i, s.openBlock ≠ some { kind := kind, index := i }) (text : String) :
    andThen (ensureDeltaBlock kind) (emitDelta kind text) s =
      andThen closeOpenBlock (andThen (openDeltaBlock kind) (emitDelta kind text)) s := by
  have hensure : ensureDeltaBlock kind s = andThen closeOpenBlock (openDeltaBlock kind) s := by
    unfold ensureDeltaBlock
    cases hopen : s.openBlock with
    | none => simp [andThen_apply, closeOpenBlock, hopen]
    | some block =>
      have hkind : block.kind ≠ kind := by
        rintro rfl
        exact hother block.index hopen
      exact if_neg hkind
  rw [← andThen_assoc, andThen_apply, andThen_apply, hensure]

theorem accepts_openText (kind : DeltaKind) (text : String) (hidle : d.run = none) :
    Accepts hear (Speaks b u r d) (andThen (openDeltaBlock kind) (emitDelta kind text))
      (Speaks b u r (d.say kind text)) := by
  intro s m h
  have hother : ∀ before, d.run ≠ some (kind, before) := by
    rw [hidle]
    nofun
  have hchange := h.tells.change hother text s.nextBlockIndex
  have hout : (andThen (openDeltaBlock kind) (emitDelta kind text) s).2 =
      [.contentBlockStart s.nextBlockIndex kind.blockKind, kind.delta s.nextBlockIndex text] := by
    simp [andThen_apply, openDeltaBlock, allocIndex, emitDelta]
  have hstate : (andThen (openDeltaBlock kind) (emitDelta kind text) s).1 =
      (openDeltaBlock kind s).1 := by
    simp [andThen_apply, openDeltaBlock, allocIndex, emitDelta]
  refine ⟨_, by rw [hout, Runs.exec_cons, hear, Option.bind_some, Runs.exec_cons, hear,
    Option.bind_some, after_delta]; rfl, ?_⟩
  rw [hstate]
  exact { h with tells := hchange }

/-- A text goes into the run of its kind. -/
theorem accepts_text (kind : DeltaKind) (text : String) :
    Accepts hear (Speaks b u r d) (andThen (ensureDeltaBlock kind) (emitDelta kind text))
      (Speaks b u r (d.say kind text)) := by
  intro s m h
  by_cases hsame : ∃ before, d.run = some (kind, before)
  · obtain ⟨before, hrun⟩ := hsame
    obtain ⟨i, hcurrent, htells⟩ := h.tells.goOn hrun text
    rw [say_of_open (current_eq_some.mp hcurrent)]
    refine ⟨m.after (kind.delta i text), rfl, ?_⟩
    rw [after_delta]
    exact { h with tells := htells }
  · have hother : ∀ i, s.openBlock ≠ some { kind := kind, index := i } := fun i hopen =>
      hsame (h.tells.run_of_current (current_eq_some.mpr hopen))
    have hsay : d.endRun.say kind text = d.say kind text := by
      rw [PartsDraft.say, PartsDraft.endRun,
        Draft.say_endRun fun before hrun => hsame ⟨before, hrun⟩, PartsDraft.say]
    rw [say_of_other hother, ← hsay]
    exact (accepts_closeOpenBlock.andThen (accepts_openText kind text rfl)) s m h

/-- What a call puts out, and what it leaves of the state. -/
theorem emitToolCall_spec (host : Host) (fc : FunctionCall) (s : StreamState) :
    (emitToolCall host fc s).2 =
        [.contentBlockStart s.nextBlockIndex .toolCall,
          .toolCallStart s.nextBlockIndex (fc.id.getD (host.toolCallId s.minted)) fc.name,
          .toolCallArgumentsDelta s.nextBlockIndex (callArguments host fc),
          .toolCallStop s.nextBlockIndex, .contentBlockStop s.nextBlockIndex] ∧
      (emitToolCall host fc s).1 =
        { s with
          hasToolCall := true
          nextBlockIndex := Wire.addU32 s.nextBlockIndex 1
          minted := if fc.id.isSome then s.minted else s.minted + 1 } := by
  cases hid : fc.id <;> simp [emitToolCall, allocIndex, callId, hid]

/-- A call is a block of its own. -/
theorem accepts_emitToolCall (host : Host) (fc : FunctionCall) (hidle : d.run = none) :
    Accepts hear (Speaks b u r d) (emitToolCall host fc) (Speaks b u r (d.call host fc)) := by
  intro s m h
  obtain ⟨hout, hstate⟩ := emitToolCall_spec host fc s
  refine ⟨_, by rw [hout]; exact exec_hear_call m _ _ _ _, ?_⟩
  rw [hstate]
  exact { h with
    tells := by
      have hcurrent : s.current = none := h.tells.idle hidle
      have hreading : Block.reading
          { index := s.nextBlockIndex
            kind := .toolCall
            calls := [(fc.id.getD (host.toolCallId s.minted), fc.name)]
            arguments := callArguments host fc } =
          some (.call (fc.id.getD (host.toolCallId d.minted)) fc.name (callArguments host fc)) := by
        rw [← h.minted]
        rfl
      show Tells _ s.current _
      rw [hcurrent]
      exact h.tells.tell hreading
    called := rfl
    minted := by rw [PartsDraft.call, ← h.minted] }

/-- A part does to what was heard what it does to the draft. -/
theorem accepts_part (part : Part) :
    Accepts hear (Speaks b u r d) (handlePart host part) (Speaks b u r (d.after host part)) := by
  unfold PartsDraft.after
  cases hcall : part.functionCall with
  | some fc =>
    rw [handlePart_call host hcall]
    have hcloses : d.endRun.call host fc = d.call host fc := by
      rw [PartsDraft.call, PartsDraft.endRun, Draft.tell_endRun, PartsDraft.call]
    have hrun := accepts_closeOpenBlock.andThen
      (accepts_emitToolCall (b := b) (u := u) (r := r) (d := d.endRun) host fc rfl)
    rwa [hcloses] at hrun
  | none =>
    cases htext : part.text with
    | some text =>
      rw [handlePart_text host hcall htext]
      exact accepts_text part.kind text
    | none =>
      rw [handlePart_none host hcall htext]
      exact accepts_skip

theorem accepts_parts (parts : List Part) :
    Accepts hear (Speaks b u r d) (forEach (handlePart host) parts)
      (Speaks b u r (parts.foldl (PartsDraft.after host) d)) := by
  induction parts generalizing d with
  | nil => exact accepts_skip
  | cons part parts ih => exact (accepts_part part).andThen ih

/-! ## Cutting texts -/

/-- A part that is kept, or whose text is cut into pieces. -/
def Part.CutInto (part : Part) (pieces : List Part) : Prop :=
  pieces = [part] ∨
    ∃ texts, texts ≠ [] ∧ part.functionCall = none ∧ part.text = some (String.join texts) ∧
      pieces = texts.map fun text => { part with text := some text }

/-- Cuts the parts of a list, each by itself. -/
def Cut (parts pieces : List Part) : Prop :=
  ∃ groups, List.Forall₂ Part.CutInto parts groups ∧ pieces = groups.flatten

theorem after_text (host : Host) (d : PartsDraft) {part : Part} (hcall : part.functionCall = none)
    (text : String) :
    d.after host { part with text := some text } = d.say part.kind text := by
  simp only [PartsDraft.after, hcall]
  rfl

theorem foldl_after_pieces (host : Host) (d : PartsDraft) {part : Part}
    (hcall : part.functionCall = none) (text : String) (texts : List String) :
    ((text :: texts).map fun text => { part with text := some text }).foldl
        (PartsDraft.after host) d =
      d.say part.kind (String.join (text :: texts)) := by
  induction texts generalizing d text with
  | nil =>
    rw [List.map_singleton, List.foldl_cons, List.foldl_nil, after_text host d hcall]
    simp
  | cons next texts ih =>
    rw [List.map_cons, List.foldl_cons, after_text host d hcall, ih, PartsDraft.say,
      PartsDraft.say, Draft.say_say, PartsDraft.say, String.join_cons,
      String.join_cons, String.join_cons]

theorem foldl_after_cutInto (host : Host) (d : PartsDraft) {part : Part} {pieces : List Part}
    (h : part.CutInto pieces) : pieces.foldl (PartsDraft.after host) d = d.after host part := by
  rcases h with rfl | ⟨texts, hne, hcall, htext, rfl⟩
  · rfl
  · obtain ⟨text, rest, rfl⟩ := List.exists_cons_of_ne_nil hne
    rw [foldl_after_pieces host d hcall, PartsDraft.after, hcall, htext]

/-- Cutting texts changes nothing of the draft. -/
theorem foldl_after_cut (host : Host) {parts pieces : List Part} (h : Cut parts pieces)
    (d : PartsDraft) :
    pieces.foldl (PartsDraft.after host) d = parts.foldl (PartsDraft.after host) d := by
  obtain ⟨groups, hgroups, rfl⟩ := h
  induction hgroups generalizing d with
  | nil => rfl
  | cons hpart _ ih =>
    rw [List.flatten_cons, List.foldl_append, foldl_after_cutInto host d hpart, List.foldl_cons, ih]

/-! ## Splitting a response -/

namespace GenerateContentResponse

def parts (resp : GenerateContentResponse) : List Part :=
  (resp.candidates.head?.map Candidate.parts).getD []

def finishReason (resp : GenerateContentResponse) : Option String :=
  resp.candidates.head?.bind Candidate.finishReason

def safetyRatings (resp : GenerateContentResponse) : List WireSafetyRating :=
  (resp.candidates.head?.map Candidate.safetyRatings).getD []

/-- The chunks carry the parts of a response, their texts cut anywhere; what else it
has comes with the last chunk. -/
structure Split (resp : GenerateContentResponse) (front : List GenerateContentResponse)
    (last : GenerateContentResponse) : Prop where
  bare : ∀ chunk ∈ front,
    chunk.usageMetadata = none ∧ chunk.finishReason = none ∧ chunk.safetyRatings = []
  usage : last.usageMetadata = resp.usageMetadata
  finish : last.finishReason = resp.finishReason
  ratings : last.safetyRatings = resp.safetyRatings
  parts : Cut resp.parts ((front ++ [last]).flatMap parts)

end GenerateContentResponse

open GenerateContentResponse (Split)

/-- What a chunk does up to its finish. -/
def chunkBody (host : Host) (resp : GenerateContentResponse) : Parse :=
  inOrder [startResponse host, noteUsage resp.usageMetadata, noteRatings resp.safetyRatings,
    forEach (handlePart host) resp.parts]

def chunkFinish (resp : GenerateContentResponse) : Parse :=
  ifSome resp.finishReason fun reason =>
    andThen closeOpenBlock (stopResponse (mapFinishReason (some reason)))

/-- A chunk by what its first candidate has. -/
theorem handle_eq (host : Host) (resp : GenerateContentResponse) {s : StreamState}
    (hs : s.stopped = false) :
    handle host resp s = andThen (chunkBody host resp) (chunkFinish resp) s := by
  rw [handle, if_neg (by simp [hs]), chunkBody, chunkFinish, GenerateContentResponse.parts,
    GenerateContentResponse.finishReason, GenerateContentResponse.safetyRatings]
  cases resp.candidates.head? with
  | none =>
    have hratings : noteRatings [] = skip := by
      funext s
      simp [noteRatings, update, skip]
    simp only [ifSome_none, Option.map_none, Option.getD_none, Option.bind_none, forEach_nil,
      hratings, inOrder_cons, inOrder_nil, andThen_skip]
  | some candidate =>
    simp only [ifSome_some, Option.map_some, Option.getD_some, Option.bind_some, handleCandidate,
      inOrder_cons, inOrder_nil, andThen_skip, andThen_assoc]

theorem speaks_startResponse :
    Accepts hear (Speaks b u r d) (startResponse host) (Speaks true u r d) := by
  intro s m h
  refine ⟨m, ?_, ?_⟩
  · unfold startResponse
    split <;> rfl
  · unfold startResponse
    split
    · rename_i hstarted
      exact { h with started := hstarted }
    · exact { h with started := rfl }

theorem speaks_noteUsage (usage : Option UsageMetadata) :
    Accepts hear (Speaks b u r d) (noteUsage usage) (Speaks b (usage.or u) r d) :=
  fun _ m h => ⟨m, rfl, { h with usage := congrArg usage.or h.usage }⟩

/-- The ratings a stream goes on with. -/
def ratingsAfter (ratings : List WireSafetyRating) (r : Option (List SafetyRating)) :
    Option (List SafetyRating) :=
  if ratings = [] then r else some (wireToCanonicalSafetyRatings ratings)

theorem speaks_noteRatings (ratings : List WireSafetyRating) :
    Accepts hear (Speaks b u r d) (noteRatings ratings)
      (Speaks b u (ratingsAfter ratings r) d) := by
  intro s m h
  refine ⟨m, rfl, ?_⟩
  unfold noteRatings ratingsAfter update
  by_cases hratings : ratings = []
  · simp only [if_pos hratings]
    exact h
  · simp only [if_neg hratings]
    exact { h with ratings := rfl }

theorem speaks_body (host : Host) (resp : GenerateContentResponse) :
    Accepts hear (Speaks b u r d) (chunkBody host resp)
      (Speaks true (resp.usageMetadata.or u) (ratingsAfter resp.safetyRatings r)
        (resp.parts.foldl (PartsDraft.after host) d)) :=
  speaks_startResponse.andThen ((speaks_noteUsage _).andThen ((speaks_noteRatings _).andThen
    ((accepts_parts _).andThen accepts_skip)))

theorem speaks_bare {chunk : GenerateContentResponse}
    (h : chunk.usageMetadata = none ∧ chunk.finishReason = none ∧ chunk.safetyRatings = []) :
    Accepts hear (Speaks b none none d) (handle host chunk)
      (Speaks true none none (chunk.parts.foldl (PartsDraft.after host) d)) := by
  obtain ⟨husage, hfinish, hratings⟩ := h
  intro s m hs
  have hbody := speaks_body (b := b) (u := none) (r := none) (d := d) host chunk s m hs
  rw [handle_eq host chunk hs.unstopped, chunkFinish, hfinish, ifSome_none, andThen_skip]
  rw [husage, hratings] at hbody
  exact hbody

/-- All chunks but the last. -/
theorem speaks_front {front : List GenerateContentResponse}
    (h : ∀ chunk ∈ front,
      chunk.usageMetadata = none ∧ chunk.finishReason = none ∧ chunk.safetyRatings = []) :
    Accepts hear (Speaks b none none d) (forEach (handle host) front) fun s m =>
      ∃ b', Speaks b' none none
        ((front.flatMap GenerateContentResponse.parts).foldl (PartsDraft.after host) d) s m := by
  induction front generalizing b d with
  | nil => exact accepts_skip.mono (fun _ _ hs => hs) fun _ _ hs => ⟨b, hs⟩
  | cons chunk front ih =>
    obtain ⟨hchunk, hfront⟩ := List.forall_mem_cons.mp h
    rw [forEach_cons, List.flatMap_cons, List.foldl_append]
    exact (speaks_bare hchunk).andThen (ih hfront)

/-- What is heard of a whole stream. -/
structure Over (readings : List Spoken) (reason : StopReason) (usage : Option Usage)
    (m : Heard) : Prop where
  told : m.blocks.reverse.map Block.reading = readings.map some
  stops : m.stops = [(reason, none)]
  usages : m.usages = usage.toList

/-- The usage the response stops with. -/
def usageOf (u : Option UsageMetadata) (r : Option (List SafetyRating)) : Option Usage :=
  match u.map usageMetadataToUsage, r with
  | some usage, some ratings => some { usage with safetyRatings := some ratings }
  | some usage, none => some usage
  | none, some ratings => some { safetyRatings := some ratings }
  | none, none => none

theorem usageOf_ratingsAfter (usage : Option UsageMetadata) (ratings : List WireSafetyRating) :
    usageOf usage (ratingsAfter ratings none) = unaryUsage usage ratings := by
  have hempty : wireToCanonicalSafetyRatings ratings = [] ↔ ratings = [] := List.map_eq_nil_iff
  unfold usageOf ratingsAfter unaryUsage
  by_cases h : ratings = []
  · cases usage <;> simp [h, wireToCanonicalSafetyRatings]
  · cases usage <;> simp [h, hempty]

/-- The stop of the message closes the open block and tells what was noted. -/
theorem over_stop (reason : Bool → StopReason) :
    Accepts hear (Speaks true u r d) (andThen closeOpenBlock (stopResponse reason)) fun s m =>
      s.stopped = true ∧ Over d.readings (reason d.called) (usageOf u r) m := by
  refine accepts_closeOpenBlock.andThen ?_
  intro s m h
  have husage : finalUsage s = usageOf u r := by
    rw [finalUsage, h.usage, h.ratings]
    rfl
  have hcalled : s.hasToolCall = d.called := h.called
  have htold := h.tells.told
  rw [PartsDraft.endRun, Draft.readings_endRun] at htold
  obtain ⟨hstops, husages⟩ := h.quiet
  rw [stopResponse, husage, hcalled]
  cases usageOf u r with
  | none => exact ⟨_, rfl, rfl, htold, by simp [Heard.after, hstops], by simpa [Heard.after]⟩
  | some usage =>
    exact ⟨_, rfl, rfl, htold, by simp [Heard.after, hstops], by simp [Heard.after, husages]⟩

theorem finalize_of_stopped {s : StreamState} (h : s.stopped = true) : finalize s = (s, []) := by
  simp [finalize, h]

theorem finalize_of_speaks {s : StreamState} {m : Heard} (h : Speaks true u r d s m) :
    finalize s = andThen closeOpenBlock (stopResponse (mapFinishReason none)) s := by
  have hreason : (fun hasToolCall : Bool => if hasToolCall then StopReason.toolUse else .endTurn) =
      mapFinishReason none := by
    funext hasToolCall
    cases hasToolCall <;> rfl
  rw [finalize, h.started, h.unstopped, hreason]
  rfl

/-- The finish, or the end of the stream where the chunk has none. -/
theorem over_finish (resp : GenerateContentResponse) :
    Accepts hear (Speaks true u r d) (andThen (chunkFinish resp) finalize) fun _ m =>
      Over d.readings (mapFinishReason resp.finishReason d.called) (usageOf u r) m := by
  unfold chunkFinish
  cases resp.finishReason with
  | none =>
    intro s m h
    rw [ifSome_none, skip_andThen, finalize_of_speaks h]
    exact ((over_stop _).mono (fun _ _ h => h) fun _ _ h => h.2) s m h
  | some reason =>
    rw [ifSome_some]
    refine (over_stop _).andThen ?_
    rintro s m ⟨hstopped, hover⟩
    exact ⟨m, by rw [finalize_of_stopped hstopped]; rfl, hover⟩

/-- The last chunk, and the end of the stream. -/
theorem over_last (last : GenerateContentResponse) :
    Accepts hear (Speaks b none none d) (andThen (handle host last) finalize) fun _ m =>
      Over (last.parts.foldl (PartsDraft.after host) d).readings
        (mapFinishReason last.finishReason (last.parts.foldl (PartsDraft.after host) d).called)
        (unaryUsage last.usageMetadata last.safetyRatings) m := by
  intro s m h
  have hwhole : andThen (handle host last) finalize s =
      andThen (chunkBody host last) (andThen (chunkFinish last) finalize) s := by
    rw [← andThen_assoc, andThen_apply, handle_eq host last h.unstopped]
    rfl
  have hrun := (speaks_body host last).andThen (over_finish last) s m h
  rw [Option.or_none, usageOf_ratingsAfter] at hrun
  rwa [hwhole]

theorem speaks_init (host : Host) (model : String) :
    Speaks false none none {} (.new host model) {} where
  tells := tells_init
  called := rfl
  minted := rfl
  started := rfl
  unstopped := rfl
  usage := rfl
  ratings := rfl
  quiet := ⟨rfl, rfl⟩

/-- What is heard of the chunks of a response. -/
theorem over_events (host : Host) (model : String) {resp : GenerateContentResponse}
    {front : List GenerateContentResponse} {last : GenerateContentResponse}
    (h : Split resp front last) :
    ∃ m, Runs.exec hear {} (events host model (front ++ [last])) = some m ∧
      Over (draft host resp.parts).readings
        (mapFinishReason resp.finishReason (draft host resp.parts).called)
        (unaryUsage resp.usageMetadata resp.safetyRatings) m := by
  have hparts : last.parts.foldl (PartsDraft.after host)
      ((front.flatMap GenerateContentResponse.parts).foldl (PartsDraft.after host) {}) =
        draft host resp.parts := by
    rw [draft, ← foldl_after_cut host h.parts, List.flatMap_append, List.flatMap_singleton,
      List.foldl_append]
  obtain ⟨m₁, hfront, b', hspeaks⟩ :=
    speaks_front h.bare _ _ (speaks_init host model)
  obtain ⟨m, hlast, hover⟩ := over_last last _ m₁ hspeaks
  rw [hparts, h.finish, h.usage, h.ratings] at hover
  refine ⟨m, ?_, hover⟩
  rw [events_eq, forEach_append, forEach_singleton, andThen_assoc]
  exact Runs.exec_append_eq_some.mpr ⟨m₁, hfront, hlast⟩

/-- The unary parser by what the first candidate has. -/
theorem parseUnary_eq (c : Codec) (host : Host) (model : String) (metadata : CandidateMetadata)
    (resp : GenerateContentResponse) :
    parseUnary c host model metadata resp =
      { id := host.responseId
        model := model
        content :=
          attachExtensions (candidateToBlocks c host resp.parts).1 resp.safetyRatings metadata
        stopReason := mapFinishReason resp.finishReason (candidateToBlocks c host resp.parts).2
        stopSequence := none
        usage := unaryUsage resp.usageMetadata resp.safetyRatings } := by
  rw [parseUnary, GenerateContentResponse.parts, GenerateContentResponse.finishReason,
    GenerateContentResponse.safetyRatings]
  cases resp.candidates.head? <;> rfl

/-- A response without inline bytes or files comes to the same whole and in chunks, if
both ways mint the ids of calls from the same source. -/
theorem unary_streaming_agree (c : Codec) (host : Host)
    (hrender : host.render (.obj []) = "\x7b\x7d") (model : String)
    (metadata : CandidateMetadata) {resp : GenerateContentResponse}
    {front : List GenerateContentResponse} {last : GenerateContentResponse}
    (hplain : ∀ part ∈ resp.parts, part.IsPlain) (h : Split resp front last) :
    (parseUnary c host model metadata resp).content.map (ContentBlock.reading host.render) =
        (blocks (events host model (front ++ [last]))).map Block.reading ∧
      stops (events host model (front ++ [last])) =
        [((parseUnary c host model metadata resp).stopReason,
          (parseUnary c host model metadata resp).stopSequence)] ∧
      usages (events host model (front ++ [last])) =
        (parseUnary c host model metadata resp).usage.toList := by
  obtain ⟨m, hexec, hover⟩ := over_events host model h
  obtain rfl := Option.some.inj ((exec_hear _).symm.trans hexec)
  obtain ⟨hblocks, hcalled⟩ := reading_candidateToBlocks (c := c) hrender hplain
  obtain ⟨htold, hstops, husages⟩ := hover
  rw [List.reverse_reverse] at htold
  rw [parseUnary_eq, reading_attachExtensions, hblocks, hcalled]
  exact ⟨htold.symm, hstops, husages⟩

/-- A thought, a text and a call, with usage. -/
def lookUp : GenerateContentResponse :=
  { candidates := [{
      parts := [{ text := some "Look it up.", thought := some true },
        { text := some "One moment." },
        { functionCall := some { name := "search" } }]
      finishReason := some "STOP" }]
    usageMetadata := some { promptTokenCount := some 7, candidatesTokenCount := some 9 } }

/-- The same in three chunks. -/
def lookUpFront : List GenerateContentResponse :=
  [{ candidates := [{ parts := [{ text := some "Look ", thought := some true }] }] },
   { candidates := [{ parts := [{ text := some "it up.", thought := some true },
       { text := some "One " }] }] }]

def lookUpLast : GenerateContentResponse :=
  { candidates := [{
      parts := [{ text := some "moment." }, { functionCall := some { name := "search" } }]
      finishReason := some "STOP" }]
    usageMetadata := some { promptTokenCount := some 7, candidatesTokenCount := some 9 } }

theorem lookUp_split : Split lookUp lookUpFront lookUpLast where
  bare := List.forall_mem_cons.mpr ⟨⟨rfl, rfl, rfl⟩, List.forall_mem_singleton.mpr ⟨rfl, rfl, rfl⟩⟩
  usage := rfl
  finish := rfl
  ratings := rfl
  parts := by
    refine ⟨[[_, _], [_, _], [_]], ?_, rfl⟩
    refine .cons (Or.inr ⟨["Look ", "it up."], by decide, rfl, rfl, rfl⟩) ?_
    exact .cons (Or.inr ⟨["One ", "moment."], by decide, rfl, rfl, rfl⟩) (.cons (Or.inl rfl) .nil)

/-- A host whose clock stands still; it renders the empty object. -/
def stillHost : Host where
  nowUnix := 0
  responseId := "resp_0"
  toolCallId := fun n => "call_" ++ toString n
  render := fun _ => "\x7b\x7d"

theorem lookUp_agree :
    (parseUnary objectCodec stillHost "gemini-pro" {} lookUp).content.map
          (ContentBlock.reading stillHost.render) =
        (blocks (events stillHost "gemini-pro" (lookUpFront ++ [lookUpLast]))).map Block.reading ∧
      stops (events stillHost "gemini-pro" (lookUpFront ++ [lookUpLast])) =
        [((parseUnary objectCodec stillHost "gemini-pro" {} lookUp).stopReason,
          (parseUnary objectCodec stillHost "gemini-pro" {} lookUp).stopSequence)] ∧
      usages (events stillHost "gemini-pro" (lookUpFront ++ [lookUpLast])) =
        (parseUnary objectCodec stillHost "gemini-pro" {} lookUp).usage.toList :=
  unary_streaming_agree objectCodec stillHost rfl "gemini-pro" {}
    (List.forall_mem_cons.mpr ⟨⟨rfl, rfl⟩, List.forall_mem_cons.mpr
      ⟨⟨rfl, rfl⟩, List.forall_mem_singleton.mpr ⟨rfl, rfl⟩⟩⟩) lookUp_split

end Gemini

end AgentShim
