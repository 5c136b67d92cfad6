import AgentShim.Frontends.AnthropicStream
import AgentShim.Providers.AnthropicEnvelope
import AgentShim.Stream.Calls

/-
  The Anthropic stream, written and read back

  What the Anthropic encoder writes is a stream of the protocol, and the parser
  makes of it the canonical stream that was written, a tool block in the place of
  its call: the wire starts a tool block with its id and name, so the encoder cannot
  start it before.

  What is proved:
    1. `parts_readBack` — every event is written so that its parts are read.
    2. `accepts_encodeEvent`, `lifecycleValid_readBack` — what is written keeps the
       protocol, so what is read back is lifecycle-valid.
    3. `readBack_ends` — it ends with the stop and the usage that were written.
    4. `anthropic_round_trip` — the round trip of a stream.
    5. `lateCall_reordered` — a tool block that is called late comes back late.
-/

namespace AgentShim

namespace AnthropicMessages

open Transducer AnthropicSse

/-! ## What is read of the wire -/

def OutboundUsage.read (u : OutboundUsage) : IncomingUsage :=
  { inputTokens := some u.inputTokens
    outputTokens := some u.outputTokens
    cacheCreationInputTokens := u.cacheCreationInputTokens
    cacheReadInputTokens := u.cacheReadInputTokens }

def ContentBlockStartPayload.read : ContentBlockStartPayload → IncomingContentBlockStart
  | text s => .text s
  | toolUse id name _ => .toolUse id name
  | thinking s => .thinking s
  | redactedThinking _ => .redactedThinking

def ContentBlockDelta.read : ContentBlockDelta → IncomingContentBlockDelta
  | textDelta s => .textDelta s
  | inputJsonDelta s => .inputJsonDelta s
  | thinkingDelta s => .thinkingDelta s
  | signatureDelta _ => .signatureDelta

namespace OutboundEvent

/-- The event as serde reads it off what serde wrote. -/
def read : OutboundEvent → IncomingEvent
  | messageStart message =>
    .messageStart { id := message.id, model := message.model, usage := some message.usage.read }
  | contentBlockStart index contentBlock => .contentBlockStart index contentBlock.read
  | contentBlockDelta index delta => .contentBlockDelta index delta.read
  | contentBlockStop index => .contentBlockStop index
  | messageDelta delta usage =>
    .messageDelta { stopReason := some delta.stopReason, stopSequence := delta.stopSequence }
      (some usage.read)
  | messageStop => .messageStop
  | ping => .ping
  | error payload => .error { ty := payload.ty, message := payload.message }

/-- The usage that comes with the stop of the message. -/
def finalUsage : OutboundEvent → Option OutboundUsage
  | messageDelta _ usage => some usage
  | _ => none

end OutboundEvent

/-- What the encoder writes of a canonical stream. -/
def wire (es : List StreamEvent) : List OutboundEvent := encode (es.map .ok)

/-- The canonical stream that is read back. -/
def readBack (es : List StreamEvent) : List StreamEvent :=
  events ((wire es).map OutboundEvent.read) none

theorem done_encodeEvent {e : StreamEvent} (h : e.isResponseStop = false) (s : EncoderState) :
    (encodeEvent e s).1.done = s.done := by
  cases e with
  | responseStop usage => cases h
  | contentBlockStart index kind =>
    rw [encodeEvent]
    split <;> rfl
  | _ => rfl

/-- The whole stream is written, and its last event ends it. -/
theorem wire_eq {front : List StreamEvent} (last : StreamEvent)
    (h : ∀ e ∈ front, e.isResponseStop = false) :
    wire (front ++ [last]) = (forEach encodeEvent (front ++ [last]) {}).2 := by
  rw [wire, encode, untilDone_map_concat Except.ok last
    (fun e he s hs => (done_encodeEvent (h e he) s).trans hs) rfl]
  rfl

theorem readBack_eq (es : List StreamEvent) :
    readBack es = (forEach (fun o => parseEvent o.read) (wire es) {}).2 := by
  rw [readBack, events_eq, forEach_map]

/-! ## The blocks -/

theorem parts_eq_flatMap (es : List StreamEvent) :
    parts es = es.flatMap fun e => e.part.toList :=
  List.filterMap_eq_flatMap_toList _ _

/-- The kinds of blocks that the wire has. -/
def HasWireKind : StreamEvent → Prop
  | .contentBlockStart _ kind =>
    kind = .text ∨ kind = .toolCall ∨ kind = .reasoning ∨ kind = .redactedReasoning
  | _ => True

instance : (e : StreamEvent) → Decidable (HasWireKind e)
  | .contentBlockStart _ _ => inferInstanceAs (Decidable (_ ∨ _))
  | .responseStart _ _ _ | .messageStart _ | .textDelta _ _ | .reasoningDelta _ _
  | .toolCallStart _ _ _ | .toolCallArgumentsDelta _ _ | .toolCallStop _ | .contentBlockStop _
  | .usageDelta _ | .messageStop _ _ | .responseStop _ | .error _ | .rawProviderEvent _ _ _ =>
    isTrue trivial

theorem parts_parseEvent (e : IncomingEvent) (s : StreamState) :
    parts (parseEvent e s).2 = parts (parseEvent e {}).2 := by
  cases e with
  | contentBlockStart index contentBlock =>
    cases contentBlock with
    | text text =>
      by_cases h : text = "" <;> simp only [parseEvent, startBlock, h] <;> rfl
    | thinking thinking =>
      by_cases h : thinking = "" <;> simp only [parseEvent, startBlock, h] <;> rfl
    | _ => rfl
  | contentBlockDelta index delta => cases delta <;> rfl
  | contentBlockStop index =>
    simp only [parseEvent, stopBlock]
    split <;> rfl
  | messageStart message =>
    obtain ⟨id, model, usage⟩ := message
    cases usage <;> rfl
  | messageDelta delta usage => cases usage <;> rfl
  | _ => rfl

/-- An event is written so that its parts are read. -/
theorem parts_encodeEvent {e : StreamEvent} (hkind : HasWireKind e) (s : EncoderState) :
    (encodeEvent e s).2.flatMap (fun o => parts (parseEvent o.read {}).2) = e.announced := by
  cases e with
  | contentBlockStart index kind =>
    rcases hkind with rfl | rfl | rfl | rfl <;> rfl
  | responseStop usage =>
    have hstop : ∀ t : EncoderState,
        (stopMessage t).2.flatMap (fun o => parts (parseEvent o.read {}).2) = [] := by
      intro t
      unfold stopMessage
      split <;> rfl
    exact hstop _
  | _ => rfl

theorem parts_readBack {es : List StreamEvent}
    (hwire : wire es = (forEach encodeEvent es {}).2) (hkinds : ∀ e ∈ es, HasWireKind e) :
    parts (readBack es) = announcedParts es := by
  have hread : ∀ o ∈ wire es, ∀ s, (parseEvent o.read s).2.flatMap (fun e => e.part.toList) =
      parts (parseEvent o.read {}).2 := by
    intro o _ s
    rw [← parts_eq_flatMap, parts_parseEvent]
  rw [readBack_eq, parts_eq_flatMap, flatMap_forEach hread, hwire]
  exact flatMap_forEach (fun e he s => parts_encodeEvent (hkinds e he) s) {}

/-! ## The protocol -/

/-- One event of the wire, at an upstream of the protocol. -/
def serve (u : Upstream) (o : OutboundEvent) : Option Upstream := u.step o.read

theorem exec_serve (u : Upstream) (os : List OutboundEvent) :
    Runs.exec serve u os = Runs.exec Upstream.step u (os.map OutboundEvent.read) := by
  induction os generalizing u with
  | nil => rfl
  | cons o os ih =>
    rw [List.map_cons, Runs.exec_cons, Runs.exec_cons, serve]
    exact congrArg _ (funext ih)

theorem accepts_emit {P Q : EncoderState → Upstream → Prop} {o : OutboundEvent}
    (h : ∀ s u, P s u → u.Allows o.read ∧ Q s (u.after o.read)) :
    Accepts serve P (emit o) Q := by
  intro s u hp
  obtain ⟨hallow, hq⟩ := h s u hp
  have hstep : serve u o = some (u.after o.read) := Upstream.step_eq_some.mpr ⟨hallow, rfl⟩
  exact ⟨_, Runs.exec_cons_eq_some.mpr ⟨_, hstep, rfl⟩, hq⟩

/-- The kind of the open block under an index, once it is announced. -/
def announcedKind (past : List StreamEvent) (kind : Option ContentBlockKind) (i : Nat) :
    Option ContentBlockKind :=
  kind.filter fun k => k ≠ .toolCall ∨ i ∈ calledIndices past

/-- The encoder and the protocol after the events `past`, which leave the envelope at
`m` before the end of the response. -/
structure Serves (past : List StreamEvent) (m : Envelope) (s : EncoderState) (u : Upstream) :
    Prop where
  begun : u.begun = m.started
  running : u.ended = false
  openBlocks : ∀ i, u.openBlocks.lookup i = announcedKind past (m.block i).kind? i
  used : ∀ i ∈ u.used, i ∈ startedIndices (announcedParts past)
  pending : s.pendingStop = (stops past).getLast?

variable {past : List StreamEvent} {m : Envelope} {e : StreamEvent}

theorem announcedKind_of_plain {kind : ContentBlockKind} (h : kind ≠ .toolCall) (i : Nat) :
    announcedKind past (some kind) i = some kind := by
  simp [announcedKind, h]

theorem announcedKind_of_called {i : Nat} (h : i ∈ calledIndices past) :
    announcedKind past (some .toolCall) i = some .toolCall := by
  simp [announcedKind, h]

theorem announcedKind_of_uncalled {i : Nat} (h : i ∉ calledIndices past) :
    announcedKind past (some .toolCall) i = none := by
  simp [announcedKind, Option.filter, h]

theorem mem_startedIndices_announced (i : Nat) (h : i ∈ startedIndices (announcedParts past)) :
    i ∈ startedIndices (announcedParts (past ++ [e])) := by
  rw [announcedParts_concat, startedIndices_append]
  exact List.mem_append_left _ h

/-- An event that changes neither the open blocks nor the calls, and is not written. -/
theorem Serves.silent {s : EncoderState} {u : Upstream} (h : Serves past m s u)
    (hallow : m.Allows false e) (hstarted : (m.after e).started = m.started)
    (hkind : ∀ i kind, kindAfter i kind e = kind) (hcalled : e.called = none) {s' : EncoderState}
    (hpending : s'.pendingStop = (e.stop.or s.pendingStop)) :
    Serves (past ++ [e]) (m.after e) s' u where
  begun := h.begun.trans hstarted.symm
  running := h.running
  openBlocks i := by
    rw [hallow.kind_after, hkind, h.openBlocks, announcedKind, announcedKind,
      calledIndices_concat, hcalled, Option.toList_none, List.append_nil]
  used i hi := mem_startedIndices_announced i (h.used i hi)
  pending := by
    rw [hpending, h.pending, stops_concat]
    cases e.stop with
    | none => rw [Option.none_or, Option.toList_none, List.append_nil]
    | some stop => rw [Option.some_or, Option.toList_some, List.getLast?_concat]

theorem calledIndices_of_uncalled (h : e.called = none) :
    calledIndices (past ++ [e]) = calledIndices past := by
  rw [calledIndices_concat, h, Option.toList_none, List.append_nil]

theorem stops_of_unstopped (h : e.stop = none) : stops (past ++ [e]) = stops past := by
  rw [stops_concat, h, Option.toList_none, List.append_nil]

theorem accepts_responseStart (id model : String) (created : Nat) (hnew : m.started = false) :
    Accepts serve (Serves past m) (encodeEvent (.responseStart id model created))
      (Serves (past ++ [.responseStart id model created])
        (m.after (.responseStart id model created))) := by
  have hstart : Accepts serve (Serves past m)
      (emit (.messageStart { id := id, model := model, usage := {} }))
      (Serves (past ++ [.responseStart id model created])
        (m.after (.responseStart id model created))) := by
    refine accepts_emit fun s u h => ⟨h.begun.trans hnew, ?_⟩
    exact {
      begun := rfl
      running := h.running
      openBlocks := fun i => by
        rw [announcedKind, calledIndices_of_uncalled rfl]
        exact h.openBlocks i
      used := fun i hi => mem_startedIndices_announced i (h.used i hi)
      pending := by
        rw [stops_of_unstopped rfl]
        exact h.pending }
  have hping : Accepts serve
      (Serves (past ++ [.responseStart id model created])
        (m.after (.responseStart id model created))) (emit .ping)
      (Serves (past ++ [.responseStart id model created])
        (m.after (.responseStart id model created))) :=
    accepts_emit fun s u h => ⟨trivial, h⟩
  exact hstart.andThen (hping.andThen accepts_skip)

/-- A block of the wire starts: its index is announced with its kind. -/
theorem accepts_startBlock {index : Nat} {contentBlock : ContentBlockStartPayload}
    (hbegun : m.started = true) (hannounced : startedIndices e.announced = [index])
    (hrooted : Rooted (announcedParts (past ++ [e]))) (hstarted : (m.after e).started = m.started)
    (hpending : e.stop = none)
    (hkind : ∀ i, announcedKind (past ++ [e]) ((m.after e).block i).kind? i =
      if i = index then some contentBlock.read.kind
      else announcedKind past (m.block i).kind? i) :
    Accepts serve (Serves past m) (emit (.contentBlockStart index contentBlock))
      (Serves (past ++ [e]) (m.after e)) := by
  refine accepts_emit fun s u h => ?_
  have hnew : index ∉ u.used := by
    intro hmem
    have hnodup := hrooted.nodup
    rw [announcedParts_concat, startedIndices_append, hannounced] at hnodup
    exact (List.nodup_append.mp hnodup).2.2 index (h.used index hmem) index
      List.mem_cons_self rfl
  refine ⟨⟨h.begun.trans hbegun, h.running, hnew⟩, ?_⟩
  exact {
    begun := h.begun.trans hstarted.symm
    running := h.running
    openBlocks := fun i => by
      rw [hkind]
      by_cases hi : i = index
      · rw [if_pos hi, hi]
        exact AList.lookup_insert _
      · rw [if_neg hi, ← h.openBlocks]
        exact AList.lookup_insert_ne hi
    used := fun i hi => by
      rcases List.mem_cons.mp hi with rfl | hi
      · rw [announcedParts_concat, startedIndices_append, hannounced]
        exact List.mem_append_right _ List.mem_cons_self
      · exact mem_startedIndices_announced i (h.used i hi)
    pending := by
      rw [stops_of_unstopped hpending]
      exact h.pending }

theorem accepts_stopBlock {index : Nat} (hallow : m.Allows false (.contentBlockStop index))
    (hopen : announcedKind past (m.block index).kind? index ≠ none) :
    Accepts serve (Serves past m) (emit (.contentBlockStop index))
      (Serves (past ++ [.contentBlockStop index]) (m.after (.contentBlockStop index))) := by
  refine accepts_emit fun s u h => ⟨⟨h.running, by rwa [h.openBlocks]⟩, ?_⟩
  exact {
    begun := h.begun
    running := h.running
    openBlocks := fun i => by
      rw [announcedKind, calledIndices_of_uncalled rfl, hallow.kind_after, kindAfter]
      by_cases hi : i = index
      · rw [if_pos hi, hi]
        show (u.openBlocks.erase index).lookup index = none
        exact AList.lookup_erase ..
      · rw [if_neg hi]
        exact (AList.lookup_erase_ne hi).trans (h.openBlocks i)
    used := fun i hi => mem_startedIndices_announced i (h.used i hi)
    pending := by
      rw [stops_of_unstopped rfl]
      exact h.pending }

/-- A piece of a block is written where the protocol has the block open. -/
theorem accepts_delta {index : Nat} {delta : ContentBlockDelta} (hallow : m.Allows false e)
    (hopen : announcedKind past (m.block index).kind? index = some delta.read.kind)
    (hafter : m.after e = m) (hkind : ∀ i kind, kindAfter i kind e = kind)
    (hcalled : e.called = none) (hstop : e.stop = none) :
    Accepts serve (Serves past m) (emit (.contentBlockDelta index delta))
      (Serves (past ++ [e]) (m.after e)) := by
  refine accepts_emit fun s u h => ⟨⟨h.running, by rw [h.openBlocks, hopen]⟩, ?_⟩
  exact h.silent hallow (by rw [hafter]) hkind hcalled (by rw [hstop]; rfl)

/-- The start of a tool block is not written: the block is announced with its call. -/
theorem accepts_toolBlock {index : Nat}
    (hallow : m.Allows false (.contentBlockStart index .toolCall))
    (hexec : Runs.exec (Envelope.step false) {} past = some m) :
    Accepts serve (Serves past m) (encodeEvent (.contentBlockStart index .toolCall))
      (Serves (past ++ [.contentBlockStart index .toolCall])
        (m.after (.contentBlockStart index .toolCall))) := by
  have hfresh := hallow.2.2
  have hnew : index ∉ calledIndices past := fun hmem =>
    ((recalls_of_exec hexec).fresh index).mp hfresh
      (mem_startedIndices.mpr ⟨.toolCall, started_of_called hexec hmem⟩)
  refine fun s u h => ⟨u, rfl, ?_⟩
  exact {
    begun := h.begun
    running := h.running
    openBlocks := fun i => by
      rw [announcedKind, calledIndices_of_uncalled rfl, hallow.kind_after, kindAfter,
        h.openBlocks]
      by_cases hi : i = index
      · subst hi
        rw [if_pos rfl, hfresh]
        exact (announcedKind_of_uncalled hnew).symm
      · rw [if_neg hi]
        rfl
    used := fun i hi => mem_startedIndices_announced i (h.used i hi)
    pending := by
      rw [stops_of_unstopped rfl]
      exact h.pending }

theorem accepts_plainBlock {index : Nat} {kind : ContentBlockKind} (htool : kind ≠ .toolCall)
    (hallow : m.Allows false (.contentBlockStart index kind))
    (hexec : Runs.exec (Envelope.step false) {} past = some m)
    (hrooted : Rooted (announcedParts (past ++ [.contentBlockStart index kind])))
    (hwire : HasWireKind (.contentBlockStart index kind)) :
    Accepts serve (Serves past m) (encodeEvent (.contentBlockStart index kind))
      (Serves (past ++ [.contentBlockStart index kind])
        (m.after (.contentBlockStart index kind))) := by
  have hpayload : (startPayload kind).read.kind = kind := by
    rcases hwire with rfl | rfl | rfl | rfl <;> first | rfl | exact absurd rfl htool
  have hparts : startedIndices (StreamEvent.contentBlockStart index kind).announced =
      [index] := by
    cases kind <;> first | rfl | exact absurd rfl htool
  rw [encodeEvent, if_neg htool]
  refine accepts_startBlock (started_of_allows hexec hallow rfl rfl) hparts hrooted rfl rfl
    fun i => ?_
  rw [hallow.kind_after, kindAfter, hpayload]
  by_cases hi : i = index
  · rw [if_pos hi, if_pos hi, announcedKind_of_plain htool]
  · rw [if_neg hi, if_neg hi, announcedKind, calledIndices_of_uncalled rfl, announcedKind]

theorem accepts_toolCallStart {index : Nat} {id name : String}
    (hallow : m.Allows false (.toolCallStart index id name))
    (hexec : Runs.exec (Envelope.step false) {} past = some m)
    (hrooted : Rooted (announcedParts (past ++ [.toolCallStart index id name]))) :
    Accepts serve (Serves past m) (encodeEvent (.toolCallStart index id name))
      (Serves (past ++ [.toolCallStart index id name])
        (m.after (.toolCallStart index id name))) := by
  have hkind : (m.block index).kind? = some .toolCall :=
    BlockPhase.kind_of_isTool hallow.lenient.2
  refine accepts_startBlock (started_of_allows hexec hallow rfl rfl) rfl hrooted rfl rfl
    fun i => ?_
  rw [hallow.kind_after]
  by_cases hi : i = index
  · subst hi
    have hcalled : i ∈ calledIndices (past ++ [.toolCallStart i id name]) := by
      rw [calledIndices_concat]
      exact List.mem_append_right _ List.mem_cons_self
    rw [if_pos rfl]
    exact (congrArg (announcedKind _ · i) hkind).trans (announcedKind_of_called hcalled)
  · rw [if_neg hi, announcedKind, calledIndices_concat, announcedKind]
    simp [kindAfter, StreamEvent.called, hi]

/-- A block that may close was announced. -/
theorem announced_of_mayClose {index : Nat} (hclose : (m.block index).mayClose = true)
    (hexec : Runs.exec (Envelope.step false) {} past = some m)
    (hfit : CallFits past (.contentBlockStop index)) :
    announcedKind past (m.block index).kind? index ≠ none := by
  intro hnone
  cases hb : m.block index with
  | opened kind =>
    rw [hb] at hclose hnone
    have hkind : kind ≠ .toolCall := by
      rintro rfl
      cases hclose
    exact Option.some_ne_none kind ((announcedKind_of_plain hkind index).symm.trans hnone)
  | ended =>
    have hstarted : (index, .toolCall) ∈ started past :=
      (recalls_of_exec hexec).kind index .toolCall (by rw [hb]; rfl)
    rw [hb] at hnone
    exact Option.some_ne_none _ ((announcedKind_of_called (hfit hstarted)).symm.trans hnone)
  | _ =>
    rw [hb] at hclose
    cases hclose

/-- Every event before the end of the response is written in order. -/
theorem accepts_encodeEvent (hallow : m.Allows false e) (hfit : CallFits past e)
    (hexec : Runs.exec (Envelope.step false) {} past = some m)
    (hrooted : Rooted (announcedParts (past ++ [e]))) (herror : e.isError = false)
    (hstop : e.isResponseStop = false) (hwire : HasWireKind e) :
    Accepts serve (Serves past m) (encodeEvent e) (Serves (past ++ [e]) (m.after e)) := by
  cases e with
  | responseStart id model created => exact accepts_responseStart id model created hallow
  | messageStart role =>
    refine fun s u h => ⟨u, rfl, ?_⟩
    exact h.silent hallow rfl (fun _ _ => rfl) rfl rfl
  | contentBlockStart index kind =>
    by_cases htool : kind = .toolCall
    · subst htool
      exact accepts_toolBlock hallow hexec
    · exact accepts_plainBlock htool hallow hexec hrooted hwire
  | contentBlockStop index =>
    exact accepts_stopBlock hallow (announced_of_mayClose hallow.2 hexec hfit)
  | toolCallStart index id name => exact accepts_toolCallStart hallow hexec hrooted
  | textDelta index text =>
    refine accepts_delta hallow ?_ rfl (fun _ _ => rfl) rfl rfl
    rw [hallow.2]
    exact announcedKind_of_plain (by decide) index
  | reasoningDelta index text =>
    refine accepts_delta hallow ?_ rfl (fun _ _ => rfl) rfl rfl
    rw [hallow.2]
    exact announcedKind_of_plain (by decide) index
  | toolCallArgumentsDelta index fragment =>
    refine accepts_delta hallow ?_ rfl (fun _ _ => rfl) rfl rfl
    rw [BlockPhase.kind_of_isTool hallow.lenient.2]
    exact announcedKind_of_called hfit
  | toolCallStop index =>
    refine fun s u h => ⟨u, rfl, ?_⟩
    exact h.silent hallow rfl (fun _ _ => rfl) rfl rfl
  | usageDelta usage =>
    refine fun s u h => ⟨u, rfl, ?_⟩
    exact h.silent hallow rfl (fun _ _ => rfl) rfl rfl
  | messageStop reason sequence =>
    refine fun s u h => ⟨u, rfl, ?_⟩
    exact h.silent hallow rfl (fun _ _ => rfl) rfl rfl
  | rawProviderEvent provider eventName data =>
    refine fun s u h => ⟨u, rfl, ?_⟩
    exact h.silent hallow rfl (fun _ _ => rfl) rfl rfl
  | responseStop usage => cases hstop
  | error message => cases herror

theorem serves_init : Serves [] {} {} {} :=
  { begun := rfl, running := rfl, openBlocks := fun i => AList.lookup_empty i, used := nofun,
    pending := rfl }

/-- An event before the end of the response, of what the wire has. -/
structure Early (e : StreamEvent) : Prop where
  noError : e.isError = false
  noEnd : e.isResponseStop = false
  wireKind : HasWireKind e

theorem accepts_front {front : List StreamEvent} {m : Envelope}
    (h : Runs.exec (Envelope.step false) {} front = some m)
    (hfits : Throughout CallFits front) (hearly : ∀ e ∈ front, Early e) :
    Accepts serve (Serves [] {}) (forEach encodeEvent front) (Serves front m) := by
  induction front using List.reverseRecOn generalizing m with
  | nil =>
    cases h
    exact accepts_skip
  | append_singleton front e ih =>
    obtain ⟨m₁, hpast, hnext⟩ := Runs.exec_append_eq_some.mp h
    obtain ⟨hallow, rfl⟩ := Envelope.exec_singleton_iff.mp hnext
    have hrooted := rooted_announced h hfits
    obtain ⟨hfits, hfit⟩ := throughout_append_singleton.mp hfits
    obtain ⟨herror, hstop, hwire⟩ := hearly e (by simp)
    rw [forEach_append, forEach_singleton]
    exact (ih hpast hfits fun e he => hearly e (List.mem_append_left _ he)).andThen
      (accepts_encodeEvent hallow hfit hpast hrooted herror hstop hwire)

theorem entries_eq_nil {blocks : AList fun _ : Nat => ContentBlockKind}
    (h : ∀ i, blocks.lookup i = none) : blocks.entries = [] := by
  refine List.eq_nil_iff_forall_not_mem.mpr fun b hb => ?_
  have hsome := AList.mem_lookup_iff.mpr hb
  rw [h] at hsome
  cases hsome

theorem pendingStop_overrideUsage (usage : Option Usage) (s : EncoderState) :
    (overrideUsage usage s).pendingStop = s.pendingStop := by
  cases usage <;> rfl

/-- What is written at the end of the response. -/
theorem encode_responseStop {s : EncoderState} {reason : StopReason} {sequence : Option String}
    (h : s.pendingStop = some (reason, sequence)) (usage : Option Usage) :
    (encodeEvent (.responseStop usage) s).2 =
      [.messageDelta { stopReason := stopReasonToAnthropic reason, stopSequence := sequence }
          (overrideUsage usage s).usage,
        .messageStop] := by
  have hpending := (pendingStop_overrideUsage usage s).trans h
  show (stopMessage (overrideUsage usage s)).2 = _
  rw [stopMessage, hpending]

/-- The end of the response ends the message of the protocol. -/
theorem accepts_responseStop (usage : Option Usage) {stop : StopReason × Option String}
    (hstop : stops past = [stop]) (hbegun : m.started = true)
    (hclosed : ∀ i, (m.block i).isOpen = false) :
    Accepts serve (Serves past m) (encodeEvent (.responseStop usage))
      fun _ u => u.ended = true := by
  intro s u h
  have hpending : s.pendingStop = some (stop.1, stop.2) := by rw [h.pending, hstop]; rfl
  have hentries : u.openBlocks.entries = [] := by
    refine entries_eq_nil fun i => ?_
    have hnone : (m.block i).kind? = none := by
      have hopen := hclosed i
      cases hb : m.block i <;> rw [hb] at hopen <;> first | rfl | cases hopen
    rw [h.openBlocks, hnone]
    rfl
  have hu : u.begun = true := h.begun.trans hbegun
  refine ⟨{ u with ended := true }, ?_, rfl⟩
  rw [encode_responseStop hpending, exec_serve]
  refine Runs.exec_cons_eq_some.mpr ⟨u, Upstream.step_eq_some.mpr ⟨⟨hu, h.running⟩, rfl⟩, ?_⟩
  exact Runs.exec_cons_eq_some.mpr
    ⟨_, Upstream.step_eq_some.mpr ⟨⟨hu, h.running, hentries⟩, rfl⟩, rfl⟩

/-- A stream that is written to its end is read back as a lifecycle-valid one. -/
theorem lifecycleValid_readBack {front : List StreamEvent} {usage : Option Usage} {m : Envelope}
    (hwire : wire (front ++ [.responseStop usage]) =
      (forEach encodeEvent (front ++ [.responseStop usage]) {}).2)
    (h : Runs.exec (Envelope.step false) {} front = some m) (hstop : m.stopped = true)
    (hclosed : ∀ i, (m.block i).isOpen = false) (hfits : Throughout CallFits front)
    (hearly : ∀ e ∈ front, Early e) :
    LifecycleValid (readBack (front ++ [.responseStop usage])) := by
  obtain ⟨stop, hone⟩ := stops_of_stopped h hstop
  have hbegun : m.started = true := (Envelope.ordered_init.exec h).2 hstop
  have hrun := (accepts_front h hfits hearly).andThen
    (accepts_responseStop usage hone hbegun hclosed)
  obtain ⟨u, hu, hended⟩ := hrun {} {} serves_init
  rw [exec_serve] at hu
  obtain ⟨m', hm', hagrees⟩ := accepts_wire hu {} {} agrees_init
  refine (lifecycleValid_toolsNested_iff.mpr ⟨m', ?_, hagrees.closed hended⟩).1
  rw [readBack, events_eq, hwire, forEach_append, forEach_singleton]
  exact hm'

/-! ## The stop and the usage -/

/-- What is written before the end of the response neither stops the message nor
reports a usage. -/
def OutboundEvent.IsEarly : OutboundEvent → Prop
  | messageStart message => message.usage = {}
  | messageDelta _ _ | messageStop => False
  | _ => True

theorem isEarly_of_mem {s : EncoderState} {o : OutboundEvent} (hstop : e.isResponseStop = false)
    (h : o ∈ (encodeEvent e s).2) : o.IsEarly := by
  cases e with
  | responseStop usage => cases hstop
  | responseStart id model created =>
    rcases List.mem_cons.mp h with rfl | h
    · rfl
    · obtain rfl := List.mem_singleton.mp h
      trivial
  | contentBlockStart index kind =>
    rw [encodeEvent] at h
    split at h
    · cases h
    · obtain rfl := List.mem_singleton.mp h
      trivial
  | messageStart role => cases h
  | toolCallStop index => cases h
  | usageDelta usage => cases h
  | messageStop reason sequence => cases h
  | rawProviderEvent provider eventName data => cases h
  | _ =>
    obtain rfl := List.mem_singleton.mp h
    trivial

/-- The parser before the end of the message: no stop, and no tokens used. -/
def Untouched (s : StreamState) : Prop :=
  s.stopReason = none ∧ s.stopSequence = none ∧
    (s.accumulatedUsage = {} ∨
      s.accumulatedUsage = { inputTokens := some 0, outputTokens := some 0 })

theorem Untouched.parseEvent {o : OutboundEvent} (hearly : o.IsEarly) {s : StreamState}
    (h : Untouched s) : Untouched (parseEvent o.read s).1 := by
  obtain ⟨hreason, hsequence, husage⟩ := h
  cases o with
  | messageStart message =>
    obtain ⟨id, model, usage⟩ := message
    obtain rfl : usage = {} := hearly
    refine ⟨hreason, hsequence, Or.inr ?_⟩
    show mergeUsage s.accumulatedUsage _ = _
    rcases husage with husage | husage <;> rw [husage] <;> rfl
  | contentBlockStart index contentBlock =>
    refine ⟨?_, ?_, ?_⟩ <;> cases contentBlock with
    | text text =>
      simp only [AnthropicSse.parseEvent, OutboundEvent.read, ContentBlockStartPayload.read,
        startBlock]
      split <;> assumption
    | thinking thinking =>
      simp only [AnthropicSse.parseEvent, OutboundEvent.read, ContentBlockStartPayload.read,
        startBlock]
      split <;> assumption
    | _ => assumption
  | contentBlockDelta index delta => cases delta <;> exact ⟨hreason, hsequence, husage⟩
  | contentBlockStop index =>
    simp only [AnthropicSse.parseEvent, OutboundEvent.read, AnthropicSse.stopBlock]
    split <;> exact ⟨hreason, hsequence, husage⟩
  | messageDelta delta usage => cases hearly
  | messageStop => cases hearly
  | _ => exact ⟨hreason, hsequence, husage⟩

theorem stops_parseEvent {o : OutboundEvent} (hearly : o.IsEarly) (s : StreamState) :
    stops (parseEvent o.read s).2 = [] := by
  cases o with
  | contentBlockStart index contentBlock =>
    cases contentBlock with
    | text text =>
      simp only [parseEvent, OutboundEvent.read, ContentBlockStartPayload.read, startBlock]
      split <;> rfl
    | thinking thinking =>
      simp only [parseEvent, OutboundEvent.read, ContentBlockStartPayload.read, startBlock]
      split <;> rfl
    | _ => rfl
  | contentBlockDelta index delta => cases delta <;> rfl
  | contentBlockStop index =>
    simp only [parseEvent, OutboundEvent.read, AnthropicSse.stopBlock]
    split <;> rfl
  | messageDelta delta usage => cases hearly
  | messageStop => cases hearly
  | _ => rfl

theorem stops_eq_flatMap (es : List StreamEvent) :
    stops es = es.flatMap fun e => e.stop.toList :=
  List.filterMap_eq_flatMap_toList _ _

/-- What a whole stream is written and read back as ends with the stop of the message
and the usage the encoder reported. -/
theorem readBack_ends {front : List StreamEvent} {usage : Option Usage} {s : EncoderState}
    {early : List OutboundEvent} {reason : StopReason} {sequence : Option String}
    (hfront : forEach encodeEvent front {} = (s, early))
    (hwire : wire (front ++ [.responseStop usage]) =
      (forEach encodeEvent (front ++ [.responseStop usage]) {}).2)
    (hearly : ∀ e ∈ front, Early e) (hpending : s.pendingStop = some (reason, sequence)) :
    ∃ before, stops before = [] ∧
      (wire (front ++ [.responseStop usage])).filterMap OutboundEvent.finalUsage =
        [(overrideUsage usage s).usage] ∧
      readBack (front ++ [.responseStop usage]) = before ++
        [.usageDelta (mapUsage (overrideUsage usage s).usage.read),
          .messageStop (stopReasonFromAnthropic (stopReasonToAnthropic reason)) sequence,
          .responseStop (some (mapUsage (overrideUsage usage s).usage.read))] := by
  have hall : ∀ o ∈ early, o.IsEarly := by
    intro o ho
    have hmem : o ∈ (forEach encodeEvent front {}).2 := by rwa [hfront]
    obtain ⟨e, he, s', ho⟩ := exists_of_mem_forEach hmem
    exact isEarly_of_mem (hearly e he).noEnd ho
  have hwritten : wire (front ++ [.responseStop usage]) = early ++
      [.messageDelta { stopReason := stopReasonToAnthropic reason, stopSequence := sequence }
          (overrideUsage usage s).usage,
        .messageStop] := by
    rw [hwire, forEach_append, forEach_singleton, andThen_apply, hfront]
    exact congrArg (early ++ ·) (encode_responseStop hpending usage)
  obtain ⟨t, before⟩ : ∃ t, t = forEach (fun o => parseEvent o.read) early {} := ⟨_, rfl⟩
  have huntouched : Untouched t.1 := by
    rw [before]
    exact forEach_keeps (fun o ho s hs => hs.parseEvent (hall o ho))
      ⟨rfl, rfl, Or.inl rfl⟩
  refine ⟨t.2, ?_, ?_, ?_⟩
  · have hnone : ∀ o ∈ early, ∀ s, (parseEvent o.read s).2.flatMap (fun e => e.stop.toList) =
        [] := by
      intro o ho s
      rw [← stops_eq_flatMap]
      exact stops_parseEvent (hall o ho) s
    rw [before, stops_eq_flatMap, flatMap_forEach hnone]
    exact List.flatMap_eq_nil_iff.mpr fun _ _ => rfl
  · have hnone : early.filterMap OutboundEvent.finalUsage = [] := by
      refine List.filterMap_eq_nil_iff.mpr fun o ho => ?_
      have ho := hall o ho
      cases o <;> first | rfl | cases ho
    rw [hwritten, List.filterMap_append, hnone]
    rfl
  · obtain ⟨hreason, hsequence, husage⟩ := huntouched
    have hmerged : ∀ u : OutboundUsage,
        mergeUsage t.1.accumulatedUsage (mapUsage u.read) = mapUsage u.read := by
      rintro ⟨input, output, creation, cached⟩
      rcases husage with husage | husage <;> rw [husage] <;> cases creation <;> cases cached <;>
        simp [mergeUsage, mapUsage, OutboundUsage.read, mergeCount]
    have hsequence' : sequence.or t.1.stopSequence = sequence := by
      rw [hsequence, Option.or_none]
    rw [readBack_eq, hwritten, forEach_append, andThen_apply, ← before]
    refine congrArg (t.2 ++ ·) ?_
    show [StreamEvent.usageDelta _, .messageStop _ (sequence.or t.1.stopSequence),
      .responseStop (some (mergeUsage t.1.accumulatedUsage _))] = _
    rw [hsequence', hmerged]
    rfl

theorem stopReason_round_trip {reason : StopReason} (h : ∀ text, reason ≠ .other text) :
    stopReasonFromAnthropic (stopReasonToAnthropic reason) = reason := by
  cases reason with
  | other text => exact absurd rfl (h text)
  | _ => rfl

/-- A lifecycle-valid stream without errors, with blocks of the kinds of the wire, whose
tool blocks are called once before their arguments and whose stop reason the wire has, is
read back with its blocks under their indices, a tool block in the place of its call, its
stop, and the usage that was reported. -/
theorem anthropic_round_trip {es : List StreamEvent} (hvalid : LifecycleValid es)
    (herrors : ∀ e ∈ es, e.isError = false) (hkinds : ∀ e ∈ es, HasWireKind e)
    (hcalled : CalledOnce es) (hreason : ∀ stop ∈ stops es, ∀ text, stop.1 ≠ .other text) :
    LifecycleValid (readBack es) ∧ blocks (readBack es) = announcedBlocks es ∧
      (announcedBlocks es).Perm (blocks es) ∧ stops (readBack es) = stops es ∧
      ∃ reported, (wire es).filterMap OutboundEvent.finalUsage = [reported] ∧
        (readBack es).getLast? = some (.responseStop (some (mapUsage reported.read))) := by
  obtain ⟨front, usage, m, rfl, hexec, hstop, hclosed, hnoEnd⟩ :=
    hvalid.split (hvalid.getLast herrors)
  have hfront : ∀ e ∈ front, e ∈ front ++ [.responseStop usage] := fun e he =>
    List.mem_append_left _ he
  have hearly : ∀ e ∈ front, Early e := fun e he =>
    ⟨herrors e (hfront e he), hnoEnd e he, hkinds e (hfront e he)⟩
  have hwire := wire_eq (.responseStop usage) hnoEnd
  obtain ⟨m', hm', -⟩ := lifecycleValid_iff.mp hvalid
  have hfits := callFits_of_calledOnce hm' hcalled
  have hfitsFront := (throughout_append_singleton.mp hfits).1
  obtain ⟨⟨reason, sequence⟩, hone⟩ := stops_of_stopped hexec hstop
  have hstops : stops (front ++ [.responseStop usage]) = [(reason, sequence)] :=
    (stops_of_unstopped rfl).trans hone
  obtain ⟨u, -, hserves⟩ := accepts_front hexec hfitsFront hearly {} {} serves_init
  have hpending : (forEach encodeEvent front {}).1.pendingStop = some (reason, sequence) := by
    rw [hserves.pending, hone]
    rfl
  obtain ⟨before, hbefore, hreported, hread⟩ := readBack_ends rfl hwire hearly hpending
  refine ⟨lifecycleValid_readBack hwire hexec hstop hclosed hfitsFront hearly, ?_,
    announcedBlocks_perm hm' hcalled, ?_, _, hreported, ?_⟩
  · rw [blocks, parts_readBack hwire hkinds, announcedBlocks]
  · have hback := stopReason_round_trip (hreason (reason, sequence) (by rw [hstops]; simp))
    rw [hread, stops, List.filterMap_append, ← stops, hbefore, hstops, List.nil_append, hback]
    rfl
  · rw [hread]
    simp

/-- Text and a tool call, one after the other. -/
def searching : List StreamEvent :=
  [.responseStart "msg_1" "claude" 0, .messageStart .assistant, .contentBlockStart 0 .text,
    .textDelta 0 "Let me look.", .contentBlockStop 0, .contentBlockStart 1 .toolCall,
    .toolCallStart 1 "toolu_1" "search", .toolCallArgumentsDelta 1 "{}", .toolCallStop 1,
    .contentBlockStop 1, .usageDelta { outputTokens := some 7 }, .messageStop .toolUse none,
    .responseStop (some { inputTokens := some 3 })]

/-- It is read back as it was. -/
theorem searching_round_trip :
    LifecycleValid (readBack searching) ∧ blocks (readBack searching) = announcedBlocks searching ∧
      (announcedBlocks searching).Perm (blocks searching) ∧
      stops (readBack searching) = stops searching ∧
      ∃ reported, (wire searching).filterMap OutboundEvent.finalUsage = [reported] ∧
        (readBack searching).getLast? = some (.responseStop (some (mapUsage reported.read))) :=
  anthropic_round_trip (by decide) (by decide) (by decide) (by decide)
    (by simp [searching, stops, StreamEvent.stop])

/-- A tool block that is called while the text after it is open. -/
def lateCall : List StreamEvent :=
  [.responseStart "msg_1" "claude" 0, .messageStart .assistant, .contentBlockStart 0 .toolCall,
    .contentBlockStart 1 .text, .textDelta 1 "Let me look.", .toolCallStart 0 "toolu_1" "search",
    .toolCallStop 0, .contentBlockStop 0, .contentBlockStop 1, .messageStop .toolUse none,
    .responseStop none]

/-- It is read back with the text first. -/
theorem lateCall_reordered :
    LifecycleValid lateCall ∧ (∀ e ∈ lateCall, e.isError = false) ∧
      (∀ e ∈ lateCall, HasWireKind e) ∧ CalledOnce lateCall ∧
      stops lateCall = [(.toolUse, none)] ∧ blocks (readBack lateCall) ≠ blocks lateCall := by
  refine ⟨by decide, by decide, by decide, by decide, rfl, fun h => ?_⟩
  exact absurd (congrArg (List.map Block.index) h) (by decide)

end AnthropicMessages

end AgentShim
