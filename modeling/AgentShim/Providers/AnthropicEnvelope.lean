import AgentShim.Providers.AnthropicSse
import AgentShim.Stream.Lifecycle
import Mathlib.Data.List.AList

/-
  The envelope of the Anthropic stream parser

  An upstream that keeps the Anthropic stream protocol makes the parser put out
  the canonical events in order, and the parser owes the end of the envelope to
  the upstream's own `message_stop`: a stream cut before it stays open, where the
  other parsers close theirs when the source ends.

  What is proved:
    1. `accepts_parseEvent` — an event of the protocol keeps the upstream, the
       parser and the envelope in agreement.
    2. `anthropic_envelope_iff` — a cut stream closes its envelope iff the cut
       holds the `message_stop`.
    3. `midBlock_not_closed` — a stream cut in its first block does not.
-/

namespace AgentShim

namespace AnthropicSse

open Transducer ChatWire

/-! ## The protocol -/

def IncomingContentBlockStart.kind : IncomingContentBlockStart → ContentBlockKind
  | text _ => .text
  | toolUse _ _ => .toolCall
  | thinking _ => .reasoning
  | redactedThinking => .redactedReasoning

/-- The kind of block a delta belongs to. -/
def IncomingContentBlockDelta.kind : IncomingContentBlockDelta → ContentBlockKind
  | textDelta _ => .text
  | inputJsonDelta _ => .toolCall
  | thinkingDelta _ | signatureDelta => .reasoning

/-- Where an upstream is in the protocol. -/
structure Upstream where
  begun : Bool := false
  ended : Bool := false
  openBlocks : AList fun _ : Nat => ContentBlockKind := ∅
  used : List Nat := []

namespace Upstream

/-- The events the protocol allows next: one message, in it blocks under indices of
their own with deltas of their kind, and its stop when every block is stopped; pings
and errors anywhere. -/
def Allows (u : Upstream) : IncomingEvent → Prop
  | .messageStart _ => u.begun = false
  | .contentBlockStart index _ => u.begun = true ∧ u.ended = false ∧ index ∉ u.used
  | .contentBlockDelta index delta =>
    u.ended = false ∧ u.openBlocks.lookup index = some delta.kind
  | .contentBlockStop index => u.ended = false ∧ u.openBlocks.lookup index ≠ none
  | .messageDelta _ _ => u.begun = true ∧ u.ended = false
  | .messageStop => u.begun = true ∧ u.ended = false ∧ u.openBlocks.entries = []
  | .ping | .error _ => True

instance (u : Upstream) : (e : IncomingEvent) → Decidable (u.Allows e)
  | .messageStart _ => inferInstanceAs (Decidable (_ = _))
  | .contentBlockStart _ _ => inferInstanceAs (Decidable (_ ∧ _))
  | .contentBlockDelta _ _ => inferInstanceAs (Decidable (_ ∧ _))
  | .contentBlockStop _ => inferInstanceAs (Decidable (_ ∧ _))
  | .messageDelta _ _ => inferInstanceAs (Decidable (_ ∧ _))
  | .messageStop => inferInstanceAs (Decidable (_ ∧ _))
  | .ping | .error _ => isTrue trivial

def after (u : Upstream) : IncomingEvent → Upstream
  | .messageStart _ => { u with begun := true }
  | .contentBlockStart index contentBlock =>
    { u with openBlocks := u.openBlocks.insert index contentBlock.kind, used := index :: u.used }
  | .contentBlockStop index => { u with openBlocks := u.openBlocks.erase index }
  | .messageStop => { u with ended := true }
  | .contentBlockDelta _ _ | .messageDelta _ _ | .ping | .error _ => u

def step (u : Upstream) (e : IncomingEvent) : Option Upstream :=
  if u.Allows e then some (u.after e) else none

theorem step_eq_some {u u' : Upstream} {e : IncomingEvent} :
    u.step e = some u' ↔ u.Allows e ∧ u.after e = u' := by
  unfold step
  split <;> simp_all

end Upstream

/-- A whole stream of the protocol. -/
def WellFormed (wire : List IncomingEvent) : Prop :=
  ∃ u, Runs.exec Upstream.step {} wire = some u ∧ u.ended = true

/-! ## The parser along the protocol -/

/-- The phase of a block index. -/
def Upstream.phase (u : Upstream) (i : Nat) : BlockPhase :=
  match u.openBlocks.lookup i with
  | some .toolCall => .called
  | some kind => .opened kind
  | none => if i ∈ u.used then .closed else .fresh

/-- The parser and the envelope when the upstream is at `u`. -/
structure Agrees (u : Upstream) (s : StreamState) (m : Envelope) : Prop where
  started : m.started = u.begun
  greeted : m.greeted = u.begun
  stopped : m.stopped = u.ended
  concluded : m.concluded = u.ended
  block : ∀ i, m.block i = u.phase i
  tools : ∀ i, i ∈ s.openToolIndices ↔ u.openBlocks.lookup i = some .toolCall
  used : ∀ i, u.openBlocks.lookup i ≠ none → i ∈ u.used
  begun_of_ended : u.ended = true → u.begun = true
  settled : u.ended = true → ∀ i, u.openBlocks.lookup i = none

variable {u : Upstream}

theorem accepts_parseUsage (usage : Option IncomingUsage) (hbegun : u.begun = true)
    (hrunning : u.ended = false) :
    Accepts (Envelope.step true) (Agrees u) (parseUsage usage) (Agrees u) := by
  intro s m h
  cases usage with
  | none => exact ⟨m, rfl, h⟩
  | some usage =>
    exact ⟨m, Envelope.exec_singleton_iff.mpr
      ⟨⟨h.started.trans hbegun, h.concluded.trans hrunning⟩, rfl⟩, { h with }⟩

theorem Agrees.running_of_new {s : StreamState} {m : Envelope} (h : Agrees u s m)
    (hnew : u.begun = false) : u.ended = false := by
  refine Bool.eq_false_iff.mpr fun hended => ?_
  rw [h.begun_of_ended hended] at hnew
  cases hnew

theorem accepts_startMessage (message : IncomingMessageStart) (hnew : u.begun = false)
    (hrunning : u.ended = false) :
    Accepts (Envelope.step true) (Agrees u) (startMessage message)
      (Agrees (u.after (.messageStart message))) := by
  have hopen : Accepts (Envelope.step true) (Agrees u)
      (andThen (emit (.responseStart message.id message.model 0))
        (emit (.messageStart .assistant))) (Agrees { u with begun := true }) := by
    intro s m h
    refine ⟨{ m with started := true, greeted := true }, ?_, ?_⟩
    · refine Envelope.exec_cons_iff.mpr ⟨h.started.trans hnew, ?_⟩
      exact Envelope.exec_singleton_iff.mpr
        ⟨⟨rfl, h.greeted.trans hnew, h.stopped.trans hrunning⟩, rfl⟩
    · exact { h with started := rfl, greeted := rfl, begun_of_ended := fun _ => rfl }
  have hrun : startMessage message =
      andThen (andThen (emit (.responseStart message.id message.model 0))
        (emit (.messageStart .assistant))) (parseUsage message.usage) := by
    simp only [startMessage, inOrder_cons, inOrder_nil, andThen_skip, andThen_assoc]
  rw [hrun]
  exact hopen.andThen
    (accepts_parseUsage (u := { u with begun := true }) message.usage rfl hrunning)

theorem Upstream.phase_start {index : Nat} {contentBlock : IncomingContentBlockStart} (i : Nat) :
    (u.after (.contentBlockStart index contentBlock)).phase i =
      if i = index then
        (if contentBlock.kind = .toolCall then .called else .opened contentBlock.kind)
      else u.phase i := by
  unfold phase after
  by_cases hi : i = index
  · subst hi
    rw [AList.lookup_insert]
    cases contentBlock <;> simp [IncomingContentBlockStart.kind]
  · rw [AList.lookup_insert_ne hi]
    simp [hi]

theorem Upstream.phase_stop {index : Nat} (hused : index ∈ u.used) (i : Nat) :
    (u.after (.contentBlockStop index)).phase i =
      if i = index then .closed else u.phase i := by
  unfold phase after
  by_cases hi : i = index
  · subst hi
    rw [AList.lookup_erase]
    simp [hused]
  · rw [AList.lookup_erase_ne hi]
    simp [hi]

theorem Agrees.fresh {s : StreamState} {m : Envelope} (h : Agrees u s m) {index : Nat}
    (hnew : index ∉ u.used) : m.block index = .fresh := by
  have hnone : u.openBlocks.lookup index = none := by
    by_contra hne
    exact hnew (h.used index hne)
  rw [h.block, Upstream.phase, hnone]
  exact if_neg hnew

theorem Agrees.started_block {s : StreamState} {m : Envelope} (h : Agrees u s m) {index : Nat}
    (contentBlock : IncomingContentBlockStart) (hrunning : u.ended = false)
    (hnew : index ∉ u.used) {tools : Finset Nat}
    (htools : ∀ i, i ∈ tools ↔
      if i = index then contentBlock.kind = .toolCall else i ∈ s.openToolIndices) :
    Agrees (u.after (.contentBlockStart index contentBlock)) { s with openToolIndices := tools }
      (m.setBlock index
        (if contentBlock.kind = .toolCall then .called else .opened contentBlock.kind)) :=
  { h with
    block := fun i => by rw [Envelope.setBlock_block, Upstream.phase_start, h.block]
    tools := fun i => by
      rw [htools, Upstream.after]
      by_cases hi : i = index
      · subst hi
        simp
      · rw [AList.lookup_insert_ne hi, if_neg hi, h.tools]
    used := fun i hne => by
      by_cases hi : i = index
      · exact hi ▸ List.mem_cons_self
      · rw [Upstream.after, AList.lookup_insert_ne hi] at hne
        exact List.mem_cons_of_mem index (h.used i hne)
    settled := fun hended => absurd (hrunning.symm.trans hended) Bool.false_ne_true }

/-- A text or thinking block may start with some of its text. -/
theorem accepts_startPlain {index : Nat} (contentBlock : IncomingContentBlockStart)
    (text : String) (delta : StreamEvent) (hbegun : u.begun = true) (hrunning : u.ended = false)
    (hnew : index ∉ u.used) (hkind : contentBlock.kind ≠ .toolCall)
    (hdelta : ∀ m : Envelope, m.stopped = false → m.block index = .opened contentBlock.kind →
      m.Allows true delta ∧ m.after delta = m) :
    Accepts (Envelope.step true) (Agrees u)
      (andThen (emit (.contentBlockStart index contentBlock.kind))
        (if text = "" then skip else emit delta))
      (Agrees (u.after (.contentBlockStart index contentBlock))) := by
  have hopen : Accepts (Envelope.step true) (Agrees u)
      (emit (.contentBlockStart index contentBlock.kind))
      fun s m => Agrees (u.after (.contentBlockStart index contentBlock)) s m ∧
        m.block index = .opened contentBlock.kind := by
    refine Envelope.accepts_emit fun s m h => ⟨⟨?_, ?_, h.fresh hnew⟩, ?_, ?_⟩
    · exact h.greeted.trans hbegun
    · exact h.stopped.trans hrunning
    · have hnone : index ∉ s.openToolIndices := fun hmem =>
        hnew (h.used index (by rw [(h.tools index).mp hmem]; exact Option.some_ne_none _))
      have htools : ∀ i, i ∈ s.openToolIndices ↔
          if i = index then contentBlock.kind = .toolCall else i ∈ s.openToolIndices := by
        intro i
        by_cases hi : i = index
        · subst hi
          simp [hkind, hnone]
        · simp [hi]
      have hstart := h.started_block contentBlock hrunning hnew htools
      rwa [if_neg hkind] at hstart
    · exact Envelope.setBlock_block_self _ _ _
  refine hopen.andThen ?_
  split
  · exact accepts_skip.mono (fun _ _ h => h) fun _ _ h => h.1
  · refine Envelope.accepts_emit fun s m h => ?_
    obtain ⟨hallow, hsame⟩ := hdelta m (h.1.stopped.trans hrunning) h.2
    rw [hsame]
    exact ⟨hallow, h.1⟩

theorem accepts_startTool {index : Nat} {id name : String} (hbegun : u.begun = true)
    (hrunning : u.ended = false) (hnew : index ∉ u.used) :
    Accepts (Envelope.step true) (Agrees u) (startBlock index (.toolUse id name))
      (Agrees (u.after (.contentBlockStart index (.toolUse id name)))) := by
  intro s m h
  have hstop : m.stopped = false := h.stopped.trans hrunning
  refine ⟨m.setBlock index .called, ?_, ?_⟩
  · refine Envelope.exec_cons_iff.mpr ⟨⟨h.greeted.trans hbegun, hstop, h.fresh hnew⟩, ?_⟩
    refine Envelope.exec_singleton_iff.mpr ⟨⟨hstop, ?_⟩, ?_⟩
    · rw [Envelope.after, Envelope.setBlock_block_self]
      rfl
    · simp only [Envelope.after, Envelope.setBlock_block_self, Envelope.setBlock_setBlock]
      rfl
  · refine h.started_block (.toolUse id name) hrunning hnew fun i => ?_
    by_cases hi : i = index
    · simp [hi, IncomingContentBlockStart.kind]
    · simp [hi]

theorem accepts_startBlock {index : Nat} (contentBlock : IncomingContentBlockStart)
    (hbegun : u.begun = true) (hrunning : u.ended = false) (hnew : index ∉ u.used) :
    Accepts (Envelope.step true) (Agrees u) (startBlock index contentBlock)
      (Agrees (u.after (.contentBlockStart index contentBlock))) := by
  cases contentBlock with
  | text text =>
    exact accepts_startPlain (.text text) text (.textDelta index text) hbegun hrunning hnew nofun
      fun m hstop hblock => ⟨⟨hstop, hblock⟩, rfl⟩
  | toolUse id name => exact accepts_startTool hbegun hrunning hnew
  | thinking thinking =>
    exact accepts_startPlain (.thinking thinking) thinking (.reasoningDelta index thinking) hbegun
      hrunning hnew nofun fun m hstop hblock => ⟨⟨hstop, hblock⟩, rfl⟩
  | redactedThinking =>
    -- it has no text to start with
    exact accepts_startPlain .redactedThinking "" (.error "") hbegun hrunning hnew nofun
      fun m _ _ => ⟨trivial, rfl⟩

theorem accepts_parseDelta {index : Nat} (delta : IncomingContentBlockDelta)
    (hrunning : u.ended = false) (hopen : u.openBlocks.lookup index = some delta.kind) :
    Accepts (Envelope.step true) (Agrees u) (parseDelta index delta) (Agrees u) := by
  cases delta with
  | signatureDelta => exact accepts_skip
  | _ =>
    refine Envelope.accepts_emit fun s m h => ⟨⟨h.stopped.trans hrunning, ?_⟩, h⟩
    rw [h.block, Upstream.phase, hopen]
    rfl

theorem Agrees.stopped_block {s : StreamState} {m : Envelope} (h : Agrees u s m) {index : Nat}
    (hrunning : u.ended = false) (hopen : u.openBlocks.lookup index ≠ none) {tools : Finset Nat}
    (htools : ∀ i, i ∈ tools ↔ i ≠ index ∧ i ∈ s.openToolIndices) :
    Agrees (u.after (.contentBlockStop index)) { s with openToolIndices := tools }
      (m.setBlock index .closed) :=
  { h with
    block := fun i => by
      rw [Envelope.setBlock_block, Upstream.phase_stop (h.used index hopen), h.block]
    tools := fun i => by
      rw [htools, Upstream.after]
      by_cases hi : i = index
      · subst hi
        simp
      · rw [AList.lookup_erase_ne hi, h.tools]
        simp [hi]
    used := fun i hne => by
      by_cases hi : i = index
      · exact hi ▸ h.used index hopen
      · rw [Upstream.after, AList.lookup_erase_ne hi] at hne
        exact h.used i hne
    settled := fun hended => absurd (hrunning.symm.trans hended) Bool.false_ne_true }

theorem accepts_stopBlock {index : Nat} (hrunning : u.ended = false)
    (hopen : u.openBlocks.lookup index ≠ none) :
    Accepts (Envelope.step true) (Agrees u) (stopBlock index)
      (Agrees (u.after (.contentBlockStop index))) := by
  intro s m h
  have hstop : m.stopped = false := h.stopped.trans hrunning
  obtain ⟨kind, hkind⟩ := Option.ne_none_iff_exists'.mp hopen
  have hphase : m.block index = if kind = .toolCall then .called else .opened kind := by
    rw [h.block, Upstream.phase, hkind]
    cases kind <;> rfl
  unfold stopBlock
  split
  · -- the stop of a tool block is announced first
    rename_i hmem
    have htool : kind = .toolCall := Option.some.inj (hkind.symm.trans ((h.tools index).mp hmem))
    rw [if_pos htool] at hphase
    have htakes : (m.block index).takesStop true = true := by rw [hphase]; rfl
    exact ⟨m.setBlock index .closed, Envelope.exec_stopTool hstop htakes [],
      h.stopped_block hrunning hopen fun i => Finset.mem_erase⟩
  · rename_i hmem
    have htool : kind ≠ .toolCall := fun he => hmem ((h.tools index).mpr (he ▸ hkind))
    rw [if_neg htool] at hphase
    refine ⟨m.setBlock index .closed, ?_, ?_⟩
    · refine Envelope.exec_singleton_iff.mpr ⟨⟨hstop, ?_⟩, rfl⟩
      rw [hphase]
      cases kind <;> first | rfl | exact absurd rfl htool
    · refine h.stopped_block hrunning hopen fun i => ⟨fun hi => ⟨?_, hi⟩, And.right⟩
      rintro rfl
      exact hmem hi

theorem accepts_stopMessage (hbegun : u.begun = true) (hrunning : u.ended = false)
    (hsettled : u.openBlocks.entries = []) :
    Accepts (Envelope.step true) (Agrees u) stopMessage (Agrees (u.after .messageStop)) := by
  intro s m h
  refine ⟨{ m with stopped := true, concluded := true }, ?_, ?_⟩
  · refine Envelope.exec_cons_iff.mpr
      ⟨⟨h.started.trans hbegun, h.stopped.trans hrunning⟩, ?_⟩
    exact Envelope.exec_singleton_iff.mpr ⟨⟨rfl, h.concluded.trans hrunning⟩, rfl⟩
  · have hempty : u.openBlocks = ∅ := AList.ext hsettled
    exact { h with
      stopped := rfl
      concluded := rfl
      begun_of_ended := fun _ => hbegun
      settled := fun _ i => by rw [Upstream.after, hempty, AList.lookup_empty] }

/-- An event of the protocol keeps the upstream, the parser and the envelope in
agreement. -/
theorem accepts_parseEvent {e : IncomingEvent} (hallow : u.Allows e) :
    Accepts (Envelope.step true) (Agrees u) (parseEvent e) (Agrees (u.after e)) := by
  cases e with
  | messageStart message =>
    intro s m h
    exact accepts_startMessage message hallow (h.running_of_new hallow) s m h
  | contentBlockStart index contentBlock =>
    exact accepts_startBlock contentBlock hallow.1 hallow.2.1 hallow.2.2
  | contentBlockDelta index delta => exact accepts_parseDelta delta hallow.1 hallow.2
  | contentBlockStop index => exact accepts_stopBlock hallow.1 hallow.2
  | messageDelta delta usage =>
    have hnote : Accepts (Envelope.step true) (Agrees u)
        (update fun s =>
          { s with
            stopReason := (delta.stopReason.map stopReasonFromAnthropic).or s.stopReason
            stopSequence := delta.stopSequence.or s.stopSequence }) (Agrees u) :=
      fun _ m h => ⟨m, rfl, { h with }⟩
    exact hnote.andThen (accepts_parseUsage usage hallow.1 hallow.2)
  | messageStop => exact accepts_stopMessage hallow.1 hallow.2.1 hallow.2.2
  | ping => exact accepts_skip
  | error error => exact Envelope.accepts_emit fun s m h => ⟨trivial, h⟩

/-! ## Cut streams -/

theorem agrees_init : Agrees {} {} {} :=
  { started := rfl, greeted := rfl, stopped := rfl, concluded := rfl, block := fun _ => rfl,
    tools := fun i => by simp [AList.lookup_empty], used := fun i h => absurd rfl h,
    begun_of_ended := nofun, settled := nofun }

/-- The protocol is kept up to any cut. -/
theorem WellFormed.cut {wire cut : List IncomingEvent} (h : WellFormed wire)
    (hcut : cut <+: wire) : ∃ u, Runs.exec Upstream.step {} cut = some u := by
  obtain ⟨rest, rfl⟩ := hcut
  obtain ⟨u, hexec, -⟩ := h
  obtain ⟨u', hfront, -⟩ := Runs.exec_append_eq_some.mp hexec
  exact ⟨u', hfront⟩

theorem accepts_wire {u' : Upstream} {wire : List IncomingEvent}
    (h : Runs.exec Upstream.step u wire = some u') :
    Accepts (Envelope.step true) (Agrees u) (forEach parseEvent wire) (Agrees u') := by
  induction wire generalizing u with
  | nil =>
    cases h
    exact accepts_skip
  | cons e wire ih =>
    obtain ⟨u₁, hstep, hrest⟩ := Runs.exec_cons_eq_some.mp h
    obtain ⟨hallow, rfl⟩ := Upstream.step_eq_some.mp hstep
    exact (accepts_parseEvent hallow).andThen (ih hrest)

/-- The message was stopped iff its stop was read. -/
theorem ended_iff_mem {wire : List IncomingEvent} (h : Runs.exec Upstream.step {} wire = some u) :
    u.ended = true ↔ .messageStop ∈ wire := by
  refine Runs.exec_history (I := fun wire u => u.ended = true ↔ .messageStop ∈ wire) ?_
    (fun pre e m m' hpre hstep => ?_) h
  · simp
  · obtain ⟨-, rfl⟩ := Upstream.step_eq_some.mp hstep
    cases e <;> simp_all [Upstream.after]

/-- Once the message was stopped the envelope is closed. -/
theorem Agrees.closed {s : StreamState} {m : Envelope} (h : Agrees u s m)
    (hended : u.ended = true) : m.Closed := by
  refine ⟨h.concluded.trans hended, fun i => ?_⟩
  rw [h.block, Upstream.phase, h.settled hended i]
  by_cases hi : i ∈ u.used <;> simp [hi, BlockPhase.isOpen]

/-- A stream of the protocol that is cut closes its envelope iff the message was
stopped before the cut. -/
theorem anthropic_envelope_iff {wire cut : List IncomingEvent} (hwire : WellFormed wire)
    (hcut : cut <+: wire) (cause : Option String) :
    EnvelopeClosed (events cut cause) ↔ .messageStop ∈ cut := by
  obtain ⟨u, hexec⟩ := hwire.cut hcut
  obtain ⟨m, hm, hagrees⟩ := accepts_wire hexec {} {} agrees_init
  rw [events_eq, Envelope.envelopeClosed_iff hm, ← ended_iff_mem hexec]
  constructor
  · intro hclosed
    exact hagrees.concluded.symm.trans hclosed.1
  · exact hagrees.closed

/-- One text block, and the end. -/
def helloWire : List IncomingEvent :=
  [.messageStart { id := "msg_1", model := "claude" }, .contentBlockStart 0 (.text ""),
    .contentBlockDelta 0 (.textDelta "Hello"), .contentBlockStop 0,
    .messageDelta { stopReason := some "end_turn" } none, .messageStop]

theorem helloWire_wellFormed : WellFormed helloWire := ⟨_, rfl, rfl⟩

/-- Read to its end it closes its envelope. -/
theorem helloWire_closed : EnvelopeClosed (events helloWire none) :=
  (anthropic_envelope_iff helloWire_wellFormed List.prefix_rfl none).mpr (by simp [helloWire])

/-- The same stream, with the connection lost inside the block. -/
theorem midBlock_not_closed :
    WellFormed helloWire ∧ helloWire.take 3 <+: helloWire ∧
      .messageStart { id := "msg_1", model := "claude" } ∈ helloWire.take 3 ∧
        ¬ EnvelopeClosed (events (helloWire.take 3) (some "connection reset")) := by
  refine ⟨helloWire_wellFormed, List.take_prefix 3 helloWire, List.mem_cons_self, fun h => ?_⟩
  exact absurd h.responseStop (by decide)

end AnthropicSse

end AgentShim
