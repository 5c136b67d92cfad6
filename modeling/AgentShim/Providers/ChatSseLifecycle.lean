import AgentShim.Providers.ChatEnding
import AgentShim.Providers.ChatSse
import AgentShim.Stream.Lifecycle

/-
  The lifecycle of the Chat Completions stream parser

  Which chunk sequences the parser turns into a lifecycle-valid stream. The
  condition is on the fragments of the chunks alone: what an upstream may send
  after what it has sent already.

  What is proved:
    1. `accepts_apply` — an admitted fragment keeps the parser and the envelope
       where the fragments read so far put them.
    2. `within_apply` — any other fragment is refused, or stops a message that
       was never opened, which the closing steps then open too late.
    3. `chat_lifecycle_iff` — the events of a run are lifecycle-valid, tool calls
       in order, iff every fragment is admitted after the ones before it and
       something was read.
    4. `textResumed_not_valid` — text, a tool call and text again is not.
-/

namespace AgentShim

namespace ChatSse

open Transducer ChatWire

/-- The block a tool call fragment with an id names. -/
def names : Fragment Unit → Option Nat
  | .toolCall index (some _) _ => some index
  | _ => none

/-- Text, and tool calls after it. -/
def textThenTools : List (Fragment Unit) → Bool
  | [] => false
  | f :: fs => (f.isContent && fs.any Fragment.isToolCalls) || textThenTools fs

/-- What matters of the fragments read so far. -/
structure Seen where
  begun : Bool
  opened : Bool
  wrote : Bool
  textDone : Bool
  ended : Bool
  named : List Nat

def seen (past : List (Fragment Unit)) : Seen :=
  { begun := past.any Fragment.isChunk
    opened := past.any Fragment.opens
    wrote := past.any Fragment.isContent
    textDone := textThenTools past
    ended := past.any Fragment.isFinish
    named := past.filterMap names }

/-- The fragments an upstream may send next: no text after a finish, after tool
calls that followed text, or beside a tool block at index 0; a tool call is named
once, before the finish, and not at index 0 beside text; arguments follow the
name; a finish follows something that opened the message. -/
def Seen.Admits (S : Seen) : Fragment Unit → Prop
  | .content _ _ => S.ended = false ∧ S.textDone = false ∧ 0 ∉ S.named
  | .toolCall index call arguments =>
    (call.isSome = true → S.ended = false ∧ index ∉ S.named ∧ (index = 0 → S.wrote = false)) ∧
      (arguments ≠ "" → call.isSome = true ∨ S.ended = false ∧ index ∈ S.named)
  | .finish _ => S.opened = true
  | _ => True

instance (S : Seen) : (f : Fragment Unit) → Decidable (S.Admits f)
  | .content _ _ => inferInstanceAs (Decidable (_ ∧ _))
  | .toolCall _ _ _ => inferInstanceAs (Decidable (_ ∧ _))
  | .finish _ => inferInstanceAs (Decidable (_ = _))
  | .chunk _ _ _ | .role | .toolCalls | .usage _ | .error _ => isTrue trivial

/-- Every fragment of the chunks is admitted after the ones before it. -/
def WellOrdered (chunks : List Json) : Prop :=
  Throughout (fun past f => (seen past).Admits f) (chunks.flatMap (fragments dialect))

/-! ## Where the fragments read so far put the parser and the envelope -/

def Seen.add (S : Seen) : Fragment Unit → Seen
  | .chunk _ _ _ => { S with begun := true }
  | .role => { S with opened := true }
  | .content _ _ => { S with opened := true, wrote := true }
  | .toolCalls => { S with opened := true, textDone := S.textDone || S.wrote }
  | .toolCall index (some _) _ => { S with named := S.named ++ [index] }
  | .finish _ => { S with ended := true }
  | .toolCall _ none _ | .usage _ | .error _ => S

theorem textThenTools_concat (past : List (Fragment Unit)) (f : Fragment Unit) :
    textThenTools (past ++ [f]) =
      (textThenTools past || (past.any Fragment.isContent && f.isToolCalls)) := by
  induction past with
  | nil => cases f <;> simp [textThenTools, Fragment.isContent, Fragment.isToolCalls]
  | cons g past ih =>
    simp only [List.cons_append, textThenTools, ih, List.any_append, List.any_cons,
      List.any_nil, Bool.or_false]
    cases g.isContent <;> cases f.isToolCalls <;>
      simp only [Bool.false_and, Bool.true_and, Bool.and_false, Bool.and_true, Bool.false_or,
        Bool.true_or, Bool.or_comm]

theorem seen_concat (past : List (Fragment Unit)) (f : Fragment Unit) :
    seen (past ++ [f]) = (seen past).add f := by
  rw [seen, textThenTools_concat]
  cases f with
  | toolCall index call arguments =>
    cases call <;>
      simp [seen, Seen.add, Fragment.isChunk, Fragment.opens, Fragment.isContent,
        Fragment.isToolCalls, Fragment.isFinish, names]
  | _ =>
    simp [seen, Seen.add, Fragment.isChunk, Fragment.opens, Fragment.isContent,
      Fragment.isToolCalls, Fragment.isFinish, names]

theorem seen_opened_of_wrote {past : List (Fragment Unit)} (h : (seen past).wrote = true) :
    (seen past).opened = true := by
  obtain ⟨f, hf, htext⟩ := List.any_eq_true.mp h
  refine List.any_eq_true.mpr ⟨f, hf, ?_⟩
  cases f <;> first | rfl | cases htext

theorem seen_wrote_of_textDone {past : List (Fragment Unit)} (h : (seen past).textDone = true) :
    (seen past).wrote = true := by
  have hdone : textThenTools past = true := h
  show past.any Fragment.isContent = true
  clear h
  induction past with
  | nil => cases hdone
  | cons f past ih =>
    rw [textThenTools] at hdone
    cases hf : f.isContent <;> simp_all

/-- The phase of a block index. -/
def Seen.phase (S : Seen) (i : Nat) : BlockPhase :=
  if i ∈ S.named then (if S.ended then .closed else .called)
  else if i = 0 ∧ S.wrote = true then
    (if S.textDone || S.ended then .closed else .opened .text)
  else .fresh

/-- The parser and the envelope after the fragments `S` sums up. -/
structure Agrees (S : Seen) (s : ParserState) (m : Envelope) : Prop where
  responseStart : s.emittedResponseStart = S.begun
  messageStart : s.emittedMessageStart = S.opened
  messageStop : s.emittedMessageStop = S.ended
  responseStop : s.emittedResponseStop = false
  textBlock : s.textBlockOpen = (S.wrote && !(S.textDone || S.ended))
  toolBlocks : s.openToolBlocks = if S.ended then [] else S.named
  started : m.started = S.begun
  greeted : m.greeted = S.opened
  stopped : m.stopped = S.ended
  running : m.concluded = false
  block : ∀ i, m.block i = S.phase i
  begun_of_opened : S.opened = true → S.begun = true
  opened_of_ended : S.ended = true → S.opened = true
  named_opened : S.named ≠ [] → S.opened = true
  named_nodup : S.named.Nodup
  zero_named : 0 ∈ S.named → S.wrote = false

variable {S : Seen} {d : DrainOrder}

theorem accepts_startResponse {f : Parse}
    (hskip : ∀ s, s.emittedResponseStart = true → f s = (s, []))
    (hstart : ∀ s, s.emittedResponseStart = false → ∃ id model created id' model',
      f s = ({ s with emittedResponseStart := true, responseId := id', responseModel := model' },
        [.responseStart id model created])) :
    Accepts (Envelope.step true) (Agrees S) f (Agrees { S with begun := true }) := by
  intro s m h
  cases hb : S.begun with
  | true =>
    have hsame : ({ S with begun := true } : Seen) = S := by rw [← hb]
    rw [hsame, hskip s (h.responseStart.trans hb)]
    exact ⟨m, rfl, h⟩
  | false =>
    obtain ⟨id, model, created, id', model', hf⟩ := hstart s (h.responseStart.trans hb)
    rw [hf]
    refine ⟨{ m with started := true }, Envelope.exec_singleton_iff.mpr ⟨?_, rfl⟩, ?_⟩
    · rw [Envelope.Allows, h.started, hb]
    · exact { h with
        responseStart := rfl
        started := rfl
        begun_of_opened := fun _ => rfl }

theorem accepts_ensureMessageStart (hbegun : S.begun = true) :
    Accepts (Envelope.step true) (Agrees S) ensureMessageStart (Agrees (S.add .role)) := by
  intro s m h
  unfold ensureMessageStart
  split
  · rename_i hs
    have hopened : S.opened = true := h.messageStart ▸ hs
    have hadd : S.add .role = S := by
      cases S
      simp_all [Seen.add]
    exact ⟨m, rfl, hadd ▸ h⟩
  · rename_i hs
    have hopened : S.opened = false := by rw [← h.messageStart]; simpa using hs
    have hended : S.ended = false :=
      Bool.eq_false_iff.mpr fun he => by rw [h.opened_of_ended he] at hopened; cases hopened
    refine ⟨_, Envelope.exec_singleton_iff.mpr ⟨⟨?_, ?_, ?_⟩, rfl⟩, ?_⟩
    · rw [h.started, hbegun]
    · rw [h.greeted, hopened]
    · rw [h.stopped, hended]
    · exact { h with
        messageStart := rfl
        greeted := rfl
        begun_of_opened := fun _ => hbegun
        opened_of_ended := fun _ => rfl
        named_opened := fun _ => rfl }

theorem Agrees.phase_zero (hwrote : S.wrote = true) (hnamed : 0 ∉ S.named) :
    S.phase 0 = if S.textDone || S.ended then .closed else .opened .text := by
  simp [Seen.phase, hnamed, hwrote]

theorem accepts_text (text : NonEmptyString) (hopened : S.opened = true) (hended : S.ended = false)
    (hdone : S.textDone = false) (hnamed : 0 ∉ S.named) :
    Accepts (Envelope.step true) (Agrees S)
      (andThen openText (emit (.textDelta 0 text.val))) (Agrees (S.add (.content () text))) := by
  intro s m h
  have hstop : m.stopped = false := by rw [h.stopped, hended]
  have hphase : ∀ i, (S.add (.content () text)).phase i =
      if i = 0 then .opened .text else S.phase i := by
    intro i
    by_cases hi : i = 0
    · subst hi
      simp [Seen.phase, Seen.add, hnamed, hdone, hended]
    · rw [if_neg hi]
      simp only [Seen.phase, Seen.add, hi, false_and]
      rfl
  cases hwrote : S.wrote with
  | true =>
    -- block 0 is open already
    have hopen : s.textBlockOpen = true := by simp [h.textBlock, hwrote, hdone, hended]
    have hzero : m.block 0 = .opened .text := by
      rw [h.block, Agrees.phase_zero hwrote hnamed, hdone, hended]
      rfl
    refine ⟨m, ?_, ?_⟩
    · simp only [andThen, openText, hopen, if_true, emit, List.nil_append]
      exact Envelope.exec_singleton_iff.mpr ⟨⟨hstop, hzero⟩, rfl⟩
    · have hadd : S.add (.content () text) = S := by
        cases S
        simp_all [Seen.add]
      simpa [andThen, openText, hopen, emit, hadd] using h
  | false =>
    have hopen : s.textBlockOpen = false := by simp [h.textBlock, hwrote]
    have hzero : m.block 0 = .fresh := by
      rw [h.block]
      simp [Seen.phase, hnamed, hwrote]
    refine ⟨m.setBlock 0 (.opened .text), ?_, ?_⟩
    · simp only [andThen, openText, hopen, emit]
      refine Envelope.exec_cons_iff.mpr ⟨⟨by rw [h.greeted, hopened], hstop, hzero⟩, ?_⟩
      exact Envelope.exec_singleton_iff.mpr ⟨⟨hstop, Envelope.setBlock_block_self _ _ _⟩, rfl⟩
    · simp only [andThen, openText, hopen, emit]
      exact { h with
        messageStart := by rw [h.messageStart, hopened]; rfl
        textBlock := by simp [Seen.add, hdone, hended]
        greeted := by rw [Envelope.setBlock_greeted, h.greeted, hopened]; rfl
        block := fun i => by rw [Envelope.setBlock_block, hphase, h.block]
        begun_of_opened := fun _ => h.begun_of_opened hopened
        opened_of_ended := fun _ => rfl
        named_opened := fun _ => rfl
        zero_named := fun h0 => absurd h0 hnamed }

/-- Closing the text block, if it is open, settles it. -/
theorem accepts_closeText :
    Accepts (Envelope.step true) (Agrees S) closeText
      (Agrees { S with textDone := S.textDone || S.wrote }) := by
  intro s m h
  unfold closeText
  split
  · rename_i hopen
    rw [h.textBlock] at hopen
    simp only [Bool.and_eq_true, Bool.not_eq_true', Bool.or_eq_false_iff] at hopen
    obtain ⟨hwrote, hdone, hended⟩ := hopen
    have hnamed : 0 ∉ S.named := fun h0 => by
      rw [h.zero_named h0] at hwrote
      cases hwrote
    have hzero : m.block 0 = .opened .text := by
      rw [h.block, Agrees.phase_zero hwrote hnamed, hdone, hended]
      rfl
    refine ⟨m.setBlock 0 .closed, Envelope.exec_singleton_iff.mpr ⟨⟨?_, ?_⟩, rfl⟩, ?_⟩
    · rw [h.stopped, hended]
    · rw [hzero]
      rfl
    · refine { h with textBlock := by simp [hwrote], block := fun i => ?_ }
      rw [Envelope.setBlock_block, h.block]
      by_cases hi : i = 0
      · subst hi
        simp [Seen.phase, hnamed, hwrote]
      · simp [Seen.phase, hi]
  · -- no text, or text that tool calls or a finish closed
    rename_i hopen
    refine ⟨m, rfl, ?_⟩
    have hclosed := h.textBlock
    rw [Bool.eq_false_iff.mpr hopen] at hclosed
    refine { h with textBlock := ?_, block := fun i => ?_ }
    · rw [Bool.eq_false_iff.mpr hopen]
      cases hw : S.wrote <;> simp
    · rw [h.block]
      cases hw : S.wrote with
      | false => simp [Seen.phase, hw]
      | true =>
        have hdone : (S.textDone || S.ended) = true := by
          cases hd : (S.textDone || S.ended) with
          | true => rfl
          | false =>
            rw [hw, hd] at hclosed
            cases hclosed
        simp only [Seen.phase, hw, and_true, Bool.or_true, Bool.true_or, if_true, hdone]

theorem startTool_eq (index : Nat) (id name : String) :
    startTool index id name = andThen (openTool index) (emit (.toolCallStart index id name)) := by
  rw [startTool, inOrder_cons, inOrder_cons, inOrder_nil, andThen_skip]

theorem accepts_startTool {index : Nat} {id name : String} (arguments : String)
    (hopened : S.opened = true) (hended : S.ended = false) (hnew : index ∉ S.named)
    (hzero : index = 0 → S.wrote = false) :
    Accepts (Envelope.step true) (Agrees S) (startTool index id name)
      (Agrees (S.add (.toolCall index (some (id, name)) arguments))) := by
  intro s m h
  have hstop : m.stopped = false := by rw [h.stopped, hended]
  have htools : s.openToolBlocks = S.named := by rw [h.toolBlocks, hended]; rfl
  have hfresh : m.block index = .fresh := by
    rw [h.block, Seen.phase, if_neg hnew, if_neg]
    rintro ⟨rfl, hw⟩
    rw [hzero rfl] at hw
    cases hw
  rw [startTool_eq]
  refine ⟨(m.setBlock index (.opened .toolCall)).setBlock index .called, ?_, ?_⟩
  · simp only [andThen, openTool, htools, hnew, if_false, emit]
    refine Envelope.exec_cons_iff.mpr ⟨⟨by rw [h.greeted, hopened], hstop, hfresh⟩, ?_⟩
    refine Envelope.exec_singleton_iff.mpr ⟨⟨hstop, ?_⟩, ?_⟩
    · simp [Envelope.after, BlockPhase.takesStart]
    · simp [Envelope.after, BlockPhase.afterStart]
  · simp only [andThen, openTool, htools, hnew, if_false, emit]
    refine { h with
      toolBlocks := by simp [Seen.add, hended]
      block := fun i => ?_
      named_opened := fun _ => hopened
      named_nodup := List.nodup_append.mpr
        ⟨h.named_nodup, by simp, fun a ha b hb hab => ?_⟩
      zero_named := fun h0 => ?_ }
    · rw [Envelope.setBlock_block, Envelope.setBlock_block, h.block]
      by_cases hi : i = index
      · simp [Seen.phase, Seen.add, hi, hended]
      · simp only [Seen.phase, Seen.add, hi, if_false, List.mem_append, List.mem_singleton,
          or_false]
        rfl
    · rw [List.mem_singleton.mp hb] at hab
      exact hnew (hab ▸ ha)
    · rcases List.mem_append.mp h0 with h0 | h0
      · exact h.zero_named h0
      · exact hzero (List.mem_singleton.mp h0).symm

theorem accepts_arguments {index : Nat} {arguments : String}
    (h : arguments ≠ "" → S.ended = false ∧ index ∈ S.named) :
    Accepts (Envelope.step true) (Agrees S) (emitArguments index arguments) (Agrees S) := by
  unfold emitArguments
  split
  · exact accepts_skip
  · rename_i hne
    obtain ⟨hended, hnamed⟩ := h hne
    refine Envelope.accepts_emit fun s m h => ⟨⟨by rw [h.stopped, hended], ?_⟩, h⟩
    rw [h.block, Seen.phase, if_pos hnamed, hended]
    rfl

/-- Once the message is over it does not matter whether tool calls followed the
text. -/
theorem Agrees.of_ended {b : Bool} {s : ParserState} {m : Envelope}
    (h : Agrees { S with textDone := b } s m) (hended : S.ended = true) : Agrees S s m := by
  refine { h with textBlock := ?_, block := fun i => ?_ }
  · have := h.textBlock
    simpa [hended] using this
  · rw [h.block]
    simp [Seen.phase, hended]

theorem accepts_drainAndStop (reason : StopReason) (hopened : S.opened = true)
    (htext : S.wrote = true → (S.textDone || S.ended) = true) :
    Accepts (Envelope.step true) (Agrees S) (andThen (drainTools d) (ensureMessageStop reason))
      (Agrees { S with ended := true }) := by
  intro s m h
  have hclosed : s.textBlockOpen = false := by
    rw [h.textBlock]
    cases hw : S.wrote with
    | false => rfl
    | true => rw [htext hw]; rfl
  cases hended : S.ended with
  | true =>
    -- a second finish finds nothing open and the message stopped
    have htools : d.order [] = [] := List.Perm.eq_nil (d.perm [])
    have hsame : ({ S with ended := true } : Seen) = S := by
      cases S
      simp_all
    refine ⟨m, ?_, ?_⟩
    · simp [andThen, drainTools, h.toolBlocks, hended, htools, Envelope.closeTools,
        ensureMessageStop, h.messageStop]
    · rw [hsame]
      simp only [andThen, drainTools, ensureMessageStop, h.messageStop, hended, if_true]
      exact { h with messageStop := hended.symm, toolBlocks := by rw [hended]; rfl }
  | false =>
    have htools : s.openToolBlocks = S.named := by rw [h.toolBlocks, hended]; rfl
    -- every named tool block is stopped once, whatever the order of the set
    have hperm := d.perm S.named
    have hstop : m.stopped = false := by rw [h.stopped, hended]
    have hcalled : ∀ i ∈ d.order S.named, (m.block i).takesStop true = true := by
      intro i hi
      rw [h.block, Seen.phase, if_pos (hperm.mem_iff.mp hi), hended]
      rfl
    have hstarted : m.started = true := by rw [h.started, h.begun_of_opened hopened]
    refine ⟨{ m.closeAll (d.order S.named) with stopped := true }, ?_, ?_⟩
    · simp only [andThen, drainTools, htools, ensureMessageStop, h.messageStop, hended]
      exact Envelope.exec_closeTools_stop true reason hstarted hstop
        (hperm.nodup_iff.mpr h.named_nodup) hcalled
    · simp only [andThen, drainTools, ensureMessageStop, h.messageStop, hended]
      refine { h with
        messageStop := rfl
        textBlock := by simp [hclosed]
        toolBlocks := rfl
        stopped := rfl
        opened_of_ended := fun _ => hopened
        block := fun i => ?_ }
      simp only [Envelope.closeAll, hperm.mem_iff, h.block, Seen.phase]
      split
      · rfl
      · split
        · rename_i hw
          simp [htext hw.2]
        · rfl

theorem accepts_finishWith (reason : StopReason) (hopened : S.opened = true) :
    Accepts (Envelope.step true) (Agrees S)
      (andThen closeText (andThen (drainTools d) (ensureMessageStop reason)))
      (Agrees { S with ended := true }) := by
  have hdrain := accepts_drainAndStop (S := { S with textDone := S.textDone || S.wrote }) (d := d)
    reason hopened fun hw => by
      show ((S.textDone || S.wrote) || S.ended) = true
      rw [show S.wrote = true from hw, Bool.or_true, Bool.true_or]
  refine accepts_closeText.andThen (hdrain.mono (fun _ _ h => h) fun s m h => ?_)
  exact Agrees.of_ended (S := { S with ended := true }) h rfl

theorem accepts_markCompleted : Accepts (Envelope.step true) (Agrees S) markCompleted (Agrees S) :=
  fun _ m h => ⟨m, rfl, { h with }⟩

/-- An admitted fragment keeps the parser and the envelope in agreement. -/
theorem accepts_apply {past : List (Fragment Unit)} {f : Fragment Unit} (hshape : Shape past f)
    (hok : (seen past).Admits f) :
    Accepts (Envelope.step true) (Agrees (seen past)) (apply d f)
      (Agrees (seen (past ++ [f]))) := by
  rw [seen_concat]
  cases f with
  | chunk id model created =>
    refine accepts_startResponse (fun s hs => by rw [apply, ensureResponseStart, if_pos hs])
      fun s hs => ⟨id, model, created, id, model, ?_⟩
    rw [apply, ensureResponseStart, hs]
    rfl
  | role => exact accepts_ensureMessageStart hshape
  | content _ text =>
    obtain ⟨hended, hdone, hnamed⟩ := hok
    rw [apply, parseText_eq]
    exact (accepts_ensureMessageStart (S := seen past) hshape).andThen
      (accepts_text text rfl hended hdone hnamed)
  | toolCalls =>
    simp only [apply, inOrder_cons, inOrder_nil, andThen_skip]
    exact (accepts_ensureMessageStart (S := seen past) hshape).andThen accepts_closeText
  | toolCall index call arguments =>
    have hopened : (seen past).opened = true := List.any_eq_true.mpr ⟨_, InCalls.mem hshape, rfl⟩
    obtain ⟨hcall, hargs⟩ := hok
    simp only [apply, inOrder_cons, inOrder_nil, andThen_skip]
    cases call with
    | none =>
      refine accepts_skip.andThen (accepts_arguments fun ha => (hargs ha).resolve_left ?_)
      exact Bool.false_ne_true
    | some call =>
      obtain ⟨hended, hnew, hzero⟩ := hcall rfl
      exact (accepts_startTool arguments hopened hended hnew hzero).andThen
        (accepts_arguments fun _ =>
          ⟨hended, List.mem_append_right _ (List.mem_singleton_self _)⟩)
  | finish reason =>
    simp only [apply, parseFinish, inOrder_cons, inOrder_nil, andThen_skip]
    rw [← andThen_assoc, ← andThen_assoc, andThen_assoc closeText]
    exact (accepts_finishWith _ hok).andThen accepts_markCompleted
  | usage usage =>
    refine Envelope.accepts_emit fun s m h => ⟨⟨?_, h.running⟩, h⟩
    rw [h.started]
    exact hshape
  | error message => exact Envelope.accepts_emit fun s m h => ⟨trivial, h⟩

/-! ## The steps of the end -/

def ending (d : DrainOrder) : Ending ParserState where
  responseStart := ParserState.emittedResponseStart
  messageStart := ParserState.emittedMessageStart
  responseStop := ParserState.emittedResponseStop
  ensureResponseStart := ensureEmptyResponseStart
  ensureMessageStart := ensureMessageStart
  closeMessage := andThen closeText (andThen (drainTools d) (ensureMessageStop .endTurn))
  stopResponse := stopResponse
  markCompleted := markCompleted
  ensureResponseStart_started := fun s h => by rw [ensureEmptyResponseStart, if_pos h]
  mem_ensureMessageStart := fun s h => by simp [ensureMessageStart, h]
  stopResponse_stops := fun _ => ⟨rfl, rfl⟩
  markCompleted_quiet := fun _ => ⟨rfl, rfl⟩

theorem finalize_eq (d : DrainOrder) : finalize d = (ending d).finalize := by
  funext s
  simp only [finalize, Ending.finalize, ending, inOrder_cons, inOrder_nil, andThen_skip,
    andThen_assoc]

theorem handleDone_eq (d : DrainOrder) : handleDone d = (ending d).done := by
  have hstop : (ending d).ensureResponseStop = ensureResponseStop := rfl
  rw [Ending.done, hstop]
  simp only [handleDone, ending, inOrder_cons, inOrder_nil, andThen_skip, andThen_assoc]

/-! ## Fragments out of place -/

/-- The message was stopped before it was opened. -/
structure Doomed (s : ParserState) (m : Envelope) : Prop where
  responseStart : s.emittedResponseStart = true
  messageStart : s.emittedMessageStart = false
  messageStop : s.emittedMessageStop = true
  responseStop : s.emittedResponseStop = false
  stopped : m.stopped = true

theorem Doomed.ending {s : ParserState} {m : Envelope} (h : Doomed s m) :
    (ending d).Doomed s m :=
  { responseStart := h.responseStart, messageStart := h.messageStart,
    responseStop := h.responseStop, stopped := h.stopped }

/-- The message is opened too late. -/
theorem within_doomed_messageStart (d : DrainOrder) {f : Parse}
    {Q : ParserState → Envelope → Prop} :
    Within (Envelope.step true) Doomed (andThen ensureMessageStart f) Q :=
  ((ending d).within_doomed_open).mono (fun _ _ h => h.ending) fun _ _ h => h

theorem mem_startTool (index : Nat) (id name : String) (s : ParserState) :
    .toolCallStart index id name ∈ (startTool index id name s).2 := by
  rw [startTool_eq]
  simp [andThen, emit]

/-- Closing the blocks either finds none open, or puts out events of the message. -/
theorem closing_events (reason : StopReason) {s : ParserState}
    (h : ∀ e ∈ (andThen closeText (andThen (drainTools d) (ensureMessageStop reason)) s).2,
      e.inMessage = false) : s.textBlockOpen = false ∧ s.openToolBlocks = [] := by
  constructor
  · refine Bool.eq_false_iff.mpr fun hopen => ?_
    have := h (.contentBlockStop 0) (by simp [andThen, closeText, hopen])
    cases this
  · refine List.eq_nil_iff_forall_not_mem.mpr fun i hi => ?_
    have hmem : i ∈ d.order (closeText s).1.openToolBlocks := by
      refine (d.perm _).mem_iff.mpr ?_
      unfold closeText
      split <;> exact hi
    have := h (.toolCallStop i) (by
      simp only [andThen, List.mem_append, drainTools, Envelope.closeTools, List.mem_flatMap]
      exact Or.inr (Or.inl ⟨i, hmem, List.mem_cons_self⟩))
    cases this

theorem within_doomed_finish (reason : StopReason) :
    Within (Envelope.step true) Doomed
      (andThen closeText (andThen (drainTools d) (ensureMessageStop reason))) Doomed := by
  intro s m h m' hm
  obtain ⟨hquiet, hstop, -⟩ := Envelope.not_inMessage_of_exec h.stopped hm
  obtain ⟨htext, htools⟩ := closing_events reason hquiet
  rw [closing_of_stopped htext htools h.messageStop]
  exact { h with stopped := hstop }

theorem within_markCompleted_doomed : Within (Envelope.step true) Doomed markCompleted Doomed := by
  intro s m h m' hm
  cases hm
  exact { h with }

theorem parseFinish_eq (reason : String) : parseFinish d reason =
    andThen (andThen closeText (andThen (drainTools d)
      (ensureMessageStop (.fromProviderString reason)))) markCompleted := by
  simp only [parseFinish, inOrder_cons, inOrder_nil, andThen_skip, andThen_assoc]

theorem within_doomed_arguments {index : Nat} {arguments : String} :
    Within (Envelope.step true) Doomed (emitArguments index arguments) Doomed := by
  unfold emitArguments
  split
  · exact within_skip
  · refine Envelope.within_of_stopped (fun _ _ h => h.stopped) fun s m _ => ?_
    exact ⟨_, List.mem_singleton_self _, rfl⟩

/-- A doomed run stays doomed. -/
theorem within_doomed (f : Fragment Unit) :
    Within (Envelope.step true) Doomed (apply d f) Doomed := by
  cases f with
  | chunk id model created =>
    intro s m h m' hm
    simp only [apply, ensureResponseStart, h.responseStart, if_true] at hm ⊢
    cases hm
    exact h
  | role =>
    rw [apply, ← andThen_skip ensureMessageStart]
    exact within_doomed_messageStart d
  | content _ text => exact within_doomed_messageStart d
  | toolCalls => exact within_doomed_messageStart d
  | toolCall index call arguments =>
    simp only [apply, inOrder_cons, inOrder_nil, andThen_skip]
    cases call with
    | none => exact within_skip.andThen within_doomed_arguments
    | some call =>
      refine Envelope.within_of_stopped (fun _ _ h => h.stopped) fun s m _ => ?_
      exact ⟨_, List.mem_append_left _ (mem_startTool index call.1 call.2 s), rfl⟩
  | finish reason =>
    rw [apply, parseFinish_eq]
    exact (within_doomed_finish _).andThen within_markCompleted_doomed
  | usage usage => exact Envelope.within_emit fun s m h _ => { h with }
  | error message => exact Envelope.within_emit fun s m h _ => { h with }

theorem within_text (text : NonEmptyString)
    (hbad : S.ended = true ∨ S.textDone = true ∨ 0 ∈ S.named)
    (hwrote : S.textDone = true → S.wrote = true) :
    Within (Envelope.step true) (Agrees S) (andThen openText (emit (.textDelta 0 text.val)))
      Doomed := by
  intro s m h m' hm
  cases hended : S.ended with
  | true =>
    have hquiet := (Envelope.not_inMessage_of_exec (by rw [h.stopped, hended]) hm).1
    have := hquiet (.textDelta 0 text.val) (by simp [andThen, emit])
    cases this
  | false =>
    -- the text block is closed, and its index has been used
    have hclosed : s.textBlockOpen = false := by
      rw [h.textBlock]
      rcases hbad with hbad | hbad | hbad
      · simp [hbad]
      · simp [hbad]
      · simp [h.zero_named hbad]
    have hused : m.block 0 ≠ .fresh := by
      rw [h.block]
      by_cases hnamed : 0 ∈ S.named
      · simp [Seen.phase, hnamed, hended]
      · have hdone : S.textDone = true := by simpa [hended, hnamed] using hbad
        simp [Agrees.phase_zero (hwrote hdone) hnamed, hdone]
    simp only [andThen, openText, hclosed, emit] at hm
    exact absurd (Envelope.exec_cons_iff.mp hm).1.2.2 hused

theorem within_startTool {index : Nat} {id name : String}
    (hbad : ¬ (S.ended = false ∧ index ∉ S.named ∧ (index = 0 → S.wrote = false))) :
    Within (Envelope.step true) (Agrees S) (startTool index id name) Doomed := by
  intro s m h m' hm
  cases hended : S.ended with
  | true =>
    have hquiet := (Envelope.not_inMessage_of_exec (by rw [h.stopped, hended]) hm).1
    have := hquiet _ (mem_startTool index id name s)
    cases this
  | false =>
    have htools : s.openToolBlocks = S.named := by rw [h.toolBlocks, hended]; rfl
    rw [startTool_eq] at hm
    by_cases hnamed : index ∈ S.named
    · -- a second start of the same call
      have hcalled : m.block index = .called := by
        rw [h.block, Seen.phase, if_pos hnamed, hended]
        rfl
      simp only [andThen, openTool, htools, hnamed, if_true, emit] at hm
      have hallow := (Envelope.exec_cons_iff.mp hm).1.2
      rw [hcalled] at hallow
      cases hallow
    · -- index 0 belongs to the text
      have hzero : index = 0 ∧ S.wrote = true := by simpa [hended, hnamed] using hbad
      obtain ⟨rfl, hwrote⟩ := hzero
      have hused : m.block 0 ≠ .fresh := by
        rw [h.block, Agrees.phase_zero hwrote hnamed]
        split <;> simp
      simp only [andThen, openTool, htools, hnamed, if_false, emit] at hm
      exact absurd (Envelope.exec_cons_iff.mp hm).1.2.2 hused

theorem within_arguments {index : Nat} {arguments : String} (hne : arguments ≠ "")
    (hbad : ¬ (S.ended = false ∧ index ∈ S.named)) :
    Within (Envelope.step true) (Agrees S) (emitArguments index arguments) Doomed := by
  rw [emitArguments, if_neg hne]
  refine Envelope.within_emit fun s m h hallow => ?_
  obtain ⟨hstop, hphase⟩ := hallow
  rw [h.stopped] at hstop
  have hnamed : index ∉ S.named := fun hn => hbad ⟨hstop, hn⟩
  rw [h.block, Seen.phase, if_neg hnamed, hstop] at hphase
  split at hphase
  · split at hphase <;> cases hphase
  · cases hphase

/-- A finish before anything opened the message stops it unopened. -/
theorem within_finish {reason : StopReason} (hbegun : S.begun = true) (hopened : S.opened = false)
    (hwrote : S.wrote = true → S.opened = true) :
    Within (Envelope.step true) (Agrees S)
      (andThen closeText (andThen (drainTools d) (ensureMessageStop reason))) Doomed := by
  intro s m h m' hm
  have hended : S.ended = false :=
    Bool.eq_false_iff.mpr fun he => by rw [h.opened_of_ended he] at hopened; cases hopened
  have htext : s.textBlockOpen = false := by
    rw [h.textBlock]
    cases hw : S.wrote with
    | false => rfl
    | true =>
      rw [hwrote hw] at hopened
      cases hopened
  have htools : s.openToolBlocks = [] := by
    rw [h.toolBlocks, hended]
    refine by_contra fun hne => ?_
    rw [h.named_opened hne] at hopened
    cases hopened
  have hstop : s.emittedMessageStop = false := by rw [h.messageStop, hended]
  simp only [andThen, closeText_of_closed htext, drainTools_of_none htools,
    ensureMessageStop_of_running hstop, List.nil_append] at hm ⊢
  obtain ⟨-, rfl⟩ := Envelope.exec_singleton_iff.mp hm
  exact
    { responseStart := by rw [← hbegun, ← h.responseStart]
      messageStart := by rw [← hopened, ← h.messageStart]
      messageStop := rfl
      responseStop := h.responseStop
      stopped := rfl }

/-- A fragment out of place is refused or dooms the run. -/
theorem within_apply {past : List (Fragment Unit)} {f : Fragment Unit} (hshape : Shape past f)
    (hbad : ¬ (seen past).Admits f) :
    Within (Envelope.step true) (Agrees (seen past)) (apply d f) Doomed := by
  cases f with
  | content _ text =>
    rw [apply, parseText_eq]
    refine (accepts_ensureMessageStart (S := seen past) hshape).within.andThen
      (within_text text ?_ seen_wrote_of_textDone)
    by_contra hnone
    simp only [not_or, Bool.not_eq_true] at hnone
    exact hbad hnone
  | toolCall index call arguments =>
    simp only [apply, inOrder_cons, inOrder_nil, andThen_skip]
    cases call with
    | none =>
      have hargs : arguments ≠ "" := fun ha =>
        hbad ⟨fun h => absurd h Bool.false_ne_true, fun h => absurd ha h⟩
      exact within_skip.andThen (within_arguments hargs fun h =>
        hbad ⟨fun h' => absurd h' Bool.false_ne_true, fun _ => Or.inr h⟩)
    | some call =>
      have hcall : ¬ ((seen past).ended = false ∧ index ∉ (seen past).named ∧
          (index = 0 → (seen past).wrote = false)) :=
        fun h => hbad ⟨fun _ => h, fun _ => Or.inl rfl⟩
      exact (within_startTool hcall).andThen within_doomed_arguments
  | finish reason =>
    rw [apply, parseFinish_eq]
    have hopened : (seen past).opened = false := Bool.eq_false_iff.mpr hbad
    exact (within_finish (S := seen past) hshape hopened seen_opened_of_wrote).andThen
      within_markCompleted_doomed
  | _ => exact absurd trivial hbad

/-! ## The end of the stream -/

theorem Agrees.ready {s : ParserState} {m : Envelope} (h : Agrees { S with ended := true } s m) :
    (ending d).Ready s m :=
  { responseStop := h.responseStop
    stopped := h.stopped
    running := h.running
    closed := fun i => by
      rw [h.block, Seen.phase]
      split
      · rfl
      · split
        · rw [if_pos (Bool.or_true _)]
          rfl
        · rfl }

theorem accepts_closeMessage (hopened : S.opened = true) :
    Accepts (Envelope.step true) (Agrees S) (ending d).closeMessage (ending d).Ready :=
  (accepts_finishWith .endTurn hopened).mono (fun _ _ h => h) fun _ _ h => h.ready

theorem accepts_finalize (hbegun : S.begun = true) :
    Accepts (Envelope.step true) (Agrees S) (finalize d) (fun _ m => m.Closed) := by
  rw [finalize_eq]
  refine Ending.accepts_finalize (fun s m h => ⟨h.responseStart.trans hbegun, h.responseStop⟩)
    (accepts_ensureMessageStart hbegun) (accepts_closeMessage rfl)

/-- A stream in which nothing was read has no envelope. -/
theorem within_finalize_empty (hbegun : S.begun = false) :
    Within (Envelope.step true) (Agrees S) (finalize d) (fun _ m => ¬ m.Closed) := by
  rw [finalize_eq]
  exact Ending.within_finalize_empty fun s m h =>
    ⟨h.responseStart.trans hbegun, h.responseStop, h.running⟩

theorem accepts_ensureEmptyResponseStart :
    Accepts (Envelope.step true) (Agrees S) ensureEmptyResponseStart
      (Agrees { S with begun := true }) := by
  refine accepts_startResponse (fun s hs => by rw [ensureEmptyResponseStart, if_pos hs])
    fun s hs => ⟨s.responseId, s.responseModel, 0, s.responseId, s.responseModel, ?_⟩
  rw [ensureEmptyResponseStart, hs]
  rfl

theorem accepts_done :
    Accepts (Envelope.step true) (Agrees S) (andThen (handleDone d) (finalize d))
      (fun _ m => m.Closed) := by
  rw [handleDone_eq, finalize_eq]
  exact Ending.accepts_done accepts_ensureEmptyResponseStart
    (accepts_ensureMessageStart (S := { S with begun := true }) rfl) (accepts_closeMessage rfl)

theorem within_doomed_finalize {Q : ParserState → Envelope → Prop} :
    Within (Envelope.step true) Doomed (finalize d) Q := by
  rw [finalize_eq]
  exact ((ending d).within_doomed_finalize).mono (fun _ _ h => h.ending) fun _ _ h => h

theorem within_doomed_done {Q : ParserState → Envelope → Prop} :
    Within (Envelope.step true) Doomed (andThen (handleDone d) (finalize d)) Q := by
  rw [handleDone_eq, finalize_eq]
  exact ((ending d).within_doomed_done).mono (fun _ _ h => h.ending) fun _ _ h => h

/-- Before anything is read. -/
theorem agrees_init : Agrees (seen []) {} {} :=
  { responseStart := rfl, messageStart := rfl, messageStop := rfl, responseStop := rfl,
    textBlock := rfl, toolBlocks := rfl, started := rfl, greeted := rfl, stopped := rfl,
    running := rfl, block := fun i => by simp [Seen.phase, seen], begun_of_opened := nofun,
    opened_of_ended := nofun,
    named_opened := fun h => absurd rfl h, named_nodup := List.nodup_nil, zero_named := nofun }

theorem exec_events_iff (d : DrainOrder) (chunks : List Json) (done : Bool) :
    (∃ m, Runs.exec (Envelope.step true) {} (events d chunks done) = some m ∧ m.Closed) ↔
      (done = true ∨ ∃ v ∈ chunks, v.get "error" = none) ∧ WellOrdered chunks := by
  have heof : ∀ past, ¬ (past : List (Fragment Unit)).any Fragment.isChunk = true →
      (seen past).begun = false := fun _ h => Bool.eq_false_iff.mpr h
  rw [← any_isChunk_iff dialect]
  exact exec_poll_iff (h := handlers d) (R := fun past => Agrees (seen past))
    (B := fun past => past.any Fragment.isChunk = true)
    (parseChunk_eq d) (fun _ _ => accepts_apply) (fun _ _ => within_apply) within_doomed
    (fun _ => accepts_done) (fun past h => accepts_finalize (S := seen past) h)
    (fun past h => within_finalize_empty (heof past h)) within_doomed_done within_doomed_finalize
    agrees_init (shape_chunks dialect chunks) done

/-- The events are lifecycle-valid with each tool call in order iff something was
read and every fragment came in an order the parser can follow. -/
theorem chat_lifecycle_iff (d : DrainOrder) (chunks : List Json) (done : Bool) :
    LifecycleValid (events d chunks done) ∧ ToolsNested (events d chunks done) ↔
      (done = true ∨ ∃ v ∈ chunks, v.get "error" = none) ∧ WellOrdered chunks :=
  lifecycleValid_toolsNested_iff.trans (exec_events_iff d chunks done)

/-- A chunk with one choice that carries `delta`. -/
def deltaChunk (delta : List (String × Json)) : Json :=
  .obj [("id", .str "chatcmpl-1"), ("model", .str "m"),
    ("choices", .arr [.obj [("delta", .obj delta)]])]

/-- Text, a tool call, and text again. -/
def textResumed : List Json :=
  [deltaChunk [("role", .str "assistant"), ("content", .str "Let me look.")],
   deltaChunk [("tool_calls", .arr [.obj [("index", .num (.int 0)), ("id", .str "call_1"),
     ("function", .obj [("name", .str "search"), ("arguments", .str "{}")])]])],
   deltaChunk [("content", .str "One moment.")]]

/-- Elements come out in the order they went in. -/
def asInserted : DrainOrder := { order := id, perm := List.Perm.refl }

/-- Text after a tool call reopens the closed block 0. -/
theorem textResumed_not_valid : ¬ LifecycleValid (events asInserted textResumed true) := by
  decide

end ChatSse

end AgentShim
