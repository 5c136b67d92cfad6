import AgentShim.Providers.ResponsesSse
import AgentShim.Stream.Lifecycle

/-
  The lifecycle of the Responses stream parser

  Which event sequences the parser turns into a lifecycle-valid stream. The
  parser puts out what an event says without looking at what came before, so the
  condition is that the upstream itself keeps the protocol of its output items.

  What is proved:
    1. `accepts_apply` — an admitted signal keeps the parser and the envelope
       where the signals read so far put them.
    2. `within_apply` — any other signal is refused, or completes the response
       with a block open, which nothing closes after.
    3. `responses_lifecycle_iff` — the events of a run are lifecycle-valid iff
       the response was created and every signal is admitted after the ones
       before it.
    4. `completedEarly_not_valid` — a response completed with its message open is
       not.
-/

namespace AgentShim

namespace ResponsesSse

open Transducer ChatWire

namespace Signal

def isCreated : Signal → Bool
  | .created .. => true
  | _ => false

def isAdded : Signal → Bool
  | .added .. => true
  | _ => false

def isCompleted : Signal → Bool
  | .completed .. => true
  | _ => false

/-- The block an added item opens. -/
def opens : Signal → Option (Nat × ItemKind)
  | .added index (some item) => some (index, item.kind)
  | _ => none

/-- The block a finished item closes. -/
def closes : Signal → Option Nat
  | .done index _ => some index
  | _ => none

end Signal

/-- What matters of the signals read so far. -/
structure Seen where
  begun : Bool
  greeted : Bool
  completed : Bool
  added : List (Nat × ItemKind)
  finished : List Nat

def seen (past : List Signal) : Seen :=
  { begun := past.any Signal.isCreated
    greeted := past.any Signal.isAdded
    completed := past.any Signal.isCompleted
    added := past.filterMap Signal.opens
    finished := past.filterMap Signal.closes }

/-- The kind of an item that was added and is not done. -/
def Seen.openAs (S : Seen) (index : Nat) : Option ItemKind :=
  if index ∈ S.finished then none else S.added.lookup index

/-- The signals an upstream may send next: between the creation and the completion
an item is added under an index of its own, takes deltas of its kind and is done
once; the response completes when every item is done. -/
def Seen.Admits (S : Seen) : Signal → Prop
  | .created _ _ _ | .failed _ _ => True
  | .added _ none => S.greeted = true ∨ S.begun = true ∧ S.completed = false
  | .added index (some _) =>
    S.begun = true ∧ S.completed = false ∧ S.added.lookup index = none
  | .text index _ => S.completed = false ∧ S.openAs index = some .message
  | .arguments index _ => S.completed = false ∧ S.openAs index = some .functionCall
  | .done index kind => S.completed = false ∧ S.openAs index = some kind
  | .completed _ _ =>
    S.begun = true ∧ S.completed = false ∧ ∀ b ∈ S.added, S.openAs b.1 = none

instance (S : Seen) : (f : Signal) → Decidable (S.Admits f)
  | .created _ _ _ | .failed _ _ => isTrue trivial
  | .added _ none => inferInstanceAs (Decidable (_ ∨ _))
  | .added _ (some _) => inferInstanceAs (Decidable (_ ∧ _))
  | .text _ _ => inferInstanceAs (Decidable (_ ∧ _))
  | .arguments _ _ => inferInstanceAs (Decidable (_ ∧ _))
  | .done _ _ => inferInstanceAs (Decidable (_ ∧ _))
  | .completed _ _ => inferInstanceAs (Decidable (_ ∧ _))

def signals (upstream : List (String × Json)) : List Signal :=
  upstream.flatMap fun e => (signal e.1 e.2).toList

/-- Every signal of the events is admitted after the ones before it. -/
def WellOrdered (upstream : List (String × Json)) : Prop :=
  Throughout (fun past f => (seen past).Admits f) (signals upstream)

/-! ## Where the signals read so far put the parser and the envelope -/

def Seen.add (S : Seen) : Signal → Seen
  | .created _ _ _ => { S with begun := true }
  | .added _ none => { S with greeted := true }
  | .added index (some item) =>
    { S with greeted := true, added := S.added ++ [(index, item.kind)] }
  | .done index _ => { S with finished := S.finished ++ [index] }
  | .completed _ _ => { S with completed := true }
  | .text _ _ | .arguments _ _ | .failed _ _ => S

theorem seen_concat (past : List Signal) (f : Signal) :
    seen (past ++ [f]) = (seen past).add f := by
  cases f with
  | added index item =>
    cases item <;>
      simp [seen, Seen.add, Signal.isCreated, Signal.isAdded, Signal.isCompleted, Signal.opens,
        Signal.closes]
  | _ =>
    simp [seen, Seen.add, Signal.isCreated, Signal.isAdded, Signal.isCompleted, Signal.opens,
      Signal.closes]

/-- The phase of an open block. -/
def ItemKind.phase : ItemKind → BlockPhase
  | message => .opened .text
  | functionCall => .called

/-- The phase of a block index. -/
def Seen.phase (S : Seen) (index : Nat) : BlockPhase :=
  match S.openAs index with
  | some kind => kind.phase
  | none => if S.added.lookup index = none then .fresh else .closed

variable {S : Seen}

theorem Seen.phase_of_open {index : Nat} {kind : ItemKind} (h : S.openAs index = some kind) :
    S.phase index = kind.phase := by
  rw [phase, h]

theorem Seen.not_isOpen_of_closed {index : Nat} (h : S.openAs index = none) :
    (S.phase index).isOpen = false := by
  rw [phase, h]
  by_cases hnew : S.added.lookup index = none <;> simp [hnew, BlockPhase.isOpen]

theorem Seen.openAs_of_isOpen {index : Nat} (h : (S.phase index).isOpen = true) :
    ∃ kind, S.openAs index = some kind ∧ S.phase index = kind.phase := by
  cases hopen : S.openAs index with
  | none =>
    rw [not_isOpen_of_closed hopen] at h
    cases h
  | some kind => exact ⟨kind, rfl, phase_of_open hopen⟩

theorem Seen.phase_of_new {index : Nat} (h : S.added.lookup index = none) :
    S.phase index = .fresh := by
  have hopen : S.openAs index = none := by rw [openAs, h, ite_self]
  rw [phase, hopen, if_pos h]

theorem Seen.new_of_phase {index : Nat} (h : S.phase index = .fresh) :
    S.added.lookup index = none := by
  unfold phase at h
  split at h
  · rename_i kind _
    cases kind <;> cases h
  · by_contra hadded
    rw [if_neg hadded] at h
    cases h

/-- The parser and the envelope after the signals `S` sums up. -/
structure Agrees (S : Seen) (s : ParserState) (m : Envelope) : Prop where
  responseStart : s.emittedResponseStart = S.begun
  messageStart : s.emittedMessageStart = S.greeted
  messageStop : s.emittedMessageStop = S.completed
  responseStop : s.emittedResponseStop = S.completed
  openBlocks : ∀ i, s.openBlocks.lookup i = (S.openAs i).map ItemKind.block
  started : m.started = S.begun
  greeted : m.greeted = S.greeted
  stopped : m.stopped = S.completed
  concluded : m.concluded = S.completed
  block : ∀ i, m.block i = S.phase i
  begun_of_greeted : S.greeted = true → S.begun = true
  begun_of_completed : S.completed = true → S.begun = true
  added_of_finished : ∀ i ∈ S.finished, S.added.lookup i ≠ none
  settled : S.completed = true → ∀ i, S.openAs i = none

theorem accepts_startResponse (id model : String) (createdAt : Nat) :
    Accepts (Envelope.step false) (Agrees S) (startResponse id model createdAt)
      (Agrees (S.add (.created id model createdAt))) := by
  intro s m h
  unfold startResponse
  cases hb : S.begun with
  | true =>
    have hsame : S.add (.created id model createdAt) = S := by rw [Seen.add, ← hb]
    rw [hsame, if_pos (h.responseStart.trans hb)]
    exact ⟨m, rfl, h⟩
  | false =>
    rw [if_neg (by rw [h.responseStart, hb]; exact Bool.false_ne_true)]
    refine ⟨{ m with started := true }, Envelope.exec_singleton_iff.mpr ⟨?_, rfl⟩, ?_⟩
    · rw [Envelope.Allows, h.started, hb]
    · exact { h with
        responseStart := rfl
        started := rfl
        begun_of_greeted := fun _ => rfl
        begun_of_completed := fun _ => rfl }

theorem accepts_ensureMessageStart (index : Nat)
    (hok : S.greeted = true ∨ S.begun = true ∧ S.completed = false) :
    Accepts (Envelope.step false) (Agrees S) ensureMessageStart
      (Agrees (S.add (.added index none))) := by
  intro s m h
  unfold ensureMessageStart
  cases hg : S.greeted with
  | true =>
    have hsame : S.add (.added index none) = S := by rw [Seen.add, ← hg]
    rw [hsame, if_pos (h.messageStart.trans hg)]
    exact ⟨m, rfl, h⟩
  | false =>
    obtain ⟨hbegun, hrunning⟩ : S.begun = true ∧ S.completed = false := by simpa [hg] using hok
    rw [if_neg (by rw [h.messageStart, hg]; exact Bool.false_ne_true)]
    refine ⟨_, Envelope.exec_singleton_iff.mpr ⟨⟨?_, ?_, ?_⟩, rfl⟩, ?_⟩
    · rw [h.started, hbegun]
    · rw [h.greeted, hg]
    · rw [h.stopped, hrunning]
    · exact { h with
        messageStart := rfl
        greeted := rfl
        begun_of_greeted := fun _ => hbegun }

theorem Seen.lookup_add (index : Nat) (item : AddedItem) (hnew : S.added.lookup index = none)
    (i : Nat) :
    (S.add (.added index (some item))).added.lookup i =
      if i = index then some item.kind else S.added.lookup i := by
  rw [Seen.add, List.lookup_append, List.lookup_cons]
  by_cases hi : i = index
  · subst hi
    simp [hnew]
  · have hne : (i == index) = false := beq_false_of_ne hi
    simp [hne, hi]

theorem Agrees.not_finished {s : ParserState} {m : Envelope} (h : Agrees S s m) {index : Nat}
    (hnew : S.added.lookup index = none) : index ∉ S.finished :=
  fun hmem => h.added_of_finished index hmem hnew

theorem Seen.openAs_add (index : Nat) (item : AddedItem) (hnew : S.added.lookup index = none)
    (hfinished : index ∉ S.finished) (i : Nat) :
    (S.add (.added index (some item))).openAs i =
      if i = index then some item.kind else S.openAs i := by
  unfold openAs
  rw [lookup_add index item hnew]
  by_cases hi : i = index
  · subst hi
    simp [Seen.add, hfinished]
  · simp [Seen.add, hi]

theorem Seen.phase_add (index : Nat) (item : AddedItem) (hnew : S.added.lookup index = none)
    (hfinished : index ∉ S.finished) (i : Nat) :
    (S.add (.added index (some item))).phase i =
      if i = index then item.kind.phase else S.phase i := by
  unfold phase
  rw [lookup_add index item hnew, openAs_add index item hnew hfinished]
  by_cases hi : i = index
  · simp [hi]
  · simp only [if_neg hi]

theorem Seen.openAs_done (index : Nat) (kind : ItemKind) (i : Nat) :
    (S.add (.done index kind)).openAs i = if i = index then none else S.openAs i := by
  unfold openAs
  by_cases hi : i = index <;> simp [Seen.add, hi]

theorem Seen.phase_done {index : Nat} {kind : ItemKind} (hopen : S.openAs index = some kind)
    (i : Nat) :
    (S.add (.done index kind)).phase i = if i = index then .closed else S.phase i := by
  have hadded : S.added.lookup index ≠ none := by
    intro hnew
    rw [openAs, hnew, ite_self] at hopen
    cases hopen
  unfold phase
  rw [openAs_done]
  by_cases hi : i = index
  · subst hi
    simp [Seen.add, hadded]
  · simp only [Seen.add, if_neg hi]
    rfl

/-- The parser and the envelope once an item is open. -/
theorem Agrees.opened {s : ParserState} {m : Envelope} (h : Agrees S s m)
    (hgreeted : S.greeted = true) (hrunning : S.completed = false) {index : Nat}
    (hnew : S.added.lookup index = none) (item : AddedItem) :
    Agrees (S.add (.added index (some item)))
      { s with openBlocks := s.openBlocks.insert index item.kind.block }
      (m.setBlock index item.kind.phase) := by
  have hfinished := h.not_finished hnew
  exact { h with
    messageStart := h.messageStart.trans hgreeted
    openBlocks := fun i => by
      rw [Seen.openAs_add index item hnew hfinished]
      by_cases hi : i = index
      · subst hi
        simp
      · rw [AList.lookup_insert_ne hi, if_neg hi, h.openBlocks]
    greeted := h.greeted.trans hgreeted
    block := fun i => by
      rw [Envelope.setBlock_block, Seen.phase_add index item hnew hfinished, h.block]
    begun_of_greeted := fun _ => h.begun_of_greeted hgreeted
    added_of_finished := fun i hi => by
      rw [Seen.lookup_add index item hnew]
      by_cases hii : i = index
      · simp [hii]
      · rw [if_neg hii]
        exact h.added_of_finished i hi
    settled := fun hc => absurd (hrunning.symm.trans hc) Bool.false_ne_true }

/-- The parser and the envelope once an item is done. -/
theorem Agrees.finished {s : ParserState} {m : Envelope} (h : Agrees S s m)
    (hrunning : S.completed = false) {index : Nat} {kind : ItemKind}
    (hopen : S.openAs index = some kind) :
    Agrees (S.add (.done index kind)) { s with openBlocks := s.openBlocks.erase index }
      (m.setBlock index .closed) := by
  exact { h with
    openBlocks := fun i => by
      rw [Seen.openAs_done]
      by_cases hi : i = index
      · subst hi
        simp
      · rw [AList.lookup_erase_ne hi, if_neg hi, h.openBlocks]
    block := fun i => by
      rw [Envelope.setBlock_block, Seen.phase_done hopen, h.block]
    added_of_finished := fun i hi => by
      rcases List.mem_append.mp hi with hi | hi
      · exact h.added_of_finished i hi
      · obtain rfl := List.mem_singleton.mp hi
        intro hnew
        have hnone : S.added.lookup i = none := hnew
        rw [Seen.openAs, hnone, ite_self] at hopen
        cases hopen
    settled := fun hc => absurd (hrunning.symm.trans hc) Bool.false_ne_true }

theorem accepts_openBlock {index : Nat} (hgreeted : S.greeted = true)
    (hrunning : S.completed = false) (hnew : S.added.lookup index = none) :
    Accepts (Envelope.step false) (Agrees S) (openBlock index .text)
      (Agrees (S.add (.added index (some .message)))) := by
  intro s m h
  refine ⟨_, Envelope.exec_singleton_iff.mpr ⟨⟨?_, ?_, ?_⟩, rfl⟩,
    h.opened hgreeted hrunning hnew .message⟩
  · rw [h.greeted, hgreeted]
  · rw [h.stopped, hrunning]
  · rw [h.block, Seen.phase_of_new hnew]

theorem accepts_startCall {index : Nat} {callId name : String} (hgreeted : S.greeted = true)
    (hrunning : S.completed = false) (hnew : S.added.lookup index = none) :
    Accepts (Envelope.step false) (Agrees S) (startCall index callId name)
      (Agrees (S.add (.added index (some (.functionCall callId name))))) := by
  intro s m h
  have hstop : m.stopped = false := by rw [h.stopped, hrunning]
  refine ⟨m.setBlock index .called, ?_,
    h.opened hgreeted hrunning hnew (.functionCall callId name)⟩
  refine Envelope.exec_cons_iff.mpr ⟨⟨?_, hstop, ?_⟩, ?_⟩
  · rw [h.greeted, hgreeted]
  · rw [h.block, Seen.phase_of_new hnew]
  · refine Envelope.exec_singleton_iff.mpr ⟨⟨hstop, ?_⟩, ?_⟩
    · rw [Envelope.after, Envelope.setBlock_block_self]
      rfl
    · simp only [Envelope.after, Envelope.setBlock_block_self, Envelope.setBlock_setBlock]
      rfl

theorem accepts_finishItem {index : Nat} {kind : ItemKind} (hrunning : S.completed = false)
    (hopen : S.openAs index = some kind) :
    Accepts (Envelope.step false) (Agrees S) (apply (.done index kind))
      (Agrees (S.add (.done index kind))) := by
  intro s m h
  have hstop : m.stopped = false := by rw [h.stopped, hrunning]
  have hphase : m.block index = kind.phase := by rw [h.block, Seen.phase_of_open hopen]
  refine ⟨m.setBlock index .closed, ?_, ?_⟩
  · cases kind with
    | message =>
      refine Envelope.exec_singleton_iff.mpr ⟨⟨hstop, ?_⟩, rfl⟩
      rw [hphase]
      rfl
    | functionCall =>
      have htakes : (m.block index).takesStop false = true := by rw [hphase]; rfl
      exact Envelope.exec_stopTool hstop htakes []
  · cases kind <;> exact h.finished hrunning hopen

theorem Seen.settled_iff :
    (∀ b ∈ S.added, S.openAs b.1 = none) ↔ ∀ i, S.openAs i = none := by
  constructor
  · intro h i
    cases hi : S.added.lookup i with
    | none => rw [openAs, hi, ite_self]
    | some kind =>
      obtain ⟨before, after, hadded, -⟩ := List.lookup_eq_some_iff.mp hi
      refine h (i, kind) ?_
      rw [hadded]
      exact List.mem_append_right before List.mem_cons_self
  · intro h b _
    exact h b.1

theorem accepts_complete {reason : StopReason} {usage : Option Usage} (hbegun : S.begun = true)
    (hrunning : S.completed = false) (hsettled : ∀ i, S.openAs i = none) :
    Accepts (Envelope.step false) (Agrees S) (apply (.completed reason usage))
      (Agrees (S.add (.completed reason usage))) := by
  intro s m h
  refine ⟨{ m with stopped := true, concluded := true }, ?_, ?_⟩
  · refine Envelope.exec_cons_iff.mpr ⟨⟨?_, ?_⟩, ?_⟩
    · rw [h.started, hbegun]
    · rw [h.stopped, hrunning]
    · refine Envelope.exec_singleton_iff.mpr ⟨⟨rfl, ?_⟩, rfl⟩
      rw [Envelope.after, h.concluded, hrunning]
  · exact { h with
      messageStop := rfl
      responseStop := rfl
      stopped := rfl
      concluded := rfl
      begun_of_completed := fun _ => hbegun
      settled := fun _ => hsettled }

theorem accepts_markCompleted :
    Accepts (Envelope.step false) (Agrees S) markCompleted (Agrees S) :=
  fun _ m h => ⟨m, rfl, { h with }⟩

/-- An admitted signal keeps the parser and the envelope in agreement. -/
theorem accepts_apply {past : List Signal} {f : Signal} (hok : (seen past).Admits f) :
    Accepts (Envelope.step false) (Agrees (seen past)) (apply f)
      (Agrees (seen (past ++ [f]))) := by
  rw [seen_concat]
  cases f with
  | created id model createdAt => exact accepts_startResponse id model createdAt
  | added index item =>
    cases item with
    | none => exact accepts_ensureMessageStart index hok
    | some item =>
      obtain ⟨hbegun, hrunning, hnew⟩ := hok
      have hstart := accepts_ensureMessageStart (S := seen past) index
        (Or.inr ⟨hbegun, hrunning⟩)
      cases item with
      | message => exact hstart.andThen (accepts_openBlock rfl hrunning hnew)
      | functionCall callId name => exact hstart.andThen (accepts_startCall rfl hrunning hnew)
  | text index text =>
    refine Envelope.accepts_emit fun s m h => ⟨⟨?_, ?_⟩, h⟩
    · rw [h.stopped, hok.1]
    · rw [h.block, Seen.phase_of_open hok.2]
      rfl
  | arguments index fragment =>
    refine Envelope.accepts_emit fun s m h => ⟨⟨?_, ?_⟩, h⟩
    · rw [h.stopped, hok.1]
    · rw [h.block, Seen.phase_of_open hok.2]
      rfl
  | done index kind => exact accepts_finishItem hok.1 hok.2
  | completed reason usage =>
    exact accepts_complete hok.1 hok.2.1 (Seen.settled_iff.mp hok.2.2)
  | failed ended message =>
    have herror : Accepts (Envelope.step false) (Agrees (seen past)) (emit (.error message))
        (Agrees (seen past)) := Envelope.accepts_emit fun s m h => ⟨trivial, h⟩
    cases ended with
    | true => exact accepts_markCompleted.andThen herror
    | false => exact herror

/-! ## Signals out of place -/

/-- The message is opened before the response or after its own stop. -/
theorem within_ensureMessageStart {P : ParserState → Envelope → Prop}
    (hbad : ¬ (S.greeted = true ∨ S.begun = true ∧ S.completed = false)) :
    Within (Envelope.step false) (Agrees S) ensureMessageStart P := by
  intro s m h m' hm
  obtain ⟨hgreeted, hclosed⟩ := not_or.mp hbad
  rw [ensureMessageStart, if_neg (by rw [h.messageStart]; exact hgreeted)] at hm
  obtain ⟨⟨hstarted, -, hstop⟩, -⟩ := Envelope.exec_singleton_iff.mp hm
  exact absurd ⟨h.started.symm.trans hstarted, h.stopped.symm.trans hstop⟩ hclosed

/-- An item is added under an index that was taken, or outside the response. -/
theorem within_addItem {index : Nat} (item : AddedItem) {f : Parse}
    {P : ParserState → Envelope → Prop}
    (hf : ∀ s, ∃ es, (f s).2 = .contentBlockStart index item.kind.block :: es)
    (hbad : ¬ (S.begun = true ∧ S.completed = false ∧ S.added.lookup index = none)) :
    Within (Envelope.step false) (Agrees S) (andThen ensureMessageStart f) P := by
  by_cases hok : S.greeted = true ∨ S.begun = true ∧ S.completed = false
  · refine (accepts_ensureMessageStart index hok).within.andThen ?_
    intro s m h m' hm
    obtain ⟨es, hes⟩ := hf s
    rw [hes] at hm
    obtain ⟨-, hstop, hfresh⟩ := (Envelope.exec_cons_iff.mp hm).1
    refine absurd ⟨?_, h.stopped.symm.trans hstop, ?_⟩ hbad
    · exact h.begun_of_greeted rfl
    · rw [h.block] at hfresh
      exact Seen.new_of_phase hfresh
  · exact (within_ensureMessageStart (P := fun _ _ => False) hok).andThen
      fun _ _ h => h.elim

theorem within_finishItem {index : Nat} {kind : ItemKind} {P : ParserState → Envelope → Prop}
    (hbad : ¬ (S.completed = false ∧ S.openAs index = some kind)) :
    Within (Envelope.step false) (Agrees S) (apply (.done index kind)) P := by
  intro s m h m' hm
  cases kind with
  | message =>
    obtain ⟨⟨hstop, hclose⟩, -⟩ := Envelope.exec_singleton_iff.mp hm
    rw [h.block] at hclose
    obtain ⟨kind, hopen, hphase⟩ := Seen.openAs_of_isOpen (BlockPhase.isOpen_of_mayClose hclose)
    rw [hphase] at hclose
    cases kind with
    | message => exact absurd ⟨h.stopped.symm.trans hstop, hopen⟩ hbad
    | functionCall => cases hclose
  | functionCall =>
    obtain ⟨hstop, htool⟩ := (Envelope.exec_cons_iff.mp hm).1
    rw [h.block] at htool
    obtain ⟨kind, hopen, hphase⟩ := Seen.openAs_of_isOpen (BlockPhase.isOpen_of_isTool htool)
    rw [hphase] at htool
    cases kind with
    | message => cases htool
    | functionCall => exact absurd ⟨h.stopped.symm.trans hstop, hopen⟩ hbad

/-- A completion with an item open leaves its block open for good. -/
theorem within_complete {reason : StopReason} {usage : Option Usage}
    (hbad : ¬ (S.begun = true ∧ S.completed = false ∧ ∀ i, S.openAs i = none)) :
    Within (Envelope.step false) (Agrees S) (apply (.completed reason usage))
      fun _ m => m.Stranded := by
  intro s m h m' hm
  obtain ⟨⟨hstarted, hstop⟩, hm⟩ := Envelope.exec_cons_iff.mp hm
  obtain ⟨-, rfl⟩ := Envelope.exec_singleton_iff.mp hm
  rw [h.started] at hstarted
  rw [h.stopped] at hstop
  simp only [hstarted, hstop, true_and, not_forall] at hbad
  obtain ⟨i, hopen⟩ := hbad
  obtain ⟨kind, hkind⟩ := Option.ne_none_iff_exists'.mp hopen
  refine ⟨rfl, i, ?_⟩
  show (m.block i).isOpen = true
  rw [h.block, Seen.phase_of_open hkind]
  cases kind <;> rfl

/-- A signal out of place is refused or strands a block. -/
theorem within_apply {past : List Signal} {f : Signal} (hbad : ¬ (seen past).Admits f) :
    Within (Envelope.step false) (Agrees (seen past)) (apply f) fun _ m => m.Stranded := by
  cases f with
  | created id model createdAt => exact absurd trivial hbad
  | added index item =>
    cases item with
    | none => exact within_ensureMessageStart hbad
    | some item =>
      cases item with
      | message => exact within_addItem .message (fun _ => ⟨_, rfl⟩) hbad
      | functionCall callId name =>
        exact within_addItem (.functionCall callId name) (fun _ => ⟨_, rfl⟩) hbad
  | text index text =>
    refine Envelope.within_emit fun s m h hallow => absurd ?_ hbad
    obtain ⟨hstop, hphase⟩ := hallow
    refine ⟨h.stopped.symm.trans hstop, ?_⟩
    rw [h.block] at hphase
    obtain ⟨kind, hopen, hkind⟩ := Seen.openAs_of_isOpen (S := seen past) (by rw [hphase]; rfl)
    rw [hphase] at hkind
    cases kind with
    | message => exact hopen
    | functionCall => cases hkind
  | arguments index fragment =>
    refine Envelope.within_emit fun s m h hallow => absurd ?_ hbad
    obtain ⟨hstop, htool⟩ := hallow
    refine ⟨h.stopped.symm.trans hstop, ?_⟩
    rw [h.block] at htool
    obtain ⟨kind, hopen, hkind⟩ := Seen.openAs_of_isOpen (BlockPhase.isOpen_of_isTool htool)
    rw [hkind] at htool
    cases kind with
    | message => cases htool
    | functionCall => exact hopen
  | done index kind => exact within_finishItem hbad
  | completed reason usage =>
    refine within_complete fun h => hbad ⟨h.1, h.2.1, Seen.settled_iff.mpr h.2.2⟩
  | failed ended message => exact absurd trivial hbad

/-! ## The end of the stream -/

/-- The message is started and no block is open. -/
structure Settled (s : ParserState) (m : Envelope) : Prop where
  messageStop : s.emittedMessageStop = false
  started : m.started = true
  stopped : m.stopped = false
  running : m.concluded = false
  closed : ∀ i, (m.block i).isOpen = false

theorem orphaned_perm (blocks : BlockMap) :
    (orphaned blocks).Perm (blocks.entries.map fun b => (b.1, b.2)) :=
  List.mergeSort_perm _ _

theorem nodup_orphaned (blocks : BlockMap) : ((orphaned blocks).map Prod.fst).Nodup := by
  refine (((orphaned_perm blocks).map Prod.fst).nodup_iff).mpr ?_
  rw [List.map_map]
  exact blocks.nodupKeys

theorem mem_orphaned {blocks : BlockMap} {i : Nat} {kind : ContentBlockKind} :
    (i, kind) ∈ orphaned blocks ↔ blocks.lookup i = some kind := by
  rw [(orphaned_perm blocks).mem_iff, List.mem_map]
  constructor
  · rintro ⟨⟨j, block⟩, hmem, heq⟩
    cases heq
    exact AList.mem_lookup_iff.mpr hmem
  · intro h
    exact ⟨⟨i, kind⟩, AList.mem_lookup_iff.mp h, rfl⟩

/-- The drain closes what the upstream left open. -/
theorem accepts_closeOrphaned (hbegun : S.begun = true) (hrunning : S.completed = false) :
    Accepts (Envelope.step false) (Agrees S) closeOrphaned Settled := by
  intro s m h
  have hstop : m.stopped = false := h.stopped.trans hrunning
  refine ⟨_, Envelope.exec_closeBlocks hstop (nodup_orphaned s.openBlocks) ?_, ?_⟩
  · rintro ⟨i, block⟩ hb
    rw [mem_orphaned, h.openBlocks] at hb
    obtain ⟨kind, hopen, rfl⟩ := Option.map_eq_some_iff.mp hb
    rw [h.block, Seen.phase_of_open hopen]
    cases kind <;> rfl
  · refine ⟨h.messageStop.trans hrunning, h.started.trans hbegun, hstop,
      h.concluded.trans hrunning, fun i => ?_⟩
    by_cases hi : i ∈ (orphaned s.openBlocks).map Prod.fst
    · simp [Envelope.closeAll, hi, BlockPhase.isOpen]
    · have hopen : S.openAs i = none := by
        by_contra hne
        obtain ⟨kind, hkind⟩ := Option.ne_none_iff_exists'.mp hne
        have hlookup := h.openBlocks i
        rw [hkind] at hlookup
        exact hi (List.mem_map_of_mem (mem_orphaned.mpr hlookup))
      simp only [Envelope.closeAll, if_neg hi, h.block]
      exact Seen.not_isOpen_of_closed hopen

theorem accepts_stop :
    Accepts (Envelope.step false) Settled
      (andThen ensureMessageStop (stopResponse none)) fun _ m => m.Closed := by
  intro s m h
  have hrun : ensureMessageStop s = stopMessage .endTurn s := by
    rw [ensureMessageStop, h.messageStop]
    rfl
  refine ⟨{ m with stopped := true, concluded := true }, ?_, rfl, h.closed⟩
  rw [andThen_apply, hrun]
  refine Envelope.exec_cons_iff.mpr ⟨⟨h.started, h.stopped⟩, ?_⟩
  exact Envelope.exec_singleton_iff.mpr ⟨⟨rfl, h.running⟩, rfl⟩

theorem accepts_finalize (hbegun : S.begun = true) :
    Accepts (Envelope.step false) (Agrees S) finalize fun _ m => m.Closed := by
  intro s m h
  cases hcompleted : S.completed with
  | true =>
    rw [finalize, if_pos (h.responseStop.trans hcompleted)]
    refine ⟨m, rfl, h.concluded.trans hcompleted, fun i => ?_⟩
    rw [h.block]
    exact Seen.not_isOpen_of_closed (h.settled hcompleted i)
  | false =>
    have hrun : finalize s = andThen ensureMessageStart (andThen closeOrphaned
        (andThen ensureMessageStop (stopResponse none))) s := by
      simp [finalize, h.responseStop.trans hcompleted, h.responseStart.trans hbegun]
    rw [hrun]
    exact (accepts_ensureMessageStart 0 (Or.inr ⟨hbegun, hcompleted⟩)).andThen
      ((accepts_closeOrphaned (S := S.add (.added 0 none)) hbegun hcompleted).andThen
        accepts_stop) s m h

/-- A response that was never created has no envelope. -/
theorem within_finalize_empty (hbegun : S.begun = false) :
    Within (Envelope.step false) (Agrees S) finalize fun _ m => ¬ m.Closed := by
  intro s m h m' hm
  have hcompleted : S.completed = false :=
    Bool.eq_false_iff.mpr fun hc => by rw [h.begun_of_completed hc] at hbegun; cases hbegun
  have hquiet : finalize s = (s, []) := by
    rw [finalize, h.responseStop, h.responseStart, hcompleted, hbegun]
    rfl
  rw [hquiet] at hm
  cases hm
  intro hclosed
  have hconcluded := hclosed.1
  rw [h.concluded, hcompleted] at hconcluded
  cases hconcluded

/-! ## Whole runs -/

/-- Before anything is read. -/
theorem agrees_init : Agrees (seen []) {} {} :=
  { responseStart := rfl, messageStart := rfl, messageStop := rfl, responseStop := rfl,
    openBlocks := fun _ => rfl, started := rfl, greeted := rfl, stopped := rfl, concluded := rfl,
    block := fun _ => rfl, begun_of_greeted := nofun, begun_of_completed := nofun,
    added_of_finished := nofun, settled := nofun }

theorem events_eq (upstream : List (String × Json)) :
    events upstream = (andThen (forEach apply (signals upstream)) finalize {}).2 := by
  have hall : forEach handle (upstream.map fun e => .event e.1 (.ok e.2)) =
      okItems (forEach apply (signals upstream)) := by
    rw [forEach_map, signals, ← forEach_flatMap fun e : String × Json => handleEvent_eq e.1 e.2]
    exact forEach_okItems _ _
  rw [events, poll, hall]
  simp only [andThen, okItems, ← List.map_append, okEvents_map_ok]

theorem signal_isCreated_iff (eventType : String) (data : Json) :
    (signal eventType data).toList.any Signal.isCreated = true ↔
      eventType = "response.created" ∨ eventType = "response.in_progress" := by
  unfold signal
  split
  · simp [Signal.isCreated]
  · simp [Signal.isCreated]
  · simp [Signal.isCreated]
  · cases nonEmpty data "delta" <;> simp [Signal.isCreated]
  · cases nonEmpty data "delta" <;> simp [Signal.isCreated]
  · cases finishedKind data <;> simp [Signal.isCreated]
  · simp [Signal.isCreated]
  · simp [Signal.isCreated]
  · simp [Signal.isCreated]
  · rename_i h₁ h₂ _ _ _ _ _ _ _
    refine iff_of_false (by simp) ?_
    rintro (h | h)
    · exact h₁ h
    · exact h₂ h

theorem any_isCreated_iff (upstream : List (String × Json)) :
    (signals upstream).any Signal.isCreated = true ↔
      ∃ e ∈ upstream, e.1 = "response.created" ∨ e.1 = "response.in_progress" := by
  rw [signals, List.any_flatMap, List.any_eq_true]
  simp only [signal_isCreated_iff]

/-- The events are lifecycle-valid iff the response was created and the upstream
kept the protocol of its output items. -/
theorem responses_lifecycle_iff (upstream : List (String × Json)) :
    LifecycleValid (events upstream) ↔
      (∃ e ∈ upstream, e.1 = "response.created" ∨ e.1 = "response.in_progress") ∧
        WellOrdered upstream := by
  rw [lifecycleValid_iff, ← any_isCreated_iff, events_eq]
  exact exec_andThen_iff (R := fun past => Agrees (seen past)) (Q := fun _ m => m.Closed)
    (B := fun past => past.any Signal.isCreated = true)
    (fun _ _ _ hok => accepts_apply hok) (fun _ _ _ hbad => within_apply hbad)
    (fun _ => Envelope.within_stranded _)
    (fun past h => accepts_finalize (S := seen past) h)
    (fun past h => within_finalize_empty (S := seen past) (Bool.eq_false_iff.mpr h))
    ((Envelope.within_stranded finalize).mono (fun _ _ h => h) fun _ _ h => h.not_closed)
    (throughout_of_forall fun _ _ _ => trivial) agrees_init

/-- A message is added, and the response completes before the message is done. -/
def completedEarly : List (String × Json) :=
  [("response.created", .obj [("id", .str "resp_1"), ("model", .str "m")]),
   ("response.output_item.added",
     .obj [("output_index", .num (.int 0)), ("item", .obj [("type", .str "message")])]),
   ("response.output_text.delta",
     .obj [("output_index", .num (.int 0)), ("delta", .str "Hello")]),
   ("response.completed", .obj [("status", .str "completed")])]

/-- The block of the message is never closed. -/
theorem completedEarly_not_valid : ¬ LifecycleValid (events completedEarly) := by
  decide

end ResponsesSse

end AgentShim
