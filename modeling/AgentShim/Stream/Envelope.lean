import AgentShim.Core.Types
import AgentShim.Lib.Transducer

/-
  The envelope of a canonical stream

  What the events of a canonical stream are for, as a monitor: a response opens
  and closes the stream, a message opens and closes inside it, and every block
  index goes once through fresh, open and closed. A tool block is called, takes
  its arguments and is ended before it closes. Errors are neutral.

  With `nested` the tool events of a block must also come in the order start,
  arguments, stop; without it the monitor asks of them only that the block is an
  open tool block, and of the block that it was ended before it closes.

  What is proved:
    1. `step_eq_some`, `exec_cons_iff`, `after_block_of_ne` — what one event does, and that
       it leaves the blocks alone that it is not about.
    2. `accepts_emit`, `within_of_stopped`, `exec_closeTools_stop` — the rules a
       parser's proof uses: to put out an event, to put one out too late, to end
       and close a list of tool blocks in any order and stop the message.
    3. `Allows.lenient` — what the nested monitor takes the other takes too.
-/

namespace AgentShim

namespace StreamEvent

def isError : StreamEvent → Bool
  | .error _ => true
  | _ => false

def isResponseStart : StreamEvent → Bool
  | .responseStart .. => true
  | _ => false

def isResponseStop : StreamEvent → Bool
  | .responseStop _ => true
  | _ => false

def isMessageStop : StreamEvent → Bool
  | .messageStop _ _ => true
  | _ => false

/-- An event of the message, from its start to its stop. -/
def inMessage : StreamEvent → Bool
  | .error _ | .responseStart .. | .responseStop _ | .usageDelta _ | .rawProviderEvent .. => false
  | _ => true

/-- The block that an event is about. -/
def blockIndex : StreamEvent → Option Nat
  | .contentBlockStart i _ | .contentBlockStop i | .textDelta i _ | .reasoningDelta i _
  | .toolCallStart i _ _ | .toolCallArgumentsDelta i _ | .toolCallStop i => some i
  | _ => none

end StreamEvent

/-- Where a block index is in its life. -/
inductive BlockPhase
  | fresh
  | opened (kind : ContentBlockKind)
  | called
  | ended
  | closed
  deriving DecidableEq, Repr

namespace BlockPhase

def isOpen : BlockPhase → Bool
  | fresh | closed => false
  | opened _ | called | ended => true

/-- A tool block that is open. -/
def isTool : BlockPhase → Bool
  | opened .toolCall | called | ended => true
  | _ => false

/-- An open block that may close: a tool block only once it is ended. -/
def mayClose : BlockPhase → Bool
  | opened .toolCall => false
  | opened _ | ended => true
  | _ => false

/-- The phases in which a tool event is taken. -/
def takesStart (nested : Bool) (p : BlockPhase) : Bool :=
  if nested then p == opened .toolCall else p.isTool

def takesArguments (nested : Bool) (p : BlockPhase) : Bool :=
  if nested then p == called else p.isTool

def takesStop (nested : Bool) (p : BlockPhase) : Bool :=
  if nested then p == called else p.isTool

/-- A repeated start of an ended block leaves it ended. -/
def afterStart : BlockPhase → BlockPhase
  | ended => ended
  | _ => called

theorem isOpen_of_isTool {p : BlockPhase} (h : p.isTool = true) : p.isOpen = true := by
  cases p <;> first | rfl | cases h

theorem isOpen_of_mayClose {p : BlockPhase} (h : p.mayClose = true) : p.isOpen = true := by
  cases p <;> first | rfl | cases h

end BlockPhase

/-- What of the envelope has been seen, and the phase of every block index. -/
structure Envelope where
  started : Bool := false
  greeted : Bool := false
  stopped : Bool := false
  concluded : Bool := false
  block : Nat → BlockPhase := fun _ => .fresh

namespace Envelope

/-- The events that may come next. -/
def Allows (nested : Bool) (m : Envelope) : StreamEvent → Prop
  | .error _ => True
  | .responseStart _ _ _ => m.started = false
  | .messageStart _ => m.started = true ∧ m.greeted = false ∧ m.stopped = false
  | .contentBlockStart i _ => m.greeted = true ∧ m.stopped = false ∧ m.block i = .fresh
  | .contentBlockStop i => m.stopped = false ∧ (m.block i).mayClose = true
  | .textDelta i _ => m.stopped = false ∧ m.block i = .opened .text
  | .reasoningDelta i _ => m.stopped = false ∧ m.block i = .opened .reasoning
  | .toolCallStart i _ _ => m.stopped = false ∧ (m.block i).takesStart nested = true
  | .toolCallArgumentsDelta i _ => m.stopped = false ∧ (m.block i).takesArguments nested = true
  | .toolCallStop i => m.stopped = false ∧ (m.block i).takesStop nested = true
  | .messageStop _ _ => m.started = true ∧ m.stopped = false
  | .responseStop _ => m.stopped = true ∧ m.concluded = false
  | .usageDelta _ | .rawProviderEvent _ _ _ => m.started = true ∧ m.concluded = false

instance (nested : Bool) (m : Envelope) : (e : StreamEvent) → Decidable (m.Allows nested e)
  | .error _ => isTrue trivial
  | .responseStart _ _ _ => inferInstanceAs (Decidable (_ = _))
  | .messageStart _ => inferInstanceAs (Decidable (_ ∧ _))
  | .contentBlockStart _ _ => inferInstanceAs (Decidable (_ ∧ _))
  | .contentBlockStop _ => inferInstanceAs (Decidable (_ ∧ _))
  | .textDelta _ _ => inferInstanceAs (Decidable (_ ∧ _))
  | .reasoningDelta _ _ => inferInstanceAs (Decidable (_ ∧ _))
  | .toolCallStart _ _ _ => inferInstanceAs (Decidable (_ ∧ _))
  | .toolCallArgumentsDelta _ _ => inferInstanceAs (Decidable (_ ∧ _))
  | .toolCallStop _ => inferInstanceAs (Decidable (_ ∧ _))
  | .messageStop _ _ => inferInstanceAs (Decidable (_ ∧ _))
  | .responseStop _ => inferInstanceAs (Decidable (_ ∧ _))
  | .usageDelta _ => inferInstanceAs (Decidable (_ ∧ _))
  | .rawProviderEvent _ _ _ => inferInstanceAs (Decidable (_ ∧ _))

def setBlock (m : Envelope) (i : Nat) (p : BlockPhase) : Envelope :=
  { m with block := Function.update m.block i p }

def after (m : Envelope) : StreamEvent → Envelope
  | .responseStart _ _ _ => { m with started := true }
  | .messageStart _ => { m with greeted := true }
  | .contentBlockStart i kind => m.setBlock i (.opened kind)
  | .contentBlockStop i => m.setBlock i .closed
  | .toolCallStart i _ _ => m.setBlock i (m.block i).afterStart
  | .toolCallStop i => m.setBlock i .ended
  | .messageStop _ _ => { m with stopped := true }
  | .responseStop _ => { m with concluded := true }
  | .error _ | .textDelta _ _ | .reasoningDelta _ _ | .toolCallArgumentsDelta _ _
  | .usageDelta _ | .rawProviderEvent _ _ _ => m

/-- One event, if it may come next. -/
def step (nested : Bool) (m : Envelope) (e : StreamEvent) : Option Envelope :=
  if m.Allows nested e then some (m.after e) else none

/-- The response was stopped and no block is open. -/
def Closed (m : Envelope) : Prop := m.concluded = true ∧ ∀ i, (m.block i).isOpen = false

@[simp] theorem setBlock_started (m : Envelope) (i : Nat) (p : BlockPhase) :
    (m.setBlock i p).started = m.started := rfl

@[simp] theorem setBlock_greeted (m : Envelope) (i : Nat) (p : BlockPhase) :
    (m.setBlock i p).greeted = m.greeted := rfl

@[simp] theorem setBlock_stopped (m : Envelope) (i : Nat) (p : BlockPhase) :
    (m.setBlock i p).stopped = m.stopped := rfl

@[simp] theorem setBlock_concluded (m : Envelope) (i : Nat) (p : BlockPhase) :
    (m.setBlock i p).concluded = m.concluded := rfl

theorem setBlock_block (m : Envelope) (i j : Nat) (p : BlockPhase) :
    (m.setBlock i p).block j = if j = i then p else m.block j :=
  Function.update_apply m.block i p j

@[simp] theorem setBlock_block_self (m : Envelope) (i : Nat) (p : BlockPhase) :
    (m.setBlock i p).block i = p := by
  rw [setBlock_block, if_pos rfl]

theorem setBlock_block_of_ne (m : Envelope) {i j : Nat} (p : BlockPhase) (h : j ≠ i) :
    (m.setBlock i p).block j = m.block j := by
  rw [setBlock_block, if_neg h]

/-- An event leaves the blocks alone that it is not about. -/
theorem after_block_of_ne (m : Envelope) {e : StreamEvent} {j : Nat}
    (h : e.blockIndex ≠ some j) : (m.after e).block j = m.block j := by
  have hset : ∀ i p, e.blockIndex = some i → (m.setBlock i p).block j = m.block j := by
    intro i p hi
    refine setBlock_block_of_ne m p ?_
    rintro rfl
    exact h hi
  cases e with
  | contentBlockStart i kind => exact hset i _ rfl
  | contentBlockStop i => exact hset i _ rfl
  | toolCallStart i id name => exact hset i _ rfl
  | toolCallStop i => exact hset i _ rfl
  | _ => rfl

theorem step_eq_some {nested : Bool} {m m' : Envelope} {e : StreamEvent} :
    step nested m e = some m' ↔ m.Allows nested e ∧ m.after e = m' := by
  unfold step
  split <;> simp_all

theorem exec_cons_iff {nested : Bool} {m m' : Envelope} {e : StreamEvent}
    {es : List StreamEvent} :
    Runs.exec (step nested) m (e :: es) = some m' ↔
      m.Allows nested e ∧ Runs.exec (step nested) (m.after e) es = some m' := by
  rw [Runs.exec_cons_eq_some]
  constructor
  · rintro ⟨m₁, h, hrest⟩
    obtain ⟨hallow, rfl⟩ := step_eq_some.mp h
    exact ⟨hallow, hrest⟩
  · rintro ⟨hallow, hrest⟩
    exact ⟨_, step_eq_some.mpr ⟨hallow, rfl⟩, hrest⟩

theorem exec_singleton_iff {nested : Bool} {m m' : Envelope} {e : StreamEvent} :
    Runs.exec (step nested) m [e] = some m' ↔ m.Allows nested e ∧ m.after e = m' := by
  rw [exec_cons_iff, Runs.exec_nil, Option.some.injEq]

/-- What the nested monitor takes the other takes too. -/
theorem Allows.lenient {m : Envelope} {e : StreamEvent} {nested : Bool}
    (h : m.Allows nested e) : m.Allows false e := by
  cases nested with
  | false => exact h
  | true =>
    cases e with
    | toolCallStart i id name =>
      refine ⟨h.1, ?_⟩
      have hphase : m.block i = .opened .toolCall := by simpa [BlockPhase.takesStart] using h.2
      rw [hphase]
      rfl
    | toolCallArgumentsDelta i frag =>
      refine ⟨h.1, ?_⟩
      have hphase : m.block i = .called := by simpa [BlockPhase.takesArguments] using h.2
      rw [hphase]
      rfl
    | toolCallStop i =>
      refine ⟨h.1, ?_⟩
      have hphase : m.block i = .called := by simpa [BlockPhase.takesStop] using h.2
      rw [hphase]
      rfl
    | _ => exact h

/-- No event is about a closed block. -/
theorem Allows.blockIndex_ne {nested : Bool} {m : Envelope} {e : StreamEvent}
    (h : m.Allows nested e) {j : Nat} (hj : m.block j = .closed) : e.blockIndex ≠ some j := by
  have hlenient := h.lenient
  cases e <;> rintro he <;> cases he <;> have hphase := hlenient.2
  case contentBlockStart.refl kind =>
    rw [hj] at hphase
    cases hphase.2
  all_goals
    rw [hj] at hphase
    cases hphase

variable {σ : Type*} {nested : Bool} {P Q : σ → Envelope → Prop}

open Transducer

theorem accepts_emit {e : StreamEvent}
    (h : ∀ s m, P s m → m.Allows nested e ∧ Q s (m.after e)) :
    Accepts (step nested) P (emit e) Q := by
  intro s m hp
  obtain ⟨hallow, hq⟩ := h s m hp
  exact ⟨m.after e, exec_singleton_iff.mpr ⟨hallow, rfl⟩, hq⟩

/-- After the message nothing of the message is taken. -/
theorem Allows.not_inMessage {m : Envelope} {e : StreamEvent} (h : m.Allows nested e)
    (hstop : m.stopped = true) : e.inMessage = false := by
  cases e <;> simp_all [Allows, StreamEvent.inMessage]

theorem stopped_after {m : Envelope} {e : StreamEvent} (hstop : m.stopped = true) :
    (m.after e).stopped = true := by
  cases e <;> simp_all [after]

theorem block_after {m : Envelope} {e : StreamEvent} (h : e.inMessage = false) :
    (m.after e).block = m.block := by
  cases e <;> simp_all [after, StreamEvent.inMessage]

theorem not_inMessage_of_exec {m m' : Envelope} {es : List StreamEvent}
    (hstop : m.stopped = true) (h : Runs.exec (step nested) m es = some m') :
    (∀ e ∈ es, e.inMessage = false) ∧ m'.stopped = true ∧ m'.block = m.block := by
  induction es generalizing m with
  | nil =>
    cases h
    exact ⟨by simp, hstop, rfl⟩
  | cons e es ih =>
    obtain ⟨hallow, hrest⟩ := exec_cons_iff.mp h
    have hout := hallow.not_inMessage hstop
    obtain ⟨hall, hlast, hblock⟩ := ih (stopped_after hstop) hrest
    exact ⟨List.forall_mem_cons.mpr ⟨hout, hall⟩, hlast, hblock.trans (block_after hout)⟩

/-- The message was stopped with a block open. -/
def Stranded (m : Envelope) : Prop := m.stopped = true ∧ ∃ i, (m.block i).isOpen = true

theorem Stranded.not_closed {m : Envelope} (h : m.Stranded) : ¬ m.Closed := by
  rintro ⟨-, hclosed⟩
  obtain ⟨i, hopen⟩ := h.2
  rw [hclosed i] at hopen
  cases hopen

/-- Nothing closes a block after the message. -/
theorem within_stranded (f : Emitter σ StreamEvent) :
    Within (step nested) (fun _ m => m.Stranded) f (fun _ m => m.Stranded) := by
  rintro s m ⟨hstop, i, hopen⟩ m' hm
  obtain ⟨-, hlast, hblock⟩ := not_inMessage_of_exec hstop hm
  exact ⟨hlast, i, by rw [hblock, hopen]⟩

/-- An event of the message put out after the message is refused. -/
theorem within_of_stopped {f : Emitter σ StreamEvent} (hstop : ∀ s m, P s m → m.stopped = true)
    (h : ∀ s m, P s m → ∃ e ∈ (f s).2, e.inMessage = true) : Within (step nested) P f Q := by
  intro s m hp m' hm
  obtain ⟨e, he, hin⟩ := h s m hp
  rw [(not_inMessage_of_exec (hstop s m hp) hm).1 e he] at hin
  cases hin

theorem within_emit {e : StreamEvent} (h : ∀ s m, P s m → m.Allows nested e → Q s (m.after e)) :
    Within (step nested) P (emit e) Q := by
  intro s m hp m' hm
  obtain ⟨hallow, rfl⟩ := exec_singleton_iff.mp hm
  exact h s m hp hallow

/-- Closes each block of a list, a tool block once it is ended. -/
def closeBlocks (blocks : List (Nat × ContentBlockKind)) : List StreamEvent :=
  blocks.flatMap fun b =>
    (if b.2 = .toolCall then [.toolCallStop b.1] else []) ++ [.contentBlockStop b.1]

/-- Ends and closes each block of a list. -/
def closeTools (order : List Nat) : List StreamEvent :=
  order.flatMap fun i => [.toolCallStop i, .contentBlockStop i]

/-- The envelope once every block of the list is closed. -/
def closeAll (m : Envelope) (order : List Nat) : Envelope :=
  { m with block := fun i => if i ∈ order then .closed else m.block i }

/-- The phases in which a block of the kind can be closed for good. -/
def CanClose (nested : Bool) (p : BlockPhase) (kind : ContentBlockKind) : Prop :=
  if kind = .toolCall then p.takesStop nested = true else p.mayClose = true

theorem setBlock_closeAll (m : Envelope) (i : Nat) (order : List Nat) :
    (m.setBlock i .closed).closeAll order = m.closeAll (i :: order) := by
  simp only [closeAll, setBlock, Envelope.mk.injEq, true_and]
  funext j
  by_cases hj : j ∈ order
  · simp [hj]
  · by_cases hji : j = i
    · simp [hji]
    · simp [hj, hji]

theorem setBlock_setBlock (m : Envelope) (i : Nat) (p q : BlockPhase) :
    (m.setBlock i p).setBlock i q = m.setBlock i q := by
  simp only [setBlock, Function.update_idem]

/-- A tool block is ended and closed. -/
theorem exec_stopTool {m : Envelope} {i : Nat} (hstop : m.stopped = false)
    (htakes : (m.block i).takesStop nested = true) (es : List StreamEvent) :
    Runs.exec (step nested) m (.toolCallStop i :: .contentBlockStop i :: es) =
      Runs.exec (step nested) (m.setBlock i .closed) es := by
  have hended : step nested m (.toolCallStop i) = some (m.setBlock i .ended) :=
    step_eq_some.mpr ⟨⟨hstop, htakes⟩, rfl⟩
  have hclosed : step nested (m.setBlock i .ended) (.contentBlockStop i) =
      some (m.setBlock i .closed) := by
    refine step_eq_some.mpr ⟨⟨hstop, ?_⟩, setBlock_setBlock m i _ _⟩
    rw [setBlock_block_self]
    rfl
  simp [Runs.exec_cons, hended, hclosed]

theorem exec_closeBlock {m : Envelope} {i : Nat} {kind : ContentBlockKind} {es : List StreamEvent}
    (hstop : m.stopped = false) (hclose : CanClose nested (m.block i) kind) :
    Runs.exec (step nested) m
        ((if kind = .toolCall then [.toolCallStop i] else []) ++ [.contentBlockStop i] ++ es) =
      Runs.exec (step nested) (m.setBlock i .closed) es := by
  unfold CanClose at hclose
  by_cases hkind : kind = .toolCall
  · rw [if_pos hkind] at hclose
    rw [if_pos hkind]
    exact exec_stopTool hstop hclose es
  · rw [if_neg hkind] at hclose
    have hclosed : step nested m (.contentBlockStop i) = some (m.setBlock i .closed) :=
      step_eq_some.mpr ⟨⟨hstop, hclose⟩, rfl⟩
    simp [hkind, Runs.exec_cons, hclosed]

theorem exec_closeBlocks {m : Envelope} {blocks : List (Nat × ContentBlockKind)}
    (hstop : m.stopped = false) (hnodup : (blocks.map Prod.fst).Nodup)
    (hclose : ∀ b ∈ blocks, CanClose nested (m.block b.1) b.2) :
    Runs.exec (step nested) m (closeBlocks blocks) = some (m.closeAll (blocks.map Prod.fst)) := by
  induction blocks generalizing m with
  | nil => simp [closeBlocks, closeAll]
  | cons b blocks ih =>
    obtain ⟨hb, hnodup⟩ := List.nodup_cons.mp hnodup
    rw [closeBlocks, List.flatMap_cons,
      exec_closeBlock hstop (hclose b List.mem_cons_self), ← closeBlocks,
      ih (m := m.setBlock b.1 .closed) hstop hnodup]
    · rw [setBlock_closeAll, List.map_cons]
    · intro c hc
      have hne : c.1 ≠ b.1 := fun h => hb (h ▸ List.mem_map_of_mem hc)
      rw [setBlock_block_of_ne _ _ hne]
      exact hclose c (List.mem_cons_of_mem b hc)

theorem closeTools_eq (order : List Nat) :
    closeTools order = closeBlocks (order.map fun i => (i, .toolCall)) := by
  rw [closeTools, closeBlocks, List.flatMap_map]
  rfl

theorem exec_closeTools (nested : Bool) {m : Envelope} {order : List Nat}
    (hstop : m.stopped = false)
    (hnodup : order.Nodup) (htakes : ∀ i ∈ order, (m.block i).takesStop nested = true) :
    Runs.exec (step nested) m (closeTools order) = some (m.closeAll order) := by
  have hindices : (order.map fun i => (i, ContentBlockKind.toolCall)).map Prod.fst = order := by
    rw [List.map_map]
    exact List.map_id order
  rw [closeTools_eq, exec_closeBlocks hstop (by rwa [hindices]), hindices]
  intro b hb
  obtain ⟨i, hi, rfl⟩ := List.mem_map.mp hb
  exact htakes i hi

/-- The tool blocks are ended and closed, and the message stops. -/
theorem exec_closeTools_stop (nested : Bool) {m : Envelope} {order : List Nat}
    (reason : StopReason) (hstarted : m.started = true) (hstop : m.stopped = false)
    (hnodup : order.Nodup) (htakes : ∀ i ∈ order, (m.block i).takesStop nested = true) :
    Runs.exec (step nested) m (closeTools order ++ [.messageStop reason none]) =
      some { m.closeAll order with stopped := true } := by
  have hclose := exec_closeTools nested hstop hnodup htakes
  have hallow : (m.closeAll order).Allows nested (.messageStop reason none) := ⟨hstarted, hstop⟩
  exact Runs.exec_append_eq_some.mpr ⟨_, hclose, exec_singleton_iff.mpr ⟨hallow, rfl⟩⟩

end Envelope

end AgentShim
