import AgentShim.Core.Json
import AgentShim.Stream.Envelope

/-
  The reasoning interleaver

  Text and reasoning deltas of one stream become blocks: a block is open at a
  time, a delta of the other kind closes it and opens the next, and the blocks
  are numbered in order.

  Correspondence (Rust ↔ Lean):
    `DeltaKind`, `State`                    ↔ `DeltaKind`, `InterleaverState`
    `ReasoningInterleaver`, `next_index`    ↔ `ReasoningInterleaver`, `nextIndex`
    `push`, `flush`, `open_new_block`       ↔ `push`, `flush`, `openNewBlock`

  What is proved:
    1. `push_same`, `push_other` — a delta goes into the open block of its kind;
       otherwise the open block is closed and a new one opened.
-/

namespace AgentShim

/-- Regular assistant text or reasoning content. -/
inductive DeltaKind
  | text
  | reasoning
  deriving DecidableEq, Repr

namespace DeltaKind

def blockKind : DeltaKind → ContentBlockKind
  | text => .text
  | reasoning => .reasoning

def delta (index : Nat) (s : String) : DeltaKind → StreamEvent
  | text => .textDelta index s
  | reasoning => .reasoningDelta index s

end DeltaKind

/-- Which block is open, and at which index. -/
inductive InterleaverState
  | idle
  | inText (index : Nat)
  | inReasoning (index : Nat)
  deriving DecidableEq, Repr

structure ReasoningInterleaver where
  state : InterleaverState := .idle
  nextIndex : Nat := 0
  deriving DecidableEq, Repr

namespace ReasoningInterleaver

open Transducer

abbrev Interleave := Emitter ReasoningInterleaver StreamEvent

def openNewBlock (kind : DeltaKind) (text : String) : Interleave := fun it =>
  match kind with
  | .text =>
    ({ state := .inText it.nextIndex, nextIndex := Wire.addU32 it.nextIndex 1 },
      [.contentBlockStart it.nextIndex .text, .textDelta it.nextIndex text])
  | .reasoning =>
    ({ state := .inReasoning it.nextIndex, nextIndex := Wire.addU32 it.nextIndex 1 },
      [.contentBlockStart it.nextIndex .reasoning, .reasoningDelta it.nextIndex text])

/-- Closes the open block, if any. -/
def flush : Interleave := fun it =>
  match it.state with
  | .idle => (it, [])
  | .inText index | .inReasoning index =>
    ({ it with state := .idle }, [.contentBlockStop index])

def push (kind : DeltaKind) (text : String) : Interleave := fun it =>
  if text = "" then (it, [])
  else
    match it.state, kind with
    | .inText index, .text => (it, [.textDelta index text])
    | .inReasoning index, .reasoning => (it, [.reasoningDelta index text])
    | .idle, kind => openNewBlock kind text it
    | .inText index, .reasoning | .inReasoning index, .text =>
      andThen (fun it => ({ it with state := .idle }, [.contentBlockStop index]))
        (openNewBlock kind text) it

/-- The state with a block of a kind open. -/
def within (index : Nat) : DeltaKind → InterleaverState
  | .text => .inText index
  | .reasoning => .inReasoning index

theorem push_same {kind : DeltaKind} {text : String} {it : ReasoningInterleaver} {index : Nat}
    (htext : text ≠ "") (hstate : it.state = within index kind) :
    push kind text it = (it, [kind.delta index text]) := by
  unfold push
  rw [if_neg htext, hstate]
  cases kind <;> rfl

theorem push_other {kind : DeltaKind} {text : String} {it : ReasoningInterleaver}
    (htext : text ≠ "") (hstate : ∀ index, it.state ≠ within index kind) :
    push kind text it = andThen flush (openNewBlock kind text) it := by
  unfold push andThen flush
  rw [if_neg htext]
  cases hs : it.state with
  | idle => rfl
  | inText index =>
    cases kind with
    | text => exact absurd hs (hstate index)
    | reasoning => rfl
  | inReasoning index =>
    cases kind with
    | text => rfl
    | reasoning => exact absurd hs (hstate index)

theorem openNewBlock_eq (kind : DeltaKind) (text : String) (it : ReasoningInterleaver) :
    openNewBlock kind text it =
      ({ state := within it.nextIndex kind, nextIndex := Wire.addU32 it.nextIndex 1 },
        [.contentBlockStart it.nextIndex kind.blockKind, kind.delta it.nextIndex text]) := by
  cases kind <;> rfl

theorem flush_within {it : ReasoningInterleaver} {index : Nat} {kind : DeltaKind}
    (h : it.state = within index kind) :
    flush it = ({ it with state := .idle }, [.contentBlockStop index]) := by
  rw [flush, h]
  cases kind <;> rfl

theorem flush_idle {it : ReasoningInterleaver} (h : it.state = .idle) : flush it = (it, []) := by
  rw [flush, h]

/-- A delta of a kind is taken in an open block of the kind. -/
theorem allows_delta {nested : Bool} {m : Envelope} {kind : DeltaKind} {index : Nat}
    {text : String} (hstop : m.stopped = false) (hblock : m.block index = .opened kind.blockKind) :
    m.Allows nested (kind.delta index text) := by
  cases kind <;> exact ⟨hstop, hblock⟩

@[simp] theorem after_delta (m : Envelope) (kind : DeltaKind) (index : Nat) (text : String) :
    m.after (kind.delta index text) = m := by
  cases kind <;> rfl

theorem mayClose_blockKind (kind : DeltaKind) :
    (BlockPhase.opened kind.blockKind).mayClose = true := by
  cases kind <;> rfl

theorem inMessage_delta (kind : DeltaKind) (index : Nat) (text : String) :
    (kind.delta index text).inMessage = true := by
  cases kind <;> rfl

end ReasoningInterleaver

end AgentShim
