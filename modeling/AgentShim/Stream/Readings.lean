import AgentShim.Core.Content
import AgentShim.Stream.Blocks

/-
  What is read off a response

  A block of a stream and a block of content of a whole response come to the same
  for a client when they read the same: the same text, or the same call with the
  same arguments as text. What a stream has come to is kept as it goes: its blocks,
  how it was stopped, the usage it carried.

  What is proved:
    1. `exec_hear` — what was heard of a stream is its blocks, its stops and its
       usage.
    2. `addPart_head`, `exec_hear_call` — what is heard of the newest block.
-/

namespace AgentShim

/-- What a block is for a client. -/
inductive Spoken
  | text (text : String)
  | reasoning (text : String)
  | call (id name arguments : String)
  deriving DecidableEq, Repr

/-- What a block of content reads, its JSON rendered as text. -/
def ContentBlock.reading (render : Json → String) : ContentBlock → Option Spoken
  | .text b => some (.text b.text)
  | .reasoning b => some (.reasoning b.text)
  | .toolCall b =>
    match b.arguments with
    | .complete value => some (.call b.id b.name (render value))
    | .streaming data => some (.call b.id b.name data)
  | .image _ | .audio _ | .file _ | .toolResult _ | .redactedReasoning _ | .unsupported _ => none

/-- What a block of a stream reads; nothing where it is no call, or several. -/
def Block.reading (b : Block) : Option Spoken :=
  match b.kind with
  | .text => some (.text b.text)
  | .reasoning => some (.reasoning b.reasoning)
  | .toolCall =>
    match b.calls with
    | [(id, name)] => some (.call id name b.arguments)
    | _ => none
  | .redactedReasoning | .image | .audio => none

/-- The usage of a stream, in the order of its events. -/
def usages (es : List StreamEvent) : List Usage := es.filterMap StreamEvent.usage?

/-- What a stream has come to: its blocks, the newest first, its stops, its usage. -/
structure Heard where
  blocks : List Block := []
  stops : List (StopReason × Option String) := []
  usages : List Usage := []

def Heard.after (h : Heard) : StreamEvent → Heard
  | .contentBlockStart index kind =>
    { h with blocks := { index := index, kind := kind } :: h.blocks }
  | .textDelta index text => { h with blocks := addPart index (.text text) h.blocks }
  | .reasoningDelta index text => { h with blocks := addPart index (.reasoning text) h.blocks }
  | .toolCallStart index id name => { h with blocks := addPart index (.call id name) h.blocks }
  | .toolCallArgumentsDelta index fragment =>
    { h with blocks := addPart index (.arguments fragment) h.blocks }
  | .messageStop reason sequence => { h with stops := h.stops ++ [(reason, sequence)] }
  | .usageDelta usage => { h with usages := h.usages ++ [usage] }
  | .responseStop (some usage) => { h with usages := h.usages ++ [usage] }
  | .responseStop none | .responseStart _ _ _ | .messageStart _ | .toolCallStop _
  | .contentBlockStop _ | .error _ | .rawProviderEvent _ _ _ => h

/-- The monitor that refuses nothing and hears every event. -/
def hear (h : Heard) (e : StreamEvent) : Option Heard := some (h.after e)

theorem after_eq (h : Heard) (e : StreamEvent) :
    h.after e = { blocks := e.part.toList.foldl grow h.blocks
                  stops := h.stops ++ e.stop.toList
                  usages := h.usages ++ e.usage?.toList } := by
  cases e with
  | responseStop usage => cases usage <;> simp [Heard.after, StreamEvent.part, StreamEvent.stop,
      StreamEvent.usage?]
  | _ => simp [Heard.after, StreamEvent.part, StreamEvent.stop, StreamEvent.usage?, grow]

/-- What was heard of a stream is what it came to. -/
theorem exec_hear (es : List StreamEvent) :
    Runs.exec hear {} es =
      some { blocks := (blocks es).reverse, stops := stops es, usages := usages es } := by
  induction es using List.reverseRecOn with
  | nil => rfl
  | append_singleton es e ih =>
    rw [Runs.exec_append, ih]
    show some (Heard.after _ e) = _
    rw [after_eq, stops_concat, usages, usages, Lists.filterMap_concat, blocks, blocks,
      parts_concat, assemble, assemble, List.reverse_reverse, List.reverse_reverse,
      List.foldl_append]

/-! ## The newest block -/

theorem addPart_head (b : Block) (bs : List Block) (p : BlockPart) :
    addPart b.index p (b :: bs) = b.add p :: bs :=
  if_pos rfl

/-- A call that comes as a whole. -/
theorem exec_hear_call (h : Heard) (i : Nat) (id name arguments : String) :
    Runs.exec hear h [.contentBlockStart i .toolCall, .toolCallStart i id name,
        .toolCallArgumentsDelta i arguments, .toolCallStop i, .contentBlockStop i] =
      some { h with
        blocks := { index := i, kind := .toolCall, calls := [(id, name)],
                    arguments := arguments } :: h.blocks } := by
  simp [Runs.exec_cons, hear, Heard.after, addPart, Block.add]

end AgentShim
