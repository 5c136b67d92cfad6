import AgentShim.Core.Json
import AgentShim.Stream.Lifecycle

/-
  Streams whose blocks come one after the other

  Some streams never have two blocks open at once. A provider that is not streamed
  answers with a whole response, and its parser puts out such a stream; so does a parser
  that ends each block before it starts the next, whatever pieces the blocks come in.
  Where the blocks are is the parser's business, and only that decides whether the
  events keep the contract.

  What is proved:
    1. `exec_blocks`, `fresh_of_exec_blocks` — the envelope takes the blocks iff each is
       at an index of its own.
    2. `lifecycle_iff` — so for the contract.
    3. `nodup_placed_iff` — blocks placed one after the other are at indices of their
       own iff the places fit a word.
-/

namespace AgentShim

open Transducer

/-- A block with the pieces it comes in. -/
inductive SerialBlock
  | text (pieces : List String)
  | reasoning (pieces : List String)
  | redactedReasoning
  | toolCall (id name : String) (pieces : List String)
  deriving DecidableEq, Repr

namespace SerialBlock

def kind : SerialBlock → ContentBlockKind
  | text _ => .text
  | reasoning _ => .reasoning
  | redactedReasoning => .redactedReasoning
  | toolCall _ _ _ => .toolCall

/-- A text that is put out in one piece, an empty one in none. -/
def inOnePiece (s : String) : List String := if s = "" then [] else [s]

/-- What comes between the start of the block and its stop. -/
def inside (index : Nat) : SerialBlock → List StreamEvent
  | text pieces => pieces.map (.textDelta index)
  | reasoning pieces => pieces.map (.reasoningDelta index)
  | redactedReasoning => []
  | toolCall id name pieces =>
    .toolCallStart index id name :: (pieces.map (.toolCallArgumentsDelta index) ++
      [.toolCallStop index])

def events (index : Nat) (b : SerialBlock) : List StreamEvent :=
  .contentBlockStart index b.kind :: (b.inside index ++ [.contentBlockStop index])

/-- The events of a block are about it. -/
theorem blockIndex_of_mem {index : Nat} {b : SerialBlock} {e : StreamEvent}
    (h : e ∈ b.events index) : e.blockIndex = some index := by
  simp only [events, List.mem_cons, List.mem_append, List.not_mem_nil, or_false] at h
  rcases h with rfl | hinside | rfl
  · rfl
  · cases b with
    | redactedReasoning => cases hinside
    | text pieces =>
      obtain ⟨s, -, rfl⟩ := List.mem_map.mp hinside
      rfl
    | reasoning pieces =>
      obtain ⟨s, -, rfl⟩ := List.mem_map.mp hinside
      rfl
    | toolCall id name pieces =>
      simp only [inside, List.mem_cons, List.mem_append, List.mem_map, List.not_mem_nil,
        or_false] at hinside
      rcases hinside with rfl | ⟨s, -, rfl⟩ | rfl <;> rfl
  · rfl

end SerialBlock

/-- A response, its blocks where the parser places them. -/
structure SerialResponse where
  id : String
  model : String
  created : Nat
  opening : Option Usage := none
  blocks : List (Nat × SerialBlock)
  stopReason : StopReason
  stopSequence : Option String
  usage : Option Usage

namespace SerialResponse

def blockEvents (blocks : List (Nat × SerialBlock)) : List StreamEvent :=
  blocks.flatMap fun b => b.2.events b.1

theorem blockEvents_cons (b : Nat × SerialBlock) (blocks : List (Nat × SerialBlock)) :
    blockEvents (b :: blocks) = b.2.events b.1 ++ blockEvents blocks :=
  List.flatMap_cons

/-- The usage that opens the stream, the blocks and the two stops. -/
def events (R : SerialResponse) : List StreamEvent :=
  [.responseStart R.id R.model R.created, .messageStart .assistant] ++
    (R.opening.map StreamEvent.usageDelta).toList ++ blockEvents R.blocks ++
    [.messageStop R.stopReason R.stopSequence, .responseStop R.usage]

theorem exists_front (R : SerialResponse) :
    ∃ front, R.events = front ++ [.responseStop R.usage] ∧
      ∀ e ∈ front, e.isResponseStop = false := by
  let opening : List StreamEvent :=
    [.responseStart R.id R.model R.created, .messageStart .assistant] ++
      (R.opening.map StreamEvent.usageDelta).toList
  have hopening : ∀ e ∈ opening, e.isResponseStop = false := by
    cases husage : R.opening <;> simp [opening, husage, StreamEvent.isResponseStop]
  have hblocks : ∀ e ∈ blockEvents R.blocks, e.isResponseStop = false := by
    intro e he
    obtain ⟨b, _, hb⟩ := List.mem_flatMap.mp he
    have hindex := SerialBlock.blockIndex_of_mem hb
    cases e <;> first | rfl | cases hindex
  refine ⟨opening ++ blockEvents R.blocks ++ [.messageStop R.stopReason R.stopSequence], ?_, ?_⟩
  · simp [events, opening]
  · intro e he
    rcases List.mem_append.mp he with he | he
    · exact (List.mem_append.mp he).elim (hopening e) (hblocks e)
    · obtain rfl := List.mem_singleton.mp he
      rfl

end SerialResponse

namespace Envelope

variable {nested : Bool} {m m' : Envelope} {i : Nat} {b : SerialBlock}
  {blocks : List (Nat × SerialBlock)} {R : SerialResponse}

/-- Pieces of a block leave the envelope as it is. -/
theorem exec_pieces {piece : String → StreamEvent} (pieces : List String)
    (hallow : ∀ s, m.Allows nested (piece s)) (hafter : ∀ s, m.after (piece s) = m) :
    Runs.exec (step nested) m (pieces.map piece) = some m := by
  induction pieces with
  | nil => rfl
  | cons s pieces ih =>
    apply exec_cons_iff.mpr
    rw [hafter]
    exact ⟨hallow s, ih⟩

theorem setBlock_self {p : BlockPhase} (h : m.block i = p) : m.setBlock i p = m := by
  calc m.setBlock i p
      = { m with block := Function.update m.block i (m.block i) } := by rw [h]; rfl
    _ = m := by rw [Function.update_eq_self]

/-- A call, its arguments and its end. -/
theorem exec_call (id name : String) (pieces : List String) (hstop : m.stopped = false)
    (hblock : m.block i = .opened .toolCall) :
    Runs.exec (step nested) m (.toolCallStart i id name ::
      (pieces.map (.toolCallArgumentsDelta i) ++ [.toolCallStop i])) =
      some (m.setBlock i .ended) := by
  have hstarted : m.after (.toolCallStart i id name) = m.setBlock i .called := by
    simp only [after, hblock]
    rfl
  have hpieces : Runs.exec (step nested) (m.setBlock i .called)
      (pieces.map (.toolCallArgumentsDelta i)) = some (m.setBlock i .called) := by
    apply exec_pieces
    · intro s
      refine ⟨hstop, ?_⟩
      rw [setBlock_block_self]
      cases nested <;> rfl
    · exact fun _ => rfl
  apply exec_cons_iff.mpr
  refine ⟨⟨hstop, ?_⟩, ?_⟩
  · rw [hblock]
    cases nested <;> rfl
  rw [hstarted]
  apply Runs.exec_append_eq_some.mpr
  refine ⟨_, hpieces, exec_singleton_iff.mpr ⟨⟨hstop, ?_⟩, ?_⟩⟩
  · rw [setBlock_block_self]
    cases nested <;> rfl
  · simp only [after, setBlock_setBlock]

/-- What is inside a block takes it to where it may close. -/
theorem exec_inside (hstop : m.stopped = false) (hblock : m.block i = .opened b.kind) :
    ∃ p : BlockPhase, p.mayClose = true ∧
      Runs.exec (step nested) m (b.inside i) = some (m.setBlock i p) := by
  cases b with
  | toolCall id name pieces => exact ⟨.ended, rfl, exec_call id name pieces hstop hblock⟩
  | text pieces =>
    refine ⟨.opened .text, rfl, ?_⟩
    have hkept : m.setBlock i (.opened .text) = m := setBlock_self hblock
    rw [hkept]
    exact exec_pieces pieces (fun _ => ⟨hstop, hblock⟩) fun _ => rfl
  | reasoning pieces =>
    refine ⟨.opened .reasoning, rfl, ?_⟩
    have hkept : m.setBlock i (.opened .reasoning) = m := setBlock_self hblock
    rw [hkept]
    exact exec_pieces pieces (fun _ => ⟨hstop, hblock⟩) fun _ => rfl
  | redactedReasoning =>
    exact ⟨.opened .redactedReasoning, rfl, congrArg some (setBlock_self hblock).symm⟩

/-- A block at a fresh index is closed behind its last event. -/
theorem exec_serialBlock (hgreeted : m.greeted = true) (hstop : m.stopped = false)
    (hfresh : m.block i = .fresh) :
    Runs.exec (step nested) m (b.events i) = some (m.setBlock i .closed) := by
  apply exec_cons_iff.mpr
  refine ⟨⟨hgreeted, hstop, hfresh⟩, ?_⟩
  have hopen : (m.after (.contentBlockStart i b.kind)).block i = .opened b.kind :=
    setBlock_block_self m i _
  obtain ⟨p, hp, hinside⟩ : ∃ p : BlockPhase, p.mayClose = true ∧
      Runs.exec (step nested) (m.after (.contentBlockStart i b.kind)) (b.inside i) =
        some ((m.after (.contentBlockStart i b.kind)).setBlock i p) := exec_inside hstop hopen
  apply Runs.exec_append_eq_some.mpr
  refine ⟨_, hinside, exec_singleton_iff.mpr ⟨⟨hstop, ?_⟩, ?_⟩⟩
  · rw [setBlock_block_self]
    exact hp
  · simp only [after, setBlock_setBlock]

/-- Blocks at fresh indices of their own are all closed behind them. -/
theorem exec_blocks (hgreeted : m.greeted = true) (hstop : m.stopped = false)
    (hnodup : (blocks.map Prod.fst).Nodup) (hfresh : ∀ b ∈ blocks, m.block b.1 = .fresh) :
    Runs.exec (step nested) m (SerialResponse.blockEvents blocks) =
      some (m.closeAll (blocks.map Prod.fst)) := by
  induction blocks generalizing m with
  | nil => simp [SerialResponse.blockEvents, closeAll]
  | cons b blocks ih =>
    obtain ⟨hb, hnodup⟩ := List.nodup_cons.mp hnodup
    have hfirst : Runs.exec (step nested) m (b.2.events b.1) = some (m.setBlock b.1 .closed) :=
      exec_serialBlock hgreeted hstop (hfresh b List.mem_cons_self)
    have hrest := ih (m := m.setBlock b.1 .closed) hgreeted hstop hnodup fun c hc => by
      have hne : c.1 ≠ b.1 := fun h => hb (h ▸ List.mem_map_of_mem hc)
      rw [setBlock_block_of_ne _ _ hne]
      exact hfresh c (List.mem_cons_of_mem b hc)
    rw [SerialResponse.blockEvents_cons, List.map_cons, ← setBlock_closeAll]
    exact Runs.exec_append_eq_some.mpr ⟨_, hfirst, hrest⟩

/-- And where the envelope takes the blocks, so they were. -/
theorem fresh_of_exec_blocks (hgreeted : m.greeted = true) (hstop : m.stopped = false)
    (h : Runs.exec (step nested) m (SerialResponse.blockEvents blocks) = some m') :
    (blocks.map Prod.fst).Nodup ∧ ∀ b ∈ blocks, m.block b.1 = .fresh := by
  induction blocks generalizing m with
  | nil => simp
  | cons b blocks ih =>
    rw [SerialResponse.blockEvents_cons] at h
    obtain ⟨m₁, hfirst, hrest⟩ := Runs.exec_append_eq_some.mp h
    have hfresh : m.block b.1 = .fresh := (exec_cons_iff.mp hfirst).1.2.2
    have hclosed : m₁ = m.setBlock b.1 .closed := by
      rw [exec_serialBlock hgreeted hstop hfresh] at hfirst
      exact (Option.some.inj hfirst).symm
    rw [hclosed] at hrest
    obtain ⟨hnodup, hothers⟩ := ih (m := m.setBlock b.1 .closed) hgreeted hstop hrest
    -- the index of the first block is closed, so no later block is at it
    have hne : ∀ c ∈ blocks, c.1 ≠ b.1 := by
      intro c hc he
      have hphase := hothers c hc
      rw [he, setBlock_block_self] at hphase
      simp at hphase
    refine ⟨List.nodup_cons.mpr ⟨?_, hnodup⟩, List.forall_mem_cons.mpr ⟨hfresh, ?_⟩⟩
    · intro hmem
      obtain ⟨c, hc, he⟩ := List.mem_map.mp hmem
      exact hne c hc he
    · intro c hc
      have hphase := hothers c hc
      rwa [setBlock_block_of_ne _ _ (hne c hc)] at hphase

end Envelope

namespace SerialResponse

open Envelope

variable {R : SerialResponse}

theorem exec_events (nested : Bool) (R : SerialResponse) :
    Runs.exec (Envelope.step nested) {} R.events =
      (Runs.exec (Envelope.step nested) { started := true, greeted := true }
        (blockEvents R.blocks)).bind fun m =>
          Runs.exec (Envelope.step nested) m
            [.messageStop R.stopReason R.stopSequence, .responseStop R.usage] := by
  have hopening : Runs.exec (Envelope.step nested) {}
      ([.responseStart R.id R.model R.created, .messageStart .assistant] ++
        (R.opening.map StreamEvent.usageDelta).toList) =
      some { started := true, greeted := true } := by
    cases R.opening with
    | none => simp [Runs.exec_cons, Envelope.step, Allows, after]
    | some usage => simp [Runs.exec_cons, Envelope.step, Allows, after]
  simp only [events, Runs.exec_append, hopening, Option.bind_some]

/-- The events of a response keep the contract, with the tool events of each block in
order, iff no two blocks are at one index. -/
theorem lifecycle_iff (R : SerialResponse) :
    LifecycleValid R.events ∧ ToolsNested R.events ↔ (R.blocks.map Prod.fst).Nodup := by
  rw [lifecycleValid_toolsNested_iff]
  constructor
  · intro h
    obtain ⟨m, hexec, _⟩ := h
    rw [exec_events] at hexec
    obtain ⟨m₁, hblocks, _⟩ := Option.bind_eq_some_iff.mp hexec
    exact (fresh_of_exec_blocks rfl rfl hblocks).1
  · intro hnodup
    have hblocks : Runs.exec (Envelope.step true) { started := true, greeted := true }
        (blockEvents R.blocks) =
        some (closeAll { started := true, greeted := true } (R.blocks.map Prod.fst)) :=
      exec_blocks rfl rfl hnodup fun _ _ => rfl
    let m : Envelope := closeAll { started := true, greeted := true } (R.blocks.map Prod.fst)
    have hstops : Runs.exec (Envelope.step true) m
        [.messageStop R.stopReason R.stopSequence, .responseStop R.usage] =
        some { m with stopped := true, concluded := true } :=
      exec_cons_iff.mpr ⟨⟨rfl, rfl⟩, exec_singleton_iff.mpr ⟨⟨rfl, rfl⟩, rfl⟩⟩
    refine ⟨{ m with stopped := true, concluded := true }, ?_, rfl, fun i => ?_⟩
    · rw [exec_events, hblocks, Option.bind_some, hstops]
    · show (if i ∈ R.blocks.map Prod.fst then BlockPhase.closed else .fresh).isOpen = false
      by_cases hi : i ∈ R.blocks.map Prod.fst <;> simp [hi, BlockPhase.isOpen]

/-- The places of a list, counted in `u32`, are distinct iff they fit it. -/
theorem nodup_wrapped_iff (n : Nat) :
    ((List.range n).map Wire.asU32).Nodup ↔ n ≤ 4294967296 := by
  rw [List.nodup_map_iff_inj_on List.nodup_range]
  simp only [List.mem_range, Wire.asU32]
  constructor
  · intro h
    by_contra hn
    have hsame := h 0 (by omega) 4294967296 (by omega) rfl
    omega
  · intro hn a ha b hb he
    omega

/-- Blocks at the places that follow one another from a place, counted in `u32`. -/
def placedFrom (start : Nat) (bs : List SerialBlock) : List (Nat × SerialBlock) :=
  (bs.zipIdx start).map fun b => (Wire.asU32 b.2, b.1)

theorem placedFrom_append (start : Nat) (as bs : List SerialBlock) :
    placedFrom start (as ++ bs) = placedFrom start as ++ placedFrom (start + as.length) bs := by
  simp only [placedFrom, List.zipIdx_append, List.map_append]

theorem blockEvents_append (as bs : List (Nat × SerialBlock)) :
    blockEvents (as ++ bs) = blockEvents as ++ blockEvents bs :=
  List.flatMap_append

theorem map_snd_placedFrom (start : Nat) (bs : List SerialBlock) :
    (placedFrom start bs).map Prod.snd = bs := by
  rw [placedFrom, List.map_map]
  exact List.zipIdx_map_fst start bs

theorem nodup_placed_iff (bs : List SerialBlock) :
    ((placedFrom 0 bs).map Prod.fst).Nodup ↔ bs.length ≤ 4294967296 := by
  have hplaces : (placedFrom 0 bs).map Prod.fst = (List.range bs.length).map Wire.asU32 := by
    calc (placedFrom 0 bs).map Prod.fst
        = ((bs.zipIdx 0).map Prod.snd).map Wire.asU32 := by
          simp only [placedFrom, List.map_map]
          rfl
      _ = (List.range bs.length).map Wire.asU32 := by
          rw [List.zipIdx_map_snd, List.range_eq_range']
  rw [hplaces, nodup_wrapped_iff]

end SerialResponse

end AgentShim
