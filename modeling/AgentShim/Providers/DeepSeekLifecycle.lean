import AgentShim.Providers.ChatEnding
import AgentShim.Providers.DeepSeekSse
import AgentShim.Stream.Lifecycle

/-
  The lifecycle of the DeepSeek stream parser

  The interleaver and the map of tool blocks take their indices from one count:
  a tool block gets the interleaver's next index plus the number of tool blocks,
  and the interleaver does not learn of it. Which chunk sequences still give a
  lifecycle-valid stream is again a condition on the fragments alone.

  What is proved:
    1. `accepts_apply`, `within_apply` — an admitted fragment keeps the parser and
       the envelope in agreement, any other is refused or dooms the run.
    2. `deepseek_lifecycle_iff` — the events of a run are lifecycle-valid iff
       every fragment is admitted after the ones before it and something was read.
    3. `textAfterTool_not_valid` — a tool call and text after it is not.
-/

namespace AgentShim

namespace DeepSeekSse

open Transducer ChatWire ReasoningInterleaver

/-- What matters of the fragments read so far: the kind of content the open block
holds, the text and reasoning blocks opened, and the tool calls met. -/
structure Seen where
  begun : Bool := false
  opened : Bool := false
  ended : Bool := false
  current : Option DeltaKind := none
  blocks : Nat := 0
  tools : List Nat := []

def Seen.add (S : Seen) : Fragment DeltaKind → Seen
  | .chunk _ _ _ => { S with begun := true }
  | .role => { S with opened := true }
  | .content kind _ =>
    { S with
      opened := true
      current := some kind
      blocks := if S.current = some kind then S.blocks else S.blocks + 1 }
  | .toolCalls => { S with opened := true, current := none }
  | .toolCall provider _ _ =>
    { S with tools := if provider ∈ S.tools then S.tools else S.tools ++ [provider] }
  | .finish _ => { S with ended := true, current := none }
  | .usage _ | .error _ => S

def seen (past : List (Fragment DeltaKind)) : Seen := past.foldl Seen.add {}

/-- The fragments an upstream may send next: content before any tool call and
before the finish, a tool call before the finish, one finish after something that
opened the message, and no more blocks than there are indices. -/
def Seen.Admits (S : Seen) : Fragment DeltaKind → Prop
  | .content kind _ =>
    S.ended = false ∧ S.tools = [] ∧ (S.current ≠ some kind → S.blocks < 4294967296)
  | .toolCall provider _ _ =>
    S.ended = false ∧ (provider ∉ S.tools → S.blocks + S.tools.length < 4294967296)
  | .finish _ => S.opened = true ∧ S.ended = false
  | _ => True

/-- Every fragment of the chunks is admitted after the ones before it. -/
def WellOrdered (chunks : List Json) : Prop :=
  Throughout (fun past f => (seen past).Admits f) (chunks.flatMap (fragments dialect))

theorem seen_concat (past : List (Fragment DeltaKind)) (f : Fragment DeltaKind) :
    seen (past ++ [f]) = (seen past).add f := by
  rw [seen, List.foldl_append, seen, List.foldl_cons, List.foldl_nil]

theorem seen_begun (past : List (Fragment DeltaKind)) :
    (seen past).begun = past.any Fragment.isChunk := by
  induction past using List.reverseRecOn with
  | nil => rfl
  | append_singleton past f ih =>
    rw [seen_concat, List.any_append, ← ih]
    cases f <;> simp [Seen.add, Fragment.isChunk]

theorem foldl_calls_current {calls : List (Fragment DeltaKind)}
    (h : ∀ f ∈ calls, f.isToolCall = true) (S : Seen) :
    (calls.foldl Seen.add S).current = S.current ∧ (calls.foldl Seen.add S).opened = S.opened := by
  induction calls generalizing S with
  | nil => exact ⟨rfl, rfl⟩
  | cons f calls ih =>
    have hf := h f List.mem_cons_self
    have hrest := ih (fun g hg => h g (List.mem_cons_of_mem f hg)) (S.add f)
    cases f with
    | toolCall provider call arguments => exact hrest
    | _ => cases hf

/-- Inside a list of tool calls the message is open and no text block is. -/
theorem seen_of_inCalls {past : List (Fragment DeltaKind)} (h : InCalls past) :
    (seen past).current = none ∧ (seen past).opened = true := by
  obtain ⟨before, calls, rfl, hcalls⟩ := h
  rw [seen, List.foldl_append, List.foldl_cons]
  exact foldl_calls_current hcalls _

/-- The parser and the envelope after the fragments `S` sums up. The first
`S.blocks` indices went to text and reasoning, the next ones to tool calls. -/
structure Agrees (S : Seen) (s : StreamState) (m : Envelope) : Prop where
  responseStart : s.emittedResponseStart = S.begun
  messageStart : s.emittedMessageStart = S.opened
  messageStop : s.emittedMessageStop = S.ended
  responseStop : s.emittedResponseStop = false
  nextIndex : s.interleaver.nextIndex = S.blocks % 4294967296
  state : s.interleaver.state =
    match S.current with
    | none => .idle
    | some kind => ReasoningInterleaver.within (S.blocks - 1) kind
  toolBlocks : s.openToolBlocks = if S.ended then [] else S.tools.zipIdx S.blocks
  started : m.started = S.begun
  greeted : m.greeted = S.opened
  stopped : m.stopped = S.ended
  running : m.concluded = false
  plain : ∀ i < S.blocks, m.block i =
    match S.current with
    | some kind => if i + 1 = S.blocks then .opened kind.blockKind else .closed
    | none => .closed
  tool : S.ended = false → ∀ i, S.blocks ≤ i → i < S.blocks + S.tools.length →
    (m.block i).takesStop false = true
  toolClosed : S.ended = true → ∀ i, S.blocks ≤ i → i < S.blocks + S.tools.length →
    m.block i = .closed
  fresh : ∀ i, S.blocks + S.tools.length ≤ i → m.block i = .fresh
  bounded : S.blocks + S.tools.length ≤ 4294967296
  begun_of_opened : S.opened = true → S.begun = true
  opened_of_ended : S.ended = true → S.opened = true
  opened_of_used : 0 < S.blocks + S.tools.length → S.opened = true
  used_of_current : S.current ≠ none → 0 < S.blocks
  idle_of_ended : S.ended = true → S.current = none
  idle_of_tools : S.tools ≠ [] → S.current = none

variable {S : Seen}

theorem accepts_startResponse {f : Parse}
    (hskip : ∀ s, s.emittedResponseStart = true → f s = (s, []))
    (hstart : ∀ s, s.emittedResponseStart = false → ∃ id model created id' model',
      f s = ({ s with emittedResponseStart := true, responseId := id', responseModel := model' },
        [.responseStart id model created])) :
    Accepts (Envelope.step false) (Agrees S) f (Agrees { S with begun := true }) := by
  intro s m h
  cases hb : S.begun with
  | true =>
    have hsame : ({ S with begun := true } : Seen) = S := by rw [← hb]
    rw [hsame, hskip s (h.responseStart.trans hb)]
    exact ⟨m, rfl, h⟩
  | false =>
    obtain ⟨id, model, created, id', model', hf⟩ := hstart s (h.responseStart.trans hb)
    rw [hf]
    refine ⟨{ m with started := true }, Envelope.exec_singleton_iff.mpr ⟨?_, rfl⟩, ?_⟩
    · rw [Envelope.Allows, h.started, hb]
    · exact { h with
        responseStart := rfl
        started := rfl
        begun_of_opened := fun _ => rfl }

theorem accepts_ensureMessageStart (hbegun : S.begun = true) :
    Accepts (Envelope.step false) (Agrees S) ensureMessageStart (Agrees (S.add .role)) := by
  intro s m h
  unfold ensureMessageStart
  split
  · rename_i hs
    have hopened : S.opened = true := h.messageStart ▸ hs
    have hadd : S.add .role = S := by
      cases S
      simp_all [Seen.add]
    exact ⟨m, rfl, hadd ▸ h⟩
  · rename_i hs
    have hopened : S.opened = false := by rw [← h.messageStart]; simpa using hs
    have hended : S.ended = false :=
      Bool.eq_false_iff.mpr fun he => by rw [h.opened_of_ended he] at hopened; cases hopened
    refine ⟨_, Envelope.exec_singleton_iff.mpr ⟨⟨?_, ?_, ?_⟩, rfl⟩, ?_⟩
    · rw [h.started, hbegun]
    · rw [h.greeted, hopened]
    · rw [h.stopped, hended]
    · exact { h with
        messageStart := rfl
        greeted := rfl
        begun_of_opened := fun _ => hbegun
        opened_of_ended := fun _ => rfl
        opened_of_used := fun _ => rfl }

/-- The open text or reasoning block is the last one handed out. -/
theorem Agrees.openBlock {s : StreamState} {m : Envelope} (h : Agrees S s m) {kind : DeltaKind}
    (hc : S.current = some kind) :
    0 < S.blocks ∧ s.interleaver.state = within (S.blocks - 1) kind ∧
      m.block (S.blocks - 1) = .opened kind.blockKind := by
  have hpos : 0 < S.blocks := h.used_of_current (by simp [hc])
  refine ⟨hpos, by rw [h.state, hc], ?_⟩
  rw [h.plain _ (by omega), hc]
  simp only
  rw [if_pos (by omega)]

/-- Content of another kind opens a block of its own. -/
theorem Agrees.push_eq {s : StreamState} {m : Envelope} (h : Agrees S s m) {kind : DeltaKind}
    (text : NonEmptyString) (hc : S.current ≠ some kind) :
    onInterleaver (push kind text.val) s =
      andThen flush (onInterleaver (openNewBlock kind text.val)) s := by
  have hother : ∀ index, s.interleaver.state ≠ within index kind := by
    intro index
    rw [h.state]
    cases hcur : S.current with
    | none => cases kind <;> simp [within]
    | some k => cases k <;> cases kind <;> simp_all [within]
  rw [onInterleaver, push_other text.property hother]
  rfl

/-- Flushing closes the open text or reasoning block. -/
theorem accepts_flush :
    Accepts (Envelope.step false) (Agrees S) flush (Agrees { S with current := none }) := by
  intro s m h
  cases hc : S.current with
  | none =>
    have hstate : s.interleaver.state = .idle := by rw [h.state, hc]
    -- nothing is open: the interleaver and `S` stay as they are
    have hsame : ({ S with current := none } : Seen) = S := by rw [← hc]
    refine ⟨m, ?_, ?_⟩
    · rw [flush, onInterleaver, flush_idle hstate]
      rfl
    · rw [hsame, flush, onInterleaver, flush_idle hstate]
      exact { h with }
  | some kind =>
    obtain ⟨hpos, hstate, hopen⟩ := h.openBlock hc
    have hended : S.ended = false :=
      Bool.eq_false_iff.mpr fun he => by rw [h.idle_of_ended he] at hc; cases hc
    refine ⟨m.setBlock (S.blocks - 1) .closed, ?_, ?_⟩
    · rw [flush, onInterleaver, flush_within hstate]
      refine Envelope.exec_singleton_iff.mpr ⟨⟨by rw [h.stopped, hended], ?_⟩, rfl⟩
      rw [hopen]
      exact mayClose_blockKind kind
    · rw [flush, onInterleaver, flush_within hstate]
      refine { h with
        state := rfl
        plain := fun i hi => ?_
        tool := fun he i hlo hhi => ?_
        toolClosed := fun he => absurd he (by simp [hended])
        fresh := fun i hi => ?_
        used_of_current := fun hn => absurd rfl hn
        idle_of_ended := fun _ => rfl
        idle_of_tools := fun _ => rfl }
      · rw [Envelope.setBlock_block]
        split
        · rfl
        · rename_i hne
          rw [h.plain i hi, hc]
          simp only
          have : i + 1 ≠ S.blocks := by omega
          rw [if_neg this]
      -- the tool blocks and the fresh indices lie above the closed block
      · have hne : i ≠ S.blocks - 1 := by simp only at hlo; omega
        rw [Envelope.setBlock_block_of_ne _ _ hne]
        exact h.tool he i hlo hhi
      · have hne : i ≠ S.blocks - 1 := by simp only at hi; omega
        rw [Envelope.setBlock_block_of_ne _ _ hne]
        exact h.fresh i hi

theorem accepts_openNewBlock {kind : DeltaKind} {text : String} (hopened : S.opened = true)
    (hended : S.ended = false) (htools : S.tools = []) (hcurrent : S.current = none)
    (hroom : S.blocks < 4294967296) :
    Accepts (Envelope.step false) (Agrees S) (onInterleaver (openNewBlock kind text))
      (Agrees { S with current := some kind, blocks := S.blocks + 1 }) := by
  intro s m h
  have hstop : m.stopped = false := by rw [h.stopped, hended]
  have hnext : s.interleaver.nextIndex = S.blocks := by
    rw [h.nextIndex, Nat.mod_eq_of_lt hroom]
  have hfresh : m.block S.blocks = .fresh := h.fresh _ (by simp [htools])
  rw [onInterleaver, openNewBlock_eq, hnext]
  refine ⟨m.setBlock S.blocks (.opened kind.blockKind), ?_, ?_⟩
  · refine Envelope.exec_cons_iff.mpr ⟨⟨by rw [h.greeted, hopened], hstop, hfresh⟩, ?_⟩
    refine Envelope.exec_singleton_iff.mpr ⟨?_, after_delta _ _ _ _⟩
    exact allows_delta hstop (Envelope.setBlock_block_self _ _ _)
  · refine { h with
      nextIndex := rfl
      state := rfl
      toolBlocks := by rw [h.toolBlocks, htools]; rfl
      plain := fun i hi => ?_
      tool := fun _ i hlo hhi => ?_
      toolClosed := fun he => absurd he (by simp [hended])
      fresh := fun i hi => ?_
      bounded := ?_
      opened_of_used := fun _ => hopened
      used_of_current := fun _ => Nat.succ_pos _
      idle_of_ended := fun he => absurd he (by simp [hended])
      idle_of_tools := fun ht => absurd htools ht }
    · simp only at hi ⊢
      rw [Envelope.setBlock_block]
      by_cases hi' : i = S.blocks
      · simp [hi']
      · rw [if_neg hi', h.plain i (by omega), hcurrent, if_neg (by omega)]
    · simp only [htools, List.length_nil] at hlo hhi
      omega
    · simp only [htools, List.length_nil] at hi
      rw [Envelope.setBlock_block_of_ne _ _ (by omega)]
      exact h.fresh i (by rw [htools, List.length_nil]; omega)
    · simp only [htools, List.length_nil]
      omega

theorem accepts_push {kind : DeltaKind} (text : NonEmptyString) (hopened : S.opened = true)
    (hok : S.Admits (.content kind text)) :
    Accepts (Envelope.step false) (Agrees S) (onInterleaver (push kind text.val))
      (Agrees (S.add (.content kind text))) := by
  obtain ⟨hended, htools, hroom⟩ := hok
  intro s m h
  by_cases hc : S.current = some kind
  · -- the delta goes into the open block
    obtain ⟨-, hstate, hopen⟩ := h.openBlock hc
    have hsame : S.add (.content kind text) = S := by
      cases S
      simp_all [Seen.add]
    rw [hsame, onInterleaver, push_same text.property hstate]
    refine ⟨m, Envelope.exec_singleton_iff.mpr ⟨?_, after_delta _ _ _ _⟩, { h with }⟩
    exact allows_delta (by rw [h.stopped, hended]) hopen
  · rw [h.push_eq text hc]
    have hadd : S.add (.content kind text) =
        { S with current := some kind, blocks := S.blocks + 1 } := by
      simp [Seen.add, hc, hopened]
    rw [hadd]
    exact accepts_flush.andThen
      (accepts_openNewBlock (S := { S with current := none }) hopened hended htools rfl
        (hroom hc)) s m h

/-! ## Tool blocks -/

theorem lookup_zipIdx_none {p : Nat} {tools : List Nat} {b : Nat} :
    (tools.zipIdx b).lookup p = none ↔ p ∉ tools := by
  induction tools generalizing b with
  | nil => simp
  | cons t tools ih =>
    rw [List.zipIdx_cons, List.lookup_cons]
    by_cases hp : p = t
    · simp [hp]
    · have hb : (p == t) = false := beq_eq_false_iff_ne.mpr hp
      simp [hb, ih, hp]

theorem lookup_zipIdx_bounds {p index : Nat} {tools : List Nat} {b : Nat}
    (h : (tools.zipIdx b).lookup p = some index) : b ≤ index ∧ index < b + tools.length := by
  induction tools generalizing b with
  | nil => simp at h
  | cons t tools ih =>
    rw [List.zipIdx_cons, List.lookup_cons] at h
    by_cases hp : (p == t) = true
    · simp only [hp, Option.some.injEq] at h
      subst h
      simp
    · simp only [Bool.eq_false_iff.mpr hp] at h
      have := ih h
      simp only [List.length_cons]
      omega

theorem Agrees.toolBlocks_running {s : StreamState} {m : Envelope} (h : Agrees S s m)
    (hended : S.ended = false) : s.openToolBlocks = S.tools.zipIdx S.blocks := by
  rw [h.toolBlocks, hended]
  rfl

theorem Agrees.allocated {s : StreamState} {m : Envelope} (h : Agrees S s m)
    (hended : S.ended = false) :
    allocated s = (S.blocks + S.tools.length) % 4294967296 := by
  rw [DeepSeekSse.allocated, h.nextIndex, h.toolBlocks_running hended, List.length_zipIdx]
  simp [Wire.addU32, Wire.asU32, Nat.add_mod]

/-- The block of a tool call, met before or not. -/
theorem Agrees.blockIndex_bounds {s : StreamState} {m : Envelope} (h : Agrees S s m)
    {provider : Nat} (call : Option (String × String)) (arguments : String)
    (hended : S.ended = false)
    (hroom : provider ∉ S.tools → S.blocks + S.tools.length < 4294967296) :
    S.blocks ≤ blockIndex s provider ∧ blockIndex s provider <
      S.blocks + (S.add (.toolCall provider call arguments)).tools.length := by
  rw [blockIndex, h.toolBlocks_running hended, h.allocated hended]
  by_cases hp : provider ∈ S.tools
  · cases hl : (S.tools.zipIdx S.blocks).lookup provider with
    | none => exact absurd hp (lookup_zipIdx_none.mp hl)
    | some index => simpa [Seen.add, hp] using lookup_zipIdx_bounds hl
  · rw [lookup_zipIdx_none.mpr hp, Option.getD_none, Nat.mod_eq_of_lt (hroom hp)]
    simp [Seen.add, hp]

theorem accepts_openTool {provider : Nat} {call : Option (String × String)} {arguments : String}
    (hopened : S.opened = true) (hcurrent : S.current = none) (hended : S.ended = false)
    (hroom : provider ∉ S.tools → S.blocks + S.tools.length < 4294967296) :
    Accepts (Envelope.step false) (Agrees S) (openTool provider)
      (Agrees (S.add (.toolCall provider call arguments))) := by
  intro s m h
  by_cases hp : provider ∈ S.tools
  · -- the call has its block already
    have hsame : S.add (.toolCall provider call arguments) = S := by simp [Seen.add, hp]
    have hskip : openTool provider s = (s, []) := by
      unfold openTool
      rw [h.toolBlocks_running hended]
      cases hl : (S.tools.zipIdx S.blocks).lookup provider with
      | none => exact absurd hp (lookup_zipIdx_none.mp hl)
      | some index => rfl
    rw [hsame, hskip]
    exact ⟨m, rfl, h⟩
  · -- the block after the interleaver's and the open tool blocks is fresh
    have hroom := hroom hp
    have hindex : allocated s = S.blocks + S.tools.length := by
      rw [h.allocated hended, Nat.mod_eq_of_lt hroom]
    have hstop : m.stopped = false := by rw [h.stopped, hended]
    have hopen : openTool provider s =
        ({ s with openToolBlocks := S.tools.zipIdx S.blocks ++
            [(provider, S.blocks + S.tools.length)] },
          [.contentBlockStart (S.blocks + S.tools.length) .toolCall]) := by
      unfold openTool
      rw [h.toolBlocks_running hended, lookup_zipIdx_none.mpr hp, hindex]
    have hadd : S.add (.toolCall provider call arguments) =
        { S with tools := S.tools ++ [provider] } := by simp [Seen.add, hp]
    rw [hopen, hadd]
    refine ⟨m.setBlock (S.blocks + S.tools.length) (.opened .toolCall),
      Envelope.exec_singleton_iff.mpr ⟨⟨?_, hstop, h.fresh _ le_rfl⟩, rfl⟩, ?_⟩
    · rw [h.greeted, hopened]
    · refine { h with
        toolBlocks := by simp [hended, List.zipIdx_append]
        plain := fun i hi => ?_
        tool := fun he i hlo hhi => ?_
        toolClosed := fun he => absurd he (by simp [hended])
        fresh := fun i hi => ?_
        bounded := ?_
        opened_of_used := fun _ => hopened
        idle_of_tools := fun _ => hcurrent }
      · simp only at hi
        rw [Envelope.setBlock_block_of_ne _ _ (by omega)]
        exact h.plain i hi
      · simp only [List.length_append, List.length_singleton] at hlo hhi
        rw [Envelope.setBlock_block]
        split
        · rfl
        · exact h.tool he i hlo (by omega)
      · simp only [List.length_append, List.length_singleton] at hi
        rw [Envelope.setBlock_block_of_ne _ _ (by omega)]
        exact h.fresh i (by omega)
      · simp only [List.length_append, List.length_singleton]
        omega

theorem takesStop_afterStart {p : BlockPhase} (h : p.takesStop false = true) :
    p.afterStart.takesStop false = true := by
  cases p with
  | opened kind => rfl
  | called => rfl
  | ended => rfl
  | _ => cases h

/-- The events of a tool call inside its block. -/
theorem accepts_toolCallStart {index : Nat} {id name : String} (hended : S.ended = false)
    (hlo : S.blocks ≤ index) (hhi : index < S.blocks + S.tools.length) :
    Accepts (Envelope.step false) (Agrees S) (emit (.toolCallStart index id name)) (Agrees S) := by
  refine Envelope.accepts_emit fun s m h => ?_
  have htool := h.tool hended index hlo hhi
  refine ⟨⟨by rw [h.stopped, hended], htool⟩, { h with
    plain := fun i hi => ?_
    tool := fun he i hlo' hhi' => ?_
    toolClosed := fun he => absurd he (by simp [hended])
    fresh := fun i hi => ?_ }⟩
  · simp only [Envelope.after]
    rw [Envelope.setBlock_block_of_ne _ _ (by omega)]
    exact h.plain i hi
  · simp only [Envelope.after, Envelope.setBlock_block]
    split
    · exact takesStop_afterStart htool
    · exact h.tool he i hlo' hhi'
  · simp only [Envelope.after]
    rw [Envelope.setBlock_block_of_ne _ _ (by omega)]
    exact h.fresh i hi

theorem accepts_arguments {index : Nat} {arguments : String} (hended : S.ended = false)
    (hlo : S.blocks ≤ index) (hhi : index < S.blocks + S.tools.length) :
    Accepts (Envelope.step false) (Agrees S) (emitArguments index arguments) (Agrees S) := by
  unfold emitArguments
  split
  · exact accepts_skip
  · exact Envelope.accepts_emit fun s m h =>
      ⟨⟨by rw [h.stopped, hended], h.tool hended index hlo hhi⟩, h⟩

theorem accepts_handleToolCall {provider : Nat} {call : Option (String × String)}
    {arguments : String} (hopened : S.opened = true) (hcurrent : S.current = none)
    (hok : S.Admits (.toolCall provider call arguments)) :
    Accepts (Envelope.step false) (Agrees S) (handleToolCall provider call arguments)
      (Agrees (S.add (.toolCall provider call arguments))) := by
  obtain ⟨hended, hroom⟩ := hok
  intro s m h
  obtain ⟨hlo, hhi⟩ := h.blockIndex_bounds call arguments hended hroom
  have hstart : Accepts (Envelope.step false) (Agrees (S.add (.toolCall provider call arguments)))
      (ifSome call fun call => emit (.toolCallStart (blockIndex s provider) call.1 call.2))
      (Agrees (S.add (.toolCall provider call arguments))) := by
    cases call with
    | none => exact accepts_skip
    | some call => exact accepts_toolCallStart hended hlo hhi
  simp only [handleToolCall, inOrder_cons, inOrder_nil, andThen_skip]
  exact ((accepts_openTool hopened hcurrent hended hroom).andThen
    (hstart.andThen (accepts_arguments hended hlo hhi))) s m h

/-! ## The finish -/

theorem sorted_indices (S : Seen) :
    ((S.tools.zipIdx S.blocks).map Prod.snd).Perm (List.range' S.blocks S.tools.length) := by
  rw [List.zipIdx_map_snd]

/-- Closing the tool blocks and stopping the message, from an idle interleaver. -/
theorem accepts_drainAndStop (reason : StopReason) (hopened : S.opened = true)
    (hcurrent : S.current = none) (hended : S.ended = false) :
    Accepts (Envelope.step false) (Agrees S) (andThen drainOpenToolBlocks (stopMessage reason))
      (Agrees { S with ended := true }) := by
  intro s m h
  have htools := h.toolBlocks_running hended
  have hstop : m.stopped = false := by rw [h.stopped, hended]
  -- the drain stops exactly the indices handed out to tool calls, each once
  set order := (s.openToolBlocks.map Prod.snd).insertionSort (· ≤ ·) with horder
  have hperm : order.Perm (List.range' S.blocks S.tools.length) := by
    rw [horder, htools]
    exact (List.perm_insertionSort _ _).trans (sorted_indices S)
  have hmem : ∀ i, i ∈ order ↔ S.blocks ≤ i ∧ i < S.blocks + S.tools.length := by
    intro i
    rw [hperm.mem_iff, List.mem_range'_1]
  have htakes : ∀ i ∈ order, (m.block i).takesStop false = true := fun i hi =>
    h.tool hended i ((hmem i).mp hi).1 ((hmem i).mp hi).2
  have hstarted : m.started = true := by rw [h.started, h.begun_of_opened hopened]
  refine ⟨{ m.closeAll order with stopped := true }, ?_, ?_⟩
  · simp only [andThen, drainOpenToolBlocks, stopMessage]
    exact Envelope.exec_closeTools_stop false reason hstarted hstop
      (hperm.nodup_iff.mpr List.nodup_range') htakes
  · simp only [andThen, drainOpenToolBlocks, stopMessage]
    refine { h with
      messageStop := rfl
      toolBlocks := rfl
      stopped := rfl
      plain := fun i hi => ?_
      tool := fun he => absurd he (by simp)
      toolClosed := fun _ i hlo hhi => ?_
      fresh := fun i hi => ?_
      opened_of_ended := fun _ => hopened
      idle_of_ended := fun _ => hcurrent }
    · simp only at hi
      have hnot : i ∉ order := fun hi' => by
        have := ((hmem i).mp hi').1
        omega
      simp only [Envelope.closeAll, hnot, if_false]
      exact h.plain i hi
    · simp only at hlo hhi
      simp only [Envelope.closeAll, (hmem i).mpr ⟨hlo, hhi⟩, if_true]
    · simp only at hi
      have hnot : i ∉ order := fun hi' => by
        have := ((hmem i).mp hi').2
        omega
      simp only [Envelope.closeAll, hnot, if_false]
      exact h.fresh i hi

theorem accepts_finish (reason : StopReason) (hopened : S.opened = true)
    (hended : S.ended = false) :
    Accepts (Envelope.step false) (Agrees S)
      (andThen flush (andThen drainOpenToolBlocks (stopMessage reason)))
      (Agrees { S with ended := true, current := none }) :=
  accepts_flush.andThen
    (accepts_drainAndStop (S := { S with current := none }) reason hopened rfl hended)

/-- The closing steps, whether or not the message was stopped before. -/
theorem accepts_ensureFinish (reason : StopReason) (hopened : S.opened = true) :
    Accepts (Envelope.step false) (Agrees S)
      (andThen flush (andThen drainOpenToolBlocks (ensureMessageStop reason)))
      (Agrees { S with ended := true, current := none }) := by
  cases hended : S.ended with
  | false =>
    intro s m h
    have hsame : andThen flush (andThen drainOpenToolBlocks (ensureMessageStop reason)) s =
        andThen flush (andThen drainOpenToolBlocks (stopMessage reason)) s := by
      have hstop : (drainOpenToolBlocks (flush s).1).1.emittedMessageStop = false := by
        show s.emittedMessageStop = false
        rw [h.messageStop, hended]
      simp only [andThen, ensureMessageStop_of_running hstop]
    rw [hsame]
    exact accepts_finish reason hopened hended s m h
  | true =>
    -- everything was closed by the finish
    intro s m h
    have hcurrent := h.idle_of_ended hended
    have hquiet : andThen flush (andThen drainOpenToolBlocks (ensureMessageStop reason)) s =
        (s, []) := by
      have hstate : s.interleaver.state = .idle := by rw [h.state, hcurrent]
      have hflush : flush s = (s, []) := by rw [flush, onInterleaver, flush_idle hstate]
      have htools : s.openToolBlocks = [] := by rw [h.toolBlocks, hended]; rfl
      have hstop : s.emittedMessageStop = true := by rw [h.messageStop, hended]
      simp only [andThen, hflush, drainOpenToolBlocks_of_none htools,
        ensureMessageStop_of_stopped hstop, List.append_nil]
    have hsame : ({ S with ended := true, current := none } : Seen) = S := by
      rw [← hended, ← hcurrent]
    rw [hquiet, hsame]
    exact ⟨m, rfl, h⟩

theorem accepts_markCompleted :
    Accepts (Envelope.step false) (Agrees S) markCompleted (Agrees S) :=
  fun _ m h => ⟨m, rfl, { h with }⟩

theorem parseFinish_eq (reason : String) : parseFinish reason =
    andThen (andThen flush (andThen drainOpenToolBlocks
      (stopMessage (.fromProviderString reason)))) markCompleted := by
  simp only [parseFinish, inOrder_cons, inOrder_nil, andThen_skip, andThen_assoc]

/-- An admitted fragment keeps the parser and the envelope in agreement. -/
theorem accepts_apply {past : List (Fragment DeltaKind)} {f : Fragment DeltaKind}
    (hshape : Shape past f) (hok : (seen past).Admits f) :
    Accepts (Envelope.step false) (Agrees (seen past)) (apply f)
      (Agrees (seen (past ++ [f]))) := by
  rw [seen_concat]
  have hbegun : past.any Fragment.isChunk = true → (seen past).begun = true :=
    fun h => (seen_begun past).trans h
  cases f with
  | chunk id model created =>
    refine accepts_startResponse (fun s hs => by rw [apply, ensureResponseStart, if_pos hs])
      fun s hs => ⟨id, model, created, id, model, ?_⟩
    rw [apply, ensureResponseStart, hs]
    rfl
  | role => exact accepts_ensureMessageStart (hbegun hshape)
  | content kind text =>
    simp only [apply, pushDelta, inOrder_cons, inOrder_nil, andThen_skip]
    have hpush := accepts_push (S := (seen past).add .role) text rfl hok
    exact (accepts_ensureMessageStart (hbegun hshape)).andThen hpush
  | toolCalls =>
    simp only [apply, inOrder_cons, inOrder_nil, andThen_skip]
    exact (accepts_ensureMessageStart (hbegun hshape)).andThen accepts_flush
  | toolCall provider call arguments =>
    obtain ⟨hcurrent, hopened⟩ := seen_of_inCalls hshape
    exact accepts_handleToolCall hopened hcurrent hok
  | finish reason =>
    rw [apply, parseFinish_eq]
    exact (accepts_finish _ hok.1 hok.2).andThen accepts_markCompleted
  | usage usage =>
    refine Envelope.accepts_emit fun s m h => ⟨⟨?_, h.running⟩, h⟩
    rw [h.started]
    exact hbegun hshape
  | error message => exact Envelope.accepts_emit fun s m h => ⟨trivial, h⟩

/-! ## The steps of the end -/

def ending : Ending StreamState where
  responseStart := StreamState.emittedResponseStart
  messageStart := StreamState.emittedMessageStart
  responseStop := StreamState.emittedResponseStop
  ensureResponseStart := ensureEmptyResponseStart
  ensureMessageStart := ensureMessageStart
  closeMessage := andThen flush (andThen drainOpenToolBlocks (ensureMessageStop .endTurn))
  stopResponse := stopResponse
  markCompleted := markCompleted
  ensureResponseStart_started := fun s h => by rw [ensureEmptyResponseStart, if_pos h]
  mem_ensureMessageStart := fun s h => by simp [ensureMessageStart, h]
  stopResponse_stops := fun _ => ⟨rfl, rfl⟩
  markCompleted_quiet := fun _ => ⟨rfl, rfl⟩

theorem finalize_eq : finalize = ending.finalize := by
  funext s
  simp only [finalize, Ending.finalize, ending, inOrder_cons, inOrder_nil, andThen_skip,
    andThen_assoc]

theorem handleDone_eq : handleDone = ending.done := by
  have hstop : ending.ensureResponseStop = ensureResponseStop := rfl
  rw [Ending.done, hstop]
  simp only [handleDone, ending, inOrder_cons, inOrder_nil, andThen_skip, andThen_assoc]

/-! ## Fragments out of place -/

theorem handleToolCall_state (provider : Nat) (call : Option (String × String))
    (arguments : String) (s : StreamState) :
    (handleToolCall provider call arguments s).1 = (openTool provider s).1 := by
  unfold handleToolCall emitArguments
  cases call <;> by_cases ha : arguments = "" <;> simp [andThen, ha, skip, emit]

theorem openTool_flags (provider : Nat) (s : StreamState) :
    (openTool provider s).1.emittedResponseStart = s.emittedResponseStart ∧
      (openTool provider s).1.emittedMessageStart = s.emittedMessageStart ∧
      (openTool provider s).1.emittedResponseStop = s.emittedResponseStop := by
  unfold openTool
  split <;> exact ⟨rfl, rfl, rfl⟩

/-- A doomed run stays doomed. -/
theorem within_doomed (f : Fragment DeltaKind) :
    Within (Envelope.step false) ending.Doomed (apply f) ending.Doomed := by
  cases f with
  | chunk id model created =>
    intro s m h m' hm
    have hstart : s.emittedResponseStart = true := h.responseStart
    simp only [apply, ensureResponseStart, hstart, if_true] at hm ⊢
    cases hm
    exact h
  | role =>
    rw [apply, ← andThen_skip ensureMessageStart]
    exact ending.within_doomed_open
  | content kind text => exact ending.within_doomed_open
  | toolCalls => exact ending.within_doomed_open
  | toolCall provider call arguments =>
    intro s m h m' hm
    obtain ⟨h₁, h₂, h₃⟩ := openTool_flags provider s
    rw [apply, handleToolCall_state]
    exact
      { responseStart := h₁.trans h.responseStart
        messageStart := h₂.trans h.messageStart
        responseStop := h₃.trans h.responseStop
        stopped := (Envelope.not_inMessage_of_exec h.stopped hm).2.1 }
  | finish reason =>
    rw [apply, parseFinish_eq]
    refine Envelope.within_of_stopped (fun _ _ h => h.stopped) fun s m _ => ?_
    exact ⟨.messageStop (.fromProviderString reason) none, by simp [andThen, stopMessage], rfl⟩
  | usage usage => exact Envelope.within_emit fun s m h _ => { h with }
  | error message => exact Envelope.within_emit fun s m h _ => { h with }

/-- The indices handed out so far are not fresh. -/
theorem Agrees.used {s : StreamState} {m : Envelope} (h : Agrees S s m) {i : Nat}
    (hi : i < S.blocks + S.tools.length) : m.block i ≠ .fresh := by
  intro hfresh
  by_cases hlo : i < S.blocks
  · have hplain := h.plain i hlo
    rw [hfresh] at hplain
    split at hplain
    · split at hplain <;> cases hplain
    · cases hplain
  · cases hended : S.ended with
    | true =>
      have hclosed := h.toolClosed hended i (Nat.le_of_not_lt hlo) hi
      rw [hfresh] at hclosed
      cases hclosed
    | false =>
      have htool := h.tool hended i (Nat.le_of_not_lt hlo) hi
      rw [hfresh] at htool
      cases htool

theorem mem_push (kind : DeltaKind) (text : NonEmptyString) (s : StreamState) :
    ∃ e ∈ (onInterleaver (push kind text.val) s).2, e.inMessage = true := by
  by_cases hsame : ∃ index, s.interleaver.state = within index kind
  · obtain ⟨index, hstate⟩ := hsame
    rw [onInterleaver, push_same text.property hstate]
    exact ⟨_, List.mem_singleton_self _, inMessage_delta kind index _⟩
  · rw [onInterleaver, push_other text.property (not_exists.mp hsame)]
    simp only [andThen, openNewBlock_eq]
    exact ⟨_, List.mem_append_right _ List.mem_cons_self, rfl⟩

/-- A new text or reasoning block gets an index in use. -/
theorem within_openNewBlock {kind : DeltaKind} {text : String} {Q : StreamState → Envelope → Prop}
    (hbad : S.tools ≠ [] ∨ 4294967296 ≤ S.blocks) :
    Within (Envelope.step false) (Agrees S) (onInterleaver (openNewBlock kind text)) Q := by
  intro s m h m' hm
  have hbounded := h.bounded
  have hused : s.interleaver.nextIndex < S.blocks + S.tools.length := by
    rw [h.nextIndex]
    rcases hbad with htools | hblocks
    · have := List.length_pos_iff.mpr htools
      omega
    · omega
  rw [onInterleaver, openNewBlock_eq] at hm
  exact absurd (Envelope.exec_cons_iff.mp hm).1.2.2 (h.used hused)

theorem within_push {kind : DeltaKind} {text : NonEmptyString}
    (hbad : ¬ S.Admits (.content kind text)) :
    Within (Envelope.step false) (Agrees S) (onInterleaver (push kind text.val))
      ending.Doomed := by
  intro s m h m' hm
  cases hended : S.ended with
  | true =>
    obtain ⟨e, he, hin⟩ := mem_push kind text s
    rw [(Envelope.not_inMessage_of_exec (by rw [h.stopped, hended]) hm).1 e he] at hin
    cases hin
  | false =>
    have hcurrent : S.current ≠ some kind := by
      intro hc
      have htools : S.tools = [] := by
        by_contra ht
        rw [h.idle_of_tools ht] at hc
        cases hc
      exact hbad ⟨hended, htools, fun hne => absurd hc hne⟩
    have hfull : S.tools ≠ [] ∨ 4294967296 ≤ S.blocks := by
      by_contra hnone
      rw [not_or, not_not, Nat.not_le] at hnone
      exact hbad ⟨hended, hnone.1, fun _ => hnone.2⟩
    rw [h.push_eq text hcurrent] at hm ⊢
    exact accepts_flush.within.andThen
      (within_openNewBlock (S := { S with current := none }) hfull) s m h m' hm

theorem within_handleToolCall {provider : Nat} {call : Option (String × String)}
    {arguments : String} (hbad : ¬ S.Admits (.toolCall provider call arguments)) :
    Within (Envelope.step false) (Agrees S) (handleToolCall provider call arguments)
      ending.Doomed := by
  have hopen : Within (Envelope.step false) (Agrees S) (openTool provider) (fun _ _ => False) := by
    intro s m h m' hm
    cases hended : S.ended with
    | true =>
      have htools : s.openToolBlocks = [] := by rw [h.toolBlocks, hended]; rfl
      have hstart : (openTool provider s).2 = [.contentBlockStart (allocated s) .toolCall] := by
        rw [openTool, htools]
        rfl
      have hquiet := (Envelope.not_inMessage_of_exec (by rw [h.stopped, hended]) hm).1
      rw [hstart] at hquiet
      have := hquiet _ (List.mem_singleton_self _)
      cases this
    | false =>
      have hnew : provider ∉ S.tools ∧ 4294967296 ≤ S.blocks + S.tools.length := by
        by_contra hnone
        rw [not_and, Nat.not_le] at hnone
        exact hbad ⟨hended, hnone⟩
      have hbounded := h.bounded
      have hused : allocated s < S.blocks + S.tools.length := by
        rw [h.allocated hended]
        omega
      have hstart : (openTool provider s).2 = [.contentBlockStart (allocated s) .toolCall] := by
        rw [openTool, h.toolBlocks_running hended, lookup_zipIdx_none.mpr hnew.1]
      rw [hstart] at hm
      exact absurd (Envelope.exec_singleton_iff.mp hm).1.2.2 (h.used hused)
  intro s m h m' hm
  simp only [handleToolCall, inOrder_cons, inOrder_nil, andThen_skip] at hm
  obtain ⟨m₁, h₁, -⟩ := Runs.exec_append_eq_some.mp hm
  exact (hopen s m h m₁ h₁).elim

/-- A second finish, or one before anything opened the message. -/
theorem within_finish {reason : StopReason} (hbegun : S.begun = true)
    (hbad : ¬ (S.opened = true ∧ S.ended = false)) :
    Within (Envelope.step false) (Agrees S)
      (andThen flush (andThen drainOpenToolBlocks (stopMessage reason))) ending.Doomed := by
  intro s m h m' hm
  cases hended : S.ended with
  | true =>
    have hquiet := (Envelope.not_inMessage_of_exec (by rw [h.stopped, hended]) hm).1
    have := hquiet (.messageStop reason none) (by simp [andThen, stopMessage])
    cases this
  | false =>
    have hopened : S.opened = false := Bool.eq_false_iff.mpr fun ho => hbad ⟨ho, hended⟩
    have hnone : S.blocks = 0 ∧ S.tools.length = 0 := by
      by_contra hne
      have hused : 0 < S.blocks + S.tools.length := by omega
      rw [h.opened_of_used hused] at hopened
      cases hopened
    have hcurrent : S.current = none := by
      by_contra hne
      have := h.used_of_current hne
      omega
    have hflush : flush s = (s, []) := by
      rw [flush, onInterleaver, flush_idle (by rw [h.state, hcurrent])]
    have htools : s.openToolBlocks = [] := by
      rw [h.toolBlocks_running hended, List.eq_nil_of_length_eq_zero hnone.2]
      rfl
    simp only [andThen, hflush, drainOpenToolBlocks_of_none htools, stopMessage,
      List.nil_append] at hm ⊢
    obtain ⟨-, rfl⟩ := Envelope.exec_singleton_iff.mp hm
    exact
      { responseStart := h.responseStart.trans hbegun
        messageStart := h.messageStart.trans hopened
        responseStop := h.responseStop
        stopped := rfl }

theorem within_markCompleted_doomed :
    Within (Envelope.step false) ending.Doomed markCompleted ending.Doomed := by
  intro s m h m' hm
  cases hm
  exact { h with }

/-- A fragment out of place is refused or dooms the run. -/
theorem within_apply {past : List (Fragment DeltaKind)} {f : Fragment DeltaKind}
    (hshape : Shape past f) (hbad : ¬ (seen past).Admits f) :
    Within (Envelope.step false) (Agrees (seen past)) (apply f) ending.Doomed := by
  have hbegun : past.any Fragment.isChunk = true → (seen past).begun = true :=
    fun h => (seen_begun past).trans h
  cases f with
  | content kind text =>
    simp only [apply, pushDelta, inOrder_cons, inOrder_nil, andThen_skip]
    exact (accepts_ensureMessageStart (hbegun hshape)).within.andThen
      (within_push (S := (seen past).add .role) hbad)
  | toolCall provider call arguments => exact within_handleToolCall hbad
  | finish reason =>
    rw [apply, parseFinish_eq]
    exact (within_finish (hbegun hshape) hbad).andThen within_markCompleted_doomed
  | _ => exact absurd trivial hbad

/-! ## The end of the stream -/

theorem Agrees.ready {s : StreamState} {m : Envelope}
    (h : Agrees { S with ended := true, current := none } s m) : ending.Ready s m :=
  { responseStop := h.responseStop
    stopped := h.stopped
    running := h.running
    closed := fun i => by
      by_cases hlo : i < S.blocks
      · rw [h.plain i hlo]
        rfl
      · by_cases hhi : i < S.blocks + S.tools.length
        · rw [h.toolClosed rfl i (Nat.le_of_not_lt hlo) hhi]
          rfl
        · rw [h.fresh i (Nat.le_of_not_lt hhi)]
          rfl }

theorem accepts_closeMessage (hopened : S.opened = true) :
    Accepts (Envelope.step false) (Agrees S) ending.closeMessage ending.Ready :=
  (accepts_ensureFinish .endTurn hopened).mono (fun _ _ h => h) fun _ _ h => h.ready

theorem accepts_finalize (hbegun : S.begun = true) :
    Accepts (Envelope.step false) (Agrees S) finalize (fun _ m => m.Closed) := by
  rw [finalize_eq]
  exact Ending.accepts_finalize (fun s m h => ⟨h.responseStart.trans hbegun, h.responseStop⟩)
    (accepts_ensureMessageStart hbegun) (accepts_closeMessage rfl)

/-- A stream in which nothing was read has no envelope. -/
theorem within_finalize_empty (hbegun : S.begun = false) :
    Within (Envelope.step false) (Agrees S) finalize (fun _ m => ¬ m.Closed) := by
  rw [finalize_eq]
  exact Ending.within_finalize_empty fun s m h =>
    ⟨h.responseStart.trans hbegun, h.responseStop, h.running⟩

theorem accepts_ensureEmptyResponseStart :
    Accepts (Envelope.step false) (Agrees S) ensureEmptyResponseStart
      (Agrees { S with begun := true }) := by
  refine accepts_startResponse (fun s hs => by rw [ensureEmptyResponseStart, if_pos hs])
    fun s hs => ⟨s.responseId, s.responseModel, 0, s.responseId, s.responseModel, ?_⟩
  rw [ensureEmptyResponseStart, hs]
  rfl

theorem accepts_done :
    Accepts (Envelope.step false) (Agrees S) (andThen handleDone finalize)
      (fun _ m => m.Closed) := by
  rw [handleDone_eq, finalize_eq]
  exact Ending.accepts_done accepts_ensureEmptyResponseStart
    (accepts_ensureMessageStart (S := { S with begun := true }) rfl) (accepts_closeMessage rfl)

theorem within_doomed_finalize {Q : StreamState → Envelope → Prop} :
    Within (Envelope.step false) ending.Doomed finalize Q := by
  rw [finalize_eq]
  exact ending.within_doomed_finalize

theorem within_doomed_done {Q : StreamState → Envelope → Prop} :
    Within (Envelope.step false) ending.Doomed (andThen handleDone finalize) Q := by
  rw [handleDone_eq, finalize_eq]
  exact ending.within_doomed_done

/-- Before anything is read. -/
theorem agrees_init : Agrees (seen []) {} {} :=
  { responseStart := rfl, messageStart := rfl, messageStop := rfl, responseStop := rfl,
    nextIndex := rfl, state := rfl, toolBlocks := rfl, started := rfl, greeted := rfl,
    stopped := rfl, running := rfl, plain := fun i hi => absurd hi (Nat.not_lt_zero i),
    tool := fun _ i _ hi => absurd hi (Nat.not_lt_zero i), toolClosed := nofun,
    fresh := fun _ _ => rfl, bounded := Nat.zero_le _, begun_of_opened := nofun,
    opened_of_ended := nofun, opened_of_used := fun h => absurd h (Nat.lt_irrefl 0),
    used_of_current := fun h => absurd rfl h, idle_of_ended := nofun,
    idle_of_tools := fun _ => rfl }

theorem exec_events_iff (chunks : List Json) (done : Bool) :
    (∃ m, Runs.exec (Envelope.step false) {} (events chunks done) = some m ∧ m.Closed) ↔
      (done = true ∨ ∃ v ∈ chunks, v.get "error" = none) ∧ WellOrdered chunks := by
  have hbegun : ∀ past, (past : List (Fragment DeltaKind)).any Fragment.isChunk = true →
      (seen past).begun = true := fun past h => (seen_begun past).trans h
  have heof : ∀ past, ¬ (past : List (Fragment DeltaKind)).any Fragment.isChunk = true →
      (seen past).begun = false :=
    fun past h => (seen_begun past).trans (Bool.eq_false_iff.mpr h)
  rw [← any_isChunk_iff dialect]
  exact exec_poll_iff (h := handlers) (R := fun past => Agrees (seen past))
    (B := fun past => past.any Fragment.isChunk = true)
    parseChunk_eq (fun _ _ => accepts_apply) (fun _ _ => within_apply) within_doomed
    (fun _ => accepts_done) (fun past h => accepts_finalize (hbegun past h))
    (fun past h => within_finalize_empty (heof past h)) within_doomed_done within_doomed_finalize
    agrees_init (shape_chunks dialect chunks) done

/-- The events are lifecycle-valid iff something was read and every fragment came
in an order the two index allocators can follow. -/
theorem deepseek_lifecycle_iff (chunks : List Json) (done : Bool) :
    LifecycleValid (events chunks done) ↔
      (done = true ∨ ∃ v ∈ chunks, v.get "error" = none) ∧ WellOrdered chunks :=
  lifecycleValid_iff.trans (exec_events_iff chunks done)

/-- A chunk with one choice that carries `delta`. -/
def deltaChunk (delta : List (String × Json)) : Json :=
  .obj [("id", .str "chatcmpl-1"), ("model", .str "deepseek-reasoner"),
    ("choices", .arr [.obj [("delta", .obj delta)]])]

/-- A tool call, and text after it. -/
def textAfterTool : List Json :=
  [deltaChunk [("role", .str "assistant"), ("tool_calls", .arr [.obj [("index", .num (.int 0)),
     ("id", .str "call_1"),
     ("function", .obj [("name", .str "search"), ("arguments", .str "{}")])]])],
   deltaChunk [("content", .str "One moment.")]]

/-- Text after a tool call opens the tool's block again. -/
theorem textAfterTool_not_valid : ¬ LifecycleValid (events textAfterTool true) := by
  decide

end DeepSeekSse

end AgentShim
