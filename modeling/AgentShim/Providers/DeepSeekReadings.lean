import AgentShim.Providers.DeepSeekSse
import AgentShim.Providers.TextRuns

/-
  What is heard of a DeepSeek stream

  The fragments of a stream in the order a provider sends them: text and reasoning,
  then tool calls, then the finish reason and the usage. The calls may take turns:
  each fragment of a call goes to the block that was opened for its index.

  What is proved:
    1. `tells_push` — what a delta does to the blocks, by the draft of the text.
    2. `exec_hear_spell` — a fragment of a call reaches the block of the call.
    3. `heard_events` — what the events of a stream in order come to.
-/

namespace AgentShim

open Transducer

/-! ## Text and reasoning -/

namespace ReasoningInterleaver

/-- The kind and the index of the open block. -/
def current (it : ReasoningInterleaver) : Option (DeltaKind × Nat) :=
  match it.state with
  | .idle => none
  | .inText index => some (.text, index)
  | .inReasoning index => some (.reasoning, index)

theorem current_eq_some {it : ReasoningInterleaver} {kind : DeltaKind} {index : Nat} :
    it.current = some (kind, index) ↔ it.state = within index kind := by
  unfold current
  cases it.state <;> cases kind <;> simp [within]

theorem current_openNewBlock (kind : DeltaKind) (text : String) (it : ReasoningInterleaver) :
    (openNewBlock kind text it).1.current = some (kind, it.nextIndex) := by
  rw [openNewBlock_eq]
  exact current_eq_some.mpr rfl

variable {d : Draft} {it : ReasoningInterleaver} {m : Heard} {bs : List Block}

theorem hear_flush (it : ReasoningInterleaver) (m : Heard) :
    Runs.exec hear m (flush it).2 = some m := by
  unfold flush
  cases it.state <;> rfl

theorem tells_flush (h : Tells d it.current bs) : Tells d.endRun (flush it).1.current bs := by
  have hidle : (flush it).1.current = none := by
    unfold flush current
    cases hstate : it.state <;> simp [hstate]
  rw [hidle]
  exact h.close

@[simp] theorem nextIndex_flush (it : ReasoningInterleaver) :
    (flush it).1.nextIndex = it.nextIndex := by
  unfold flush
  cases it.state <;> rfl

/-- A delta goes on with the text of its kind, or begins one. -/
theorem tells_push (h : Tells d it.current m.blocks) (kind : DeltaKind) {text : String}
    (htext : text ≠ "") :
    ∃ bs, Runs.exec hear m (push kind text it).2 = some { m with blocks := bs } ∧
      Tells (d.say kind text) (push kind text it).1.current bs := by
  by_cases hsame : ∃ before, d.run = some (kind, before)
  · obtain ⟨before, hrun⟩ := hsame
    obtain ⟨i, hcurrent, hmore⟩ := h.goOn hrun text
    rw [push_same htext (current_eq_some.mp hcurrent)]
    exact ⟨_, by rw [Runs.exec_cons, hear, AgentShim.after_delta]; rfl, hmore⟩
  · have hother : ∀ index, it.state ≠ within index kind := fun index hstate =>
      hsame (h.run_of_current (current_eq_some.mpr hstate))
    have hchange := h.change (fun before hrun => hsame ⟨before, hrun⟩) text it.nextIndex
    have hcurrent : (andThen flush (openNewBlock kind text) it).1.current =
        some (kind, it.nextIndex) := by
      rw [andThen_apply, current_openNewBlock, nextIndex_flush]
    have hexec : Runs.exec hear m (andThen flush (openNewBlock kind text) it).2 =
        some { m with
          blocks := addPart it.nextIndex (piece text kind)
            ({ index := it.nextIndex, kind := kind.blockKind } :: m.blocks) } := by
      rw [andThen_apply, Runs.exec_append, hear_flush, openNewBlock_eq, nextIndex_flush,
        Option.bind_some, Runs.exec_cons, hear, Option.bind_some, Runs.exec_cons, hear,
        AgentShim.after_delta]
      rfl
    rw [push_other htext hother, hcurrent]
    exact ⟨_, hexec, hchange⟩

end ReasoningInterleaver

/-! ## The fragments of calls -/

namespace DeepSeekSse

open ChatWire

/-- A fragment of a call: its index, the id and the name, the arguments. -/
abbrev CallFragment := Nat × Option (String × String) × String

def callFragment (tc : Json) : CallFragment :=
  (providerIndex tc, (tc.getStr "id").map fun id => (id, toolName tc), toolArguments tc)

/-- The indices of the calls, in the order in which they begin. -/
def begun (cs : List CallFragment) : List Nat := Lists.firsts (cs.map Prod.fst)

theorem begun_concat (cs : List CallFragment) (c : CallFragment) :
    begun (cs ++ [c]) = if c.1 ∈ begun cs then begun cs else begun cs ++ [c.1] := by
  rw [begun, List.map_append, List.map_singleton, Lists.firsts_concat, begun]
  simp only [Lists.mem_firsts]

/-- There are no more calls than indices. -/
theorem length_begun_le {cs : List CallFragment} (h : ∀ c ∈ cs, c.1 < 4294967296) :
    (begun cs).length ≤ 4294967296 := by
  have hsub : begun cs ⊆ List.range 4294967296 := by
    intro k hk
    obtain ⟨c, hc, rfl⟩ := List.mem_map.mp (Lists.mem_firsts.mp hk)
    exact List.mem_range.mpr (h c hc)
  have hle := ((Lists.nodup_firsts (cs.map Prod.fst)).subperm hsub).length_le
  rwa [List.length_range] at hle

/-- The block of the call with an index. -/
def callBlockAt (cs : List CallFragment) (at_ : Nat × Nat) : Block where
  index := at_.2
  kind := .toolCall
  calls := (cs.filter fun c => c.1 = at_.1).filterMap fun c => c.2.1
  arguments := String.join ((cs.filter fun c => c.1 = at_.1).map fun c => c.2.2)

/-- What a fragment of a call adds to its block. -/
def spellOut (b : Block) (c : CallFragment) : Block :=
  { b with calls := b.calls ++ c.2.1.toList, arguments := b.arguments ++ c.2.2 }

theorem callBlockAt_concat_of_ne {cs : List CallFragment} {c : CallFragment} {at_ : Nat × Nat}
    (h : at_.1 ≠ c.1) : callBlockAt (cs ++ [c]) at_ = callBlockAt cs at_ := by
  have hfilter : (cs ++ [c]).filter (fun c => c.1 = at_.1) = cs.filter fun c => c.1 = at_.1 := by
    simp [List.filter_append, h.symm]
  rw [callBlockAt, hfilter, callBlockAt]

theorem callBlockAt_concat_self (cs : List CallFragment) (c : CallFragment) (i : Nat) :
    callBlockAt (cs ++ [c]) (c.1, i) = spellOut (callBlockAt cs (c.1, i)) c := by
  obtain ⟨k, call, arguments⟩ := c
  have hfilter : (cs ++ [(k, call, arguments)]).filter (fun c => c.1 = k) =
      (cs.filter fun c => c.1 = k) ++ [(k, call, arguments)] := by
    simp [List.filter_append]
  simp only [callBlockAt, spellOut, hfilter, List.map_append, List.map_singleton,
    List.filterMap_append, String.join_append]
  cases call <;> simp

/-- A block that has no fragment yet. -/
theorem callBlockAt_of_new {cs : List CallFragment} {at_ : Nat × Nat} (h : at_.1 ∉ begun cs) :
    callBlockAt cs at_ = { index := at_.2, kind := .toolCall } := by
  have hfilter : cs.filter (fun c => c.1 = at_.1) = [] := by
    rw [List.filter_eq_nil_iff]
    intro c hc hk
    refine h (Lists.mem_firsts.mpr (List.mem_map.mpr ⟨c, hc, ?_⟩))
    simpa using hk
  rw [callBlockAt, hfilter]
  rfl

/-- A part goes past the blocks with other indices. -/
theorem addPart_past {xs ys : List Block} {b : Block} (p : BlockPart)
    (h : ∀ x ∈ xs, x.index ≠ b.index) :
    addPart b.index p (xs ++ b :: ys) = xs ++ b.add p :: ys := by
  induction xs with
  | nil => exact addPart_head b ys p
  | cons x xs ih =>
    obtain ⟨hx, hxs⟩ := List.forall_mem_cons.mp h
    rw [List.cons_append, addPart, if_neg hx, ih hxs, List.cons_append]

/-- The events that spell a fragment of a call in an open block. -/
def spell (i : Nat) (call : Option (String × String)) (arguments : String) : Parse :=
  inOrder [ifSome call fun call => emit (.toolCallStart i call.1 call.2), emitArguments i arguments]

/-- A fragment of a call reaches the block of the call. -/
theorem exec_hear_spell {m : Heard} {xs : List Block} {b : Block} (ys : List Block)
    (h : ∀ x ∈ xs, x.index ≠ b.index) (c : CallFragment) (s : StreamState) :
    Runs.exec hear { m with blocks := xs ++ b :: ys } (spell b.index c.2.1 c.2.2 s).2 =
      some { m with blocks := xs ++ spellOut b c :: ys } := by
  obtain ⟨k, call, arguments⟩ := c
  have hcall : Runs.exec hear { m with blocks := xs ++ b :: ys }
      (ifSome call (fun call => emit (.toolCallStart b.index call.1 call.2)) s).2 =
        some { m with blocks := xs ++ spellOut b (k, call, "") :: ys } := by
    cases call with
    | none => simp [spellOut, skip]
    | some call =>
      simp [emit, Runs.exec_cons, hear, Heard.after, addPart_past _ h, Block.add, spellOut]
  rw [spell, inOrder_cons, inOrder_cons, inOrder_nil, andThen_skip, andThen_apply,
    Runs.exec_append, hcall, Option.bind_some, emitArguments]
  by_cases harguments : arguments = ""
  · rw [if_pos harguments, harguments]
    rfl
  · have hadd : addPart b.index (.arguments arguments) (xs ++ spellOut b (k, call, "") :: ys) = _ :=
      addPart_past (b := spellOut b (k, call, "")) (.arguments arguments) h
    rw [if_neg harguments, emit, Runs.exec_cons, hear, Option.bind_some, Runs.exec_nil, Heard.after]
    simp only [spellOut, Block.add, String.append_empty] at hadd ⊢
    rw [hadd]

/-! ## The walk over the fragments -/

def callOf : Fragment DeltaKind → Option CallFragment
  | .toolCall index call arguments => some (index, call, arguments)
  | _ => none

def reasonOf : Fragment DeltaKind → Option String
  | .finish reason => some reason
  | _ => none

def usageIn : Fragment DeltaKind → Option Usage
  | .usage usage => some usage
  | _ => none

def calls (fs : List (Fragment DeltaKind)) : List CallFragment := fs.filterMap callOf

def draftAfter (d : Draft) : Fragment DeltaKind → Draft
  | .content kind text => d.say kind text.val
  | .toolCalls | .finish _ => d.endRun
  | _ => d

def draft (fs : List (Fragment DeltaKind)) : Draft := fs.foldl draftAfter {}

/-- A fragment of a list of tool calls. -/
def isOfCalls (f : Fragment DeltaKind) : Bool := f.isToolCalls || f.isToolCall

/-- The order of a reply: no text comes after a tool call, and of these nothing after
the finish reason, which comes once. -/
def Follows (g f : Fragment DeltaKind) : Prop :=
  (f.isContent = true → isOfCalls g = false) ∧
    ((f.isContent || isOfCalls f || f.isFinish) = true → g.isFinish = false)

/-- The indices of a call fit 32 bits. -/
def IndexFits (f : Fragment DeltaKind) : Prop := ∀ c, callOf f = some c → c.1 < 4294967296

/-- The open blocks of the calls that have begun. -/
structure Opened (cs : List CallFragment) (next : Nat) (opened : List (Nat × Nat)) : Prop where
  keys : opened.map Prod.fst = begun cs
  indices : opened.map Prod.snd =
    (List.range opened.length).map fun j => Wire.addU32 next (Wire.asU32 j)

theorem opened_nil (next : Nat) : Opened [] next [] := ⟨rfl, rfl⟩

theorem Opened.eq_nil {next : Nat} {opened : List (Nat × Nat)} (h : Opened [] next opened) :
    opened = [] :=
  List.map_eq_nil_iff.mp h.keys

theorem Opened.length_le {cs : List CallFragment} {next : Nat} {opened : List (Nat × Nat)}
    (h : Opened cs next opened) (hfits : ∀ c ∈ cs, c.1 < 4294967296) :
    opened.length ≤ 4294967296 := by
  have hlen := congrArg List.length h.keys
  rw [List.length_map] at hlen
  rw [hlen]
  exact length_begun_le hfits

/-- No two open blocks share an index. -/
theorem Opened.nodup {cs : List CallFragment} {next : Nat} {opened : List (Nat × Nat)}
    (h : Opened cs next opened) (hfits : ∀ c ∈ cs, c.1 < 4294967296) :
    (opened.map Prod.snd).Nodup := by
  have hlen := h.length_le hfits
  rw [h.indices]
  refine List.Nodup.map_on ?_ List.nodup_range
  intro i hi j hj hij
  rw [List.mem_range] at hi hj
  simp only [Wire.addU32, Wire.asU32] at hij
  omega

/-- What was heard around the blocks of the fragments read so far. -/
structure HearsFrame (past : List (Fragment DeltaKind)) (s : StreamState) (m : Heard) : Prop where
  started : s.emittedResponseStart = past.any Fragment.isChunk
  stopped : s.emittedMessageStop = past.any Fragment.isFinish
  unstopped : s.emittedResponseStop = false
  stops : m.stops = (past.filterMap reasonOf).map fun r => (.fromProviderString r, none)
  usages : m.usages = past.filterMap usageIn

/-- What was heard of the blocks. -/
def HearsBlocks (past : List (Fragment DeltaKind)) (s : StreamState) (m : Heard) : Prop :=
  ∃ opened bs,
    m.blocks = (opened.map (callBlockAt (calls past))).reverse ++ bs ∧
      Opened (calls past) s.interleaver.nextIndex opened ∧
      Tells (draft past) s.interleaver.current bs ∧
      (past.any Fragment.isFinish = false → s.openToolBlocks = opened)

structure Hears (past : List (Fragment DeltaKind)) (s : StreamState) (m : Heard) : Prop where
  frame : HearsFrame past s m
  blocks : HearsBlocks past s m

theorem hears_init : Hears [] {} {} where
  frame := ⟨rfl, rfl, rfl, rfl, rfl⟩
  blocks := ⟨[], [], rfl, opened_nil 0, tells_init, fun _ => rfl⟩

theorem calls_concat (past : List (Fragment DeltaKind)) (f : Fragment DeltaKind) :
    calls (past ++ [f]) = calls past ++ (callOf f).toList :=
  Lists.filterMap_concat callOf past f

theorem draft_concat (past : List (Fragment DeltaKind)) (f : Fragment DeltaKind) :
    draft (past ++ [f]) = draftAfter (draft past) f := by
  rw [draft, List.foldl_append]
  rfl

variable {past : List (Fragment DeltaKind)} {s : StreamState} {m : Heard}

theorem any_isFinish_concat {f : Fragment DeltaKind} (h : f.isFinish = false) :
    (past ++ [f]).any Fragment.isFinish = past.any Fragment.isFinish := by
  rw [List.any_append, List.any_cons, h]
  exact Bool.or_false _

theorem HearsFrame.concat (h : HearsFrame past s m) {f : Fragment DeltaKind} {s' : StreamState}
    {m' : Heard} (hfinish : f.isFinish = false) (hstops : m'.stops = m.stops)
    (husages : m'.usages = m.usages ++ (usageIn f).toList)
    (hstarted : s'.emittedResponseStart = (s.emittedResponseStart || f.isChunk))
    (hstopped : s'.emittedMessageStop = s.emittedMessageStop)
    (hunstopped : s'.emittedResponseStop = s.emittedResponseStop) :
    HearsFrame (past ++ [f]) s' m' where
  started := by
    rw [hstarted, h.started, List.any_append, List.any_cons, List.any_nil, Bool.or_false]
  stopped := by rw [hstopped, h.stopped, any_isFinish_concat hfinish]
  unstopped := hunstopped.trans h.unstopped
  stops := by
    have hreason : reasonOf f = none := by
      cases f with
      | finish reason => cases hfinish
      | _ => rfl
    rw [Lists.filterMap_concat, hreason, Option.toList_none, List.append_nil]
    exact hstops.trans h.stops
  usages := by rw [Lists.filterMap_concat, husages, h.usages]

/-- A header, a role, a usage or an error: the blocks stay. -/
theorem Hears.aside (h : Hears past s m) {f : Fragment DeltaKind} {s' : StreamState} {m' : Heard}
    (hcall : callOf f = none) (hdraft : ∀ d, draftAfter d f = d) (hfinish : f.isFinish = false)
    (hblocks : m'.blocks = m.blocks) (hit : s'.interleaver = s.interleaver)
    (htools : s'.openToolBlocks = s.openToolBlocks) (hframe : HearsFrame (past ++ [f]) s' m') :
    Hears (past ++ [f]) s' m' where
  frame := hframe
  blocks := by
    rw [HearsBlocks, calls_concat, hcall, Option.toList_none, List.append_nil, draft_concat, hdraft,
      any_isFinish_concat hfinish, hblocks, hit, htools]
    exact h.blocks

theorem hears_chunk (id model : String) (created : Nat) :
    Accepts hear (Hears past) (ensureResponseStart id model created)
      (Hears (past ++ [.chunk id model created])) := by
  intro s m h
  unfold ensureResponseStart
  split
  case isTrue hstarted =>
    refine ⟨m, rfl, h.aside rfl (fun _ => rfl) rfl rfl rfl rfl
      (h.frame.concat rfl rfl (List.append_nil _).symm ?_ rfl rfl)⟩
    rw [hstarted]
    rfl
  case isFalse =>
    exact ⟨m, rfl, h.aside rfl (fun _ => rfl) rfl rfl rfl rfl
      (h.frame.concat rfl rfl (List.append_nil _).symm (Bool.or_true _).symm rfl rfl)⟩

/-- Opening the message changes nothing that is heard. -/
theorem hears_ensureMessageStart {P : StreamState → Heard → Prop}
    (hP : ∀ s m, P s m → P { s with emittedMessageStart := true } m) :
    Accepts hear P ensureMessageStart P := by
  intro s m h
  unfold ensureMessageStart
  split
  · exact ⟨m, rfl, h⟩
  · exact ⟨m, rfl, hP s m h⟩

theorem Hears.opened (h : Hears past s m) :
    Hears past { s with emittedMessageStart := true } m where
  frame := ⟨h.frame.started, h.frame.stopped, h.frame.unstopped, h.frame.stops, h.frame.usages⟩
  blocks := h.blocks

theorem hears_role :
    Accepts hear (Hears past) ensureMessageStart (Hears (past ++ [.role])) :=
  (hears_ensureMessageStart fun _ _ h => h.opened).mono (fun _ _ h => h) fun _ _ h =>
    h.aside rfl (fun _ => rfl) rfl rfl rfl rfl
      (h.frame.concat rfl rfl (List.append_nil _).symm (Bool.or_false _).symm rfl rfl)

theorem hears_error (message : String) :
    Accepts hear (Hears past) (emit (.error message)) (Hears (past ++ [.error message])) :=
  fun _ m h => ⟨m, rfl, h.aside rfl (fun _ => rfl) rfl rfl rfl rfl
    (h.frame.concat rfl rfl (List.append_nil _).symm (Bool.or_false _).symm rfl rfl)⟩

theorem hears_usage (usage : Usage) :
    Accepts hear (Hears past) (emit (.usageDelta usage)) (Hears (past ++ [.usage usage])) :=
  fun _ _ h => ⟨_, rfl, h.aside rfl (fun _ => rfl) rfl rfl rfl rfl
    (h.frame.concat rfl rfl rfl (Bool.or_false _).symm rfl rfl)⟩

/-- The fragments before one that follows them all. -/
def FollowsAll (past : List (Fragment DeltaKind)) (f : Fragment DeltaKind) : Prop :=
  ∀ g ∈ past, Follows g f

theorem FollowsAll.unfinished {f : Fragment DeltaKind} (h : FollowsAll past f)
    (hf : (f.isContent || isOfCalls f || f.isFinish) = true) :
    past.any Fragment.isFinish = false := by
  rw [List.any_eq_false]
  intro g hg
  rw [(h g hg).2 hf]
  exact Bool.false_ne_true

theorem FollowsAll.no_calls {f : Fragment DeltaKind} (h : FollowsAll past f)
    (hf : f.isContent = true) : calls past = [] := by
  refine List.filterMap_eq_nil_iff.mpr fun g hg => ?_
  have hg := (h g hg).1 hf
  cases g with
  | toolCall index call arguments => cases hg
  | _ => rfl

theorem hears_content (kind : DeltaKind) (text : NonEmptyString)
    (hfollows : FollowsAll past (.content kind text)) :
    Accepts hear (Hears past) (pushDelta kind text) (Hears (past ++ [.content kind text])) := by
  rw [pushDelta, inOrder_cons, inOrder_cons, inOrder_nil, andThen_skip]
  refine (hears_ensureMessageStart fun _ _ h => h.opened).andThen ?_
  intro s m h
  obtain ⟨opened, bs, hblocks, hopened, htells, htools⟩ := h.blocks
  rw [hfollows.no_calls rfl] at hopened hblocks
  -- no call has begun, so the text goes to the newest block
  obtain rfl := hopened.eq_nil
  rw [List.map_nil, List.reverse_nil, List.nil_append] at hblocks
  subst hblocks
  obtain ⟨bs, hexec, hsaid⟩ := ReasoningInterleaver.tells_push htells kind text.property
  refine ⟨_, hexec, ?_, [], bs, rfl, ?_, ?_, ?_⟩
  · exact h.frame.concat rfl rfl (List.append_nil _).symm (Bool.or_false _).symm rfl rfl
  · rw [calls_concat, hfollows.no_calls rfl]
    exact opened_nil _
  · rw [draft_concat]
    exact hsaid
  · rw [any_isFinish_concat rfl]
    exact htools

/-- A list of tool calls ends the run of text. -/
theorem hears_toolCalls :
    Accepts hear (Hears past) (inOrder [ensureMessageStart, flush])
      (Hears (past ++ [.toolCalls])) := by
  rw [inOrder_cons, inOrder_cons, inOrder_nil, andThen_skip]
  refine (hears_ensureMessageStart fun _ _ h => h.opened).andThen ?_
  intro s m h
  obtain ⟨opened, bs, hblocks, hopened, htells, htools⟩ := h.blocks
  refine ⟨m, ReasoningInterleaver.hear_flush _ m, ?_, opened, bs, ?_, ?_, ?_, ?_⟩
  · exact h.frame.concat rfl rfl (List.append_nil _).symm (Bool.or_false _).symm rfl rfl
  · rw [calls_concat]
    exact hblocks.trans (by simp [callOf])
  · rw [calls_concat]
    simpa [callOf, flush, onInterleaver] using hopened
  · rw [draft_concat]
    exact ReasoningInterleaver.tells_flush htells
  · rw [any_isFinish_concat rfl]
    exact htools

theorem handleToolCall_eq (k : Nat) (call : Option (String × String)) (arguments : String)
    (s : StreamState) :
    handleToolCall k call arguments s =
      andThen (openTool k) (spell (blockIndex s k) call arguments) s := by
  rw [handleToolCall, inOrder_cons, spell]

@[simp] theorem spell_fst (i : Nat) (call : Option (String × String)) (arguments : String)
    (s : StreamState) : (spell i call arguments s).1 = s := by
  rw [spell, inOrder_cons, inOrder_cons, inOrder_nil, andThen_skip, andThen_apply, emitArguments]
  cases call <;> by_cases h : arguments = "" <;> simp [h, emit, skip]

/-- The other calls keep their blocks. -/
theorem map_callBlockAt_concat {cs : List CallFragment} {c : CallFragment}
    {opened : List (Nat × Nat)} (h : c.1 ∉ opened.map Prod.fst) :
    opened.map (callBlockAt (cs ++ [c])) = opened.map (callBlockAt cs) := by
  refine List.map_congr_left fun at_ hat => callBlockAt_concat_of_ne ?_
  rintro hkey
  exact h (hkey ▸ List.mem_map_of_mem hat)

/-- A fragment of a call that has begun. -/
theorem exec_hear_goOn {cs : List CallFragment} {opened front back : List (Nat × Nat)} {i : Nat}
    {c : CallFragment} {bs : List Block} (hsplit : opened = front ++ (c.1, i) :: back)
    (hkeys : (opened.map Prod.fst).Nodup) (hindices : (opened.map Prod.snd).Nodup)
    (hblocks : m.blocks = (opened.map (callBlockAt cs)).reverse ++ bs) (s : StreamState) :
    Runs.exec hear m (spell i c.2.1 c.2.2 s).2 =
      some { m with blocks := (opened.map (callBlockAt (cs ++ [c]))).reverse ++ bs } := by
  subst hsplit
  rw [List.map_append, List.map_cons, List.nodup_middle, List.nodup_cons, List.mem_append,
    not_or] at hkeys hindices
  obtain ⟨⟨hfront, hback⟩, -⟩ := hkeys
  have hpast : ∀ x ∈ (back.map (callBlockAt cs)).reverse,
      x.index ≠ (callBlockAt cs (c.1, i)).index := by
    intro x hx hi
    obtain ⟨at_, hat, rfl⟩ := List.mem_map.mp (List.mem_reverse.mp hx)
    exact hindices.1.2 (List.mem_map.mpr ⟨at_, hat, hi⟩)
  have hspell := exec_hear_spell (m := m) ((front.map (callBlockAt cs)).reverse ++ bs) hpast c s
  rw [List.map_append, List.map_cons, map_callBlockAt_concat hfront, map_callBlockAt_concat hback,
    callBlockAt_concat_self]
  rw [List.map_append, List.map_cons] at hblocks
  obtain ⟨blocks, stops, usages⟩ := m
  simp only [List.reverse_append, List.reverse_cons, List.append_assoc, List.cons_append,
    List.nil_append] at hblocks ⊢
  rw [hblocks]
  exact hspell

/-- The first fragment of a call. -/
theorem exec_hear_begin {cs : List CallFragment} {opened : List (Nat × Nat)} {i : Nat}
    {c : CallFragment} {bs : List Block} (hkeys : opened.map Prod.fst = begun cs)
    (hnew : c.1 ∉ opened.map Prod.fst)
    (hblocks : m.blocks = (opened.map (callBlockAt cs)).reverse ++ bs) (s : StreamState) :
    Runs.exec hear m (.contentBlockStart i .toolCall :: (spell i c.2.1 c.2.2 s).2) =
      some { m with
        blocks := ((opened ++ [(c.1, i)]).map (callBlockAt (cs ++ [c]))).reverse ++ bs } := by
  have hfresh : callBlockAt cs (c.1, i) = { index := i, kind := .toolCall } :=
    callBlockAt_of_new (hkeys ▸ hnew)
  have hspell := exec_hear_spell (m := m) (b := { index := i, kind := .toolCall }) m.blocks
    (List.forall_mem_nil _) c s
  rw [Runs.exec_cons, hear, Option.bind_some, List.map_append, List.map_singleton,
    List.reverse_append, List.reverse_singleton, map_callBlockAt_concat hnew,
    callBlockAt_concat_self, hfresh, List.append_assoc, ← hblocks]
  exact hspell

theorem Opened.concat {cs : List CallFragment} {next : Nat} {opened : List (Nat × Nat)}
    (h : Opened cs next opened) {c : CallFragment} (hnew : c.1 ∉ opened.map Prod.fst) :
    Opened (cs ++ [c]) next
      (opened ++ [(c.1, Wire.addU32 next (Wire.asU32 opened.length))]) where
  keys := by
    rw [h.keys] at hnew
    rw [List.map_append, h.keys, begun_concat, if_neg hnew, List.map_singleton]
  indices := by
    rw [List.map_append, h.indices, List.length_append, List.length_singleton, List.range_succ,
      List.map_append, List.map_singleton, List.map_singleton]

theorem Opened.goOn {cs : List CallFragment} {next : Nat} {opened : List (Nat × Nat)}
    (h : Opened cs next opened) {c : CallFragment} (hold : c.1 ∈ opened.map Prod.fst) :
    Opened (cs ++ [c]) next opened where
  keys := by
    rw [h.keys] at hold
    rw [h.keys, begun_concat, if_pos hold]
  indices := h.indices

theorem hears_toolCall (c : CallFragment)
    (hfollows : FollowsAll past (.toolCall c.1 c.2.1 c.2.2))
    (hfits : ∀ c ∈ calls past, c.1 < 4294967296) :
    Accepts hear (Hears past) (handleToolCall c.1 c.2.1 c.2.2)
      (Hears (past ++ [.toolCall c.1 c.2.1 c.2.2])) := by
  intro s m h
  obtain ⟨opened, bs, hblocks, hopened, htells, htools⟩ := h.blocks
  have hrunning := hfollows.unfinished rfl
  obtain rfl := htools hrunning
  have hkeys : (s.openToolBlocks.map Prod.fst).Nodup := by
    rw [hopened.keys]
    exact Lists.nodup_firsts _
  have hcalls : calls (past ++ [.toolCall c.1 c.2.1 c.2.2]) = calls past ++ [c] :=
    calls_concat past _
  have hdraft : draft (past ++ [.toolCall c.1 c.2.1 c.2.2]) = draft past := draft_concat past _
  rw [handleToolCall_eq, andThen_apply, spell_fst]
  cases hlookup : s.openToolBlocks.lookup c.1 with
  | some i =>
    obtain ⟨front, back, hsplit, -⟩ := List.lookup_eq_some_iff.mp hlookup
    have hold : c.1 ∈ s.openToolBlocks.map Prod.fst := by
      rw [hsplit, List.map_append]
      exact List.mem_append_right _ List.mem_cons_self
    have hopen : openTool c.1 s = (s, []) := by rw [openTool, hlookup]
    have hindex : blockIndex s c.1 = i := by rw [blockIndex, hlookup, Option.getD_some]
    rw [hopen, hindex]
    refine ⟨_, exec_hear_goOn hsplit hkeys (hopened.nodup hfits) hblocks s, ?_⟩
    refine ⟨h.frame.concat rfl rfl (List.append_nil _).symm (Bool.or_false _).symm rfl rfl,
      s.openToolBlocks, bs, ?_⟩
    rw [hcalls, hdraft]
    exact ⟨rfl, hopened.goOn hold, htells, fun _ => rfl⟩
  | none =>
    have hnew : c.1 ∉ s.openToolBlocks.map Prod.fst := by
      intro hmem
      obtain ⟨at_, hat, hkey⟩ := List.mem_map.mp hmem
      have hne := List.lookup_eq_none_iff.mp hlookup at_ hat
      simp [hkey] at hne
    have hindex : blockIndex s c.1 = allocated s := by rw [blockIndex, hlookup, Option.getD_none]
    have hopen : openTool c.1 s =
        ({ s with openToolBlocks := s.openToolBlocks ++ [(c.1, allocated s)] },
          [.contentBlockStart (allocated s) .toolCall]) := by
      rw [openTool, hlookup]
    rw [hopen, hindex]
    refine ⟨_, exec_hear_begin hopened.keys hnew hblocks _, ?_⟩
    refine ⟨h.frame.concat rfl rfl (List.append_nil _).symm (Bool.or_false _).symm rfl rfl,
      s.openToolBlocks ++ [(c.1, allocated s)], bs, ?_⟩
    rw [hcalls, hdraft]
    exact ⟨rfl, hopened.concat hnew, htells, fun _ => rfl⟩

theorem hear_closeTools (order : List Nat) (m : Heard) :
    Runs.exec hear m (Envelope.closeTools order) = some m := by
  induction order with
  | nil => rfl
  | cons i order ih =>
    rw [Envelope.closeTools, List.flatMap_cons, Runs.exec_append]
    exact ih

/-- The finish reason closes every block. -/
theorem hears_finish (reason : String) (hfollows : FollowsAll past (.finish reason)) :
    Accepts hear (Hears past) (parseFinish reason) (Hears (past ++ [.finish reason])) := by
  intro s m h
  obtain ⟨opened, bs, hblocks, hopened, htells, -⟩ := h.blocks
  have hstops : past.filterMap reasonOf = [] := by
    refine List.filterMap_eq_nil_iff.mpr fun g hg => ?_
    have hfinish := (hfollows g hg).2 rfl
    cases g with
    | finish reason => cases hfinish
    | _ => rfl
  refine ⟨{ m with stops := [(.fromProviderString reason, none)] }, ?_, ?_, opened, bs, ?_⟩
  · have hquiet : m.stops = [] := by rw [h.frame.stops, hstops, List.map_nil]
    simp only [parseFinish, inOrder_cons, inOrder_nil, andThen_skip, andThen_apply]
    refine Runs.exec_append_eq_some.mpr ⟨m, ReasoningInterleaver.hear_flush _ m, ?_⟩
    refine Runs.exec_append_eq_some.mpr ⟨m, hear_closeTools _ m, ?_⟩
    simp [stopMessage, markCompleted, update, Runs.exec_cons, hear, Heard.after, hquiet]
  · refine ⟨?_, ?_, h.frame.unstopped, ?_, ?_⟩
    · rw [List.any_append]
      exact h.frame.started.trans (Bool.or_false _).symm
    · rw [List.any_append]
      exact (Bool.or_true _).symm
    · rw [Lists.filterMap_concat, hstops]
      rfl
    · rw [Lists.filterMap_concat]
      exact h.frame.usages.trans (List.append_nil _).symm
  · rw [calls_concat, draft_concat]
    refine ⟨hblocks.trans (by simp [callOf]), ?_, ReasoningInterleaver.tells_flush htells, ?_⟩
    · have hnext : (parseFinish reason s).1.interleaver.nextIndex = s.interleaver.nextIndex :=
        ReasoningInterleaver.nextIndex_flush _
      rw [hnext]
      simpa [callOf] using hopened
    · intro hfinish
      rw [List.any_append] at hfinish
      simp [Fragment.isFinish] at hfinish

/-- A fragment that follows the ones before it. -/
def Continues (past : List (Fragment DeltaKind)) (f : Fragment DeltaKind) : Prop :=
  FollowsAll past f ∧ ∀ c ∈ calls past, c.1 < 4294967296

theorem hears_apply {f : Fragment DeltaKind} (h : Continues past f) :
    Accepts hear (Hears past) (apply f) (Hears (past ++ [f])) := by
  cases f with
  | chunk id model created => exact hears_chunk id model created
  | role => exact hears_role
  | content kind text => exact hears_content kind text h.1
  | toolCalls => exact hears_toolCalls
  | toolCall index call arguments => exact hears_toolCall (index, call, arguments) h.1 h.2
  | finish reason => exact hears_finish reason h.1
  | usage usage => exact hears_usage usage
  | error message => exact hears_error message

/-! ## The end of the stream -/

/-- Puts out nothing that is heard, and does not stop the message. -/
def Mute (f : Parse) : Prop :=
  ∀ s m, (f s).1.emittedMessageStop = s.emittedMessageStop ∧ Runs.exec hear m (f s).2 = some m

theorem Mute.andThen {f g : Parse} (hf : Mute f) (hg : Mute g) : Mute (andThen f g) := by
  intro s m
  obtain ⟨hstop, hexec⟩ := hf s m
  obtain ⟨hstop', hexec'⟩ := hg (f s).1 m
  exact ⟨hstop'.trans hstop, Runs.exec_append_eq_some.mpr ⟨m, hexec, hexec'⟩⟩

theorem mute_ensureEmptyResponseStart : Mute ensureEmptyResponseStart := by
  intro s m
  unfold ensureEmptyResponseStart
  split <;> exact ⟨rfl, rfl⟩

theorem mute_ensureMessageStart : Mute ensureMessageStart := by
  intro s m
  unfold ensureMessageStart
  split <;> exact ⟨rfl, rfl⟩

theorem mute_flush : Mute flush := fun s m => ⟨rfl, ReasoningInterleaver.hear_flush s.interleaver m⟩

theorem mute_drainOpenToolBlocks : Mute drainOpenToolBlocks := fun _ m => ⟨rfl, hear_closeTools _ m⟩

theorem mute_stopResponse : Mute stopResponse := fun _ _ => ⟨rfl, rfl⟩

theorem mute_ensureResponseStop : Mute ensureResponseStop := by
  intro s m
  unfold ensureResponseStop
  split
  · exact ⟨rfl, rfl⟩
  · exact mute_stopResponse s m

theorem mute_markCompleted : Mute markCompleted := fun _ _ => ⟨rfl, rfl⟩

/-- The stops of a stream: the finish reason, or the end of the turn. -/
def endStops (fs : List (Fragment DeltaKind)) : List (StopReason × Option String) :=
  match fs.filterMap reasonOf with
  | [] => [(.endTurn, none)]
  | reasons => reasons.map fun r => (.fromProviderString r, none)

theorem any_isFinish_iff : past.any Fragment.isFinish = true ↔ past.filterMap reasonOf ≠ [] := by
  rw [← not_iff_not, not_not, Bool.not_eq_true, List.any_eq_false, List.filterMap_eq_nil_iff]
  refine forall₂_congr fun f _ => ?_
  cases f <;> simp [Fragment.isFinish, reasonOf]

/-- How the call with an index reads. -/
def callReading (cs : List CallFragment) (k : Nat) : Option Spoken :=
  (callBlockAt cs (k, 0)).reading

/-- What a whole stream comes to. -/
structure ComesTo (past : List (Fragment DeltaKind)) (m : Heard) : Prop where
  told : m.blocks.reverse.map Block.reading =
    (draft past).readings.map some ++ (begun (calls past)).map (callReading (calls past))
  stops : m.stops = endStops past
  usages : m.usages = past.filterMap usageIn

theorem Hears.told (h : Hears past s m) : m.blocks.reverse.map Block.reading =
    (draft past).readings.map some ++ (begun (calls past)).map (callReading (calls past)) := by
  obtain ⟨opened, bs, hblocks, hopened, htells, -⟩ := h.blocks
  rw [hblocks, List.reverse_append, List.reverse_reverse, List.map_append, htells.told,
    List.map_map, ← hopened.keys, List.map_map]
  rfl

/-- The message is stopped once, and the response after it. -/
theorem comesTo_closing (past : List (Fragment DeltaKind)) {pre post : Parse} (hpre : Mute pre)
    (hpost : Mute post) :
    Accepts hear (Hears past) (andThen pre (andThen (ensureMessageStop .endTurn) post))
      fun _ m => ComesTo past m := by
  intro s m h
  obtain ⟨hstop, hexec⟩ := hpre s m
  have hstopped := hstop.trans h.frame.stopped
  cases hfinish : past.any Fragment.isFinish with
  | true =>
    refine ⟨m, ?_, h.told, ?_, h.frame.usages⟩
    · rw [andThen_apply, andThen_apply, ensureMessageStop_of_stopped (hstopped.trans hfinish)]
      exact Runs.exec_append_eq_some.mpr ⟨m, hexec, (hpost _ m).2⟩
    · have hsome := any_isFinish_iff.mp hfinish
      rw [h.frame.stops, endStops]
      cases hreasons : past.filterMap reasonOf with
      | nil => exact absurd hreasons hsome
      | cons reason reasons => rfl
  | false =>
    have hnone : past.filterMap reasonOf = [] := by
      by_contra hne
      rw [any_isFinish_iff.mpr hne] at hfinish
      cases hfinish
    have hquiet : m.stops = [] := by rw [h.frame.stops, hnone, List.map_nil]
    refine ⟨{ m with stops := [(.endTurn, none)] }, ?_, h.told, ?_, h.frame.usages⟩
    · rw [andThen_apply, andThen_apply, ensureMessageStop_of_running (hstopped.trans hfinish)]
      refine Runs.exec_append_eq_some.mpr ⟨m, hexec, ?_⟩
      rw [stopMessage, List.singleton_append, Runs.exec_cons, hear, Option.bind_some, Heard.after,
        hquiet]
      exact (hpost _ _).2
    · rw [endStops, hnone]

theorem comesTo_handleDone : Accepts hear (Hears past) handleDone fun _ m => ComesTo past m := by
  have hpre := mute_ensureEmptyResponseStart.andThen (mute_ensureMessageStart.andThen
    (mute_flush.andThen mute_drainOpenToolBlocks))
  have hpost := mute_ensureResponseStop.andThen mute_markCompleted
  have hclosing := comesTo_closing past hpre hpost
  simpa only [handleDone, inOrder_cons, inOrder_nil, andThen_skip, andThen_assoc] using hclosing

theorem finalize_of_done (s : StreamState) :
    finalize (handleDone s).1 = ((handleDone s).1, []) := by
  have hstopped : ∀ s, (ensureResponseStop s).1.emittedResponseStop = true := by
    intro s
    unfold ensureResponseStop
    split
    · assumption
    · rfl
  have hdone : (handleDone s).1.emittedResponseStop = true := by
    simp only [handleDone, inOrder_cons, inOrder_nil, andThen_skip, andThen_apply]
    exact hstopped _
  rw [finalize, if_pos hdone]

/-- The end of a stream of which something came. -/
theorem comesTo_end (done : Bool) (hstarted : past.any Fragment.isChunk = true) :
    Accepts hear (Hears past) (andThen (if done then handleDone else skip) finalize)
      fun _ m => ComesTo past m := by
  cases done with
  | true =>
    intro s m h
    obtain ⟨m', hexec, hcomes⟩ := comesTo_handleDone s m h
    refine ⟨m', ?_, hcomes⟩
    rw [if_pos rfl, andThen_apply, finalize_of_done, List.append_nil]
    exact hexec
  | false =>
    intro s m h
    have hclosing := comesTo_closing past
      (mute_ensureMessageStart.andThen (mute_flush.andThen mute_drainOpenToolBlocks))
      mute_stopResponse s m h
    have hfinalize : finalize s =
        inOrder [ensureMessageStart, flush, drainOpenToolBlocks, ensureMessageStop .endTurn,
          stopResponse] s := by
      rw [finalize, h.frame.unstopped, h.frame.started, hstarted]
      rfl
    rw [if_neg Bool.false_ne_true, skip_andThen, hfinalize]
    simpa only [inOrder_cons, inOrder_nil, andThen_skip, andThen_assoc] using hclosing

/-- What the events of a stream in order come to. -/
theorem heard_events {chunks : List Json} (done : Bool)
    (hstarted : (chunks.flatMap (fragments dialect)).any Fragment.isChunk = true)
    (h : Throughout Continues (chunks.flatMap (fragments dialect))) :
    (blocks (events chunks done)).map Block.reading =
        (draft (chunks.flatMap (fragments dialect))).readings.map some ++
          (begun (calls (chunks.flatMap (fragments dialect)))).map
            (callReading (calls (chunks.flatMap (fragments dialect)))) ∧
      stops (events chunks done) = endStops (chunks.flatMap (fragments dialect)) ∧
      usages (events chunks done) = (chunks.flatMap (fragments dialect)).filterMap usageIn := by
  have hrun := (accepts_of_throughout (R := Hears) (fun _ _ _ hok => hears_apply hok) h h).andThen
    (comesTo_end done hstarted)
  obtain ⟨m, hexec, htold, hstops, husages⟩ := hrun {} {} hears_init
  have hpoll : events chunks done = _ := okEvents_poll (h := handlers) parseChunk_eq {} chunks done
  have hheard := (exec_hear (events chunks done)).symm.trans (hpoll ▸ hexec)
  obtain rfl := Option.some.inj hheard
  rw [List.reverse_reverse] at htold
  exact ⟨htold, hstops, husages⟩

end DeepSeekSse

end AgentShim
