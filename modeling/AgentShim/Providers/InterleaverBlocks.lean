import AgentShim.Providers.Interleaver

/-
  The blocks of an interleaved stream

  A run of the interleaver takes pushes and flushes from the idle state and is flushed
  at its end. Its inputs make blocks of their own: between two flushes, the pushed texts
  of one kind that follow each other, empty ones left out. The run puts out these blocks,
  each complete and under the next index. Indices are `u32`: after 4294967296 blocks
  they start again at zero.

  What is proved:
    1. `interleave_eq` — the events and the next index of every run.
    2. `groups_spec` — blocks of one kind follow each other only across a flush, and the
       texts of each kind are the pushed ones.
    3. `bracketed_iff` — the blocks are numbered 0, 1, 2, … and counted by the next
       index exactly if there are fewer than 4294967296 of them.
-/

namespace AgentShim.ReasoningInterleaver

open Transducer

inductive Op
  | push (kind : DeltaKind) (text : String)
  | flush
  deriving DecidableEq, Repr

def Op.isEmptyPush : Op → Bool
  | .push _ text => text == ""
  | .flush => false

def step : Op → Interleave
  | .push kind text => push kind text
  | .flush => flush

/-- Reads pushes and flushes, with a flush at the end. -/
def interleave (ops : List Op) : Interleave := andThen (forEach step ops) flush

/-! ## Complete blocks -/

/-- A block of one kind, with at least one text. -/
structure Bracket where
  kind : DeltaKind
  first : String
  more : List String
  deriving DecidableEq, Repr

namespace Bracket

def texts (b : Bracket) : List String := b.first :: b.more

/-- The block with a text before its own. -/
def push (b : Bracket) (text : String) : Bracket := { b with first := text, more := b.texts }

/-- The events of a block: its start, its deltas, its stop. -/
def events (index : Nat) (b : Bracket) : List StreamEvent :=
  .contentBlockStart index b.kind.blockKind ::
    (b.texts.map (b.kind.delta index) ++ [.contentBlockStop index])

end Bracket

/-- Blocks one after the other, the numbers given by a function of the position. -/
def numbered (index : Nat → Nat) : Nat → List Bracket → List StreamEvent
  | _, [] => []
  | n, b :: bs => b.events (index n) ++ numbered index (n + 1) bs

/-- The texts of a kind among blocks, as one. -/
def spoken (kind : DeltaKind) : List Bracket → String
  | [] => ""
  | b :: bs => (if b.kind = kind then String.join b.texts else "") ++ spoken kind bs

/-- The pushed texts of a kind, as one. -/
def pushed (kind : DeltaKind) : List Op → String
  | [] => ""
  | .push k text :: ops => (if k = kind then text else "") ++ pushed kind ops
  | .flush :: ops => pushed kind ops

/-- No two blocks of a kind follow each other. -/
def Alternating (bs : List Bracket) : Prop := (bs.map Bracket.kind).IsChain (· ≠ ·)

/-! ## The blocks of the inputs -/

/-- Puts a text before blocks, into the first one if that is of its kind. -/
def extend (kind : DeltaKind) (text : String) : List Bracket → List Bracket
  | [] => [{ kind, first := text, more := [] }]
  | b :: bs =>
    if b.kind = kind then b.push text :: bs else { kind, first := text, more := [] } :: b :: bs

/-- The blocks of each stretch between flushes. -/
def groups : List Op → List (List Bracket)
  | [] => [[]]
  | .flush :: ops => [] :: groups ops
  | .push kind text :: ops =>
    if text = "" then groups ops else (groups ops).modifyHead (extend kind text)

/-- The stretches between flushes. -/
def stretches (ops : List Op) : List (List Op) := ops.splitOnP (· == .flush)

/-- What the blocks of a stretch are: the kinds alternate, and the texts of each kind are
the pushed ones. -/
def Groups (stretch : List Op) (g : List Bracket) : Prop :=
  Alternating g ∧ ∀ kind, spoken kind g = pushed kind stretch

/-- What a run keeps: its events are complete blocks numbered from zero and counted by the
next index; there are as many groups of them as stretches; pushes of an empty text make
no difference. -/
structure Bracketed (ops : List Op) : Prop where
  blocks : ∃ gs : List (List Bracket),
    (interleave ops {}).2 = numbered id 0 gs.flatten ∧
    (interleave ops {}).1.nextIndex = gs.flatten.length ∧
    List.Forall₂ Groups (stretches ops) gs
  silent : interleave (ops.filter fun op => !op.isEmptyPush) {} = interleave ops {}

/-! ## One run -/

/-- A number as a `u32`. -/
def wrap (n : Nat) : Nat := n % 4294967296

theorem addU32_wrap (n : Nat) : Wire.addU32 (wrap n) 1 = wrap (n + 1) := by
  unfold Wire.addU32 wrap
  omega

/-- The state before block `n` is started, and while it is open. -/
def idleAt (n : Nat) : ReasoningInterleaver where
  state := .idle
  nextIndex := wrap n

def openAt (n : Nat) (kind : DeltaKind) : ReasoningInterleaver where
  state := within (wrap n) kind
  nextIndex := wrap (n + 1)

theorem push_empty (kind : DeltaKind) (it : ReasoningInterleaver) : push kind "" it = (it, []) :=
  if_pos rfl

theorem openNewBlock_idle (n : Nat) (kind : DeltaKind) (text : String) :
    openNewBlock kind text (idleAt n) = (openAt n kind,
      [.contentBlockStart (wrap n) kind.blockKind, kind.delta (wrap n) text]) := by
  rw [openNewBlock_eq, idleAt, addU32_wrap]
  rfl

theorem push_idle {text : String} (htext : text ≠ "") (n : Nat) (kind : DeltaKind) :
    push kind text (idleAt n) = (openAt n kind,
      [.contentBlockStart (wrap n) kind.blockKind, kind.delta (wrap n) text]) := by
  have hidle : ∀ index, (idleAt n).state ≠ within index kind := by
    intro index h
    cases kind <;> cases h
  rw [push_other htext hidle, andThen_apply, flush_idle rfl, openNewBlock_idle]
  rfl

theorem flush_open (n : Nat) (kind : DeltaKind) :
    flush (openAt n kind) = (idleAt (n + 1), [.contentBlockStop (wrap n)]) := by
  rw [flush_within rfl]
  rfl

theorem within_inj {i j : Nat} {kind kind' : DeltaKind} (h : within i kind = within j kind') :
    kind = kind' := by
  cases kind <;> cases kind' <;> first | rfl | cases h

theorem push_change {text : String} (htext : text ≠ "") {kind kind' : DeltaKind}
    (hkind : kind' ≠ kind) (n : Nat) :
    push kind' text (openAt n kind) = (openAt (n + 1) kind',
      [.contentBlockStop (wrap n), .contentBlockStart (wrap (n + 1)) kind'.blockKind,
        kind'.delta (wrap (n + 1)) text]) := by
  rw [push_other htext fun index h => hkind (within_inj h).symm, andThen_apply, flush_open,
    openNewBlock_idle]
  rfl

theorem interleave_cons (op : Op) (ops : List Op) (it : ReasoningInterleaver) :
    interleave (op :: ops) it =
      ((interleave ops (step op it).1).1, (step op it).2 ++ (interleave ops (step op it).1).2) := by
  rw [interleave, forEach_cons, andThen_assoc, andThen_apply]
  rfl

theorem extend_eq (kind : DeltaKind) (text : String) (bs : List Bracket) :
    ∃ more rest, extend kind text bs = { kind, first := text, more } :: rest := by
  cases bs with
  | nil => exact ⟨[], [], rfl⟩
  | cons b bs =>
    by_cases hb : b.kind = kind
    · refine ⟨b.texts, bs, ?_⟩
      rw [extend, if_pos hb, Bracket.push, hb]
    · exact ⟨[], b :: bs, if_neg hb⟩

theorem exists_groups (ops : List Op) : ∃ g gs, groups ops = g :: gs := by
  induction ops with
  | nil => exact ⟨[], [], rfl⟩
  | cons op ops ih =>
    cases op with
    | flush => exact ⟨[], groups ops, rfl⟩
    | push kind text =>
      obtain ⟨g, gs, hg⟩ := ih
      by_cases htext : text = ""
      · exact ⟨g, gs, by rw [groups, if_pos htext, hg]⟩
      · exact ⟨extend kind text g, gs, by rw [groups, if_neg htext, hg]; rfl⟩

/-- The blocks of inputs that come after a text. -/
def blocksAfter (kind : DeltaKind) (text : String) (ops : List Op) : List Bracket :=
  ((groups ops).modifyHead (extend kind text)).flatten

theorem flatten_groups_push {text : String} (htext : text ≠ "") (kind : DeltaKind)
    (ops : List Op) : (groups (.push kind text :: ops)).flatten = blocksAfter kind text ops := by
  rw [groups, if_neg htext]
  rfl

theorem blocksAfter_flush (kind : DeltaKind) (text : String) (ops : List Op) :
    blocksAfter kind text (.flush :: ops) =
      { kind, first := text, more := [] } :: (groups ops).flatten := rfl

/-- A text of the same kind joins the block. -/
theorem blocksAfter_same {text' : String} (htext : text' ≠ "") (kind : DeltaKind) (text : String)
    (ops : List Op) : ∃ more rest,
      blocksAfter kind text' ops = { kind, first := text', more } :: rest ∧
      blocksAfter kind text (.push kind text' :: ops) =
        { kind, first := text, more := text' :: more } :: rest := by
  obtain ⟨g, gs, hg⟩ := exists_groups ops
  obtain ⟨more, rest, hext⟩ := extend_eq kind text' g
  refine ⟨more, rest ++ gs.flatten, ?_, ?_⟩
  · rw [blocksAfter, hg, List.modifyHead_cons, hext]
    rfl
  · rw [blocksAfter, groups, if_neg htext, hg, List.modifyHead_cons, hext, List.modifyHead_cons,
      extend, if_pos rfl]
    rfl

/-- A text of the other kind begins the next block. -/
theorem blocksAfter_change {text' : String} (htext : text' ≠ "") {kind kind' : DeltaKind}
    (hkind : kind' ≠ kind) (text : String) (ops : List Op) :
    blocksAfter kind text (.push kind' text' :: ops) =
      { kind, first := text, more := [] } :: blocksAfter kind' text' ops := by
  obtain ⟨g, gs, hg⟩ := exists_groups ops
  obtain ⟨more, rest, hext⟩ := extend_eq kind' text' g
  rw [blocksAfter, groups, if_neg htext, blocksAfter, hg, List.modifyHead_cons, hext,
    List.modifyHead_cons, extend, if_neg hkind]
  rfl

/-- From between two blocks the run puts out the blocks of its inputs. -/
def Writes (ops : List Op) : Prop :=
  ∀ n, interleave ops (idleAt n) =
    (idleAt (n + (groups ops).flatten.length), numbered wrap n (groups ops).flatten)

/-- From after the first text of a block the run completes it and puts out the rest. -/
def Completes (ops : List Op) : Prop :=
  ∀ n kind text, ∃ events,
    interleave ops (openAt n kind) = (idleAt (n + (blocksAfter kind text ops).length), events) ∧
    numbered wrap n (blocksAfter kind text ops) =
      .contentBlockStart (wrap n) kind.blockKind :: kind.delta (wrap n) text :: events

theorem completes_nil : Completes [] := by
  intro n kind text
  exact ⟨[.contentBlockStop (wrap n)], flush_open n kind, rfl⟩

theorem completes_flush {ops : List Op} (h : Writes ops) : Completes (.flush :: ops) := by
  intro n kind text
  refine ⟨.contentBlockStop (wrap n) :: numbered wrap (n + 1) (groups ops).flatten, ?_, rfl⟩
  rw [interleave_cons, step, flush_open, h, blocksAfter_flush, List.length_cons, Nat.add_assoc,
    Nat.add_comm 1]
  rfl

/-- A text of the kind of the open block. -/
theorem completes_same {ops : List Op} (h : Completes ops) {text' : String} (htext : text' ≠ "")
    (n : Nat) (kind : DeltaKind) (text : String) : ∃ events,
      interleave (.push kind text' :: ops) (openAt n kind) =
        (idleAt (n + (blocksAfter kind text (.push kind text' :: ops)).length), events) ∧
      numbered wrap n (blocksAfter kind text (.push kind text' :: ops)) =
        .contentBlockStart (wrap n) kind.blockKind :: kind.delta (wrap n) text :: events := by
  obtain ⟨events, hrun, hevents⟩ := h n kind text'
  obtain ⟨more, rest, hblocks, hafter⟩ := blocksAfter_same htext kind text ops
  refine ⟨kind.delta (wrap n) text' :: events, ?_, ?_⟩
  · rw [interleave_cons, step, push_same htext rfl, hrun, hblocks, hafter]
    rfl
  · rw [hblocks] at hevents
    rw [hafter]
    have htail := List.cons.inj (List.cons.inj hevents).2
    exact congrArg (fun l => .contentBlockStart (wrap n) kind.blockKind ::
      kind.delta (wrap n) text :: kind.delta (wrap n) text' :: l) htail.2

theorem completes_push {ops : List Op} (h : Completes ops) (kind' : DeltaKind) {text' : String}
    (htext : text' ≠ "") : Completes (.push kind' text' :: ops) := by
  intro n kind text
  by_cases hkind : kind' = kind
  · subst hkind
    exact completes_same h htext n kind' text
  · -- a text of the other kind begins the next block
    obtain ⟨events, hrun, hevents⟩ := h (n + 1) kind' text'
    refine ⟨.contentBlockStop (wrap n) :: numbered wrap (n + 1) (blocksAfter kind' text' ops),
      ?_, ?_⟩
    · rw [interleave_cons, step, push_change htext hkind, hrun, blocksAfter_change htext hkind,
        List.length_cons, Nat.add_assoc, Nat.add_comm 1, hevents]
      rfl
    · rw [blocksAfter_change htext hkind]
      rfl

theorem writes_push {ops : List Op} (h : Completes ops) (kind : DeltaKind) {text : String}
    (htext : text ≠ "") : Writes (.push kind text :: ops) := by
  intro n
  obtain ⟨events, hrun, hevents⟩ := h n kind text
  rw [interleave_cons, step, push_idle htext, hrun, flatten_groups_push htext, hevents]
  rfl

/-- What a run puts out is the blocks of its inputs, whether it begins between two blocks
or after the first text of one. -/
theorem interleave_blocks (ops : List Op) : Writes ops ∧ Completes ops := by
  induction ops with
  | nil => exact ⟨fun n => rfl, completes_nil⟩
  | cons op ops ih =>
    obtain ⟨hwrites, hcompletes⟩ := ih
    cases op with
    | flush =>
      refine ⟨?_, completes_flush hwrites⟩
      intro n
      rw [interleave_cons]
      exact hwrites n
    | push kind text =>
      by_cases htext : text = ""
      · -- an empty text changes nothing
        subst htext
        constructor
        · intro n
          rw [interleave_cons, step, push_empty]
          exact hwrites n
        · intro n kind' text'
          rw [interleave_cons, step, push_empty]
          exact hcompletes n kind' text'
      · exact ⟨writes_push hcompletes kind htext, completes_push hcompletes kind htext⟩

/-! ## What the blocks are -/

theorem alternating_extend (kind : DeltaKind) (text : String) {bs : List Bracket}
    (h : Alternating bs) : Alternating (extend kind text bs) := by
  unfold Alternating at *
  cases bs with
  | nil => exact List.IsChain.singleton _
  | cons b bs =>
    rw [extend]
    split
    · exact h
    · rename_i hb
      rw [List.map_cons, List.map_cons]
      exact List.isChain_cons_cons.mpr ⟨fun heq => hb heq.symm, h⟩

theorem spoken_extend (kind kind' : DeltaKind) (text : String) (bs : List Bracket) :
    spoken kind (extend kind' text bs) = (if kind' = kind then text else "") ++ spoken kind bs := by
  have hone : String.join [text] = text := by
    rw [String.join_cons, String.join_nil, String.append_empty]
  cases bs with
  | nil =>
    show (if kind' = kind then String.join [text] else "") ++ "" = _
    rw [hone]
    rfl
  | cons b bs =>
    rw [extend]
    split
    · rename_i hb
      subst hb
      show (if b.kind = kind then String.join (text :: b.texts) else "") ++ spoken kind bs = _
      rw [spoken, String.join_cons]
      split
      · exact String.append_assoc
      · rw [String.empty_append, String.empty_append]
    · show (if kind' = kind then String.join [text] else "") ++ spoken kind (b :: bs) = _
      rw [hone]

theorem stretches_push (kind : DeltaKind) (text : String) (ops : List Op) :
    stretches (.push kind text :: ops) = (stretches ops).modifyHead (.push kind text :: ·) := by
  rw [stretches, List.splitOnP_cons_eq_if_modifyHead]
  rfl

theorem stretches_flush (ops : List Op) : stretches (.flush :: ops) = [] :: stretches ops := by
  rw [stretches, List.splitOnP_cons_eq_if_modifyHead]
  rfl

theorem groups_spec (ops : List Op) : List.Forall₂ Groups (stretches ops) (groups ops) := by
  induction ops with
  | nil => exact .cons ⟨List.IsChain.nil, fun _ => rfl⟩ .nil
  | cons op ops ih =>
    cases op with
    | flush =>
      rw [stretches_flush]
      exact .cons ⟨List.IsChain.nil, fun _ => rfl⟩ ih
    | push kind text =>
      rw [stretches_push, groups]
      revert ih
      generalize stretches ops = rest
      generalize groups ops = gs
      intro ih
      cases ih with
      | nil => split <;> exact .nil
      | cons hhead htail =>
        obtain ⟨halt, hspoken⟩ := hhead
        split
        · rename_i htext
          subst htext
          refine .cons ⟨halt, fun k => ?_⟩ htail
          rw [hspoken, pushed, ite_self, String.empty_append]
        · refine .cons ⟨alternating_extend kind text halt, fun k => ?_⟩ htail
          rw [spoken_extend, hspoken, pushed]

theorem interleave_filter (ops : List Op) (it : ReasoningInterleaver) :
    interleave (ops.filter fun op => !op.isEmptyPush) it = interleave ops it := by
  induction ops generalizing it with
  | nil => rfl
  | cons op ops ih =>
    rw [List.filter_cons]
    split
    · rw [interleave_cons, interleave_cons, ih]
    · rename_i hempty
      cases op with
      | flush => exact absurd rfl hempty
      | push kind text =>
        obtain rfl : text = "" := by simpa [Op.isEmptyPush] using hempty
        rw [ih, interleave_cons, step, push_empty]
        rfl

/-! ## Numbers -/

/-- Below the wrap the numbers are the positions. -/
theorem numbered_wrap {n : Nat} {bs : List Bracket} (h : n + bs.length ≤ 4294967296) :
    numbered wrap n bs = numbered id n bs := by
  induction bs generalizing n with
  | nil => rfl
  | cons b bs ih =>
    rw [List.length_cons] at h
    rw [numbered, numbered, ih (by omega), wrap, Nat.mod_eq_of_lt (by omega)]
    rfl

/-- How many blocks are started. -/
def starts (events : List StreamEvent) : Nat :=
  events.countP fun e =>
    match e with
    | .contentBlockStart _ _ => true
    | _ => false

theorem starts_events (index : Nat) (b : Bracket) : starts (b.events index) = 1 := by
  have hdeltas : ∀ texts : List String,
      starts (texts.map (b.kind.delta index) ++ [.contentBlockStop index]) = 0 := by
    intro texts
    induction texts with
    | nil => rfl
    | cons t texts ih =>
      rw [List.map_cons, List.cons_append, starts, List.countP_cons_of_neg]
      · exact ih
      · cases b.kind <;> exact Bool.false_ne_true
  rw [Bracket.events, starts, List.countP_cons_of_pos rfl]
  exact congrArg (· + 1) (hdeltas b.texts)

theorem starts_numbered (index : Nat → Nat) (n : Nat) (bs : List Bracket) :
    starts (numbered index n bs) = bs.length := by
  induction bs generalizing n with
  | nil => rfl
  | cons b bs ih =>
    have happ : starts (numbered index n (b :: bs)) =
        starts (b.events (index n)) + starts (numbered index (n + 1) bs) := List.countP_append
    rw [happ, starts_events, ih, List.length_cons, Nat.add_comm]

theorem interleave_eq (ops : List Op) :
    interleave ops {} =
      (idleAt (groups ops).flatten.length, numbered wrap 0 (groups ops).flatten) := by
  have h := (interleave_blocks ops).1 0
  rw [Nat.zero_add] at h
  exact h

theorem length_lt_of_bracketed {ops : List Op} (h : Bracketed ops) :
    (groups ops).flatten.length < 4294967296 := by
  obtain ⟨gs, hevents, hnext, -⟩ := h.blocks
  rw [interleave_eq] at hevents hnext
  have hcount := congrArg starts hevents
  rw [starts_numbered, starts_numbered] at hcount
  calc (groups ops).flatten.length
      = gs.flatten.length := hcount
    _ = wrap (groups ops).flatten.length := hnext.symm
    _ < 4294967296 := Nat.mod_lt _ (by decide)

/-- A run keeps its blocks in order and counted exactly if the pushed texts make fewer
blocks than there are indices. -/
theorem bracketed_iff (ops : List Op) :
    Bracketed ops ↔ (groups ops).flatten.length < 4294967296 := by
  refine ⟨length_lt_of_bracketed, fun hlt => ?_⟩
  refine { blocks := ⟨groups ops, ?_, ?_, groups_spec ops⟩, silent := interleave_filter ops {} }
  · rw [interleave_eq]
    exact numbered_wrap (by omega)
  · rw [interleave_eq]
    exact Nat.mod_eq_of_lt hlt

/-- A text and a flush, over and over. -/
def flushedTexts (n : Nat) : List Op :=
  (List.replicate n [Op.push .text "a", Op.flush]).flatten

theorem length_groups_flushedTexts (n : Nat) :
    (groups (flushedTexts n)).flatten.length = n := by
  induction n with
  | zero => rfl
  | succ n ih =>
    have hcons : flushedTexts (n + 1) = .push .text "a" :: .flush :: flushedTexts n := rfl
    rw [hcons, flatten_groups_push (by decide), blocksAfter_flush, List.length_cons, ih]

/-- As many blocks as there are indices: the next index is zero again. -/
theorem flushedTexts_not_bracketed : ¬ Bracketed (flushedTexts 4294967296) := by
  intro h
  have hlt := length_lt_of_bracketed h
  rw [length_groups_flushedTexts] at hlt
  exact absurd hlt (by decide)

end AgentShim.ReasoningInterleaver
