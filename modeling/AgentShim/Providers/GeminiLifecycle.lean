import AgentShim.Providers.GeminiStream
import AgentShim.Stream.Lifecycle

/-
  The lifecycle of the Gemini stream state machine

  The machine numbers its blocks itself and closes each before the next, so the
  order of the chunks does not matter. What can go wrong is the counter: it is a
  `u32`, and wraps where its comment says an index is never reused.

  What is proved:
    1. `Watches.accepts_part` — a part moves the machine and any monitor that follows
       its position (how many blocks were opened, which kind is open) on together.
    2. `Watches.run` — such a monitor takes the whole run.
    3. `watches_envelope`, `watches_record` — the envelope follows it while the
       indices last, the bare list of events always.
    4. `gemini_lifecycle_iff` — the events keep the contract iff the parts open no
       more blocks than there are indices.
    5. `calls_not_valid` — one call more than there are indices reuses the first.
-/

namespace AgentShim

namespace Gemini

open Transducer ChatWire

/-! ## What the chunks hold -/

/-- How many blocks were opened, and the kind of the open one. -/
structure Position where
  opened : Nat := 0
  current : Option DeltaKind := none
  deriving DecidableEq, Repr

/-- A call is a block of its own; text joins the open block of its kind or opens
one; any other part changes nothing. -/
def Position.after (p : Position) (part : Part) : Position :=
  match part.functionCall, part.text with
  | some _, _ => { opened := p.opened + 1, current := none }
  | none, some _ =>
    if p.current = some part.kind then p
    else { opened := p.opened + 1, current := some part.kind }
  | none, none => p

def position (parts : List Part) : Position := parts.foldl Position.after {}

/-- The parts of the first candidates, up to the first finish. -/
def readParts : List GenerateContentResponse → List Part
  | [] => []
  | resp :: rest =>
    match resp.candidates.head? with
    | none => readParts rest
    | some candidate =>
      candidate.parts ++ if candidate.finishReason.isSome then [] else readParts rest

/-- How many blocks the chunks open. -/
def blocksOpened (chunks : List GenerateContentResponse) : Nat :=
  (position (readParts chunks)).opened

/-! ## The contract -/

def blockStart : StreamEvent → Option Nat
  | .contentBlockStart index _ => some index
  | _ => none

/-- The indices of the blocks, in the order they start. -/
def blockStarts (es : List StreamEvent) : List Nat := es.filterMap blockStart

/-- The open text and reasoning blocks after one more event. -/
def trackPlain (plain : List Nat) : StreamEvent → List Nat
  | .contentBlockStart index .text | .contentBlockStart index .reasoning => index :: plain
  | .contentBlockStop index => plain.filter (· ≠ index)
  | _ => plain

/-- The text and reasoning blocks open after the events. -/
def openPlain (es : List StreamEvent) : List Nat := es.foldl trackPlain []

def isStop : StreamEvent → Bool
  | .messageStop _ _ | .responseStop _ => true
  | _ => false

/-- What the events of a stream of chunks must satisfy. -/
structure Contract (chunks : List GenerateContentResponse) (es : List StreamEvent) : Prop where
  nothing : chunks = [] → es = []
  lifecycle : chunks ≠ [] → LifecycleValid es
  indices : blockStarts es = List.range (blockStarts es).length
  single : ∀ pre, pre <+: es → (openPlain pre).length ≤ 1
  ending : chunks ≠ [] → ∃ front reason usage,
    es = front ++ [.messageStop reason none, .responseStop usage] ∧ ∀ e ∈ front, isStop e = false

/-! ## The position of the machine -/

/-- The number under which the machine knows a count of blocks. -/
def wrap (n : Nat) : Nat := n % 4294967296

theorem wrap_of_lt {n : Nat} (h : n < 4294967296) : wrap n = n := Nat.mod_eq_of_lt h

/-- A running machine at a position. -/
structure Keeps (p : Position) (s : StreamState) : Prop where
  started : s.started = true
  running : s.stopped = false
  next : s.nextBlockIndex = wrap p.opened
  register : s.openBlock = p.current.map fun kind => { kind := kind, index := wrap (p.opened - 1) }

theorem Keeps.alloc {p : Position} {s : StreamState} (h : Keeps p s) :
    Wire.addU32 s.nextBlockIndex 1 = wrap (p.opened + 1) := by
  rw [h.next, Wire.addU32, wrap, wrap, Nat.mod_add_mod]

/-- The events of a tool call at an index. -/
def toolCallEvents (index : Nat) (id name arguments : String) : List StreamEvent :=
  [.contentBlockStart index .toolCall, .toolCallStart index id name,
    .toolCallArgumentsDelta index arguments, .toolCallStop index, .contentBlockStop index]

/-- A monitor that follows the position: `M` is where it is at a position, `Over`
where it ends, and `Room` is what one more block asks of the number opened. -/
structure Watches {μ : Type} (obs : μ → StreamEvent → Option μ) (init : μ)
    (M : Position → μ → Prop) (Over : Nat → μ → Prop) (Room : Nat → Prop) : Prop where
  starts : ∀ id model created, ∃ m,
    Runs.exec obs init [.responseStart id model created, .messageStart .assistant] = some m ∧
      M {} m
  closes : ∀ n kind m, M ⟨n, some kind⟩ m → ∃ m',
    Runs.exec obs m [.contentBlockStop (wrap (n - 1))] = some m' ∧ M ⟨n, none⟩ m'
  opens : ∀ n kind m, M ⟨n, none⟩ m → Room n → ∃ m',
    Runs.exec obs m [.contentBlockStart (wrap n) (DeltaKind.blockKind kind)] = some m' ∧
      M ⟨n + 1, some kind⟩ m'
  deltas : ∀ n kind text m, M ⟨n, some kind⟩ m → ∃ m',
    Runs.exec obs m [kind.delta (wrap (n - 1)) text] = some m' ∧ M ⟨n, some kind⟩ m'
  calls : ∀ n id name arguments m, M ⟨n, none⟩ m → Room n → ∃ m',
    Runs.exec obs m (toolCallEvents (wrap n) id name arguments) = some m' ∧ M ⟨n + 1, none⟩ m'
  stops : ∀ n reason usage m, M ⟨n, none⟩ m → ∃ m',
    Runs.exec obs m [.messageStop reason none, .responseStop usage] = some m' ∧ Over n m'

variable {μ : Type} {obs : μ → StreamEvent → Option μ} {init : μ} {M : Position → μ → Prop}
  {Over : Nat → μ → Prop} {Room : Nat → Prop} {host : Host}

/-- The machine and the monitor at a position. -/
def At (M : Position → μ → Prop) (p : Position) (s : StreamState) (m : μ) : Prop :=
  Keeps p s ∧ M p m

theorem Watches.accepts_close (w : Watches obs init M Over Room) (p : Position) :
    Accepts obs (At M p) closeOpenBlock (At M { p with current := none }) := by
  rintro s m ⟨hs, hm⟩
  obtain ⟨n, current⟩ := p
  cases current with
  | none =>
    have hidle : s.openBlock = none := hs.register
    simp only [closeOpenBlock, hidle]
    exact ⟨m, rfl, hs, hm⟩
  | some kind =>
    obtain ⟨m', hexec, hm'⟩ := w.closes n kind m hm
    have hopen : s.openBlock = some { kind := kind, index := wrap (n - 1) } := hs.register
    simp only [closeOpenBlock, hopen]
    exact ⟨m', hexec, { hs with register := rfl }, hm'⟩

theorem Watches.accepts_open (w : Watches obs init M Over Room) {n : Nat} (kind : DeltaKind)
    (hroom : Room n) :
    Accepts obs (At M ⟨n, none⟩) (openDeltaBlock kind) (At M ⟨n + 1, some kind⟩) := by
  rintro s m ⟨hs, hm⟩
  obtain ⟨m', hexec, hm'⟩ := w.opens n kind m hm hroom
  have hnext : s.nextBlockIndex = wrap n := hs.next
  refine ⟨m', ?_, { hs with next := hs.alloc, register := ?_ }, hm'⟩
  · simpa only [openDeltaBlock, allocIndex, hnext] using hexec
  · simp only [openDeltaBlock, allocIndex, hnext, Option.map_some, Nat.add_sub_cancel]

/-- The delta's block is open already. -/
theorem ensureDeltaBlock_same {n : Nat} {kind : DeltaKind} {s : StreamState}
    (h : Keeps ⟨n, some kind⟩ s) : ensureDeltaBlock kind s = (s, []) := by
  have hopen : s.openBlock = some { kind := kind, index := wrap (n - 1) } := h.register
  simp only [ensureDeltaBlock, hopen, if_true]

theorem ensureDeltaBlock_other {p : Position} {kind : DeltaKind} {s : StreamState}
    (h : Keeps p s) (hother : p.current ≠ some kind) :
    ensureDeltaBlock kind s = andThen closeOpenBlock (openDeltaBlock kind) s := by
  obtain ⟨n, current⟩ := p
  cases current with
  | none =>
    have hidle : s.openBlock = none := h.register
    simp only [ensureDeltaBlock, andThen, closeOpenBlock, hidle, List.nil_append]
  | some other =>
    have hopen : s.openBlock = some { kind := other, index := wrap (n - 1) } := h.register
    have hne : other ≠ kind := fun he => hother (congrArg some he)
    simp only [ensureDeltaBlock, hopen, if_neg hne]

theorem Watches.accepts_ensure (w : Watches obs init M Over Room) {p : Position}
    (kind : DeltaKind) (hroom : p.current ≠ some kind → Room p.opened) :
    Accepts obs (At M p) (ensureDeltaBlock kind)
      (At M (if p.current = some kind then p else ⟨p.opened + 1, some kind⟩)) := by
  by_cases hsame : p.current = some kind
  · rw [if_pos hsame]
    rintro s m ⟨hs, hm⟩
    have hp : p = ⟨p.opened, some kind⟩ := by rw [← hsame]
    rw [ensureDeltaBlock_same (n := p.opened) (hp ▸ hs)]
    exact ⟨m, rfl, hs, hm⟩
  · rw [if_neg hsame]
    intro s m h
    rw [ensureDeltaBlock_other h.1 hsame]
    exact ((w.accepts_close p).andThen (w.accepts_open kind (hroom hsame))) s m h

theorem Watches.accepts_delta (w : Watches obs init M Over Room) {n : Nat} (kind : DeltaKind)
    (text : String) :
    Accepts obs (At M ⟨n, some kind⟩) (emitDelta kind text) (At M ⟨n, some kind⟩) := by
  rintro s m ⟨hs, hm⟩
  obtain ⟨m', hexec, hm'⟩ := w.deltas n kind text m hm
  have hopen : s.openBlock = some { kind := kind, index := wrap (n - 1) } := hs.register
  simp only [emitDelta, hopen, if_true]
  exact ⟨m', hexec, hs, hm'⟩

theorem emitToolCall_eq {n : Nat} {s : StreamState} (hs : Keeps ⟨n, none⟩ s)
    (fc : FunctionCall) :
    ∃ id s', emitToolCall host fc s =
        (s', toolCallEvents (wrap n) id fc.name (callArguments host fc)) ∧
      Keeps ⟨n + 1, none⟩ s' := by
  have hnext : s.nextBlockIndex = wrap n := hs.next
  cases hid : fc.id with
  | some id =>
    refine ⟨id, { s with hasToolCall := true, nextBlockIndex := Wire.addU32 (wrap n) 1 }, ?_,
      { hs with next := hnext ▸ hs.alloc, register := hs.register }⟩
    simp only [emitToolCall, allocIndex, callId, hid, hnext, toolCallEvents]
  | none =>
    refine ⟨host.toolCallId s.minted,
      { s with
        hasToolCall := true
        nextBlockIndex := Wire.addU32 (wrap n) 1
        minted := s.minted + 1 }, ?_,
      { hs with next := hnext ▸ hs.alloc, register := hs.register }⟩
    simp only [emitToolCall, allocIndex, callId, hid, hnext, toolCallEvents]

theorem Watches.accepts_call (w : Watches obs init M Over Room) {n : Nat} (fc : FunctionCall)
    (hroom : Room n) :
    Accepts obs (At M ⟨n, none⟩) (emitToolCall host fc) (At M ⟨n + 1, none⟩) := by
  rintro s m ⟨hs, hm⟩
  obtain ⟨id, s', hrun, hs'⟩ := emitToolCall_eq hs fc
  obtain ⟨m', hexec, hm'⟩ := w.calls n id fc.name (callArguments host fc) m hm hroom
  rw [hrun]
  exact ⟨m', hexec, hs', hm'⟩

/-- A part moves the machine and the monitor to the position after it. -/
theorem Watches.accepts_part (w : Watches obs init M Over Room) {p : Position} {part : Part}
    (hroom : p.opened < (p.after part).opened → Room p.opened) :
    Accepts obs (At M p) (handlePart host part) (At M (p.after part)) := by
  unfold Position.after at hroom ⊢
  cases hcall : part.functionCall with
  | some fc =>
    rw [handlePart_call host hcall]
    rw [hcall] at hroom
    exact (w.accepts_close p).andThen (w.accepts_call fc (hroom (Nat.lt_succ_self _)))
  | none =>
    cases htext : part.text with
    | none =>
      rw [handlePart_none host hcall htext]
      exact accepts_skip
    | some text =>
      rw [handlePart_text host hcall htext]
      simp only [hcall, htext] at hroom ⊢
      have hensure := w.accepts_ensure (p := p) part.kind fun hne =>
        hroom (by rw [if_neg hne]; exact Nat.lt_succ_self _)
      refine hensure.andThen ?_
      split
      · rename_i hsame
        have hp : p = ⟨p.opened, some part.kind⟩ := by rw [← hsame]
        rw [hp]
        exact w.accepts_delta part.kind text
      · exact w.accepts_delta part.kind text

/-! ## Whole runs -/

/-- The machine before the first chunk. -/
structure Waiting (s : StreamState) : Prop where
  started : s.started = false
  running : s.stopped = false
  next : s.nextBlockIndex = 0
  idle : s.openBlock = none

/-- The machine and the monitor once some parts were read, or before any chunk. -/
def Reading (M : Position → μ → Prop) (init : μ) (past : List Part) (s : StreamState) (m : μ) :
    Prop :=
  (past = [] ∧ Waiting s ∧ m = init) ∨ At M (position past) s m

theorem position_append (past parts : List Part) :
    position (past ++ parts) = parts.foldl Position.after (position past) :=
  List.foldl_append

theorem Reading.running {past : List Part} {s : StreamState} {m : μ}
    (h : Reading M init past s m) : s.stopped = false := by
  rcases h with ⟨-, h, -⟩ | ⟨h, -⟩ <;> exact h.running

theorem Watches.accepts_start (w : Watches obs init M Over Room) (past : List Part) :
    Accepts obs (Reading M init past) (startResponse host) (At M (position past)) := by
  rintro s m (⟨rfl, hs, rfl⟩ | ⟨hs, hm⟩)
  · obtain ⟨m', hexec, hm'⟩ := w.starts s.responseId s.model host.nowUnix
    rw [startResponse, if_neg (by rw [hs.started]; exact Bool.false_ne_true)]
    refine ⟨m', hexec, { started := rfl, running := hs.running, next := ?_, register := ?_ }, hm'⟩
    · exact hs.next
    · exact hs.idle
  · rw [startResponse, if_pos hs.started]
    exact ⟨m, rfl, hs, hm⟩

theorem accepts_noteUsage (p : Position) (usage : Option UsageMetadata) :
    Accepts obs (At M p) (noteUsage usage) (At M p) :=
  fun _ m h => ⟨m, rfl, { h.1 with }, h.2⟩

theorem accepts_noteRatings (p : Position) (ratings : List WireSafetyRating) :
    Accepts obs (At M p) (noteRatings ratings) (At M p) := by
  intro s m h
  refine ⟨m, rfl, ?_, h.2⟩
  simp only [noteRatings, update]
  split
  · exact h.1
  · exact { h.1 with }

/-- The response was stopped after `n` blocks. -/
def Stopped (Over : Nat → μ → Prop) (n : Nat) (s : StreamState) (m : μ) : Prop :=
  s.stopped = true ∧ Over n m

theorem Watches.accepts_finish (w : Watches obs init M Over Room) (p : Position)
    (reason : Bool → StopReason) :
    Accepts obs (At M p) (andThen closeOpenBlock (stopResponse reason))
      (Stopped Over p.opened) := by
  refine (w.accepts_close p).andThen ?_
  rintro s m ⟨-, hm⟩
  obtain ⟨m', hexec, hover⟩ := w.stops p.opened (reason s.hasToolCall) (finalUsage s) m hm
  exact ⟨m', hexec, rfl, hover⟩

theorem accepts_handle_of_stopped (n : Nat) (resp : GenerateContentResponse) :
    Accepts obs (Stopped Over n) (handle host resp) (Stopped Over n) := by
  intro s m h
  rw [handle, if_pos h.1]
  exact ⟨m, rfl, h⟩

theorem accepts_finalize_of_stopped (n : Nat) :
    Accepts obs (Stopped Over n) finalize (Stopped Over n) := by
  intro s m h
  have hquiet : finalize s = (s, []) := by
    rw [finalize, h.1, Bool.or_true]
    rfl
  rw [hquiet]
  exact ⟨m, rfl, h⟩

theorem Watches.accepts_finalize (w : Watches obs init M Over Room) (p : Position) :
    Accepts obs (At M p) finalize (Stopped Over p.opened) := by
  intro s m h
  have hrun : finalize s = andThen closeOpenBlock
      (stopResponse fun hasToolCall => if hasToolCall then .toolUse else .endTurn) s := by
    rw [finalize, h.1.started, h.1.running]
    rfl
  rw [hrun]
  exact w.accepts_finish p _ s m h

/-- A part that opens a block finds room for it. -/
def Fits (Room : Nat → Prop) (past : List Part) (part : Part) : Prop :=
  (position past).opened < (position (past ++ [part])).opened → Room (position past).opened

def Roomy (Room : Nat → Prop) (past parts : List Part) : Prop :=
  Throughout (fun front => Fits Room (past ++ front)) parts

theorem roomy_append {past front parts : List Part} :
    Roomy Room past (front ++ parts) ↔
      Roomy Room past front ∧ Roomy Room (past ++ front) parts := by
  unfold Roomy
  rw [throughout_append]
  simp only [List.append_assoc]

theorem Watches.accepts_parts (w : Watches obs init M Over Room) {past parts : List Part}
    (hroom : Roomy Room past parts) :
    Accepts obs (At M (position past)) (forEach (handlePart host) parts)
      (At M (position (past ++ parts))) := by
  refine accepts_of_throughout_from (R := fun past => At M (position past))
    past (fun front part (_ : True) hok => ?_) (throughout_of_forall fun _ _ _ => trivial) hroom
  rw [Fits, position_append front [part]] at hok
  rw [position_append front [part]]
  exact w.accepts_part hok

theorem Watches.accepts_handle (w : Watches obs init M Over Room) {past : List Part}
    {resp : GenerateContentResponse} {Q : StreamState → μ → Prop}
    (h : Accepts obs (At M (position past))
      (ifSome resp.candidates.head? (handleCandidate host)) Q) :
    Accepts obs (Reading M init past) (handle host resp) Q := by
  intro s m hread
  rw [handle, if_neg (by rw [hread.running]; exact Bool.false_ne_true)]
  simp only [inOrder_cons, inOrder_nil, andThen_skip]
  exact (w.accepts_start past).andThen ((accepts_noteUsage _ _).andThen h) s m hread

/-- One chunk, then the rest of the stream. -/
theorem Watches.accepts_cons (w : Watches obs init M Over Room) {past : List Part}
    {resp : GenerateContentResponse} {rest : List GenerateContentResponse}
    (hroom : Roomy Room past (readParts (resp :: rest)))
    (hrest : ∀ past', Roomy Room past' (readParts rest) →
      Accepts obs (At M (position past')) (andThen (forEach (handle host) rest) finalize)
        (Stopped Over (position (past' ++ readParts rest)).opened)) :
    Accepts obs (Reading M init past) (andThen (forEach (handle host) (resp :: rest)) finalize)
      (Stopped Over (position (past ++ readParts (resp :: rest))).opened) := by
  rw [forEach_cons, andThen_assoc]
  cases hhead : resp.candidates.head? with
  | none =>
    simp only [readParts, hhead] at hroom ⊢
    refine (w.accepts_handle ?_).andThen (hrest past hroom)
    rw [hhead]
    exact accepts_skip
  | some candidate =>
    cases hfinish : candidate.finishReason with
    | none =>
      simp only [readParts, hhead, hfinish, Option.isSome_none, Bool.false_eq_true,
        if_false] at hroom ⊢
      obtain ⟨hparts, htail⟩ := roomy_append.mp hroom
      rw [← List.append_assoc]
      refine (w.accepts_handle ?_).andThen (hrest (past ++ candidate.parts) htail)
      rw [hhead, ifSome_some]
      simp only [handleCandidate, hfinish, ifSome_none, inOrder_cons, inOrder_nil, andThen_skip]
      exact (accepts_noteRatings _ _).andThen (w.accepts_parts hparts)
    | some reason =>
      simp only [readParts, hhead, hfinish, Option.isSome_some, if_true,
        List.append_nil] at hroom ⊢
      refine (w.accepts_handle ?_).andThen
        ((accepts_forEach fun resp _ => accepts_handle_of_stopped _ resp).andThen
          (accepts_finalize_of_stopped _))
      rw [hhead, ifSome_some]
      simp only [handleCandidate, hfinish, ifSome_some, inOrder_cons, inOrder_nil, andThen_skip]
      exact (accepts_noteRatings _ _).andThen
        ((w.accepts_parts hroom).andThen (w.accepts_finish _ _))

theorem Watches.accepts_rest (w : Watches obs init M Over Room) {past : List Part}
    {rest : List GenerateContentResponse} (hroom : Roomy Room past (readParts rest)) :
    Accepts obs (At M (position past)) (andThen (forEach (handle host) rest) finalize)
      (Stopped Over (position (past ++ readParts rest)).opened) := by
  induction rest generalizing past with
  | nil =>
    rw [forEach_nil, skip_andThen, readParts, List.append_nil]
    exact w.accepts_finalize _
  | cons resp rest ih =>
    exact (w.accepts_cons hroom fun past' h => ih h).mono (fun _ _ h => Or.inr h)
      fun _ _ h => h

/-- The monitor takes the whole run of a stream with a chunk and knows how many
blocks were opened. -/
theorem Watches.run (w : Watches obs init M Over Room) (host : Host) (model : String)
    {chunks : List GenerateContentResponse} (hne : chunks ≠ [])
    (hroom : Roomy Room [] (readParts chunks)) :
    ∃ m, Runs.exec obs init (events host model chunks) = some m ∧ Over (blocksOpened chunks) m := by
  cases chunks with
  | nil => exact absurd rfl hne
  | cons resp rest =>
    have hrun : Accepts obs (Reading M init [])
        (andThen (forEach (handle host) (resp :: rest)) finalize)
        (Stopped Over (blocksOpened (resp :: rest))) :=
      w.accepts_cons hroom fun past' h => w.accepts_rest h
    have hwait : Waiting (.new host model) :=
      { started := rfl, running := rfl, next := rfl, idle := rfl }
    rw [events_eq]
    obtain ⟨m, hm, -, hover⟩ := hrun _ init (Or.inl ⟨rfl, hwait, rfl⟩)
    exact ⟨m, hm, hover⟩

/-! ## The envelope -/

/-- The phase of a block index at a position. -/
def Position.phase (p : Position) (i : Nat) : BlockPhase :=
  if i < p.opened then
    match p.current with
    | some kind => if i + 1 = p.opened then .opened kind.blockKind else .closed
    | none => .closed
  else .fresh

/-- The envelope at a position, while the indices last. -/
structure Follows (p : Position) (m : Envelope) : Prop where
  started : m.started = true
  greeted : m.greeted = true
  stopped : m.stopped = false
  running : m.concluded = false
  block : ∀ i, m.block i = p.phase i
  bounded : p.opened ≤ 4294967296
  used : p.current ≠ none → 0 < p.opened

theorem mayClose_blockKind (kind : DeltaKind) :
    (BlockPhase.opened kind.blockKind).mayClose = true := by
  cases kind <;> rfl

theorem Follows.last {n : Nat} {kind : DeltaKind} {m : Envelope} (h : Follows ⟨n, some kind⟩ m) :
    wrap (n - 1) = n - 1 ∧ m.block (n - 1) = .opened kind.blockKind := by
  have hpos : 0 < n := h.used (Option.some_ne_none kind)
  have hbound : n ≤ 4294967296 := h.bounded
  refine ⟨wrap_of_lt (by omega), ?_⟩
  rw [h.block, Position.phase, if_pos (by simp only; omega)]
  simp only
  rw [if_pos (by omega)]

theorem Follows.closes {n : Nat} {kind : DeltaKind} {m : Envelope}
    (h : Follows ⟨n, some kind⟩ m) : Follows ⟨n, none⟩ (m.setBlock (n - 1) .closed) := by
  have hpos : 0 < n := h.used (Option.some_ne_none kind)
  refine { h with block := fun i => ?_, used := fun hne => absurd rfl hne }
  rw [Envelope.setBlock_block, h.block]
  by_cases hi : i = n - 1
  · subst hi
    have hlt : n - 1 < n := by omega
    simp [Position.phase, hlt]
  · have hlast : i + 1 ≠ n := by omega
    simp [Position.phase, hi, hlast]

theorem Follows.opens {n : Nat} {m : Envelope} (h : Follows ⟨n, none⟩ m) (kind : DeltaKind)
    (hroom : n < 4294967296) :
    Follows ⟨n + 1, some kind⟩ (m.setBlock n (.opened kind.blockKind)) := by
  refine { h with
    block := fun i => ?_
    bounded := hroom
    used := fun _ => Nat.succ_pos n }
  rw [Envelope.setBlock_block, h.block]
  by_cases hi : i = n
  · subst hi
    simp [Position.phase]
  · have hlt : i < n + 1 ↔ i < n := by omega
    simp [Position.phase, hi, hlt]

theorem Follows.calls {n : Nat} {m : Envelope} (h : Follows ⟨n, none⟩ m)
    (hroom : n < 4294967296) : Follows ⟨n + 1, none⟩ (m.setBlock n .closed) := by
  refine { h with block := fun i => ?_, bounded := hroom, used := fun hne => absurd rfl hne }
  rw [Envelope.setBlock_block, h.block]
  by_cases hi : i = n
  · subst hi
    simp [Position.phase]
  · have hlt : i < n + 1 ↔ i < n := by omega
    simp [Position.phase, hi, hlt]

theorem Follows.fresh {n : Nat} {m : Envelope} (h : Follows ⟨n, none⟩ m) :
    m.block n = .fresh := by
  rw [h.block, Position.phase, if_neg (Nat.lt_irrefl n)]

theorem Follows.closed {n : Nat} {m : Envelope} (h : Follows ⟨n, none⟩ m) (i : Nat) :
    (m.block i).isOpen = false := by
  rw [h.block, Position.phase]
  split <;> rfl

theorem exec_toolCallEvents {m : Envelope} {i : Nat} (hgreeted : m.greeted = true)
    (hstop : m.stopped = false) (hfresh : m.block i = .fresh) (id name arguments : String) :
    Runs.exec (Envelope.step false) m (toolCallEvents i id name arguments) =
      some (m.setBlock i .closed) := by
  refine Envelope.exec_cons_iff.mpr ⟨⟨hgreeted, hstop, hfresh⟩, ?_⟩
  refine Envelope.exec_cons_iff.mpr ⟨⟨hstop, ?_⟩, ?_⟩
  · rw [Envelope.after, Envelope.setBlock_block_self]
    rfl
  refine Envelope.exec_cons_iff.mpr ⟨⟨hstop, ?_⟩, ?_⟩
  · simp only [Envelope.after, Envelope.setBlock_block_self]
    rfl
  refine Envelope.exec_cons_iff.mpr ⟨⟨hstop, ?_⟩, ?_⟩
  · simp only [Envelope.after, Envelope.setBlock_block_self]
    rfl
  refine Envelope.exec_singleton_iff.mpr ⟨⟨hstop, ?_⟩, ?_⟩
  · simp only [Envelope.after, Envelope.setBlock_block_self]
    rfl
  · simp only [Envelope.after, Envelope.setBlock_setBlock]

/-- The envelope follows the machine as long as the indices last. -/
theorem watches_envelope :
    Watches (Envelope.step false) {} Follows (fun _ m => m.Closed) (· < 4294967296) where
  starts id model created := by
    refine ⟨{ started := true, greeted := true }, rfl, ?_⟩
    exact
      { started := rfl, greeted := rfl, stopped := rfl, running := rfl, block := fun _ => rfl,
        bounded := Nat.zero_le _, used := fun h => absurd rfl h }
  closes n kind m h := by
    obtain ⟨hwrap, hlast⟩ := h.last
    rw [hwrap]
    refine ⟨_, Envelope.exec_singleton_iff.mpr ⟨⟨h.stopped, ?_⟩, rfl⟩, h.closes⟩
    rw [hlast]
    exact mayClose_blockKind kind
  opens n kind m h hroom := by
    rw [wrap_of_lt hroom]
    exact ⟨_, Envelope.exec_singleton_iff.mpr ⟨⟨h.greeted, h.stopped, h.fresh⟩, rfl⟩,
      h.opens kind hroom⟩
  deltas n kind text m h := by
    obtain ⟨hwrap, hlast⟩ := h.last
    rw [hwrap]
    refine ⟨m, ?_, h⟩
    cases kind <;> exact Envelope.exec_singleton_iff.mpr ⟨⟨h.stopped, hlast⟩, rfl⟩
  calls n id name arguments m h hroom := by
    rw [wrap_of_lt hroom]
    exact ⟨_, exec_toolCallEvents h.greeted h.stopped h.fresh id name arguments, h.calls hroom⟩
  stops n reason usage m h := by
    refine ⟨{ m with stopped := true, concluded := true }, ?_, rfl, h.closed⟩
    refine Envelope.exec_cons_iff.mpr ⟨⟨h.started, h.stopped⟩, ?_⟩
    exact Envelope.exec_singleton_iff.mpr ⟨⟨rfl, h.running⟩, rfl⟩

/-! ## The bare list of events -/

/-- At most one text or reasoning block is open after any of the events. -/
def Single (es : List StreamEvent) : Prop :=
  ∀ pre, pre <+: es → (openPlain pre).length ≤ 1

theorem openPlain_concat (es : List StreamEvent) (e : StreamEvent) :
    openPlain (es ++ [e]) = trackPlain (openPlain es) e := by
  rw [openPlain, List.foldl_append]
  rfl

theorem single_concat {es : List StreamEvent} {e : StreamEvent} (h : Single es)
    (hlast : (trackPlain (openPlain es) e).length ≤ 1) : Single (es ++ [e]) := by
  intro pre hpre
  rcases List.prefix_concat_iff.mp hpre with rfl | hpre
  · rwa [openPlain_concat]
  · exact h pre hpre

theorem blockStarts_concat (es : List StreamEvent) (e : StreamEvent) :
    blockStarts (es ++ [e]) = blockStarts es ++ (blockStart e).toList := by
  rw [blockStarts, List.filterMap_append]
  cases h : blockStart e <;> simp [blockStarts, h]

/-- The index of the open block at a position. -/
def Position.plain (p : Position) : List Nat :=
  match p.current with
  | some _ => [wrap (p.opened - 1)]
  | none => []

theorem Position.plain_length (p : Position) : p.plain.length ≤ 1 := by
  unfold plain
  split <;> simp

/-- The events put out up to a position. -/
structure Recorded (p : Position) (es : List StreamEvent) : Prop where
  starts : blockStarts es = (List.range p.opened).map wrap
  plain : openPlain es = p.plain
  single : Single es
  running : ∀ e ∈ es, isStop e = false

theorem Recorded.concat {p q : Position} {es : List StreamEvent} {e : StreamEvent}
    (h : Recorded p es)
    (hstarts : (List.range p.opened).map wrap ++ (blockStart e).toList =
      (List.range q.opened).map wrap)
    (hplain : trackPlain p.plain e = q.plain) (hstop : isStop e = false) :
    Recorded q (es ++ [e]) where
  starts := by rw [blockStarts_concat, h.starts, hstarts]
  plain := by rw [openPlain_concat, h.plain, hplain]
  single := by
    refine single_concat h.single ?_
    rw [h.plain, hplain]
    exact q.plain_length
  running := by
    intro e' he
    rcases List.mem_append.mp he with he | he
    · exact h.running e' he
    · obtain rfl := List.mem_singleton.mp he
      exact hstop

/-- An event that neither starts nor stops anything. -/
theorem Recorded.quiet {p : Position} {es : List StreamEvent} {e : StreamEvent}
    (h : Recorded p es) (hstart : blockStart e = none) (hplain : trackPlain p.plain e = p.plain)
    (hstop : isStop e = false) : Recorded p (es ++ [e]) :=
  h.concat (by rw [hstart, Option.toList_none, List.append_nil]) hplain hstop

theorem range_succ_wrap (n : Nat) :
    (List.range n).map wrap ++ [wrap n] = (List.range (n + 1)).map wrap := by
  rw [List.range_succ, List.map_append, List.map_singleton]

/-- What is left of the events once the response is stopped. -/
structure Complete (n : Nat) (es : List StreamEvent) : Prop where
  starts : blockStarts es = (List.range n).map wrap
  single : Single es
  ending : ∃ front reason usage,
    es = front ++ [.messageStop reason none, .responseStop usage] ∧ ∀ e ∈ front, isStop e = false

theorem Recorded.complete {n : Nat} {es : List StreamEvent} (h : Recorded ⟨n, none⟩ es)
    (reason : StopReason) (usage : Option Usage) :
    Complete n (es ++ [.messageStop reason none, .responseStop usage]) where
  starts := by
    rw [blockStarts, List.filterMap_append, ← blockStarts, h.starts]
    exact List.append_nil _
  single := by
    have hplain : openPlain es = [] := h.plain
    have hmessage : Single (es ++ [.messageStop reason none]) :=
      single_concat h.single (by rw [hplain]; exact Nat.zero_le 1)
    have hresponse := single_concat (e := .responseStop usage) hmessage (by
      rw [openPlain_concat, hplain]
      exact Nat.zero_le 1)
    rwa [List.append_assoc] at hresponse
  ending := ⟨es, reason, usage, rfl, h.running⟩

/-- The events put out follow the machine however many blocks it opens. -/
theorem watches_record :
    Watches record [] Recorded Complete fun _ => True where
  starts id model created := by
    refine ⟨_, exec_record _ _, ?_⟩
    have hnone : Recorded {} [] :=
      { starts := rfl, plain := rfl, running := nofun
        single := fun pre hpre => by rw [List.prefix_nil.mp hpre]; exact Nat.zero_le 1 }
    exact (hnone.quiet (e := .responseStart id model created) rfl rfl rfl).quiet
      (e := .messageStart .assistant) rfl rfl rfl
  closes n kind es h := by
    refine ⟨_, exec_record _ _, h.concat ?_ ?_ rfl⟩
    · exact List.append_nil _
    · simp [trackPlain, Position.plain]
  opens n kind es h _ := by
    refine ⟨_, exec_record _ _, h.concat (range_succ_wrap n) ?_ rfl⟩
    cases kind <;> simp [trackPlain, Position.plain, DeltaKind.blockKind]
  deltas n kind text es h := by
    refine ⟨_, exec_record _ _, ?_⟩
    cases kind <;> exact h.quiet rfl rfl rfl
  calls n id name arguments es h _ := by
    refine ⟨_, exec_record _ _, ?_⟩
    have hstart : Recorded ⟨n + 1, none⟩ (es ++ [.contentBlockStart (wrap n) .toolCall]) :=
      h.concat (range_succ_wrap n) rfl rfl
    have hrest := (((hstart.quiet (e := .toolCallStart (wrap n) id name) rfl rfl rfl).quiet
      (e := .toolCallArgumentsDelta (wrap n) arguments) rfl rfl rfl).quiet
      (e := .toolCallStop (wrap n)) rfl rfl rfl).quiet
      (e := .contentBlockStop (wrap n)) rfl rfl rfl
    simpa only [toolCallEvents, List.append_assoc, List.cons_append, List.nil_append] using hrest
  stops n reason usage es h := ⟨_, exec_record _ _, h.complete reason usage⟩

/-! ## The contract -/

theorem Position.opened_le_after (p : Position) (part : Part) :
    p.opened ≤ (p.after part).opened := by
  unfold after
  split
  · exact Nat.le_succ _
  · split
    · exact Nat.le_refl _
    · exact Nat.le_succ _
  · exact Nat.le_refl _

theorem opened_le_append (past parts : List Part) :
    (position past).opened ≤ (position (past ++ parts)).opened := by
  rw [position_append]
  generalize position past = p
  induction parts generalizing p with
  | nil => exact Nat.le_refl _
  | cons part parts ih => exact (p.opened_le_after part).trans (ih _)

theorem roomy_of_le {parts : List Part} (h : (position parts).opened ≤ 4294967296) :
    Roomy (· < 4294967296) [] parts := by
  intro front part rest hsplit hopens
  rw [List.nil_append] at hopens ⊢
  have hle := opened_le_append (front ++ [part]) rest
  rw [List.append_assoc, List.singleton_append, ← hsplit] at hle
  omega

theorem roomy_true (parts : List Part) : Roomy (fun _ => True) [] parts :=
  throughout_of_forall fun _ _ _ _ => trivial

theorem events_nil (host : Host) (model : String) : events host model [] = [] := by
  rw [events_eq]
  rfl

/-- Whatever the chunks, the starts are numbered in order and wrap, one plain
block is open at a time, and the end is the end. -/
theorem complete_events (host : Host) (model : String) {chunks : List GenerateContentResponse}
    (hne : chunks ≠ []) : Complete (blocksOpened chunks) (events host model chunks) := by
  obtain ⟨es, hexec, hcomplete⟩ := watches_record.run host model hne (roomy_true _)
  rw [exec_record, List.nil_append, Option.some.injEq] at hexec
  rwa [hexec]

/-- The wrapped counts up to `n` are the counts themselves as long as none wraps. -/
theorem map_wrap_range {n : Nat} (h : n ≤ 4294967296) : (List.range n).map wrap = List.range n := by
  have hmap : (List.range n).map wrap = (List.range n).map id :=
    List.map_congr_left fun i hi =>
      wrap_of_lt (Nat.lt_of_lt_of_le (List.mem_range.mp hi) h)
  rw [hmap, List.map_id]

theorem le_of_map_wrap_range {n : Nat}
    (h : (List.range n).map wrap = List.range ((List.range n).map wrap).length) :
    n ≤ 4294967296 := by
  by_contra hgt
  have hlt : 4294967296 < n := Nat.lt_of_not_le hgt
  rw [List.length_map, List.length_range] at h
  have hget := congrArg (fun l => l[4294967296]?) h
  simp only [List.getElem?_map, List.getElem?_range hlt, Option.map_some] at hget
  exact absurd (Option.some.inj hget) (by decide)

/-- A stream that keeps the contract opens no more blocks than there are indices. -/
theorem Contract.bounded {host : Host} {model : String} {chunks : List GenerateContentResponse}
    (h : Contract chunks (events host model chunks)) : blocksOpened chunks ≤ 4294967296 := by
  by_cases hne : chunks = []
  · rw [hne]
    exact Nat.zero_le _
  · have hindices := h.indices
    rw [(complete_events host model hne).starts] at hindices
    exact le_of_map_wrap_range hindices

theorem contract_of_bounded (host : Host) (model : String)
    {chunks : List GenerateContentResponse} (h : blocksOpened chunks ≤ 4294967296) :
    Contract chunks (events host model chunks) := by
  by_cases hne : chunks = []
  · subst hne
    rw [events_nil]
    exact
      { nothing := fun _ => rfl
        lifecycle := fun h => absurd rfl h
        indices := rfl
        single := fun pre hpre => by rw [List.prefix_nil.mp hpre]; exact Nat.zero_le 1
        ending := fun h => absurd rfl h }
  · have hcomplete := complete_events host model hne
    exact
      { nothing := fun h => absurd h hne
        lifecycle := fun _ => lifecycleValid_iff.mpr
          (watches_envelope.run host model hne (roomy_of_le h))
        indices := by
          rw [hcomplete.starts, map_wrap_range h, List.length_range]
        single := hcomplete.single
        ending := fun _ => hcomplete.ending }

/-- The stream keeps the contract iff its chunks open no more blocks than there are
indices. -/
theorem gemini_lifecycle_iff (host : Host) (model : String)
    (chunks : List GenerateContentResponse) :
    Contract chunks (events host model chunks) ↔ blocksOpened chunks ≤ 4294967296 :=
  ⟨Contract.bounded, contract_of_bounded host model⟩

def searchCall : Part := { functionCall := some { name := "search" } }

/-- A chunk with one function call. -/
def callChunk : GenerateContentResponse := { candidates := [{ parts := [searchCall] }] }

theorem readParts_callChunks (n : Nat) :
    readParts (List.replicate n callChunk) = List.replicate n searchCall := by
  induction n with
  | zero => rfl
  | succ n ih =>
    rw [List.replicate_succ, List.replicate_succ, ← ih]
    rfl

theorem opened_searchCalls (n : Nat) (p : Position) :
    ((List.replicate n searchCall).foldl Position.after p).opened = p.opened + n := by
  induction n generalizing p with
  | zero => rfl
  | succ n ih =>
    rw [List.replicate_succ, List.foldl_cons, ih]
    show p.opened + 1 + n = p.opened + (n + 1)
    omega

theorem blocksOpened_callChunks (n : Nat) : blocksOpened (List.replicate n callChunk) = n := by
  rw [blocksOpened, readParts_callChunks, position, opened_searchCalls, Nat.zero_add]

/-- A host whose ids count up. -/
def countingHost : Host where
  nowUnix := 1700000000
  responseId := "resp_1"
  toolCallId := fun n => "call_" ++ toString n
  render := fun _ => "\x7b\x7d"

/-- One call more than there are indices. -/
theorem calls_not_valid :
    ¬ Contract (List.replicate 4294967297 callChunk)
      (events countingHost "gemini-2.5-pro" (List.replicate 4294967297 callChunk)) := by
  intro h
  have hbound := h.bounded
  rw [blocksOpened_callChunks] at hbound
  exact absurd hbound (by decide)

end Gemini

end AgentShim
