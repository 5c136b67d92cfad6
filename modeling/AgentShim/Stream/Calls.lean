import AgentShim.Stream.Blocks

/-
  Blocks in the order of their calls

  A wire that names a call where it starts a tool block cannot start the block
  before the call is known. There a tool block comes in the place of its call, and
  the blocks are read in the order in which they are announced.

  What is proved:
    1. `callFits_of_calledOnce` — where every tool block is called once, before its
       arguments, each event keeps to that.
    2. `rooted_announced` — indices are not reused where the tool blocks come with
       their calls.
    3. `announcedBlocks_perm` — the announced blocks are the blocks of the stream,
       in another order.
-/

namespace AgentShim

namespace StreamEvent

/-- The parts of an event where a tool block starts with its call. -/
def announced : StreamEvent → List Part
  | .contentBlockStart _ .toolCall => []
  | .toolCallStart index id name => [(index, .start .toolCall), (index, .call id name)]
  | e => e.part.toList

/-- The index of the block that an event calls. -/
def called : StreamEvent → Option Nat
  | .toolCallStart index _ _ => some index
  | _ => none

end StreamEvent

def announcedParts (es : List StreamEvent) : List Part := es.flatMap StreamEvent.announced

/-- The blocks of a stream, a tool block in the place of its call. -/
def announcedBlocks (es : List StreamEvent) : List Block := assemble (announcedParts es)

def calledIndices (es : List StreamEvent) : List Nat := es.filterMap StreamEvent.called

/-- One start before all the arguments. -/
def calledOnce (tools : List ToolEvent) : Bool :=
  match tools.filter (· ≠ .stop) with
  | .start :: rest => rest.all (· = .arguments)
  | _ => false

/-- Every tool block is called once, before its arguments. -/
def CalledOnce (es : List StreamEvent) : Prop :=
  ∀ b ∈ started es, b.2 = .toolCall → calledOnce (toolEvents b.1 es) = true

instance : DecidablePred CalledOnce := fun _ => List.decidableBAll _ _

/-- Every tool block has one call around its arguments. -/
def CallsComplete (es : List StreamEvent) : Prop :=
  ∀ b ∈ started es, b.2 = .toolCall →
    toolEvents b.1 es ≠ [] ∧ isCall (toolEvents b.1 es) = true

instance : DecidablePred CallsComplete := fun _ => List.decidableBAll _ _

variable {nested : Bool} {m m' : Envelope} {es : List StreamEvent} {e : StreamEvent}

theorem announcedParts_concat (es : List StreamEvent) (e : StreamEvent) :
    announcedParts (es ++ [e]) = announcedParts es ++ e.announced := by
  rw [announcedParts, List.flatMap_append, List.flatMap_singleton, announcedParts]

theorem calledIndices_concat (es : List StreamEvent) (e : StreamEvent) :
    calledIndices (es ++ [e]) = calledIndices es ++ e.called.toList :=
  Lists.filterMap_concat _ _ _

/-- What being called once asks of one event after the ones before it. -/
def CallFits (past : List StreamEvent) : StreamEvent → Prop
  | .toolCallStart index _ _ => index ∉ calledIndices past
  | .toolCallArgumentsDelta index _ => index ∈ calledIndices past
  | .contentBlockStop index => (index, .toolCall) ∈ started past → index ∈ calledIndices past
  | _ => True

theorem toolEvent_eq_start {i : Nat} :
    toolEvent i e = some .start ↔ e.called = some i := by
  cases e <;> simp [toolEvent, StreamEvent.called]

theorem mem_calledIndices {i : Nat} : i ∈ calledIndices es ↔ .start ∈ toolEvents i es := by
  simp only [calledIndices, toolEvents, List.mem_filterMap, toolEvent_eq_start]

theorem toolEvents_cons (i : Nat) (e : StreamEvent) (es : List StreamEvent) :
    toolEvents i (e :: es) = (toolEvent i e).toList ++ toolEvents i es := by
  rw [toolEvents, List.filterMap_cons, toolEvents]
  cases toolEvent i e <;> rfl

theorem start_mem_of_calledOnce {w : List ToolEvent} (h : calledOnce w = true) : .start ∈ w := by
  unfold calledOnce at h
  split at h
  · rename_i rest hw
    have hmem : .start ∈ w.filter (· ≠ .stop) := hw ▸ List.mem_cons_self
    exact (List.mem_filter.mp hmem).1
  · cases h

/-- A call has one start, and no arguments come before it. -/
theorem start_mem_iff_of_calledOnce {u v : List ToolEvent} {x : ToolEvent}
    (h : calledOnce (u ++ x :: v) = true) (hx : x ≠ .stop) : .start ∈ u ↔ x ≠ .start := by
  unfold calledOnce at h
  rw [List.filter_append, List.filter_cons_of_pos (by simpa using hx)] at h
  cases hu : u.filter (· ≠ .stop) with
  | nil =>
    have hnone : .start ∉ u := by
      intro hmem
      have : .start ∈ u.filter (· ≠ .stop) := List.mem_filter.mpr ⟨hmem, rfl⟩
      rw [hu] at this
      cases this
    rw [hu] at h
    cases x with
    | start => exact iff_of_false hnone fun hne => hne rfl
    | arguments => cases h
    | stop => exact absurd rfl hx
  | cons y ys =>
    rw [hu] at h
    cases y with
    | start =>
      have hmem : .start ∈ u := (List.mem_filter.mp (hu ▸ List.mem_cons_self)).1
      refine iff_of_true hmem fun hstart => ?_
      subst hstart
      simp at h
    | arguments => cases h
    | stop => cases h

theorem toolEvents_append (i : Nat) (es fs : List StreamEvent) :
    toolEvents i (es ++ fs) = toolEvents i es ++ toolEvents i fs :=
  List.filterMap_append

theorem started_append (es fs : List StreamEvent) :
    started (es ++ fs) = started es ++ started fs := by
  rw [started, parts, List.filterMap_append, starts_append]
  rfl

/-- A closed block stays closed, and takes no tool events. -/
theorem Envelope.Allows.closed (h : m.Allows nested e) {i : Nat} (hi : m.block i = .closed) :
    toolEvent i e = none ∧ (m.after e).block i = .closed :=
  ⟨toolEvent_of_ne (h.blockIndex_ne hi),
    (Envelope.after_block_of_ne m (h.blockIndex_ne hi)).trans hi⟩

theorem toolEvents_of_closed (h : Runs.exec (Envelope.step nested) m es = some m') {i : Nat}
    (hi : m.block i = .closed) : toolEvents i es = [] := by
  induction es generalizing m with
  | nil => rfl
  | cons e es ih =>
    obtain ⟨hallow, hrest⟩ := Envelope.exec_cons_iff.mp h
    obtain ⟨hnone, hclosed⟩ := hallow.closed hi
    rw [toolEvents, List.filterMap_cons_none hnone]
    exact ih hrest hclosed

/-- In a stream of the envelope whose tool blocks are called once, every event keeps
to that. -/
theorem callFits_of_calledOnce (h : Runs.exec (Envelope.step nested) {} es = some m)
    (hcalled : CalledOnce es) : Transducer.Throughout CallFits es := by
  rintro past e rest rfl
  obtain ⟨m₁, hpast, hnext⟩ := Runs.exec_append_eq_some.mp h
  obtain ⟨hallow, hrest⟩ := Envelope.exec_cons_iff.mp hnext
  have hone : ∀ i, (m₁.block i).isTool = true →
      calledOnce (toolEvents i past ++ toolEvents i (e :: rest)) = true := by
    intro i htool
    have hmem := (recalls_of_exec hpast).kind i .toolCall (BlockPhase.kind_of_isTool htool)
    rw [← toolEvents_append]
    refine hcalled (i, .toolCall) ?_ rfl
    rw [started_append]
    exact List.mem_append_left _ hmem
  cases e with
  | toolCallStart i id name =>
    have hcall := hone i hallow.lenient.2
    rw [toolEvents_cons, toolEvent, if_pos rfl] at hcall
    exact fun hmem =>
      (start_mem_iff_of_calledOnce hcall (by decide)).mp (mem_calledIndices.mp hmem) rfl
  | toolCallArgumentsDelta i fragment =>
    have hcall := hone i hallow.lenient.2
    rw [toolEvents_cons, toolEvent, if_pos rfl] at hcall
    exact mem_calledIndices.mpr
      ((start_mem_iff_of_calledOnce hcall (by decide)).mpr (by decide))
  | contentBlockStop i =>
    intro hstart
    have hmem : (i, .toolCall) ∈ started (past ++ .contentBlockStop i :: rest) := by
      rw [started_append]
      exact List.mem_append_left _ hstart
    -- nothing is called in the block after it closed
    have hnone : toolEvents i rest = [] :=
      toolEvents_of_closed hrest (Envelope.setBlock_block_self m₁ i .closed)
    have hcall := hcalled _ hmem rfl
    rw [toolEvents_append, toolEvents_cons, hnone, List.append_nil] at hcall
    simp only [toolEvent, Option.toList_none, List.append_nil] at hcall
    exact mem_calledIndices.mpr (start_mem_of_calledOnce hcall)
  | _ => trivial

/-- What one event announces. -/
theorem mem_starts_announced_event {i : Nat} {kind : ContentBlockKind} :
    (i, kind) ∈ starts e.announced ↔
      kind ≠ .toolCall ∧ e = .contentBlockStart i kind ∨
        kind = .toolCall ∧ e.called = some i := by
  cases e with
  | contentBlockStart j k =>
    by_cases hk : k = .toolCall
    · subst hk
      refine iff_of_false List.not_mem_nil ?_
      rintro (⟨hne, he⟩ | ⟨-, he⟩)
      · cases he
        exact hne rfl
      · cases he
    · have hstart : starts (StreamEvent.contentBlockStart j k).announced = [(j, k)] := by
        cases k <;> first | rfl | exact absurd rfl hk
      rw [hstart, List.mem_singleton]
      constructor
      · intro he
        cases he
        exact Or.inl ⟨hk, rfl⟩
      · rintro (⟨-, he⟩ | ⟨-, he⟩)
        · cases he
          rfl
        · cases he
  | toolCallStart j id name =>
    show (i, kind) ∈ [(j, .toolCall)] ↔ _
    rw [List.mem_singleton]
    constructor
    · intro he
      cases he
      exact Or.inr ⟨rfl, rfl⟩
    · rintro (⟨-, he⟩ | ⟨rfl, he⟩)
      · cases he
      · cases he
        rfl
  | _ =>
    refine iff_of_false List.not_mem_nil ?_
    rintro (⟨-, he⟩ | ⟨-, he⟩) <;> cases he

theorem mem_starts_announced {i : Nat} {kind : ContentBlockKind} :
    (i, kind) ∈ starts (announcedParts es) ↔
      kind ≠ .toolCall ∧ (i, kind) ∈ started es ∨ kind = .toolCall ∧ i ∈ calledIndices es := by
  induction es using List.reverseRecOn with
  | nil => simp [announcedParts, starts, started, parts, calledIndices]
  | append_singleton es e ih =>
    rw [announcedParts_concat, starts_append, List.mem_append, ih, mem_starts_announced_event,
      started_concat, calledIndices_concat, List.mem_append, Option.mem_toList, and_or_left,
      and_or_left, or_or_or_comm]

/-- What takes a tool event was started as a tool block. -/
theorem started_of_toolEvent (h : Runs.exec (Envelope.step nested) {} es = some m) {i : Nat}
    {x : ToolEvent} (hx : x ∈ toolEvents i es) : (i, .toolCall) ∈ started es := by
  obtain ⟨e, he, htool⟩ := List.mem_filterMap.mp hx
  obtain ⟨past, rest, rfl⟩ := List.append_of_mem he
  obtain ⟨m₁, hpast, hnext⟩ := Runs.exec_append_eq_some.mp h
  obtain ⟨hallow, -⟩ := Envelope.exec_cons_iff.mp hnext
  have hopen : (m₁.block i).isTool = true := by
    cases e with
    | toolCallStart j id name =>
      obtain ⟨rfl, -⟩ := Option.ite_none_right_eq_some.mp htool
      exact hallow.lenient.2
    | toolCallArgumentsDelta j fragment =>
      obtain ⟨rfl, -⟩ := Option.ite_none_right_eq_some.mp htool
      exact hallow.lenient.2
    | toolCallStop j =>
      obtain ⟨rfl, -⟩ := Option.ite_none_right_eq_some.mp htool
      exact hallow.lenient.2
    | _ => cases htool
  rw [started_append]
  exact List.mem_append_left _
    ((recalls_of_exec hpast).kind i .toolCall (BlockPhase.kind_of_isTool hopen))

theorem started_of_called (h : Runs.exec (Envelope.step nested) {} es = some m) {i : Nat}
    (hi : i ∈ calledIndices es) : (i, .toolCall) ∈ started es :=
  started_of_toolEvent h (mem_calledIndices.mp hi)

/-- What is announced was started. -/
theorem started_of_announced (h : Runs.exec (Envelope.step nested) {} es = some m) {i : Nat}
    {kind : ContentBlockKind} (hi : (i, kind) ∈ starts (announcedParts es)) :
    (i, kind) ∈ started es := by
  rcases mem_starts_announced.mp hi with ⟨-, hstart⟩ | ⟨rfl, hcall⟩
  · exact hstart
  · exact started_of_called h hcall

/-- A block of another kind than a tool block is announced where it starts. -/
theorem announced_of_opened (h : Runs.exec (Envelope.step nested) {} es = some m) {i : Nat}
    {kind : ContentBlockKind} (hkind : kind ≠ .toolCall) (hblock : m.block i = .opened kind) :
    i ∈ startedIndices (announcedParts es) := by
  have hstart : (i, kind) ∈ started es :=
    (recalls_of_exec h).kind i kind (by rw [hblock]; rfl)
  exact mem_startedIndices.mpr ⟨kind, mem_starts_announced.mpr (Or.inl ⟨hkind, hstart⟩)⟩

theorem unannounced_of_fresh (h : Runs.exec (Envelope.step nested) {} es = some m) {i : Nat}
    (hfresh : m.block i = .fresh) : i ∉ startedIndices (announcedParts es) := by
  intro hmem
  obtain ⟨kind, hkind⟩ := mem_startedIndices.mp hmem
  exact ((recalls_of_exec h).fresh i).mp hfresh
    (mem_startedIndices.mpr ⟨kind, started_of_announced h hkind⟩)

theorem unannounced_of_uncalled (h : Runs.exec (Envelope.step nested) {} es = some m) {i : Nat}
    (htool : (m.block i).isTool = true) (hcalled : i ∉ calledIndices es) :
    i ∉ startedIndices (announcedParts es) := by
  have hstart : (i, .toolCall) ∈ started es :=
    (recalls_of_exec h).kind i .toolCall (BlockPhase.kind_of_isTool htool)
  intro hmem
  obtain ⟨kind, hkind⟩ := mem_startedIndices.mp hmem
  rcases mem_starts_announced.mp hkind with ⟨hne, hkind⟩ | ⟨-, hcall⟩
  · exact hne ((recalls_of_exec h).rooted.kind_unique hkind hstart)
  · exact hcalled hcall

/-- Nor are indices reused where the tool blocks come with their calls. -/
theorem rooted_announced (h : Runs.exec (Envelope.step nested) {} es = some m)
    (hfits : Transducer.Throughout CallFits es) : Rooted (announcedParts es) := by
  induction es using List.reverseRecOn generalizing m with
  | nil => exact rooted_nil
  | append_singleton es e ih =>
    obtain ⟨m₁, hpast, hnext⟩ := Runs.exec_append_eq_some.mp h
    obtain ⟨hallow, -⟩ := Envelope.exec_cons_iff.mp hnext
    obtain ⟨hfits, hfit⟩ := Transducer.throughout_append_singleton.mp hfits
    have hrooted := ih hpast hfits
    rw [announcedParts_concat]
    cases e with
    | contentBlockStart i kind =>
      cases kind with
      | toolCall =>
        show Rooted (announcedParts es ++ [])
        rw [List.append_nil]
        exact hrooted
      | _ => exact rooted_concat.mpr ⟨hrooted, unannounced_of_fresh hpast hallow.2.2⟩
    | toolCallStart i id name =>
      have hnew := unannounced_of_uncalled hpast hallow.lenient.2 hfit
      have hopened : Rooted (announcedParts es ++ [(i, .start .toolCall)]) :=
        rooted_concat.mpr ⟨hrooted, hnew⟩
      have hcall :
          Rooted (announcedParts es ++ [(i, .start .toolCall)] ++ [(i, .call id name)]) := by
        refine rooted_concat.mpr ⟨hopened, (fits_iff_of_ne (by simp)).mpr ?_⟩
        rw [startedIndices_append]
        exact List.mem_append_right _ List.mem_cons_self
      rwa [List.append_assoc] at hcall
    | toolCallArgumentsDelta i fragment =>
      refine rooted_concat.mpr ⟨hrooted, (fits_iff_of_ne (by simp)).mpr ?_⟩
      exact mem_startedIndices.mpr ⟨.toolCall, mem_starts_announced.mpr (Or.inr ⟨rfl, hfit⟩)⟩
    | textDelta i text =>
      refine rooted_concat.mpr ⟨hrooted, (fits_iff_of_ne (by simp)).mpr ?_⟩
      exact announced_of_opened hpast (by decide) hallow.2
    | reasoningDelta i text =>
      refine rooted_concat.mpr ⟨hrooted, (fits_iff_of_ne (by simp)).mpr ?_⟩
      exact announced_of_opened hpast (by decide) hallow.2
    | _ =>
      show Rooted (announcedParts es ++ [])
      rw [List.append_nil]
      exact hrooted

theorem announced_partAt (e : StreamEvent) (i : Nat) (b : Block) :
    (e.announced.filterMap (partAt i)).foldl Block.add b =
      (e.part.toList.filterMap (partAt i)).foldl Block.add b := by
  cases e with
  | contentBlockStart j kind =>
    cases kind <;> by_cases hi : j = i <;>
      simp [StreamEvent.announced, StreamEvent.part, partAt, hi, Block.add]
  | toolCallStart j id name =>
    by_cases hi : j = i <;>
      simp [StreamEvent.announced, StreamEvent.part, partAt, hi, Block.add]
  | _ => rfl

theorem blockAt_announced (es : List StreamEvent) (start : Nat × ContentBlockKind) :
    blockAt (announcedParts es) start = blockAt (parts es) start := by
  rw [blockAt, blockAt]
  generalize ({ index := start.1, kind := start.2 } : Block) = b
  induction es using List.reverseRecOn with
  | nil => rfl
  | append_singleton es e ih =>
    rw [announcedParts_concat, parts_concat, List.filterMap_append, List.filterMap_append,
      List.foldl_append, List.foldl_append, ih, announced_partAt]

theorem argumentsThenStop_eq {w : List ToolEvent} (h : argumentsThenStop w = true) :
    (w.filter (· ≠ .stop)).all (· = .arguments) = true := by
  induction w with
  | nil => cases h
  | cons x w ih =>
    cases x with
    | start => cases h
    | arguments =>
      have hrest : argumentsThenStop w = true := by cases w <;> exact h
      simpa using ih hrest
    | stop =>
      cases w with
      | nil => rfl
      | cons y w => cases h

theorem CallsComplete.calledOnce (h : CallsComplete es) : CalledOnce es := by
  intro b hb htool
  obtain ⟨hne, hcall⟩ := h b hb htool
  cases hw : toolEvents b.1 es with
  | nil => exact absurd hw hne
  | cons x w =>
    rw [hw] at hcall
    cases x with
    | start =>
      have hrest := argumentsThenStop_eq hcall
      simpa [AgentShim.calledOnce] using hrest
    | arguments => cases hcall
    | stop => cases hcall

/-- In a stream of the envelope nothing but the tool blocks takes tool events. -/
theorem CallsComplete.toolsNested (h : CallsComplete es)
    (hexec : Runs.exec (Envelope.step nested) {} es = some m) : ToolsNested es := by
  intro i
  cases hw : toolEvents i es with
  | nil => rfl
  | cons x w =>
    have hmem : x ∈ toolEvents i es := by
      rw [hw]
      exact List.mem_cons_self
    have hcall := (h (i, .toolCall) (started_of_toolEvent hexec hmem) rfl).2
    rwa [hw] at hcall

/-- The blocks that are announced are those that were started, in another order. -/
theorem starts_announced_perm (h : Runs.exec (Envelope.step nested) {} es = some m)
    (hcalled : CalledOnce es) : (starts (announcedParts es)).Perm (started es) := by
  have hrooted := (recalls_of_exec h).rooted
  have hannounced := rooted_announced h (callFits_of_calledOnce h hcalled)
  refine (List.perm_ext_iff_of_nodup hannounced.nodup.of_map hrooted.nodup.of_map).mpr ?_
  rintro ⟨i, kind⟩
  constructor
  · exact started_of_announced h
  · intro hstart
    rw [mem_starts_announced]
    by_cases hkind : kind = .toolCall
    · subst hkind
      exact Or.inr ⟨rfl, mem_calledIndices.mpr
        (start_mem_of_calledOnce (hcalled (i, .toolCall) hstart rfl))⟩
    · exact Or.inl ⟨hkind, hstart⟩

/-- The announced blocks are the blocks of the stream, in another order. -/
theorem announcedBlocks_perm (h : Runs.exec (Envelope.step nested) {} es = some m)
    (hcalled : CalledOnce es) : (announcedBlocks es).Perm (blocks es) := by
  have hannounced := rooted_announced h (callFits_of_calledOnce h hcalled)
  rw [announcedBlocks, blocks, assemble_eq hannounced, assemble_eq (recalls_of_exec h).rooted,
    List.map_congr_left fun start _ => blockAt_announced es start]
  exact (starts_announced_perm h hcalled).map _

end AgentShim
