import AgentShim.Lib.Buffers
import AgentShim.Stream.Blocks

/-
  Blocks in the order of their stops

  A reader that keeps a block back until it stops has the blocks in the order in
  which they stop. In a lifecycle-valid stream each block stops once, every part
  of it suits its kind, and no part comes after its stop.

  What is proved:
    1. `mem_closedIndices`, `nodup_closedIndices` — the envelope remembers which
       blocks have stopped, and none stops twice.
    2. `closedIndices_perm`, `blocksByStop_perm` — where none is left open, the
       blocks by their stops are the blocks of the stream, in another order.
    3. `suits_of_exec` — every part suits the kind of its block.
    4. `text_blockAt`, `arguments_blockAt`, `calls_blockAt` — a block from what is
       gathered of its parts.
-/

namespace AgentShim

open Buffers

/-- The index of the block that an event stops. -/
def StreamEvent.closes : StreamEvent → Option Nat
  | .contentBlockStop index => some index
  | _ => none

/-- The indices of the blocks in the order of their stops. -/
def closedIndices (es : List StreamEvent) : List Nat := es.filterMap StreamEvent.closes

/-- The parts under an index. -/
def partsUnder (index : Nat) (es : List StreamEvent) : List BlockPart :=
  (parts es).filterMap (partAt index)

/-- The blocks of a stream, in the order of their stops. -/
def blocksByStop (es : List StreamEvent) : List Block :=
  (closedIndices es).flatMap fun i => (blocks es).filter (·.index = i)

namespace BlockPart

def text? : BlockPart → Option String
  | .text s => some s
  | _ => none

def call? : BlockPart → Option (String × String)
  | .call i n => some (i, n)
  | _ => none

def arguments? : BlockPart → Option String
  | .arguments s => some s
  | _ => none

/-- Comes in blocks of the kind. -/
def Suits (kind : ContentBlockKind) : BlockPart → Prop
  | .start k => k = kind
  | .text _ => kind = .text
  | .reasoning _ => kind = .reasoning
  | .call _ _ | .arguments _ => kind = .toolCall

end BlockPart

variable {nested : Bool} {m m' : Envelope} {es : List StreamEvent} {e : StreamEvent}

theorem closedIndices_concat (es : List StreamEvent) (e : StreamEvent) :
    closedIndices (es ++ [e]) = closedIndices es ++ e.closes.toList :=
  Lists.filterMap_concat _ _ _

theorem partsUnder_concat (i : Nat) (es : List StreamEvent) (e : StreamEvent) :
    partsUnder i (es ++ [e]) = partsUnder i es ++ e.part.toList.filterMap (partAt i) := by
  rw [partsUnder, parts_concat, List.filterMap_append, partsUnder]

theorem partsUnder_concat_self {i : Nat} {p : BlockPart} (h : e.part = some (i, p)) :
    partsUnder i (es ++ [e]) = partsUnder i es ++ [p] := by
  have hsome : partAt i (i, p) = some p := if_pos rfl
  rw [partsUnder_concat, h, Option.toList_some, List.filterMap_cons_some hsome,
    List.filterMap_nil]

theorem partsUnder_concat_ne {i j : Nat} {p : BlockPart} (h : e.part = some (j, p))
    (hne : i ≠ j) : partsUnder i (es ++ [e]) = partsUnder i es := by
  have hnone : partAt i (j, p) = none := if_neg (Ne.symm hne)
  rw [partsUnder_concat, h, Option.toList_some, List.filterMap_cons_none hnone,
    List.filterMap_nil, List.append_nil]

theorem partsUnder_concat_none {i : Nat} (h : e.part = none) :
    partsUnder i (es ++ [e]) = partsUnder i es := by
  rw [partsUnder_concat, h, Option.toList_none, List.filterMap_nil, List.append_nil]

theorem mem_partsUnder {i : Nat} {p : BlockPart} :
    p ∈ partsUnder i es ↔ ∃ e ∈ es, e.part = some (i, p) := by
  rw [partsUnder, List.mem_filterMap]
  constructor
  · rintro ⟨⟨j, q⟩, hmem, hat⟩
    obtain ⟨rfl, hq⟩ := Option.ite_none_right_eq_some.mp hat
    cases hq
    exact List.mem_filterMap.mp hmem
  · rintro ⟨e, he, hpart⟩
    exact ⟨(i, p), List.mem_filterMap.mpr ⟨e, he, hpart⟩, if_pos rfl⟩

/-! ## Stops -/

theorem BlockPhase.ne_closed_of_isTool {p : BlockPhase} (h : p.isTool = true) : p ≠ .closed := by
  rintro rfl
  cases h

/-- The blocks that have stopped after an event. -/
theorem Envelope.Allows.closed_after (h : m.Allows nested e) (i : Nat) :
    (m.after e).block i = .closed ↔ m.block i = .closed ∨ e.closes = some i := by
  cases e with
  | contentBlockStart j kind =>
    rw [Envelope.after, Envelope.setBlock_block]
    by_cases hi : i = j
    · have hfresh := h.2.2
      subst hi
      simp [hfresh, StreamEvent.closes]
    · simp [hi, StreamEvent.closes]
  | contentBlockStop j =>
    rw [Envelope.after, Envelope.setBlock_block]
    by_cases hi : i = j
    · simp [hi, StreamEvent.closes]
    · simp [hi, Ne.symm hi, StreamEvent.closes]
  | toolCallStart j id name =>
    rw [Envelope.after, Envelope.setBlock_block]
    by_cases hi : i = j
    · have htool : (m.block j).isTool = true := h.lenient.2
      subst hi
      have hne := BlockPhase.ne_closed_of_isTool htool
      have hafter : (m.block i).afterStart ≠ .closed := by
        cases m.block i <;> simp [BlockPhase.afterStart]
      simp [hne, hafter, StreamEvent.closes]
    · simp [hi, StreamEvent.closes]
  | toolCallStop j =>
    rw [Envelope.after, Envelope.setBlock_block]
    by_cases hi : i = j
    · have htool : (m.block j).isTool = true := h.lenient.2
      subst hi
      simp [BlockPhase.ne_closed_of_isTool htool, StreamEvent.closes]
    · simp [hi, StreamEvent.closes]
  | _ => simp [Envelope.after, StreamEvent.closes]

theorem mem_closedIndices (h : Runs.exec (Envelope.step nested) {} es = some m) (i : Nat) :
    i ∈ closedIndices es ↔ m.block i = .closed := by
  refine Runs.exec_history (I := fun es m => i ∈ closedIndices es ↔ m.block i = .closed)
    (by simp [closedIndices]) (fun pre e m m' hpre hstep => ?_) h
  obtain ⟨hallow, rfl⟩ := Envelope.step_eq_some.mp hstep
  rw [closedIndices_concat, List.mem_append, hpre, hallow.closed_after, Option.mem_toList]

theorem nodup_closedIndices (h : Runs.exec (Envelope.step nested) {} es = some m) :
    (closedIndices es).Nodup := by
  induction es using List.reverseRecOn generalizing m with
  | nil => exact List.nodup_nil
  | append_singleton es e ih =>
    obtain ⟨m₁, hpast, hnext⟩ := Runs.exec_append_eq_some.mp h
    obtain ⟨hallow, -⟩ := Envelope.exec_cons_iff.mp hnext
    rw [closedIndices_concat]
    cases e with
    | contentBlockStop i =>
      have hnew : i ∉ closedIndices es := by
        intro hmem
        have hclose := hallow.2
        rw [(mem_closedIndices hpast i).mp hmem] at hclose
        cases hclose
      refine List.nodup_append.mpr ⟨ih hpast, List.nodup_singleton i, fun j hj k hk => ?_⟩
      rintro rfl
      exact hnew (List.mem_singleton.mp hk ▸ hj)
    | _ =>
      show (closedIndices es ++ []).Nodup
      rw [List.append_nil]
      exact ih hpast

/-- Where none is left open, the blocks that stopped are those that started. -/
theorem closedIndices_perm (h : Runs.exec (Envelope.step nested) {} es = some m)
    (hclosed : ∀ i, (m.block i).isOpen = false) :
    (closedIndices es).Perm (startedIndices (parts es)) := by
  have hrecalls := recalls_of_exec h
  refine (List.perm_ext_iff_of_nodup (nodup_closedIndices h) hrecalls.rooted.nodup).mpr ?_
  intro i
  have hopen := hclosed i
  have hfresh := hrecalls.fresh i
  rw [mem_closedIndices h]
  constructor
  · intro hclose
    rw [hclose] at hfresh
    exact not_not.mp fun hnew => nomatch hfresh.mpr hnew
  · intro hmem
    have hne : m.block i ≠ .fresh := fun he => hfresh.mp he hmem
    cases hphase : m.block i with
    | fresh => exact absurd hphase hne
    | closed => rfl
    | _ =>
      rw [hphase] at hopen
      cases hopen

/-- The blocks of a stream, by their starts. -/
theorem blocks_eq (h : Runs.exec (Envelope.step nested) {} es = some m) :
    blocks es = (started es).map (blockAt (parts es)) :=
  assemble_eq (recalls_of_exec h).rooted

theorem filter_blocks (h : Runs.exec (Envelope.step nested) {} es = some m)
    {start : Nat × ContentBlockKind} (hstart : start ∈ started es) :
    (blocks es).filter (·.index = start.1) = [blockAt (parts es) start] := by
  have hnodup := (recalls_of_exec h).rooted.nodup
  rw [blocks_eq h]
  obtain ⟨before, after, hsplit⟩ := List.append_of_mem hstart
  rw [startedIndices, ← started, hsplit, List.map_append, List.map_cons] at hnodup
  have hbefore : ∀ b ∈ before.map (blockAt (parts es)), ¬ b.index = start.1 := by
    intro b hb he
    obtain ⟨s, hs, rfl⟩ := List.mem_map.mp hb
    rw [blockAt_index] at he
    exact (List.nodup_append.mp hnodup).2.2 s.1 (List.mem_map_of_mem hs) start.1
      List.mem_cons_self he
  have hafter : ∀ b ∈ after.map (blockAt (parts es)), ¬ b.index = start.1 := by
    intro b hb he
    obtain ⟨s, hs, rfl⟩ := List.mem_map.mp hb
    rw [blockAt_index] at he
    have hnone := (List.nodup_cons.mp (List.nodup_append.mp hnodup).2.1).1
    exact hnone (he ▸ List.mem_map_of_mem hs)
  rw [hsplit, List.map_append, List.map_cons, List.filter_append,
    List.filter_eq_nil_iff.mpr (by simpa using hbefore), List.nil_append,
    List.filter_cons_of_pos (by simp [blockAt_index]),
    List.filter_eq_nil_iff.mpr (by simpa using hafter)]

theorem blocksByStop_perm (h : Runs.exec (Envelope.step nested) {} es = some m)
    (hclosed : ∀ i, (m.block i).isOpen = false) : (blocksByStop es).Perm (blocks es) := by
  have hperm := (closedIndices_perm h hclosed).flatMap_right
    fun i => (blocks es).filter (·.index = i)
  have hall : (startedIndices (parts es)).flatMap (fun i => (blocks es).filter (·.index = i)) =
      blocks es := by
    rw [startedIndices, List.flatMap_map]
    conv_rhs => rw [blocks_eq h]
    rw [← started, List.flatMap_congr fun start hstart => filter_blocks h hstart,
      ← List.map_eq_flatMap]
  rwa [hall] at hperm

/-! ## Kinds -/

/-- What a part finds open suits it. -/
theorem Envelope.Allows.suits (h : m.Allows nested e) {i : Nat} {p : BlockPart}
    (hpart : e.part = some (i, p)) (hne : ∀ kind, p ≠ .start kind) :
    ∃ kind, (m.block i).kind? = some kind ∧ p.Suits kind := by
  cases e with
  | contentBlockStart j kind =>
    cases hpart
    exact absurd rfl (hne kind)
  | textDelta j text =>
    cases hpart
    exact ⟨.text, by rw [h.2]; rfl, rfl⟩
  | reasoningDelta j text =>
    cases hpart
    exact ⟨.reasoning, by rw [h.2]; rfl, rfl⟩
  | toolCallStart j id name =>
    cases hpart
    exact ⟨.toolCall, BlockPhase.kind_of_isTool h.lenient.2, rfl⟩
  | toolCallArgumentsDelta j fragment =>
    cases hpart
    exact ⟨.toolCall, BlockPhase.kind_of_isTool h.lenient.2, rfl⟩
  | _ => cases hpart

/-- Every part suits the kind of its block. -/
theorem suits_of_exec (h : Runs.exec (Envelope.step nested) {} es = some m) {i : Nat}
    {kind : ContentBlockKind} (hstart : (i, kind) ∈ started es) {p : BlockPart}
    (hp : p ∈ partsUnder i es) : p.Suits kind := by
  have hrooted := (recalls_of_exec h).rooted
  obtain ⟨⟨j, q⟩, hmem, hat⟩ := List.mem_filterMap.mp hp
  obtain ⟨rfl, hq⟩ := Option.ite_none_right_eq_some.mp hat
  cases hq
  obtain ⟨e, he, hpart⟩ := List.mem_filterMap.mp hmem
  obtain ⟨past, rest, rfl⟩ := List.append_of_mem he
  obtain ⟨m₁, hpast, hnext⟩ := Runs.exec_append_eq_some.mp h
  obtain ⟨hallow, -⟩ := Envelope.exec_cons_iff.mp hnext
  by_cases hkind : ∃ k, q = .start k
  · obtain ⟨k, rfl⟩ := hkind
    exact hrooted.kind_unique (List.mem_filterMap.mpr ⟨_, hmem, rfl⟩) hstart
  · obtain ⟨k, hopen, hsuits⟩ := hallow.suits hpart fun k hk => hkind ⟨k, hk⟩
    have hold : (j, k) ∈ started (past ++ e :: rest) := by
      rw [started, parts_append, starts_append]
      exact List.mem_append_left _ ((recalls_of_exec hpast).kind j k hopen)
    rwa [← hrooted.kind_unique hold hstart]

/-! ## What a reader keeps of the blocks that have not stopped -/

/-- A part comes under an index that has not stopped. -/
theorem Envelope.Allows.part_not_closed (h : m.Allows nested e) {i : Nat} {p : BlockPart}
    (hpart : e.part = some (i, p)) : m.block i ≠ .closed := by
  intro hclosed
  by_cases hstart : ∃ kind, p = .start kind
  · obtain ⟨kind, rfl⟩ := hstart
    have he : e = .contentBlockStart i kind := by
      cases e <;> simp_all [StreamEvent.part]
    subst he
    have hfresh := h.2.2
    rw [hclosed] at hfresh
    cases hfresh
  · have hopen := h.part_open hpart fun kind hp => hstart ⟨kind, hp⟩
    rw [hclosed] at hopen
    cases hopen

/-- What is made of the blocks as they stop: an event adds what it stops. -/
theorem flatMap_closed_concat {β : Type*} (h : Runs.exec (Envelope.step nested) {} es = some m)
    (hallow : m.Allows nested e) (f : List BlockPart → List β) :
    (closedIndices (es ++ [e])).flatMap (fun i => f (partsUnder i (es ++ [e]))) =
      (closedIndices es).flatMap (fun i => f (partsUnder i es)) ++
        e.closes.toList.flatMap fun i => f (partsUnder i es) := by
  have hold : ∀ i ∈ closedIndices es, f (partsUnder i (es ++ [e])) = f (partsUnder i es) := by
    intro i hi
    cases hpart : e.part with
    | none => rw [partsUnder_concat_none hpart]
    | some ip =>
      obtain ⟨j, p⟩ := ip
      have hne : i ≠ j := by
        rintro rfl
        exact hallow.part_not_closed hpart ((mem_closedIndices h i).mp hi)
      rw [partsUnder_concat_ne hpart hne]
  have hnew : ∀ i ∈ e.closes.toList, f (partsUnder i (es ++ [e])) = f (partsUnder i es) := by
    intro i hi
    have hpart : e.part = none := by
      cases e <;> first | rfl | cases hi
    rw [partsUnder_concat_none hpart]
  rw [closedIndices_concat, List.flatMap_append, List.flatMap_congr hold,
    List.flatMap_congr hnew]

/-- Under every index that has not stopped a table has what is seen in the parts
that came under it. -/
def Tracks {β : Type*} (es : List StreamEvent) (m : Envelope) (table : Nat → Option β)
    (view : List BlockPart → Option β) : Prop :=
  ∀ i, m.block i ≠ .closed → table i = view (partsUnder i es)

section Tracks

variable {β : Type*} {table table' : Nat → Option β} {view : List BlockPart → Option β}

/-- An event in which nothing is seen. -/
theorem Tracks.kept (h : Tracks es m table view) (hallow : m.Allows nested e)
    (hview : ∀ i p, e.part = some (i, p) → ∀ ps, view (ps ++ [p]) = view ps) :
    Tracks (es ++ [e]) (m.after e) table view := by
  intro i hi
  have hopen : m.block i ≠ .closed := fun hc => hi ((hallow.closed_after i).mpr (Or.inl hc))
  rw [h i hopen]
  cases hpart : e.part with
  | none => rw [partsUnder_concat_none hpart]
  | some ip =>
    obtain ⟨j, p⟩ := ip
    by_cases hij : i = j
    · subst hij
      rw [partsUnder_concat_self hpart, hview i p hpart]
    · rw [partsUnder_concat_ne hpart hij]

/-- A part that goes into the table. -/
theorem Tracks.set (h : Tracks es m table view) (hallow : m.Allows nested e) {i : Nat}
    {p : BlockPart} (hpart : e.part = some (i, p))
    (hself : table' i = view (partsUnder i es ++ [p]))
    (hother : ∀ j, j ≠ i → table' j = table j) : Tracks (es ++ [e]) (m.after e) table' view := by
  intro j hj
  have hopen : m.block j ≠ .closed := fun hc => hj ((hallow.closed_after j).mpr (Or.inl hc))
  by_cases hji : j = i
  · subst hji
    rw [partsUnder_concat_self hpart, hself]
  · rw [partsUnder_concat_ne hpart hji, hother j hji, h j hopen]

/-- The stop of a block, whatever it leaves under its index. -/
theorem Tracks.stop (h : Tracks es m table view) {i : Nat}
    (hother : ∀ j, j ≠ i → table' j = table j) :
    Tracks (es ++ [.contentBlockStop i]) (m.after (.contentBlockStop i)) table' view := by
  intro j hj
  have hji : j ≠ i := by
    rintro rfl
    exact hj (Envelope.setBlock_block_self m j .closed)
  have hopen : m.block j ≠ .closed := by
    rwa [Envelope.after, Envelope.setBlock_block_of_ne m _ hji] at hj
  rw [partsUnder_concat_none rfl, hother j hji, h j hopen]

end Tracks

/-! ## Blocks from their parts -/

/-- A text of a block is what its parts add to it. -/
theorem foldl_add {field : Block → String} {read : BlockPart → Option String}
    (h : ∀ b p, field (b.add p) = field b ++ (read p).getD "") (ps : List BlockPart) (b : Block) :
    field (ps.foldl Block.add b) = field b ++ (gather read ps).getD "" := by
  induction ps using List.reverseRecOn with
  | nil => simp
  | append_singleton ps p ih =>
    rw [List.foldl_append, List.foldl_cons, List.foldl_nil, h, ih]
    cases hp : read p with
    | none =>
      rw [gather_concat_none hp]
      simp
    | some text =>
      rw [gather_concat_some hp]
      simp [String.append_assoc]

theorem text_blockAt (es : List StreamEvent) (start : Nat × ContentBlockKind) :
    (blockAt (parts es) start).text = (gather BlockPart.text? (partsUnder start.1 es)).getD "" := by
  have hadd : ∀ (b : Block) p, (b.add p).text = b.text ++ (BlockPart.text? p).getD "" := by
    intro b p
    cases p <;> simp [Block.add, BlockPart.text?]
  exact (foldl_add hadd _ _).trans (String.empty_append)

theorem arguments_blockAt (es : List StreamEvent) (start : Nat × ContentBlockKind) :
    (blockAt (parts es) start).arguments =
      (gather BlockPart.arguments? (partsUnder start.1 es)).getD "" := by
  have hadd : ∀ (b : Block) p,
      (b.add p).arguments = b.arguments ++ (BlockPart.arguments? p).getD "" := by
    intro b p
    cases p <;> simp [Block.add, BlockPart.arguments?]
  exact (foldl_add hadd _ _).trans (String.empty_append)

theorem calls_foldl_add (ps : List BlockPart) (b : Block) :
    (ps.foldl Block.add b).calls = b.calls ++ ps.filterMap BlockPart.call? := by
  induction ps generalizing b with
  | nil => exact (List.append_nil _).symm
  | cons p ps ih =>
    rw [List.foldl_cons, ih]
    cases p <;> simp [Block.add, BlockPart.call?, List.filterMap_cons]

theorem calls_blockAt (es : List StreamEvent) (start : Nat × ContentBlockKind) :
    (blockAt (parts es) start).calls = (partsUnder start.1 es).filterMap BlockPart.call? :=
  (calls_foldl_add _ _).trans (List.nil_append _)

theorem kind_blockAt (es : List StreamEvent) (start : Nat × ContentBlockKind) :
    (blockAt (parts es) start).kind = start.2 := by
  have hadd : ∀ (ps : List BlockPart) (b : Block), (ps.foldl Block.add b).kind = b.kind := by
    intro ps
    induction ps with
    | nil => intro b; rfl
    | cons p ps ih => intro b; rw [List.foldl_cons, ih, Block.add_kind]
  exact hadd _ _

end AgentShim
