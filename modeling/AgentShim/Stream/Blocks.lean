import AgentShim.Lib.Lists
import AgentShim.Stream.Lifecycle

/-
  The blocks of a canonical stream

  What a reader of a canonical stream ends up with: the blocks in the order in
  which they were started, each with the text, the call and the arguments its
  events spell. The events of a block are put together one after the other, each
  going to the block that was last started under its index.

  What is proved:
    1. `assemble_eq` — where indices are not reused, each block is made of the
       parts under its index.
    2. `assemble_rename`, `assemble_nonEmpty` — renaming the indices renames the
       blocks, and empty pieces add nothing.
    3. `rooted_parts` — in a lifecycle-valid stream indices are not reused.
-/

namespace AgentShim

/-- What one event adds to a block. -/
inductive BlockPart
  | start (kind : ContentBlockKind)
  | text (text : String)
  | reasoning (text : String)
  | call (id name : String)
  | arguments (fragment : String)
  deriving DecidableEq, Repr

structure Block where
  index : Nat
  kind : ContentBlockKind
  text : String := ""
  reasoning : String := ""
  calls : List (String × String) := []
  arguments : String := ""
  deriving DecidableEq, Repr

namespace Block

def add (b : Block) : BlockPart → Block
  | .start _ => b
  | .text text => { b with text := b.text ++ text }
  | .reasoning text => { b with reasoning := b.reasoning ++ text }
  | .call id name => { b with calls := b.calls ++ [(id, name)] }
  | .arguments fragment => { b with arguments := b.arguments ++ fragment }

/-- The block under another index. -/
def rename (f : Nat → Nat) (b : Block) : Block := { b with index := f b.index }

@[simp] theorem add_index (b : Block) (p : BlockPart) : (b.add p).index = b.index := by
  cases p <;> rfl

@[simp] theorem add_kind (b : Block) (p : BlockPart) : (b.add p).kind = b.kind := by
  cases p <;> rfl

theorem rename_add (f : Nat → Nat) (b : Block) (p : BlockPart) :
    (b.add p).rename f = (b.rename f).add p := by
  cases p <;> rfl

end Block

abbrev Part := Nat × BlockPart

/-- The block a part belongs to is the newest under its index; the list has the
newest block first. -/
def addPart (index : Nat) (p : BlockPart) : List Block → List Block
  | [] => []
  | b :: bs => if b.index = index then b.add p :: bs else b :: addPart index p bs

def grow (bs : List Block) : Part → List Block
  | (index, .start kind) => { index := index, kind := kind } :: bs
  | (index, p) => addPart index p bs

/-- The blocks that a list of parts makes, in the order of their starts. -/
def assemble (ps : List Part) : List Block := (ps.foldl grow []).reverse

/-- The index and the kind of a start. -/
def startOf : Part → Option (Nat × ContentBlockKind)
  | (index, .start kind) => some (index, kind)
  | _ => none

def starts (ps : List Part) : List (Nat × ContentBlockKind) := ps.filterMap startOf

def startedIndices (ps : List Part) : List Nat := (starts ps).map Prod.fst

def partAt (index : Nat) (p : Part) : Option BlockPart :=
  if p.1 = index then some p.2 else none

/-- The block made of the parts under an index. -/
def blockAt (ps : List Part) (start : Nat × ContentBlockKind) : Block :=
  (ps.filterMap (partAt start.1)).foldl Block.add { index := start.1, kind := start.2 }

/-- A start is under a new index, any other part under one that was started. -/
def Fits (past : List Part) : Part → Prop
  | (index, .start _) => index ∉ startedIndices past
  | (index, _) => index ∈ startedIndices past

def Rooted (ps : List Part) : Prop := Transducer.Throughout Fits ps

theorem rooted_concat {ps : List Part} {p : Part} :
    Rooted (ps ++ [p]) ↔ Rooted ps ∧ Fits ps p :=
  Transducer.throughout_append_singleton

theorem rooted_nil : Rooted [] := Transducer.throughout_nil

theorem starts_append (ps qs : List Part) : starts (ps ++ qs) = starts ps ++ starts qs :=
  List.filterMap_append

theorem startedIndices_append (ps qs : List Part) :
    startedIndices (ps ++ qs) = startedIndices ps ++ startedIndices qs := by
  rw [startedIndices, starts_append, List.map_append]
  rfl

theorem startOf_of_ne {index : Nat} {p : BlockPart} (h : ∀ kind, p ≠ .start kind) :
    startOf (index, p) = none := by
  cases p with
  | start kind => exact absurd rfl (h kind)
  | _ => rfl

theorem starts_concat_of_ne {ps : List Part} {index : Nat} {p : BlockPart}
    (h : ∀ kind, p ≠ .start kind) : starts (ps ++ [(index, p)]) = starts ps := by
  rw [starts_append, starts, starts, List.filterMap_cons_none (startOf_of_ne h)]
  exact List.append_nil _

theorem fits_iff_of_ne {past : List Part} {index : Nat} {p : BlockPart}
    (h : ∀ kind, p ≠ .start kind) : Fits past (index, p) ↔ index ∈ startedIndices past := by
  cases p with
  | start kind => exact absurd rfl (h kind)
  | _ => rfl

theorem assemble_concat_start (ps : List Part) (index : Nat) (kind : ContentBlockKind) :
    assemble (ps ++ [(index, .start kind)]) =
      assemble ps ++ [{ index := index, kind := kind }] := by
  rw [assemble, List.foldl_append, assemble]
  exact List.reverse_cons

theorem grow_of_ne {bs : List Block} {index : Nat} {p : BlockPart}
    (h : ∀ kind, p ≠ .start kind) : grow bs (index, p) = addPart index p bs := by
  cases p with
  | start kind => exact absurd rfl (h kind)
  | _ => rfl

theorem assemble_concat_of_ne {ps : List Part} {index : Nat} {p : BlockPart}
    (h : ∀ kind, p ≠ .start kind) :
    assemble (ps ++ [(index, p)]) = (addPart index p (assemble ps).reverse).reverse := by
  rw [assemble, List.foldl_append, List.foldl_cons, List.foldl_nil, grow_of_ne h, assemble,
    List.reverse_reverse]

/-! ## Blocks by their indices -/

theorem addPart_eq_map {index : Nat} {p : BlockPart} {bs : List Block}
    (h : (bs.map Block.index).Nodup) :
    addPart index p bs = bs.map fun b => if b.index = index then b.add p else b := by
  induction bs with
  | nil => rfl
  | cons b bs ih =>
    obtain ⟨hb, hbs⟩ := List.nodup_cons.mp h
    rw [addPart, List.map_cons]
    by_cases hi : b.index = index
    · -- no other block has the index
      have hrest : ∀ c ∈ bs, (if c.index = index then c.add p else c) = c := by
        intro c hc
        refine if_neg fun hci => hb ?_
        rw [hi, ← hci]
        exact List.mem_map_of_mem hc
      rw [if_pos hi, if_pos hi, List.map_congr_left hrest, List.map_id']
    · rw [if_neg hi, if_neg hi, ih hbs]

theorem blockAt_index (ps : List Part) (start : Nat × ContentBlockKind) :
    (blockAt ps start).index = start.1 := by
  rw [blockAt]
  generalize ps.filterMap (partAt start.1) = parts
  have hadd : ∀ b : Block, (parts.foldl Block.add b).index = b.index := by
    induction parts with
    | nil => intro b; rfl
    | cons p parts ih => intro b; rw [List.foldl_cons, ih, Block.add_index]
  exact hadd _

theorem blockAt_concat_of_ne {ps : List Part} {index : Nat} {p : BlockPart}
    {start : Nat × ContentBlockKind} (h : start.1 ≠ index) :
    blockAt (ps ++ [(index, p)]) start = blockAt ps start := by
  have hnone : partAt start.1 (index, p) = none := if_neg (Ne.symm h)
  rw [blockAt, List.filterMap_append, List.filterMap_cons_none hnone, List.filterMap_nil,
    List.append_nil, blockAt]

theorem blockAt_concat_self (ps : List Part) (p : BlockPart) (start : Nat × ContentBlockKind) :
    blockAt (ps ++ [(start.1, p)]) start = (blockAt ps start).add p := by
  have hsome : partAt start.1 (start.1, p) = some p := if_pos rfl
  rw [blockAt, List.filterMap_append, List.filterMap_cons_some hsome, List.filterMap_nil,
    List.foldl_append, List.foldl_cons, List.foldl_nil, blockAt]

theorem Rooted.mem_startedIndices {ps : List Part} (h : Rooted ps) {p : Part} (hp : p ∈ ps) :
    p.1 ∈ startedIndices ps := by
  obtain ⟨before, after, rfl⟩ := List.append_of_mem hp
  have hfits := h before p after rfl
  rw [startedIndices_append]
  obtain ⟨index, part⟩ := p
  cases part with
  | start kind =>
    have hstart : (index, kind) ∈ starts ((index, .start kind) :: after) :=
      List.mem_filterMap.mpr ⟨_, List.mem_cons_self, rfl⟩
    exact List.mem_append_right _ (List.mem_map_of_mem hstart)
  | _ => exact List.mem_append_left _ hfits

theorem Rooted.nodup {ps : List Part} (h : Rooted ps) : (startedIndices ps).Nodup := by
  induction ps using List.reverseRecOn with
  | nil => exact List.nodup_nil
  | append_singleton ps p ih =>
    obtain ⟨hps, hp⟩ := rooted_concat.mp h
    obtain ⟨index, part⟩ := p
    rw [startedIndices]
    cases part with
    | start kind =>
      rw [starts_append, List.map_append]
      exact List.nodup_append.mpr ⟨ih hps, List.nodup_singleton index, fun i hi j hj => by
        rintro rfl
        have hij : i = index := List.mem_singleton.mp hj
        exact hp (hij ▸ hi)⟩
    | _ =>
      rw [starts_concat_of_ne (by simp)]
      exact ih hps

/-- A block has one kind. -/
theorem Rooted.kind_unique {ps : List Part} (h : Rooted ps) {i : Nat} {k k' : ContentBlockKind}
    (hk : (i, k) ∈ starts ps) (hk' : (i, k') ∈ starts ps) : k = k' :=
  congrArg Prod.snd (List.inj_on_of_nodup_map h.nodup hk hk' rfl)

/-- Where indices are not reused each block is made of the parts under its index. -/
theorem assemble_eq {ps : List Part} (h : Rooted ps) :
    assemble ps = (starts ps).map (blockAt ps) := by
  induction ps using List.reverseRecOn with
  | nil => rfl
  | append_singleton ps p ih =>
    obtain ⟨hps, hp⟩ := rooted_concat.mp h
    obtain ⟨index, part⟩ := p
    by_cases hstart : ∃ kind, part = .start kind
    · obtain ⟨kind, rfl⟩ := hstart
      have hold : ∀ start ∈ starts ps,
          blockAt (ps ++ [(index, .start kind)]) start = blockAt ps start := by
        intro start hmem
        refine blockAt_concat_of_ne fun he => hp ?_
        rw [← he]
        exact List.mem_map_of_mem hmem
      have hnew : blockAt (ps ++ [(index, .start kind)]) (index, kind) =
          { index := index, kind := kind } := by
        have hnone : ps.filterMap (partAt index) = [] := by
          refine List.filterMap_eq_nil_iff.mpr fun p hmem => if_neg fun he => hp ?_
          rw [← he]
          exact hps.mem_startedIndices hmem
        rw [blockAt_concat_self ps _ (index, kind), blockAt, hnone]
        rfl
      rw [assemble_concat_start, ih hps, starts_append, List.map_append,
        List.map_congr_left hold]
      exact congrArg (_ ++ [·]) hnew.symm
    · have hne : ∀ kind, part ≠ .start kind := fun kind he => hstart ⟨kind, he⟩
      have hnodup : (((starts ps).map (blockAt ps)).reverse.map Block.index).Nodup := by
        rw [List.map_reverse, List.nodup_reverse, List.map_map]
        have hindex : Block.index ∘ blockAt ps = Prod.fst := funext (blockAt_index ps)
        rw [hindex]
        exact hps.nodup
      rw [assemble_concat_of_ne hne, ih hps, addPart_eq_map hnodup, ← List.map_reverse,
        List.reverse_reverse, List.map_map, starts_concat_of_ne hne]
      refine List.map_congr_left fun start _ => ?_
      rw [Function.comp_apply, blockAt_index]
      by_cases hi : start.1 = index
      · subst hi
        rw [if_pos rfl, blockAt_concat_self]
      · rw [if_neg hi, blockAt_concat_of_ne hi]

/-! ## Renamed indices, empty pieces -/

theorem mem_addPart {index : Nat} {p : BlockPart} {bs : List Block} {b : Block}
    (h : b ∈ addPart index p bs) : ∃ c ∈ bs, c.index = b.index := by
  induction bs with
  | nil => cases h
  | cons c bs ih =>
    rw [addPart] at h
    split at h
    · rcases List.mem_cons.mp h with rfl | h
      · exact ⟨c, List.mem_cons_self, (Block.add_index c p).symm⟩
      · exact ⟨b, List.mem_cons_of_mem c h, rfl⟩
    · rcases List.mem_cons.mp h with rfl | h
      · exact ⟨b, List.mem_cons_self, rfl⟩
      · obtain ⟨d, hd, hdb⟩ := ih h
        exact ⟨d, List.mem_cons_of_mem c hd, hdb⟩

theorem index_mem_of_mem_assemble {ps : List Part} {b : Block} (h : b ∈ assemble ps) :
    b.index ∈ ps.map Prod.fst := by
  induction ps using List.reverseRecOn generalizing b with
  | nil => cases h
  | append_singleton ps p ih =>
    obtain ⟨index, part⟩ := p
    rw [List.map_append]
    by_cases hstart : ∃ kind, part = .start kind
    · obtain ⟨kind, rfl⟩ := hstart
      rw [assemble_concat_start] at h
      rcases List.mem_append.mp h with h | h
      · exact List.mem_append_left _ (ih h)
      · obtain rfl := List.mem_singleton.mp h
        exact List.mem_append_right _ List.mem_cons_self
    · rw [assemble_concat_of_ne fun kind he => hstart ⟨kind, he⟩, List.mem_reverse] at h
      obtain ⟨c, hc, hcb⟩ := mem_addPart h
      rw [List.mem_reverse] at hc
      exact List.mem_append_left _ (hcb ▸ ih hc)

theorem addPart_rename {f : Nat → Nat} {index : Nat} {p : BlockPart} {bs : List Block}
    (h : ∀ b ∈ bs, f b.index = f index → b.index = index) :
    addPart (f index) p (bs.map (Block.rename f)) = (addPart index p bs).map (Block.rename f) := by
  induction bs with
  | nil => rfl
  | cons b bs ih =>
    obtain ⟨hb, hbs⟩ := List.forall_mem_cons.mp h
    rw [List.map_cons, addPart, addPart]
    by_cases hi : b.index = index
    · have hf : (b.rename f).index = f index := congrArg f hi
      rw [if_pos hi, if_pos hf, List.map_cons, Block.rename_add]
    · have hf : (b.rename f).index ≠ f index := fun he => hi (hb he)
      rw [if_neg hi, if_neg hf, List.map_cons, ih hbs]

/-- Renaming the indices renames the blocks, if it keeps them apart. -/
theorem assemble_rename {f : Nat → Nat} {ps : List Part}
    (h : ∀ p ∈ ps, ∀ q ∈ ps, f p.1 = f q.1 → p.1 = q.1) :
    assemble (ps.map fun p => (f p.1, p.2)) = (assemble ps).map (Block.rename f) := by
  induction ps using List.reverseRecOn with
  | nil => rfl
  | append_singleton ps p ih =>
    obtain ⟨index, part⟩ := p
    have hps := ih fun p hp q hq => h p (List.mem_append_left _ hp) q (List.mem_append_left _ hq)
    rw [List.map_append, List.map_singleton]
    by_cases hstart : ∃ kind, part = .start kind
    · obtain ⟨kind, rfl⟩ := hstart
      rw [assemble_concat_start, assemble_concat_start, hps, List.map_append]
      rfl
    · have hne : ∀ kind, part ≠ .start kind := fun kind he => hstart ⟨kind, he⟩
      have hapart : ∀ b ∈ (assemble ps).reverse, f b.index = f index → b.index = index := by
        intro b hb
        obtain ⟨q, hq, hqb⟩ :=
          List.mem_map.mp (index_mem_of_mem_assemble (List.mem_reverse.mp hb))
        rw [← hqb]
        exact h q (List.mem_append_left _ hq) (index, part)
          (List.mem_append_right _ List.mem_cons_self)
      rw [assemble_concat_of_ne hne, assemble_concat_of_ne hne, hps, ← List.map_reverse,
        addPart_rename hapart, List.map_reverse]

/-- Adds nothing to a block. -/
def BlockPart.isEmpty : BlockPart → Bool
  | .text s | .reasoning s | .arguments s => s == ""
  | .start _ | .call _ _ => false

theorem Block.add_of_isEmpty {p : BlockPart} (h : p.isEmpty = true) (b : Block) : b.add p = b := by
  cases p with
  | text text =>
    obtain rfl : text = "" := by simpa [BlockPart.isEmpty] using h
    simp [Block.add]
  | reasoning text =>
    obtain rfl : text = "" := by simpa [BlockPart.isEmpty] using h
    simp [Block.add]
  | arguments fragment =>
    obtain rfl : fragment = "" := by simpa [BlockPart.isEmpty] using h
    simp [Block.add]
  | start kind => cases h
  | call id name => cases h

theorem grow_of_isEmpty {p : Part} (h : p.2.isEmpty = true) (bs : List Block) :
    grow bs p = bs := by
  obtain ⟨index, part⟩ := p
  have hne : ∀ kind, part ≠ .start kind := by
    rintro kind rfl
    cases h
  rw [grow_of_ne hne]
  induction bs with
  | nil => rfl
  | cons b bs ih =>
    rw [addPart, Block.add_of_isEmpty h, ih, ite_self]

/-- Empty pieces add nothing. -/
theorem assemble_nonEmpty (ps : List Part) :
    assemble (ps.filter fun p => !p.2.isEmpty) = assemble ps := by
  have hfold : ∀ bs, (ps.filter fun p => !p.2.isEmpty).foldl grow bs = ps.foldl grow bs := by
    induction ps with
    | nil => intro bs; rfl
    | cons p ps ih =>
      intro bs
      cases hp : p.2.isEmpty with
      | true =>
        rw [List.filter_cons_of_neg (by simp [hp]), ih, List.foldl_cons, grow_of_isEmpty hp]
      | false => rw [List.filter_cons_of_pos (by simp [hp]), List.foldl_cons, List.foldl_cons, ih]
  rw [assemble, hfold, assemble]

/-! ## The parts of a stream -/

namespace StreamEvent

def part : StreamEvent → Option Part
  | .contentBlockStart index kind => some (index, .start kind)
  | .textDelta index text => some (index, .text text)
  | .reasoningDelta index text => some (index, .reasoning text)
  | .toolCallStart index id name => some (index, .call id name)
  | .toolCallArgumentsDelta index fragment => some (index, .arguments fragment)
  | _ => none

/-- How the message was stopped. -/
def stop : StreamEvent → Option (StopReason × Option String)
  | .messageStop reason sequence => some (reason, sequence)
  | _ => none

/-- The usage that an event carries. -/
def usage? : StreamEvent → Option Usage
  | .usageDelta usage => some usage
  | .responseStop usage => usage
  | _ => none

end StreamEvent

def parts (es : List StreamEvent) : List Part := es.filterMap StreamEvent.part

/-- The blocks of a stream, in the order of their starts. -/
def blocks (es : List StreamEvent) : List Block := assemble (parts es)

def started (es : List StreamEvent) : List (Nat × ContentBlockKind) := starts (parts es)

def stops (es : List StreamEvent) : List (StopReason × Option String) :=
  es.filterMap StreamEvent.stop

theorem stops_append (es fs : List StreamEvent) : stops (es ++ fs) = stops es ++ stops fs :=
  List.filterMap_append

theorem parts_append (es fs : List StreamEvent) : parts (es ++ fs) = parts es ++ parts fs :=
  List.filterMap_append

/-- Closing blocks neither adds to them nor stops the message. -/
theorem neutral_of_mem_closeBlocks {bs : List (Nat × ContentBlockKind)} {e : StreamEvent}
    (h : e ∈ Envelope.closeBlocks bs) : e.part = none ∧ e.stop = none := by
  obtain ⟨b, -, h⟩ := List.mem_flatMap.mp h
  rcases List.mem_append.mp h with h | h
  · split at h
    · obtain rfl := List.mem_singleton.mp h
      exact ⟨rfl, rfl⟩
    · cases h
  · obtain rfl := List.mem_singleton.mp h
    exact ⟨rfl, rfl⟩

theorem parts_closeBlocks (bs : List (Nat × ContentBlockKind)) :
    parts (Envelope.closeBlocks bs) = [] :=
  List.filterMap_eq_nil_iff.mpr fun _ he => (neutral_of_mem_closeBlocks he).1

theorem stops_closeBlocks (bs : List (Nat × ContentBlockKind)) :
    stops (Envelope.closeBlocks bs) = [] :=
  List.filterMap_eq_nil_iff.mpr fun _ he => (neutral_of_mem_closeBlocks he).2

/-! ## Lifecycle-valid streams -/

variable {nested : Bool} {m m' : Envelope} {es : List StreamEvent} {e : StreamEvent}

theorem parts_concat (es : List StreamEvent) (e : StreamEvent) :
    parts (es ++ [e]) = parts es ++ e.part.toList :=
  Lists.filterMap_concat _ _ _

theorem stops_concat (es : List StreamEvent) (e : StreamEvent) :
    stops (es ++ [e]) = stops es ++ e.stop.toList :=
  Lists.filterMap_concat _ _ _

theorem BlockPhase.kind_of_isTool {p : BlockPhase} (h : p.isTool = true) :
    p.kind? = some .toolCall := by
  cases p with
  | opened kind => cases kind <;> first | rfl | cases h
  | fresh => cases h
  | closed => cases h
  | _ => rfl

/-- A block that is not fresh becomes another that is not. -/
theorem Envelope.fresh_setBlock {j : Nat} {p : BlockPhase} (hp : p ≠ .fresh)
    (hj : m.block j ≠ .fresh) (i : Nat) :
    (m.setBlock j p).block i = .fresh ↔ m.block i = .fresh := by
  rw [Envelope.setBlock_block]
  by_cases hi : i = j
  · rw [if_pos hi, hi]
    exact iff_of_false hp hj
  · rw [if_neg hi]

theorem BlockPhase.ne_fresh_of_isOpen {p : BlockPhase} (h : p.isOpen = true) : p ≠ .fresh := by
  rintro rfl
  cases h

theorem Envelope.Allows.fresh_after (h : m.Allows nested e) (i : Nat) :
    (m.after e).block i = .fresh ↔ m.block i = .fresh ∧ ∀ kind, e ≠ .contentBlockStart i kind := by
  cases e with
  | contentBlockStart j kind =>
    rw [Envelope.after, Envelope.setBlock_block]
    by_cases hi : i = j
    · simp [hi]
    · simp [hi, Ne.symm hi]
  | contentBlockStop j =>
    have hopen := BlockPhase.isOpen_of_mayClose h.2
    rw [Envelope.after, Envelope.fresh_setBlock (by decide) (BlockPhase.ne_fresh_of_isOpen hopen)]
    exact (and_iff_left fun _ he => by cases he).symm
  | toolCallStart j id name =>
    have hopen := BlockPhase.isOpen_of_isTool h.lenient.2
    have hcalled : (m.block j).afterStart ≠ .fresh := by
      cases m.block j <;> exact BlockPhase.ne_fresh_of_isOpen rfl
    rw [Envelope.after, Envelope.fresh_setBlock hcalled (BlockPhase.ne_fresh_of_isOpen hopen)]
    exact (and_iff_left fun _ he => by cases he).symm
  | toolCallStop j =>
    have hopen := BlockPhase.isOpen_of_isTool h.lenient.2
    rw [Envelope.after, Envelope.fresh_setBlock (by decide) (BlockPhase.ne_fresh_of_isOpen hopen)]
    exact (and_iff_left fun _ he => by cases he).symm
  | _ => exact (and_iff_left fun _ he => by cases he).symm

/-- The kind of the block under an index after an event. -/
def kindAfter (i : Nat) (kind : Option ContentBlockKind) : StreamEvent → Option ContentBlockKind
  | .contentBlockStart j k => if i = j then some k else kind
  | .contentBlockStop j => if i = j then none else kind
  | _ => kind

theorem Envelope.Allows.kind_after (h : m.Allows nested e) (i : Nat) :
    ((m.after e).block i).kind? = kindAfter i (m.block i).kind? e := by
  cases e with
  | contentBlockStart j k =>
    rw [Envelope.after, Envelope.setBlock_block, kindAfter]
    split <;> rfl
  | contentBlockStop j =>
    rw [Envelope.after, Envelope.setBlock_block, kindAfter]
    split <;> rfl
  | toolCallStart j id name =>
    show ((m.setBlock j (m.block j).afterStart).block i).kind? = (m.block i).kind?
    rw [Envelope.setBlock_block]
    by_cases hi : i = j
    · have htool : (m.block j).isTool = true := h.lenient.2
      subst hi
      rw [if_pos rfl, BlockPhase.kind_of_isTool htool]
      cases m.block i <;> rfl
    · rw [if_neg hi]
  | toolCallStop j =>
    show ((m.setBlock j .ended).block i).kind? = (m.block i).kind?
    rw [Envelope.setBlock_block]
    by_cases hi : i = j
    · have htool : (m.block j).isTool = true := h.lenient.2
      subst hi
      rw [if_pos rfl, BlockPhase.kind_of_isTool htool]
      rfl
    · rw [if_neg hi]
  | _ => rfl

/-- A part other than a start goes to a block that is open. -/
theorem Envelope.Allows.part_open (h : m.Allows nested e) {i : Nat} {p : BlockPart}
    (hpart : e.part = some (i, p)) (hne : ∀ kind, p ≠ .start kind) :
    (m.block i).isOpen = true := by
  cases e with
  | contentBlockStart j kind =>
    cases hpart
    exact absurd rfl (hne kind)
  | textDelta j text =>
    cases hpart
    rw [h.2]
    rfl
  | reasoningDelta j text =>
    cases hpart
    rw [h.2]
    rfl
  | toolCallStart j id name =>
    cases hpart
    exact BlockPhase.isOpen_of_isTool h.lenient.2
  | toolCallArgumentsDelta j fragment =>
    cases hpart
    exact BlockPhase.isOpen_of_isTool h.lenient.2
  | _ => cases hpart

/-- What the envelope knows of the blocks of the events it took. -/
structure Recalls (es : List StreamEvent) (m : Envelope) : Prop where
  rooted : Rooted (parts es)
  fresh : ∀ i, m.block i = .fresh ↔ i ∉ startedIndices (parts es)
  kind : ∀ i kind, (m.block i).kind? = some kind → (i, kind) ∈ started es

theorem mem_startedIndices {ps : List Part} {i : Nat} :
    i ∈ startedIndices ps ↔ ∃ kind, (i, kind) ∈ starts ps := by
  simp [startedIndices]

theorem started_concat (es : List StreamEvent) (e : StreamEvent) (i : Nat)
    (kind : ContentBlockKind) :
    (i, kind) ∈ started (es ++ [e]) ↔
      (i, kind) ∈ started es ∨ e = .contentBlockStart i kind := by
  rw [started, parts_concat, starts_append, List.mem_append, started]
  apply or_congr_right
  cases e with
  | contentBlockStart j k => simp [StreamEvent.part, starts, startOf, eq_comm]
  | _ => exact iff_of_false List.not_mem_nil fun he => by cases he

theorem startedIndices_parts_concat (es : List StreamEvent) (e : StreamEvent) (i : Nat) :
    i ∈ startedIndices (parts (es ++ [e])) ↔
      i ∈ startedIndices (parts es) ∨ ∃ kind, e = .contentBlockStart i kind := by
  rw [mem_startedIndices, mem_startedIndices, ← exists_or]
  exact exists_congr fun kind => started_concat es e i kind

theorem Recalls.step (h : Recalls es m) (hallow : m.Allows nested e) :
    Recalls (es ++ [e]) (m.after e) where
  rooted := by
    rw [parts_concat]
    cases hpart : e.part with
    | none =>
      rw [Option.toList_none, List.append_nil]
      exact h.rooted
    | some p =>
      obtain ⟨i, p⟩ := p
      refine rooted_concat.mpr ⟨h.rooted, ?_⟩
      by_cases hstart : ∃ kind, p = .start kind
      · obtain ⟨kind, rfl⟩ := hstart
        have he : e = .contentBlockStart i kind := by
          cases e <;> simp_all [StreamEvent.part]
        subst he
        exact (h.fresh i).mp hallow.2.2
      · have hne : ∀ kind, p ≠ .start kind := fun kind hp => hstart ⟨kind, hp⟩
        have hopen := hallow.part_open hpart hne
        refine (fits_iff_of_ne hne).mpr (not_not.mp fun hnew => ?_)
        rw [(h.fresh i).mpr hnew] at hopen
        cases hopen
  fresh i := by
    rw [hallow.fresh_after, h.fresh, startedIndices_parts_concat, not_or, not_exists]
  kind i kind hkind := by
    rw [hallow.kind_after] at hkind
    rw [started_concat]
    cases e with
    | contentBlockStart j k =>
      rw [kindAfter] at hkind
      split at hkind
      · rename_i hi
        cases hkind
        exact Or.inr (by rw [hi])
      · exact Or.inl (h.kind i kind hkind)
    | contentBlockStop j =>
      rw [kindAfter] at hkind
      split at hkind
      · cases hkind
      · exact Or.inl (h.kind i kind hkind)
    | _ => exact Or.inl (h.kind i kind hkind)

theorem recalls_of_exec (h : Runs.exec (Envelope.step nested) {} es = some m) : Recalls es m := by
  refine Runs.exec_history ?_ (fun pre e m m' hpre hstep => ?_) h
  · exact { rooted := rooted_nil, fresh := fun i => by simp [parts, startedIndices, starts],
            kind := nofun }
  · obtain ⟨hallow, rfl⟩ := Envelope.step_eq_some.mp hstep
    exact hpre.step hallow

/-- In a lifecycle-valid stream indices are not reused. -/
theorem rooted_parts (h : LifecycleValid es) : Rooted (parts es) := by
  obtain ⟨m, hm, -⟩ := lifecycleValid_iff.mp h
  exact (recalls_of_exec hm).rooted

/-- Nothing but an error comes before the response is started. -/
theorem started_of_allows (h : Runs.exec (Envelope.step nested) {} es = some m)
    (hallow : m.Allows nested e) (herror : e.isError = false)
    (hstart : e.isResponseStart = false) : m.started = true := by
  have hinit : m = {} ∨ m.started = true := by
    refine Runs.exec_history (I := fun _ m => m = {} ∨ m.started = true) (Or.inl rfl)
      (fun _ f m₁ m₂ hpre hstep => ?_) h
    obtain ⟨hf, rfl⟩ := Envelope.step_eq_some.mp hstep
    rcases hpre with rfl | hstarted
    · cases f with
      | error message => exact Or.inl rfl
      | responseStart id model created => exact Or.inr rfl
      | _ => exact absurd hf.lenient (not_allows_init rfl rfl)
    · right
      cases f <;> first | exact hstarted | rfl
  rcases hinit with rfl | hstarted
  · exact absurd hallow.lenient (not_allows_init herror hstart)
  · exact hstarted

theorem length_stops (es : List StreamEvent) :
    (stops es).length = es.countP StreamEvent.isMessageStop := by
  induction es with
  | nil => rfl
  | cons e es ih =>
    rw [stops, List.filterMap_cons, List.countP_cons, ← ih, stops]
    cases e <;> rfl

/-- A message that was stopped was stopped once. -/
theorem stops_of_stopped (h : Runs.exec (Envelope.step nested) {} es = some m)
    (hstop : m.stopped = true) : ∃ stop, stops es = [stop] := by
  rw [← List.length_eq_one_iff, length_stops, (Envelope.remembers_of_exec h).messageStop, hstop]
  rfl

/-- A stream that stops its response last: before that the message was stopped, every
block closed, and the response not stopped. -/
theorem LifecycleValid.split (h : LifecycleValid es)
    (hlast : es.getLast?.any StreamEvent.isResponseStop = true) :
    ∃ front usage m, es = front ++ [.responseStop usage] ∧
      Runs.exec (Envelope.step false) {} front = some m ∧ m.stopped = true ∧
      (∀ i, (m.block i).isOpen = false) ∧ ∀ e ∈ front, e.isResponseStop = false := by
  obtain ⟨m', hm', hclosed⟩ := lifecycleValid_iff.mp h
  rcases List.eq_nil_or_concat es with rfl | ⟨front, e, rfl⟩
  · cases hlast
  · rw [List.concat_eq_append] at hm' hlast ⊢
    obtain ⟨m, hm, hend⟩ := Runs.exec_append_eq_some.mp hm'
    obtain ⟨hallow, rfl⟩ := Envelope.exec_singleton_iff.mp hend
    rw [List.getLast?_concat, Option.any_some] at hlast
    cases e with
    | responseStop usage =>
      refine ⟨front, usage, m, rfl, hm, hallow.1, hclosed.2, ?_⟩
      have hnone := (Envelope.remembers_of_exec hm).responseStop
      rw [hallow.2] at hnone
      intro e he
      exact Bool.eq_false_iff.mpr (List.countP_eq_zero.mp hnone e he)
    | _ => cases hlast

/-- Without errors a lifecycle-valid stream stops its response last. -/
theorem LifecycleValid.getLast (h : LifecycleValid es) (herrors : ∀ e ∈ es, e.isError = false) :
    es.getLast?.any StreamEvent.isResponseStop = true := by
  have hall : withoutErrors es = es :=
    List.filter_eq_self.mpr fun e he => by rw [herrors e he]; rfl
  have hlast := h.2.2
  rwa [hall] at hlast

end AgentShim
