import AgentShim.Plugins.ScrubPlan
import AgentShim.Stream.Lifecycle

/-
  Scrubbing and the structure of a stream

  A scrubber has one buffer per kind for all blocks of a request and empties it
  under the label of whatever event comes next. Its output is a canonical stream
  with each block's text in that block where the text held back is always of the
  block that the next event names.

  What is proved:
    1. `scrub_others` — every event that is no delta goes out once, in order.
    2. `ended_of_own` — where all that goes out under a label came for the block
       of that label, each delta with text is followed, after deltas only, by an
       event labelled with its block.
    3. `own_of_ended`, `exec_render` — where it is followed so, what goes out
       came for its label, and the envelope takes the scrubbed stream as it
       takes the stream.
    4. `keepsStructure_iff` — a lifecycle-valid stream keeps its structure under
       all rules iff each of its deltas with text is followed so.

  The label of an event that names no block is 0.
-/

namespace AgentShim.Plugins

open Transducer Utf8

def isDelta (e : StreamEvent) : Bool := (deltaOf e).isSome

/-- What a scrubbed stream is to have kept of the stream. -/
structure KeepsStructure (rules : List CompiledRule) (es : List StreamEvent) : Prop where
  valid : LifecycleValid (scrub rules es)
  others : (scrub rules es).filter (fun e => !isDelta e) = es.filter fun e => !isDelta e
  own : ∀ kind label segment, .flush kind label segment ∈ plan es →
    applyRules rules (chars segment) ≠ [] → ∀ cell ∈ segment, cell.1 = label
  inside : ∀ before e after d, scrub rules es = before ++ e :: after → deltaOf e = some d →
    blockOpen d.index before = true

/-- The label of the first event that is no delta. -/
def nextLabel : List StreamEvent → Option Nat
  | [] => none
  | e :: es => if isDelta e then nextLabel es else some (labelOf e)

/-- Each delta with text is followed, after deltas only, by an event labelled
with its block. -/
def EndedByOwn : List StreamEvent → Prop
  | [] => True
  | e :: es =>
    (∀ d, deltaOf e = some d → d.text ≠ [] → nextLabel es = some d.index) ∧ EndedByOwn es

theorem nextLabel_of_delta {e : StreamEvent} {d : Delta} (h : deltaOf e = some d)
    (es : List StreamEvent) : nextLabel (e :: es) = nextLabel es := by
  rw [nextLabel, isDelta, h]
  rfl

theorem nextLabel_of_other {e : StreamEvent} (h : deltaOf e = none) (es : List StreamEvent) :
    nextLabel (e :: es) = some (labelOf e) := by
  rw [nextLabel, isDelta, h]
  rfl

/-! ## The events that are no deltas -/

theorem filter_eq_flatMap {α : Type} (p : α → Bool) (l : List α) :
    l.filter p = l.flatMap fun a => if p a then [a] else [] := by
  induction l with
  | nil => rfl
  | cons a l ih =>
    rw [List.flatMap_cons, ← ih]
    cases hp : p a with
    | true =>
      rw [List.filter_cons_of_pos hp]
      rfl
    | false =>
      rw [List.filter_cons_of_neg (by simp [hp])]
      rfl

theorem isDelta_event (kind : TextKind) (index : Nat) (t : List Char) :
    isDelta (kind.event index t) = true := by
  rw [isDelta, deltaOf_event]
  rfl

/-- Of the others a flush puts out nothing. -/
theorem filter_render_flush (rules : List CompiledRule) (kind : TextKind) (label : Nat)
    (segment : List Cell) :
    (render rules (.flush kind label segment)).filter (fun e => !isDelta e) = [] := by
  rw [render]
  split
  · rfl
  · rw [List.filter_cons_of_neg (by rw [isDelta_event]; decide)]
    rfl

theorem filter_flushHeld (rules : List CompiledRule) (held : Held) (label : Nat)
    (kind : TextKind) :
    ((flushHeld held label kind).flatMap (render rules)).filter (fun e => !isDelta e) = [] := by
  unfold flushHeld
  split
  · rfl
  · rw [List.flatMap_singleton, filter_render_flush]

/-- Every other event goes out once and in order. -/
theorem scrub_others (rules : List CompiledRule) (es : List StreamEvent) :
    (scrub rules es).filter (fun e => !isDelta e) = es.filter fun e => !isDelta e := by
  have hstep : ∀ e ∈ es, ∀ held : Held,
      (planEvent e held).2.flatMap (fun x => (render rules x).filter fun e => !isDelta e) =
        if !isDelta e then [e] else [] := by
    intro e _ held
    cases h : deltaOf e with
    | some d =>
      have hdelta : isDelta e = true := by rw [isDelta, h]; rfl
      rw [planEvent_of_delta h, hdelta]
      by_cases hlong : flushThreshold < byteLen (chars (held d.kind ++ d.cells))
      · rw [planDelta_of_lt hlong, List.flatMap_singleton, filter_render_flush]
        rfl
      · rw [planDelta_of_le (Nat.not_lt.mp hlong)]
        rfl
    | none =>
      have hother : isDelta e = false := by rw [isDelta, h]; rfl
      rw [planEvent_of_other h, planOther, ← List.filter_flatMap, List.flatMap_append,
        List.flatMap_append, List.filter_append, List.filter_append, filter_flushHeld,
        filter_flushHeld, List.flatMap_singleton, render, hother,
        List.filter_cons_of_pos (by rw [hother]; rfl)]
      rfl
  rw [scrub_eq_render, List.filter_flatMap, plan, flatMap_forEach hstep, filter_eq_flatMap]

/-! ## Labels and blocks -/

/-- No buffer is over the threshold. -/
def Bounded (held : Held) : Prop := ∀ kind, byteLen (chars (held kind)) ≤ flushThreshold

theorem bounded_nothing : Bounded nothingHeld := fun _ => Nat.zero_le _

theorem bounded_update {held : Held} (h : Bounded held) {kind : TextKind} {cells : List Cell}
    (hcells : byteLen (chars cells) ≤ flushThreshold) :
    Bounded (Function.update held kind cells) := by
  intro k
  by_cases hk : k = kind
  · subst hk
    rwa [Function.update_self]
  · rw [Function.update_of_ne hk]
    exact h k

/-- A delta that makes a buffer too long has text. -/
theorem text_ne_nil_of_lt {d : Delta} {held : Held} (hb : Bounded held)
    (hlong : flushThreshold < byteLen (chars (held d.kind ++ d.cells))) : d.text ≠ [] := by
  intro hnil
  have hle := hb d.kind
  rw [chars_append, chars_cells, hnil, List.append_nil] at hlong
  omega

/-- Every flush of a run came for the block it is labelled with. -/
def Owned (out : List Emission) : Prop :=
  ∀ kind label segment, .flush kind label segment ∈ out → ∀ cell ∈ segment, cell.1 = label

theorem owned_append {a b : List Emission} : Owned (a ++ b) ↔ Owned a ∧ Owned b := by
  constructor
  · intro h
    exact ⟨fun k l s hs => h k l s (List.mem_append_left b hs),
      fun k l s hs => h k l s (List.mem_append_right a hs)⟩
  · rintro ⟨ha, hb⟩ k l s hs
    rcases List.mem_append.mp hs with hs | hs
    · exact ha k l s hs
    · exact hb k l s hs

theorem owned_pass (e : StreamEvent) : Owned [.pass e] := by
  intro kind label segment h
  cases List.mem_singleton.mp h

theorem owned_flush {kind : TextKind} {label : Nat} {segment : List Cell} :
    Owned [.flush kind label segment] ↔ ∀ cell ∈ segment, cell.1 = label := by
  constructor
  · intro h
    exact h kind label segment (List.mem_singleton_self _)
  · intro h k l s hs
    cases List.mem_singleton.mp hs
    exact h

theorem owned_flushHeld {held : Held} {label : Nat} {kind : TextKind} :
    Owned (flushHeld held label kind) ↔ ∀ cell ∈ held kind, cell.1 = label := by
  unfold flushHeld
  split
  · rename_i hempty
    rw [List.isEmpty_iff.mp hempty]
    exact ⟨fun _ => by simp, fun _ => by simp [Owned]⟩
  · exact owned_flush

/-- What a flush keeps ends with the last of the text pushed. -/
theorem exists_mem_drop {cells added : List Cell} (hadded : added ≠ []) {n : Nat}
    (h : (cells ++ added).drop n ≠ []) : ∃ cell ∈ added, cell ∈ (cells ++ added).drop n := by
  rcases List.eq_nil_or_concat added with rfl | ⟨front, last, rfl⟩
  · exact absurd rfl hadded
  · rw [List.concat_eq_append] at h ⊢
    have hn : n ≤ (cells ++ front).length := by
      by_contra hlt
      refine h (List.drop_eq_nil_of_le ?_)
      simp only [List.length_append, List.length_singleton] at hlt ⊢
      omega
    refine ⟨last, by simp, ?_⟩
    rw [← List.append_assoc, List.drop_append_of_le_length hn]
    simp

/-- Where a delta's flush is its own and what is kept is of one block, all the text
pushed is of that block. -/
theorem label_of_pushed {d : Delta} {held : Held} (hb : Bounded held) {label : Nat}
    (hown : Owned (planDelta d held).2)
    (hkept : ∀ kind, ∀ cell ∈ (planDelta d held).1 kind, cell.1 = label) :
    ∀ cell ∈ held d.kind ++ d.cells, cell.1 = label := by
  have hkind := hkept d.kind
  by_cases hlong : flushThreshold < byteLen (chars (held d.kind ++ d.cells))
  · rw [planDelta_of_lt hlong] at hown hkind
    dsimp only at hkind
    rw [Function.update_self] at hkind
    have hdrop : (held d.kind ++ d.cells).drop (safeLength (chars (held d.kind ++ d.cells))) ≠
        [] := by
      rw [Ne, ← chars_eq_nil_iff, chars_drop]
      exact drop_safeLength_ne_nil hlong
    -- the last character pushed is kept, so the label of the flush is that of the rest
    obtain ⟨last, hlast, hmem⟩ := exists_mem_drop
      (mt cells_eq_nil_iff.mp (text_ne_nil_of_lt hb hlong)) hdrop
    have hlabel : d.index = label := (index_of_mem_cells hlast).symm.trans (hkind last hmem)
    intro cell hcell
    rw [← List.take_append_drop (safeLength (chars (held d.kind ++ d.cells)))
      (held d.kind ++ d.cells)] at hcell
    rcases List.mem_append.mp hcell with hcell | hcell
    · exact (owned_flush.mp hown cell hcell).trans hlabel
    · exact hkind cell hcell
  · rw [planDelta_of_le (Nat.not_lt.mp hlong)] at hkind
    dsimp only at hkind
    rwa [Function.update_self] at hkind

theorem bounded_planDelta {d : Delta} {held : Held} (hb : Bounded held) :
    Bounded (planDelta d held).1 := by
  by_cases hlong : flushThreshold < byteLen (chars (held d.kind ++ d.cells))
  · rw [planDelta_of_lt hlong]
    refine bounded_update hb ?_
    rw [chars_drop]
    exact byteLen_rest_le hlong
  · rw [planDelta_of_le (Nat.not_lt.mp hlong)]
    exact bounded_update hb (Nat.not_lt.mp hlong)

/-- A delta leaves what is held of the other kind. -/
theorem planDelta_of_ne {d : Delta} {held : Held} {kind : TextKind} (h : kind ≠ d.kind) :
    (planDelta d held).1 kind = held kind := by
  by_cases hlong : flushThreshold < byteLen (chars (held d.kind ++ d.cells))
  · rw [planDelta_of_lt hlong]
    exact Function.update_of_ne h _ _
  · rw [planDelta_of_le (Nat.not_lt.mp hlong)]
    exact Function.update_of_ne h _ _

/-- What is kept of a kind was held or pushed. -/
theorem mem_planDelta {d : Delta} {held : Held} {kind : TextKind} {cell : Cell}
    (h : cell ∈ (planDelta d held).1 kind) :
    cell ∈ held kind ∨ kind = d.kind ∧ cell ∈ d.cells := by
  by_cases hkind : kind = d.kind
  · subst hkind
    have hpushed : cell ∈ held d.kind ++ d.cells := by
      by_cases hlong : flushThreshold < byteLen (chars (held d.kind ++ d.cells))
      · rw [planDelta_of_lt hlong] at h
        dsimp only at h
        rw [Function.update_self] at h
        exact List.mem_of_mem_drop h
      · rw [planDelta_of_le (Nat.not_lt.mp hlong)] at h
        dsimp only at h
        rwa [Function.update_self] at h
    exact (List.mem_append.mp hpushed).imp_right fun hd => ⟨rfl, hd⟩
  · rw [planDelta_of_ne hkind] at h
    exact Or.inl h

/-- What a delta flushes goes out as its own, was held or pushed, and is not
flushed unless the delta has text. -/
theorem flush_of_mem_planDelta {d : Delta} {held : Held} (hb : Bounded held) {x : Emission}
    (h : x ∈ (planDelta d held).2) :
    ∃ segment, x = .flush d.kind d.index segment ∧ d.text ≠ [] ∧
      ∀ cell ∈ segment, cell ∈ held d.kind ∨ cell ∈ d.cells := by
  by_cases hlong : flushThreshold < byteLen (chars (held d.kind ++ d.cells))
  · rw [planDelta_of_lt hlong] at h
    exact ⟨_, List.mem_singleton.mp h, text_ne_nil_of_lt hb hlong, fun cell hcell =>
      List.mem_append.mp (List.mem_of_mem_take hcell)⟩
  · rw [planDelta_of_le (Nat.not_lt.mp hlong)] at h
    cases h

/-- Each delta is followed by an event that is none. -/
def Answered : List StreamEvent → Prop
  | [] => True
  | e :: es => (isDelta e = true → nextLabel es ≠ none) ∧ Answered es

/-- If everything goes out under its own label, the next event that is no delta is
labelled with the block of all the text held, and each delta is followed by its
own. -/
theorem ended_of_own {es : List StreamEvent} {held : Held} (hb : Bounded held)
    (hown : Owned (forEach planEvent es held).2) (hanswered : Answered es) :
    (∀ label, nextLabel es = some label → ∀ kind, ∀ cell ∈ held kind, cell.1 = label) ∧
      EndedByOwn es := by
  induction es generalizing held with
  | nil => exact ⟨nofun, trivial⟩
  | cons e es ih =>
    rw [forEach_cons, andThen_apply, owned_append] at hown
    obtain ⟨hfirst, hrest⟩ := hown
    cases h : deltaOf e with
    | none =>
      rw [planEvent_of_other h, planOther] at hfirst hrest
      rw [owned_append, owned_append, owned_flushHeld, owned_flushHeld] at hfirst
      refine ⟨?_, fun d hd => ?_, (ih bounded_nothing hrest hanswered.2).2⟩
      · intro label hnext kind
        rw [nextLabel_of_other h] at hnext
        cases hnext
        cases kind with
        | text => exact hfirst.1.1
        | reasoning => exact hfirst.1.2
      · rw [h] at hd
        cases hd
    | some d =>
      rw [planEvent_of_delta h] at hfirst hrest
      obtain ⟨hlabel, hended⟩ := ih (bounded_planDelta hb) hrest hanswered.2
      refine ⟨?_, fun d' hd htext => ?_, hended⟩
      · intro label hnext kind cell hcell
        rw [nextLabel_of_delta h] at hnext
        by_cases hkind : kind = d.kind
        · subst hkind
          exact label_of_pushed hb hfirst (hlabel label hnext) cell (List.mem_append_left _ hcell)
        · refine hlabel label hnext kind cell ?_
          rwa [planDelta_of_ne hkind]
      · rw [h] at hd
        cases hd
        obtain ⟨label, hnext⟩ := Option.ne_none_iff_exists'.mp
          (hanswered.1 (by rw [isDelta, h]; rfl))
        -- the block of any of its characters is the label
        obtain ⟨cell, hcell⟩ := List.exists_mem_of_ne_nil _ (mt cells_eq_nil_iff.mp htext)
        have hindex := label_of_pushed hb hfirst (hlabel label hnext) cell
          (List.mem_append_right _ hcell)
        rw [hnext, ← hindex, index_of_mem_cells hcell]

/-- The next event that is no delta is labelled with the block of all the text
held. -/
def LabelledBy (held : Held) (es : List StreamEvent) : Prop :=
  ∀ kind, ∀ cell ∈ held kind, nextLabel es = some cell.1

theorem labelledBy_nothing (es : List StreamEvent) : LabelledBy nothingHeld es := by
  intro kind cell h
  cases h

theorem LabelledBy.label {held : Held} {e : StreamEvent} {es : List StreamEvent}
    (hheld : LabelledBy held (e :: es)) (h : deltaOf e = none) :
    ∀ kind, ∀ cell ∈ held kind, cell.1 = labelOf e := by
  intro kind cell hcell
  have hnext := hheld kind cell hcell
  rw [nextLabel_of_other h] at hnext
  exact (Option.some.inj hnext).symm

theorem LabelledBy.pushed {held : Held} {e : StreamEvent} {d : Delta} {es : List StreamEvent}
    (hheld : LabelledBy held (e :: es)) (h : deltaOf e = some d) (hended : EndedByOwn (e :: es)) :
    ∀ kind cell, cell ∈ held kind ∨ cell ∈ d.cells → nextLabel es = some cell.1 := by
  intro kind cell hcell
  rcases hcell with hcell | hcell
  · rw [← nextLabel_of_delta h es]
    exact hheld kind cell hcell
  · have htext : d.text ≠ [] := fun hnil => by
      rw [cells_eq_nil_iff.mpr hnil] at hcell
      cases hcell
    rw [hended.1 d h htext, index_of_mem_cells hcell]

theorem LabelledBy.planDelta {held : Held} {e : StreamEvent} {d : Delta} {es : List StreamEvent}
    (hheld : LabelledBy held (e :: es)) (h : deltaOf e = some d) (hended : EndedByOwn (e :: es)) :
    LabelledBy (planDelta d held).1 es := by
  intro kind cell hcell
  exact hheld.pushed h hended kind cell ((mem_planDelta hcell).imp_right And.right)

/-- Where each delta is followed by its own, everything goes out under its own
label. -/
theorem own_of_ended {es : List StreamEvent} {held : Held} (hb : Bounded held)
    (hheld : LabelledBy held es) (hended : EndedByOwn es) :
    Owned (forEach planEvent es held).2 := by
  induction es generalizing held with
  | nil =>
    intro kind label segment h
    cases h
  | cons e es ih =>
    rw [forEach_cons, andThen_apply, owned_append]
    cases h : deltaOf e with
    | none =>
      rw [planEvent_of_other h, planOther, owned_append, owned_append, owned_flushHeld,
        owned_flushHeld]
      exact ⟨⟨⟨hheld.label h .text, hheld.label h .reasoning⟩, owned_pass e⟩,
        ih bounded_nothing (labelledBy_nothing es) hended.2⟩
    | some d =>
      rw [planEvent_of_delta h]
      refine ⟨fun kind label segment hflush cell hcell => ?_,
        ih (bounded_planDelta hb) (hheld.planDelta h hended) hended.2⟩
      obtain ⟨segment', heq, htext, hmem⟩ := flush_of_mem_planDelta hb hflush
      cases heq
      have hnext := hheld.pushed h hended d.kind cell (hmem cell hcell)
      rw [hended.1 d h htext] at hnext
      exact (Option.some.inj hnext).symm

/-! ## The envelope -/

def TextKind.blockKind : TextKind → ContentBlockKind
  | .text => .text
  | .reasoning => .reasoning

/-- A delta may come next where its block is open, and it changes nothing. -/
theorem allows_delta (nested : Bool) (m : Envelope) {e : StreamEvent} {d : Delta}
    (h : deltaOf e = some d) :
    (m.Allows nested e ↔ m.stopped = false ∧ m.block d.index = .opened d.kind.blockKind) ∧
      m.after e = m := by
  cases e with
  | textDelta index text =>
    cases h
    exact ⟨Iff.rfl, rfl⟩
  | reasoningDelta index text =>
    cases h
    exact ⟨Iff.rfl, rfl⟩
  | _ => cases h

/-- The text held is of open blocks of its kind. -/
def HeldOpen (held : Held) (m : Envelope) : Prop :=
  ∀ kind, ∀ cell ∈ held kind, m.stopped = false ∧ m.block cell.1 = .opened kind.blockKind

theorem heldOpen_nothing (m : Envelope) : HeldOpen nothingHeld m := by
  intro kind cell h
  cases h

/-- A flush under the label of an open block is taken, and changes nothing. -/
theorem exec_render_flush (rules : List CompiledRule) {m : Envelope} {kind : TextKind}
    {label : Nat} (segment : List Cell) (hstop : m.stopped = false)
    (hopen : m.block label = .opened kind.blockKind) :
    Runs.exec (Envelope.step false) m (render rules (.flush kind label segment)) = some m := by
  rw [render]
  split
  · rfl
  · obtain ⟨hallow, hafter⟩ := allows_delta false m
      (deltaOf_event kind label (applyRules rules (chars segment)))
    exact Envelope.exec_singleton_iff.mpr ⟨hallow.mpr ⟨hstop, hopen⟩, hafter⟩

theorem exec_flushHeld (rules : List CompiledRule) {m : Envelope} {held : Held} {label : Nat}
    {kind : TextKind} (hopen : HeldOpen held m) (hlabel : ∀ cell ∈ held kind, cell.1 = label) :
    Runs.exec (Envelope.step false) m ((flushHeld held label kind).flatMap (render rules)) =
      some m := by
  unfold flushHeld
  split
  · rfl
  · rename_i hne
    obtain ⟨cell, hcell⟩ := List.exists_mem_of_ne_nil (held kind) (by simpa using hne)
    obtain ⟨hstop, hblock⟩ := hopen kind cell hcell
    rw [hlabel cell hcell] at hblock
    rw [List.flatMap_singleton]
    exact exec_render_flush rules _ hstop hblock

/-- What a delta puts out is taken where the delta is. -/
theorem exec_render_planDelta (rules : List CompiledRule) {m : Envelope} {d : Delta} {held : Held}
    (hstop : m.stopped = false)
    (hopen : m.block d.index = .opened d.kind.blockKind) :
    Runs.exec (Envelope.step false) m ((planDelta d held).2.flatMap (render rules)) = some m := by
  by_cases hlong : flushThreshold < byteLen (chars (held d.kind ++ d.cells))
  · rw [planDelta_of_lt hlong, List.flatMap_singleton]
    exact exec_render_flush rules _ hstop hopen
  · rw [planDelta_of_le (Nat.not_lt.mp hlong)]
    rfl

theorem HeldOpen.planDelta {held : Held} {m : Envelope} {d : Delta} (hheld : HeldOpen held m)
    (hstop : m.stopped = false) (hopen : m.block d.index = .opened d.kind.blockKind) :
    HeldOpen (planDelta d held).1 m := by
  intro kind cell hcell
  rcases mem_planDelta hcell with hpast | ⟨rfl, hpushed⟩
  · exact hheld kind cell hpast
  · rw [index_of_mem_cells hpushed]
    exact ⟨hstop, hopen⟩

/-- Where each delta is followed by its own, the envelope takes the scrubbed events
as it takes the events. -/
theorem exec_render (rules : List CompiledRule) {es : List StreamEvent} {held : Held}
    {m m' : Envelope} (hheld : LabelledBy held es) (hopen : HeldOpen held m)
    (hended : EndedByOwn es) (hexec : Runs.exec (Envelope.step false) m es = some m') :
    Runs.exec (Envelope.step false) m ((forEach planEvent es held).2.flatMap (render rules)) =
      some m' := by
  induction es generalizing held m with
  | nil => exact hexec
  | cons e es ih =>
    obtain ⟨hallow, hrest⟩ := Envelope.exec_cons_iff.mp hexec
    rw [forEach_cons, andThen_apply, List.flatMap_append]
    cases h : deltaOf e with
    | none =>
      have hrun := ih (labelledBy_nothing es) (heldOpen_nothing _) hended.2 hrest
      rw [planEvent_of_other h, planOther, List.flatMap_append, List.flatMap_append]
      -- both buffers go out under the label of the event, then the event itself
      have htext := exec_flushHeld rules hopen (hheld.label h .text)
      have hreasoning := exec_flushHeld rules hopen (hheld.label h .reasoning)
      have hevent : Runs.exec (Envelope.step false) m ([Emission.pass e].flatMap (render rules)) =
          some (m.after e) := Envelope.exec_singleton_iff.mpr ⟨hallow, rfl⟩
      rw [Runs.exec_append, Runs.exec_append, Runs.exec_append, htext, Option.bind_some,
        hreasoning, Option.bind_some, hevent, Option.bind_some]
      exact hrun
    | some d =>
      obtain ⟨hiff, hafter⟩ := allows_delta false m h
      obtain ⟨hstop, hblock⟩ := hiff.mp hallow
      rw [hafter] at hrest
      rw [planEvent_of_delta h, Runs.exec_append, exec_render_planDelta rules hstop hblock,
        Option.bind_some]
      exact ih (hheld.planDelta h hended) (hopen.planDelta hstop hblock) hended.2 hrest

theorem exec_of_nextLabel_eq_none {es : List StreamEvent} {m m' : Envelope}
    (h : nextLabel es = none) (hexec : Runs.exec (Envelope.step false) m es = some m') :
    m' = m := by
  induction es generalizing m with
  | nil =>
    cases hexec
    rfl
  | cons e es ih =>
    obtain ⟨-, hrest⟩ := Envelope.exec_cons_iff.mp hexec
    cases hd : deltaOf e with
    | none =>
      rw [nextLabel_of_other hd] at h
      cases h
    | some d =>
      rw [nextLabel_of_delta hd] at h
      rw [(allows_delta false m hd).2] at hrest
      exact ih h hrest

/-- A stream whose response is stopped does not end with a delta. -/
theorem answered_of_exec {es : List StreamEvent} {m m' : Envelope} (hordered : m.Ordered)
    (hexec : Runs.exec (Envelope.step false) m es = some m') (hconcluded : m'.concluded = true) :
    Answered es := by
  induction es generalizing m with
  | nil => trivial
  | cons e es ih =>
    obtain ⟨hallow, hrest⟩ := Envelope.exec_cons_iff.mp hexec
    refine ⟨fun hdelta hnone => ?_, ih (hordered.after hallow) hrest⟩
    obtain ⟨d, hd⟩ := Option.isSome_iff_exists.mp hdelta
    obtain ⟨hiff, hafter⟩ := allows_delta false m hd
    rw [hafter] at hrest
    rw [exec_of_nextLabel_eq_none hnone hrest] at hconcluded
    have hstop := hordered.1 hconcluded
    rw [(hiff.mp hallow).1] at hstop
    cases hstop

/-- Every delta of a lifecycle-valid stream lies between the start and the stop of
its block. -/
theorem inside_of_valid {es : List StreamEvent} (h : LifecycleValid es) :
    ∀ before e after d, es = before ++ e :: after → deltaOf e = some d →
      blockOpen d.index before = true := by
  rintro before e after d rfl hd
  obtain ⟨m, hm, -⟩ := lifecycleValid_iff.mp h
  obtain ⟨m₁, hbefore, hrest⟩ := Runs.exec_append_eq_some.mp hm
  obtain ⟨hallow, -⟩ := Envelope.exec_cons_iff.mp hrest
  rw [(Envelope.remembers_of_exec hbefore).blocks, ((allows_delta _ _ hd).1.mp hallow).2]
  rfl

/-- A lifecycle-valid stream keeps its structure under all rules iff each delta with
text is followed, after deltas only, by an event labelled with its block. -/
theorem keepsStructure_iff {es : List StreamEvent} (h : LifecycleValid es) :
    (∀ rules, KeepsStructure rules es) ↔ EndedByOwn es := by
  obtain ⟨m, hm, hclosed⟩ := lifecycleValid_iff.mp h
  constructor
  · intro hkeeps
    -- a rule that never fires leaves every segment in the output
    have hown : Owned (plan es) := by
      intro kind label segment hflush cell hcell
      refine (hkeeps [neverRule]).own kind label segment hflush ?_ cell hcell
      rw [applyRules_never, Ne, chars_eq_nil_iff]
      exact List.ne_nil_of_mem hcell
    exact (ended_of_own bounded_nothing hown
      (answered_of_exec Envelope.ordered_init hm hclosed.1)).2
  · intro hended rules
    have hown : Owned (plan es) := own_of_ended bounded_nothing (labelledBy_nothing es) hended
    have hvalid : LifecycleValid (scrub rules es) := by
      rw [scrub_eq_render]
      exact lifecycleValid_iff.mpr ⟨m, exec_render rules (labelledBy_nothing es)
        (heldOpen_nothing _) hended hm, hclosed⟩
    exact {
      valid := hvalid
      others := scrub_others rules es
      own := fun kind label segment hflush _ => hown kind label segment hflush
      inside := inside_of_valid hvalid }

/-- A text block after a reasoning block, with the events `between` before its
end. -/
def secondBlock (between : List StreamEvent) : List StreamEvent :=
  [.responseStart "r" "m" 0, .messageStart .assistant, .contentBlockStart 0 .reasoning,
    .contentBlockStop 0, .contentBlockStart 1 .text, .textDelta 1 "hi"] ++ between ++
    [.contentBlockStop 1, .messageStop .endTurn none, .responseStop none]

theorem secondBlock_keepsStructure :
    LifecycleValid (secondBlock []) ∧ ∀ rules, KeepsStructure rules (secondBlock []) := by
  have hvalid : LifecycleValid (secondBlock []) := by decide
  refine ⟨hvalid, (keepsStructure_iff hvalid).mpr ?_⟩
  simp [secondBlock, EndedByOwn, deltaOf, nextLabel, isDelta, labelOf, indexFromEvent]

/-- Usage reported inside the second block sends its text to the first, which is
closed. -/
theorem usageInBlock_not_kept :
    LifecycleValid (secondBlock [.usageDelta {}]) ∧
      ¬ LifecycleValid (scrub [neverRule] (secondBlock [.usageDelta {}])) ∧
      ¬ KeepsStructure [neverRule] (secondBlock [.usageDelta {}]) := by
  have hbroken : ¬ LifecycleValid (scrub [neverRule] (secondBlock [.usageDelta {}])) := by decide
  exact ⟨by decide, hbroken, fun hkeeps => hbroken hkeeps.valid⟩

end AgentShim.Plugins
