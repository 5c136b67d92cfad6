import AgentShim.Plugins.PiiScrubber
import Mathlib.Logic.Function.Basic

/-
  What a scrubber puts together

  Which text of a stream is scrubbed together, and where and under which label
  it goes out, does not depend on the rules. The plan of a stream is that much
  of the scrubber, over characters that remember the block they came for; the
  rules are put in afterwards.

  What is proved:
    1. `scrub_eq_render` — a stream scrubbed is its plan with the rules put in.
    2. `plan_blockDeltas` — the deltas of one block are scrubbed in segments that
       are the text of the block, in one if it is at most `flushThreshold` bytes
       long and in more otherwise.
    3. `scrub_eq_whole_iff` — the text that goes out for a block is, under every
       list of rules, the text of the block scrubbed as a whole iff it is not
       empty and no longer than that.
-/

namespace AgentShim.Plugins

open Transducer Utf8

/-- The two kinds of text a scrubber holds back. -/
inductive TextKind
  | text
  | reasoning
  deriving DecidableEq, Repr

def TextKind.event : TextKind → Nat → List Char → StreamEvent
  | .text, index, t => .textDelta index (String.ofList t)
  | .reasoning, index, t => .reasoningDelta index (String.ofList t)

structure Delta where
  kind : TextKind
  index : Nat
  text : List Char

def deltaOf : StreamEvent → Option Delta
  | .textDelta index text => some ⟨.text, index, text.toList⟩
  | .reasoningDelta index text => some ⟨.reasoning, index, text.toList⟩
  | _ => none

theorem deltaOf_event (kind : TextKind) (index : Nat) (t : List Char) :
    deltaOf (kind.event index t) = some ⟨kind, index, t⟩ := by
  cases kind <;> simp [TextKind.event, deltaOf]

def PiiBuffer.get (buf : PiiBuffer) : TextKind → List Char
  | .text => buf.text
  | .reasoning => buf.reasoning

def PiiBuffer.set (buf : PiiBuffer) (kind : TextKind) (t : List Char) : PiiBuffer :=
  match kind with
  | .text => { buf with text := t }
  | .reasoning => { buf with reasoning := t }

@[simp] theorem PiiBuffer.get_set (buf : PiiBuffer) (kind : TextKind) (t : List Char) :
    (buf.set kind t).get kind = t := by
  cases kind <;> rfl

@[simp] theorem PiiBuffer.get_empty (kind : TextKind) : ({} : PiiBuffer).get kind = [] := by
  cases kind <;> rfl

/-- A delta that leaves its buffer within the threshold is held back. -/
theorem onStreamEvent_of_le (rules : List CompiledRule) {e : StreamEvent} {d : Delta}
    (hd : deltaOf e = some d) {buf : PiiBuffer}
    (h : byteLen (buf.get d.kind ++ d.text) ≤ flushThreshold) :
    onStreamEvent rules e buf = (buf.set d.kind (buf.get d.kind ++ d.text), []) := by
  cases e with
  | textDelta index text =>
    cases hd
    exact if_neg (Nat.not_lt.mpr h)
  | reasoningDelta index text =>
    cases hd
    exact if_neg (Nat.not_lt.mpr h)
  | _ => cases hd

/-- A delta that brings its buffer over the threshold flushes it. -/
theorem onStreamEvent_of_lt (rules : List CompiledRule) {e : StreamEvent} {d : Delta}
    (hd : deltaOf e = some d) {buf : PiiBuffer}
    (h : flushThreshold < byteLen (buf.get d.kind ++ d.text)) :
    onStreamEvent rules e buf =
      (buf.set d.kind (flushSafePrefix rules (buf.get d.kind ++ d.text)).2,
        if (flushSafePrefix rules (buf.get d.kind ++ d.text)).1.isEmpty then []
        else [d.kind.event d.index (flushSafePrefix rules (buf.get d.kind ++ d.text)).1]) := by
  cases e with
  | textDelta index text =>
    cases hd
    exact if_pos h
  | reasoningDelta index text =>
    cases hd
    exact if_pos h
  | _ => cases hd

/-- A character and the block it came for. -/
abbrev Cell := Nat × Char

def chars (cells : List Cell) : List Char := cells.map Prod.snd

def Delta.cells (d : Delta) : List Cell := d.text.map (d.index, ·)

@[simp] theorem chars_nil : chars [] = [] := rfl

@[simp] theorem chars_append (a b : List Cell) : chars (a ++ b) = chars a ++ chars b :=
  List.map_append

@[simp] theorem chars_cells (d : Delta) : chars d.cells = d.text := by
  rw [chars, Delta.cells, List.map_map]
  exact List.map_id d.text

theorem chars_eq_nil_iff {cells : List Cell} : chars cells = [] ↔ cells = [] :=
  List.map_eq_nil_iff

theorem cells_eq_nil_iff {d : Delta} : d.cells = [] ↔ d.text = [] := List.map_eq_nil_iff

theorem index_of_mem_cells {d : Delta} {cell : Cell} (h : cell ∈ d.cells) : cell.1 = d.index := by
  obtain ⟨c, _, rfl⟩ := List.mem_map.mp h
  rfl

/-- What goes out: an event passed on, or text scrubbed under a label. -/
inductive Emission
  | pass (e : StreamEvent)
  | flush (kind : TextKind) (label : Nat) (segment : List Cell)

/-- The text held back, per kind. -/
abbrev Held := TextKind → List Cell

def nothingHeld : Held := fun _ => []

/-- How many characters of a buffer a flush takes. -/
def safeLength (buf : List Char) : Nat := (takeBytes buf (byteLen buf - maxPatternTail)).length

def planDelta (d : Delta) : Emitter Held Emission := fun held =>
  let pushed := held d.kind ++ d.cells
  if byteLen (chars pushed) > flushThreshold then
    (Function.update held d.kind (pushed.drop (safeLength (chars pushed))),
      [.flush d.kind d.index (pushed.take (safeLength (chars pushed)))])
  else (Function.update held d.kind pushed, [])

def flushHeld (held : Held) (label : Nat) (kind : TextKind) : List Emission :=
  if (held kind).isEmpty then [] else [.flush kind label (held kind)]

/-- The label of the text flushed before an event. -/
def labelOf (e : StreamEvent) : Nat := (indexFromEvent e).getD 0

def planOther (e : StreamEvent) : Emitter Held Emission := fun held =>
  (nothingHeld, flushHeld held (labelOf e) .text ++ flushHeld held (labelOf e) .reasoning ++
    [.pass e])

def planEvent (e : StreamEvent) : Emitter Held Emission :=
  match deltaOf e with
  | some d => planDelta d
  | none => planOther e

def plan (es : List StreamEvent) : List Emission := (forEach planEvent es nothingHeld).2

/-- An emission under some rules; text that is scrubbed to nothing is left
out. -/
def render (rules : List CompiledRule) : Emission → List StreamEvent
  | .pass e => [e]
  | .flush kind label segment =>
    if (applyRules rules (chars segment)).isEmpty then []
    else [kind.event label (applyRules rules (chars segment))]

theorem planEvent_of_delta {e : StreamEvent} {d : Delta} (h : deltaOf e = some d) :
    planEvent e = planDelta d := by
  rw [planEvent, h]

theorem planEvent_of_other {e : StreamEvent} (h : deltaOf e = none) :
    planEvent e = planOther e := by
  rw [planEvent, h]

theorem planDelta_of_le {d : Delta} {held : Held}
    (h : byteLen (chars (held d.kind ++ d.cells)) ≤ flushThreshold) :
    planDelta d held = (Function.update held d.kind (held d.kind ++ d.cells), []) :=
  if_neg (Nat.not_lt.mpr h)

theorem planDelta_of_lt {d : Delta} {held : Held}
    (h : flushThreshold < byteLen (chars (held d.kind ++ d.cells))) :
    planDelta d held =
      (Function.update held d.kind
          ((held d.kind ++ d.cells).drop (safeLength (chars (held d.kind ++ d.cells)))),
        [.flush d.kind d.index
          ((held d.kind ++ d.cells).take (safeLength (chars (held d.kind ++ d.cells))))]) :=
  if_pos h

/-! ## The plan and the scrubber -/

theorem take_safeLength (buf : List Char) :
    buf.take (safeLength buf) = takeBytes buf (byteLen buf - maxPatternTail) :=
  (takeBytes_eq buf _).symm

theorem drop_safeLength (buf : List Char) :
    buf.drop (safeLength buf) = dropBytes buf (byteLen buf - maxPatternTail) :=
  (dropBytes_eq buf _).symm

theorem chars_take (cells : List Cell) (n : Nat) : chars (cells.take n) = (chars cells).take n :=
  List.map_take

theorem chars_drop (cells : List Cell) (n : Nat) : chars (cells.drop n) = (chars cells).drop n :=
  List.map_drop

theorem flushSafePrefix_chars (rules : List CompiledRule) (cells : List Cell) :
    flushSafePrefix rules (chars cells) =
      (applyRules rules (chars (cells.take (safeLength (chars cells)))),
        chars (cells.drop (safeLength (chars cells)))) := by
  rw [flushSafePrefix_eq, ← take_safeLength, ← drop_safeLength, chars_take, chars_drop]

/-- The buffer of the scrubber, as it is held. -/
def Held.view (held : Held) : PiiBuffer where
  text := chars (held .text)
  reasoning := chars (held .reasoning)

@[simp] theorem get_view (held : Held) (kind : TextKind) :
    held.view.get kind = chars (held kind) := by
  cases kind <;> rfl

theorem view_update (held : Held) (kind : TextKind) (cells : List Cell) :
    Held.view (Function.update held kind cells) = held.view.set kind (chars cells) := by
  cases kind <;> simp [Held.view, PiiBuffer.set]

theorem onStreamEvent_delta (rules : List CompiledRule) {e : StreamEvent} {d : Delta}
    (h : deltaOf e = some d) (held : Held) :
    onStreamEvent rules e held.view =
      ((planDelta d held).1.view, (planDelta d held).2.flatMap (render rules)) := by
  have hpushed : held.view.get d.kind ++ d.text = chars (held d.kind ++ d.cells) := by
    rw [get_view, chars_append, chars_cells]
  by_cases hlong : flushThreshold < byteLen (chars (held d.kind ++ d.cells))
  · rw [onStreamEvent_of_lt rules h (by rwa [hpushed]), hpushed, flushSafePrefix_chars,
      planDelta_of_lt hlong, view_update, List.flatMap_singleton, render]
  · rw [onStreamEvent_of_le rules h (by rw [hpushed]; exact Nat.not_lt.mp hlong), hpushed,
      planDelta_of_le (Nat.not_lt.mp hlong), view_update]
    rfl

/-- The text of one kind, as it goes out before an event that is no delta. -/
def scrubbedBefore (rules : List CompiledRule) (kind : TextKind) (label : Nat)
    (buf : List Char) : List StreamEvent :=
  if buf.isEmpty then []
  else if (scrubFull rules buf).isEmpty then [] else [kind.event label (scrubFull rules buf)]

theorem onStreamEvent_other (rules : List CompiledRule) {e : StreamEvent}
    (h : deltaOf e = none) (buf : PiiBuffer) :
    onStreamEvent rules e buf =
      ({}, scrubbedBefore rules .text (labelOf e) buf.text ++
        scrubbedBefore rules .reasoning (labelOf e) buf.reasoning ++ [e]) := by
  cases e <;> first | rfl | cases h

theorem flatMap_flushHeld (rules : List CompiledRule) (held : Held) (label : Nat)
    (kind : TextKind) :
    (flushHeld held label kind).flatMap (render rules) =
      scrubbedBefore rules kind label (chars (held kind)) := by
  unfold flushHeld scrubbedBefore
  have hempty : (chars (held kind)).isEmpty = (held kind).isEmpty := List.isEmpty_map
  rw [hempty]
  split
  · rfl
  · rw [List.flatMap_singleton]
    rfl

theorem onStreamEvent_view (rules : List CompiledRule) (e : StreamEvent) (held : Held) :
    onStreamEvent rules e held.view =
      ((planEvent e held).1.view, (planEvent e held).2.flatMap (render rules)) := by
  cases h : deltaOf e with
  | some d =>
    rw [planEvent_of_delta h]
    exact onStreamEvent_delta rules h held
  | none =>
    rw [planEvent_of_other h, onStreamEvent_other rules h, planOther, List.flatMap_append,
      List.flatMap_append, flatMap_flushHeld, flatMap_flushHeld]
    rfl

/-- Where and under which label text goes out, the rules do not decide. -/
theorem scrub_eq_render (rules : List CompiledRule) (es : List StreamEvent) :
    scrub rules es = (plan es).flatMap (render rules) :=
  congrArg Prod.snd (forEach_render (onStreamEvent_view rules) es nothingHeld)

/-! ## The sizes of a flush -/

/-- A flush keeps the last bytes of the buffer and less than a character more. -/
theorem byteLen_drop_safeLength {buf : List Char} (h : flushThreshold < byteLen buf) :
    maxPatternTail ≤ byteLen (buf.drop (safeLength buf)) ∧
      byteLen (buf.drop (safeLength buf)) < maxPatternTail + 4 := by
  have hsum := byteLen_takeBytes_add buf (byteLen buf - maxPatternTail)
  have hle := byteLen_takeBytes_le buf (byteLen buf - maxPatternTail)
  have hlt := lt_byteLen_takeBytes (Nat.sub_le (byteLen buf) maxPatternTail)
  rw [drop_safeLength]
  unfold flushThreshold at h
  unfold maxPatternTail at *
  omega

theorem take_safeLength_ne_nil {buf : List Char} (h : flushThreshold < byteLen buf) :
    buf.take (safeLength buf) ≠ [] := by
  have hlt := lt_byteLen_takeBytes (Nat.sub_le (byteLen buf) maxPatternTail)
  rw [take_safeLength]
  intro hnil
  rw [hnil, byteLen_nil] at hlt
  unfold flushThreshold at h
  unfold maxPatternTail at hlt
  omega

theorem drop_safeLength_ne_nil {buf : List Char} (h : flushThreshold < byteLen buf) :
    buf.drop (safeLength buf) ≠ [] := by
  intro hnil
  have hle := (byteLen_drop_safeLength h).1
  rw [hnil, byteLen_nil] at hle
  exact absurd hle (by decide)

/-- What a flush keeps is within the threshold. -/
theorem byteLen_rest_le {buf : List Char} (h : flushThreshold < byteLen buf) :
    byteLen (buf.drop (safeLength buf)) ≤ flushThreshold := by
  have hlt := (byteLen_drop_safeLength h).2
  unfold maxPatternTail at hlt
  unfold flushThreshold
  omega

/-! ## The text of one block -/

/-- The deltas of a text block and its end. -/
def blockDeltas (index : Nat) (deltas : List String) : List StreamEvent :=
  deltas.map (.textDelta index) ++ [.contentBlockStop index]

/-- The text the deltas make. -/
def wholeText (deltas : List String) : List Char := deltas.flatMap String.toList

/-- The text a stream has for a block. -/
def textOf (index : Nat) (es : List StreamEvent) : List Char :=
  es.flatMap fun
    | .textDelta i text => if i = index then text.toList else []
    | _ => []

/-- Every match of a rule is at most `maxPatternTail` bytes long, in the text the
rule is applied to. -/
def ShortMatches : List CompiledRule → List Char → Prop
  | [], _ => True
  | rule :: rules, text =>
    (∀ x ∈ rule.regex.findIter text,
      byteLen ((text.drop x.1).take (x.2 - x.1)) ≤ maxPatternTail) ∧
      ShortMatches rules (applyRules [rule] text)

/-- What the deltas of a block come to: segments that go out under its index, and a
rest that is held. -/
structure SegmentsOf (index : Nat) (deltas : List String) (held : Held)
    (segments : List (List Cell)) (rest : List Cell) : Prop where
  run : forEach planEvent (deltas.map (.textDelta index)) held =
    (Function.update held .text rest, segments.map (.flush .text index))
  text : segments.flatMap chars ++ chars rest = chars (held .text) ++ wholeText deltas
  none : segments = [] ↔ byteLen (chars (held .text) ++ wholeText deltas) ≤ flushThreshold
  rest : segments ≠ [] ∨ held .text ≠ [] → rest ≠ []

namespace SegmentsOf

variable {index : Nat} {deltas : List String} {held : Held} {segments : List (List Cell)}
  {rest : List Cell} {t : String}

theorem nil (hheld : byteLen (chars (held .text)) ≤ flushThreshold) :
    SegmentsOf index [] held [] (held .text) where
  run := by
    rw [Function.update_eq_self]
    rfl
  text := by simp [wholeText]
  none := by simpa [wholeText] using hheld
  rest := by simp

/-- The text with one more delta in front. -/
theorem wholeText_push (index : Nat) (t : String) (deltas : List String) (held : Held) :
    chars (held .text) ++ wholeText (t :: deltas) =
      chars (held .text ++ Delta.cells ⟨.text, index, t.toList⟩) ++ wholeText deltas := by
  rw [wholeText, List.flatMap_cons, chars_append, chars_cells, List.append_assoc]
  rfl

/-- A delta that makes the buffer too long: what is safe goes out, a tail is kept. -/
theorem flush {pushed : List Cell}
    (hpushed : pushed = held .text ++ Delta.cells ⟨.text, index, t.toList⟩)
    (hlong : flushThreshold < byteLen (chars pushed))
    (h : SegmentsOf index deltas
      (Function.update held .text (pushed.drop (safeLength (chars pushed)))) segments rest) :
    SegmentsOf index (t :: deltas) held (pushed.take (safeLength (chars pushed)) :: segments)
      rest := by
  subst hpushed
  have hkept (kept : List Cell) : (Function.update held .text kept) .text = kept :=
    Function.update_self ..
  have hevent : planEvent (.textDelta index t) = planDelta ⟨.text, index, t.toList⟩ :=
    planEvent_of_delta rfl
  constructor
  · rw [List.map_cons, forEach_cons, andThen_apply, hevent, planDelta_of_lt hlong, h.run,
      Function.update_idem]
    rfl
  · rw [wholeText_push index, List.flatMap_cons, List.append_assoc, h.text, hkept,
      ← List.append_assoc, ← chars_append, List.take_append_drop]
  · rw [wholeText_push index, byteLen_append]
    constructor
    · intro hnil
      cases hnil
    · intro hle
      omega
  · intro _
    refine h.rest (Or.inr ?_)
    rw [hkept, Ne, ← chars_eq_nil_iff, chars_drop]
    exact drop_safeLength_ne_nil hlong

/-- A delta that the buffer still holds. -/
theorem hold {pushed : List Cell}
    (hpushed : pushed = held .text ++ Delta.cells ⟨.text, index, t.toList⟩)
    (hshort : byteLen (chars pushed) ≤ flushThreshold)
    (h : SegmentsOf index deltas (Function.update held .text pushed) segments rest) :
    SegmentsOf index (t :: deltas) held segments rest := by
  subst hpushed
  obtain ⟨hrun, htext, hnone, hrest⟩ := h
  have hheld : (Function.update held .text (held .text ++ Delta.cells ⟨.text, index, t.toList⟩))
      .text = held .text ++ Delta.cells ⟨.text, index, t.toList⟩ := Function.update_self ..
  have hevent : planEvent (.textDelta index t) = planDelta ⟨.text, index, t.toList⟩ :=
    planEvent_of_delta rfl
  rw [hheld] at htext hnone hrest
  refine ⟨?_, ?_, ?_, ?_⟩
  · rw [List.map_cons, forEach_cons, andThen_apply, hevent, planDelta_of_le hshort, hrun,
      Function.update_idem]
    rfl
  · rw [wholeText_push index, htext]
  · rw [wholeText_push index, hnone]
  · intro hsome
    refine hrest (hsome.imp_right fun hne hpush => hne ?_)
    exact (List.append_eq_nil_iff.mp hpush).1

end SegmentsOf

theorem planDeltas (index : Nat) (deltas : List String) (held : Held)
    (hheld : byteLen (chars (held .text)) ≤ flushThreshold) :
    ∃ (segments : List (List Cell)) (rest : List Cell),
      SegmentsOf index deltas held segments rest := by
  induction deltas generalizing held with
  | nil => exact ⟨[], held .text, .nil hheld⟩
  | cons t deltas ih =>
    let pushed := held .text ++ Delta.cells ⟨.text, index, t.toList⟩
    by_cases hlong : flushThreshold < byteLen (chars pushed)
    · have hkept : byteLen (chars ((Function.update held .text
          (pushed.drop (safeLength (chars pushed)))) .text)) ≤ flushThreshold := by
        rw [Function.update_self, chars_drop]
        exact byteLen_rest_le hlong
      obtain ⟨segments, rest, h⟩ := ih _ hkept
      exact ⟨_, rest, h.flush rfl hlong⟩
    · have hshort := Nat.not_lt.mp hlong
      have hheld' : byteLen (chars ((Function.update held .text pushed) .text)) ≤
          flushThreshold := by
        rw [Function.update_self]
        exact hshort
      obtain ⟨segments, rest, h⟩ := ih _ hheld'
      exact ⟨segments, rest, h.hold rfl hshort⟩

/-- The text of a block is scrubbed in segments, all of them under its index. -/
theorem plan_blockDeltas (index : Nat) (deltas : List String) :
    ∃ segments : List (List Cell),
      plan (blockDeltas index deltas) =
          segments.map (.flush .text index) ++ [.pass (.contentBlockStop index)] ∧
        segments.flatMap chars = wholeText deltas ∧
        (segments.length = 1 ↔
          wholeText deltas ≠ [] ∧ byteLen (wholeText deltas) ≤ flushThreshold) := by
  obtain ⟨segments, rest, hrun, htext, hnil, hrest⟩ :=
    planDeltas index deltas nothingHeld (Nat.zero_le _)
  have hrestHeld : (Function.update nothingHeld .text rest) .text = rest := Function.update_self ..
  have hlast : planEvent (.contentBlockStop index) (Function.update nothingHeld .text rest) =
      (nothingHeld, (if rest.isEmpty then [] else [.flush .text index rest]) ++
        [.pass (.contentBlockStop index)]) := by
    rw [planEvent_of_other rfl, planOther, flushHeld, hrestHeld]
    have hreasoning : flushHeld (Function.update nothingHeld .text rest)
        (labelOf (.contentBlockStop index)) .reasoning = [] := rfl
    rw [hreasoning, List.append_nil]
    rfl
  have hplan : plan (blockDeltas index deltas) = segments.map (.flush .text index) ++
      ((if rest.isEmpty then [] else [.flush .text index rest]) ++
        [.pass (.contentBlockStop index)]) := by
    rw [plan, blockDeltas, forEach_append, andThen_apply, hrun, forEach_singleton, hlast]
  change segments.flatMap chars ++ chars rest = wholeText deltas at htext
  change segments = [] ↔ byteLen (wholeText deltas) ≤ flushThreshold at hnil
  by_cases hempty : rest = []
  · -- nothing was held at the end, so there was no text at all
    have hsegments : segments = [] := by
      by_contra hne
      exact hrest (Or.inl hne) hempty
    subst hempty hsegments
    refine ⟨[], hplan, htext, ?_⟩
    rw [← htext]
    simp
  · refine ⟨segments ++ [rest], ?_, ?_, ?_⟩
    · rw [hplan, List.map_append, List.append_assoc, List.isEmpty_eq_false_iff.mpr hempty]
      rfl
    · rw [List.flatMap_append, List.flatMap_singleton, htext]
    · have hne : wholeText deltas ≠ [] := by
        rw [← htext]
        intro h
        exact hempty (chars_eq_nil_iff.mp (List.append_eq_nil_iff.mp h).2)
      rw [← hnil, List.length_append, List.length_singleton]
      constructor
      · intro h
        exact ⟨hne, List.length_eq_zero_iff.mp (by omega)⟩
      · rintro ⟨-, rfl⟩
        rfl

theorem textOf_flush (rules : List CompiledRule) (index : Nat) (segment : List Cell) :
    textOf index (render rules (.flush .text index segment)) =
      applyRules rules (chars segment) := by
  rw [render]
  split
  · rename_i hempty
    rw [List.isEmpty_iff.mp hempty]
    rfl
  · simp [textOf, TextKind.event]

/-- What goes out for the block is each segment scrubbed. -/
theorem textOf_scrub_blockDeltas (rules : List CompiledRule) (index : Nat)
    {deltas : List String} {segments : List (List Cell)}
    (h : plan (blockDeltas index deltas) =
      segments.map (.flush .text index) ++ [.pass (.contentBlockStop index)]) :
    textOf index (scrub rules (blockDeltas index deltas)) =
      segments.flatMap fun segment => applyRules rules (chars segment) := by
  rw [scrub_eq_render, h, List.flatMap_append, textOf, List.flatMap_append, ← textOf, ← textOf]
  have hstop : textOf index ([Emission.pass (.contentBlockStop index)].flatMap (render rules)) =
      [] := rfl
  rw [hstop, List.append_nil]
  clear h hstop
  induction segments with
  | nil => rfl
  | cons segment segments ih =>
    rw [List.map_cons, List.flatMap_cons, textOf, List.flatMap_append, ← textOf, ← textOf, ih,
      textOf_flush, List.flatMap_cons]

theorem shortMatches_start (front text : List Char) : ShortMatches [startRule front] text := by
  refine ⟨fun x hx => ?_, trivial⟩
  have hone : (startRule front).regex.findIter text = [(0, 0)] :=
    Scan.Matcher.findIter_atStart text
  rw [hone] at hx
  rw [List.mem_singleton.mp hx]
  exact Nat.zero_le _

/-- The text of a block goes out as the rules make it of the whole text, under
every list of rules, iff there is some and it never grows over the threshold. -/
theorem scrub_eq_whole_iff (index : Nat) (deltas : List String) :
    (∀ rules, ShortMatches rules (wholeText deltas) →
        textOf index (scrub rules (blockDeltas index deltas)) =
          applyRules rules (wholeText deltas)) ↔
      wholeText deltas ≠ [] ∧ byteLen (wholeText deltas) ≤ flushThreshold := by
  obtain ⟨segments, hplan, hwhole, hone⟩ := plan_blockDeltas index deltas
  rw [← hone]
  constructor
  · intro h
    -- a mark put at the start of each segment
    have hmark := h [startRule ['x']] (shortMatches_start _ _)
    rw [textOf_scrub_blockDeltas _ index hplan, applyRules_start] at hmark
    have hlength := congrArg List.length hmark
    have hcount : (segments.flatMap fun segment =>
        applyRules [startRule ['x']] (chars segment)).length =
          segments.length + (segments.flatMap chars).length := by
      clear hplan hwhole hone hmark hlength h
      induction segments with
      | nil => rfl
      | cons segment segments ih =>
        rw [List.flatMap_cons, List.length_append, ih, applyRules_start, List.flatMap_cons]
        simp only [List.cons_append, List.nil_append, List.length_cons, List.length_append]
        omega
    rw [hcount, hwhole, List.cons_append, List.nil_append, List.length_cons] at hlength
    omega
  · intro h rules _
    obtain ⟨segment, rfl⟩ := List.length_eq_one_iff.mp h
    rw [textOf_scrub_blockDeltas rules index hplan, List.flatMap_singleton, ← hwhole,
      List.flatMap_singleton]

def ssnRule : CompiledRule where
  name := "ssn"
  regex := .literal ['1', '2', '3', '-', '4', '5', '-', '6', '7', '8', '9']
  replacement := ['[', 'S', 'S', 'N', ']']

/-- A number that lies 188 bytes into a text of 259, over the cut of its flush. -/
def acrossTheCut : List Char :=
  List.replicate 47 '😀' ++ ['1', '2', '3', '-', '4', '5', '-', '6', '7', '8', '9'] ++
    List.replicate 15 '😀'

/-- The number goes out as it is. -/
theorem acrossTheCut_leaks :
    ShortMatches [ssnRule] (wholeText [String.ofList acrossTheCut]) ∧
      textOf 0 (scrub [ssnRule] (blockDeltas 0 [String.ofList acrossTheCut])) = acrossTheCut ∧
      applyRules [ssnRule] (wholeText [String.ofList acrossTheCut]) =
        List.replicate 47 '😀' ++ ['[', 'S', 'S', 'N', ']'] ++ List.replicate 15 '😀' ∧
      textOf 0 (scrub [ssnRule] (blockDeltas 0 [String.ofList acrossTheCut])) ≠
        applyRules [ssnRule] (wholeText [String.ofList acrossTheCut]) := by
  have hwhole : wholeText [String.ofList acrossTheCut] = acrossTheCut := by simp [wholeText]
  have hshort : ShortMatches [ssnRule] acrossTheCut := by
    refine ⟨?_, trivial⟩
    decide
  have hout : textOf 0 (scrub [ssnRule] (blockDeltas 0 [String.ofList acrossTheCut])) =
      acrossTheCut := by
    have hdelta : deltaOf (.textDelta 0 (String.ofList acrossTheCut)) =
        some ⟨.text, 0, acrossTheCut⟩ := deltaOf_event .text 0 acrossTheCut
    have hflush : flushSafePrefix [ssnRule] acrossTheCut =
        (acrossTheCut.take 54, acrossTheCut.drop 54) := by decide
    have hfirst : onStreamEvent [ssnRule] (.textDelta 0 (String.ofList acrossTheCut)) {} =
        ({ text := acrossTheCut.drop 54 },
          [.textDelta 0 (String.ofList (acrossTheCut.take 54))]) := by
      rw [onStreamEvent_of_lt _ hdelta (by decide), PiiBuffer.get_empty, List.nil_append, hflush]
      rfl
    have hscrubbed : applyRules [ssnRule] (acrossTheCut.drop 54) = acrossTheCut.drop 54 := by
      decide
    have hlast : onStreamEvent [ssnRule] (.contentBlockStop 0) { text := acrossTheCut.drop 54 } =
        ({}, [.textDelta 0 (String.ofList (acrossTheCut.drop 54)), .contentBlockStop 0]) := by
      rw [onStreamEvent_other _ rfl, scrubbedBefore, scrubbedBefore, scrubFull, hscrubbed]
      rfl
    rw [scrub, blockDeltas, List.map_singleton, List.singleton_append, forEach_cons,
      andThen_apply, hfirst, forEach_singleton, hlast]
    simp [textOf]
  have hscrubbed : applyRules [ssnRule] acrossTheCut =
      List.replicate 47 '😀' ++ ['[', 'S', 'S', 'N', ']'] ++ List.replicate 15 '😀' := by
    decide
  rw [hwhole, hout, hscrubbed]
  exact ⟨hshort, rfl, rfl, by decide⟩

end AgentShim.Plugins
