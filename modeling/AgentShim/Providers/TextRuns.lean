import AgentShim.Providers.Interleaver
import AgentShim.Stream.Readings

/-
  Runs of text and reasoning

  Texts that come one after the other are one block as long as they are of one
  kind. A draft is what has been said: the blocks that ended, and the open run. The
  blocks of a stream tell a draft if they read as it, the newest being the run.

  What is proved:
    1. `say_say` — a text may come in pieces.
    2. `Tells.close`, `Tells.begin`, `Tells.more`, `Tells.tell` — what the events of a
       block do to the draft.
    3. `Tells.goOn`, `Tells.change` — a text goes on with the run of its kind, or ends
       the run and begins one.
-/

namespace AgentShim

/-- How a run of a kind reads. -/
def runReading : DeltaKind × String → Spoken
  | (.text, s) => .text s
  | (.reasoning, s) => .reasoning s

/-- What was said: the blocks that ended, and the open run. -/
structure Draft where
  ended : List Spoken := []
  run : Option (DeltaKind × String) := none
  deriving DecidableEq, Repr

namespace Draft

def readings (d : Draft) : List Spoken := d.ended ++ d.run.toList.map runReading

/-- Ends the run. -/
def endRun (d : Draft) : Draft := { ended := d.readings, run := none }

/-- Starts a run of a kind, without text so far. -/
def start (d : Draft) (kind : DeltaKind) : Draft := { d with run := some (kind, "") }

/-- The run a text of a kind goes into. -/
def ensure (d : Draft) (kind : DeltaKind) : Draft :=
  match d.run with
  | some (k, _) => if k = kind then d else d.endRun.start kind
  | none => d.start kind

/-- More text for the run. -/
def more (d : Draft) (text : String) : Draft :=
  { d with run := d.run.map fun run => (run.1, run.2 ++ text) }

/-- Text of a kind joins the run of that kind, or ends the run and starts one. -/
def say (d : Draft) (kind : DeltaKind) (text : String) : Draft := (d.ensure kind).more text

/-- A block that is no run. -/
def tell (d : Draft) (x : Spoken) : Draft := { ended := d.readings ++ [x], run := none }

@[simp] theorem readings_endRun (d : Draft) : d.endRun.readings = d.readings :=
  List.append_nil _

@[simp] theorem tell_endRun (d : Draft) (x : Spoken) : d.endRun.tell x = d.tell x := by
  rw [tell, readings_endRun, tell]

@[simp] theorem readings_tell (d : Draft) (x : Spoken) : (d.tell x).readings = d.readings ++ [x] :=
  List.append_nil _

theorem ensure_of_eq {d : Draft} {kind : DeltaKind} {before : String}
    (h : d.run = some (kind, before)) : d.ensure kind = d := by
  rw [ensure, h]
  exact if_pos rfl

theorem ensure_of_ne {d : Draft} {kind : DeltaKind} (h : ∀ before, d.run ≠ some (kind, before)) :
    d.ensure kind = d.endRun.start kind := by
  obtain ⟨ended, run⟩ := d
  cases run with
  | none => simp [ensure, endRun, start, readings]
  | some run =>
    obtain ⟨k, before⟩ := run
    have hk : k ≠ kind := fun hk => h before (by rw [hk])
    rw [ensure]
    exact if_neg hk

theorem say_of_eq {d : Draft} {kind : DeltaKind} {before : String}
    (h : d.run = some (kind, before)) (text : String) :
    d.say kind text = { d with run := some (kind, before ++ text) } := by
  rw [say, ensure_of_eq h, more, h, Option.map_some]

theorem say_of_ne {d : Draft} {kind : DeltaKind} (h : ∀ before, d.run ≠ some (kind, before))
    (text : String) : d.say kind text = { ended := d.readings, run := some (kind, text) } := by
  rw [say, ensure_of_ne h, endRun, start, more, Option.map_some, String.empty_append]

/-- A text of another kind ends the run first. -/
theorem say_endRun {d : Draft} {kind : DeltaKind} (h : ∀ before, d.run ≠ some (kind, before))
    (text : String) : d.endRun.say kind text = d.say kind text := by
  have hended : d.endRun.endRun = d.endRun := by
    rw [endRun, readings_endRun, endRun]
  have hidle : ∀ before, d.endRun.run ≠ some (kind, before) := fun before hrun => by cases hrun
  rw [say, say, ensure_of_ne h, ensure_of_ne hidle, hended]

/-- A text may come in pieces. -/
theorem say_say (d : Draft) (kind : DeltaKind) (s t : String) :
    (d.say kind s).say kind t = d.say kind (s ++ t) := by
  cases hrun : d.run with
  | none => simp [say, ensure, start, more, hrun]
  | some run =>
    by_cases hk : run.1 = kind <;>
      simp [say, ensure, start, more, endRun, hrun, hk, String.append_assoc]

end Draft

/-! ## The blocks of a draft -/

/-- What a delta of a kind adds to its block. -/
def piece (text : String) : DeltaKind → BlockPart
  | .text => .text text
  | .reasoning => .reasoning text

theorem after_delta (kind : DeltaKind) (i : Nat) (text : String) (m : Heard) :
    m.after (kind.delta i text) = { m with blocks := addPart i (piece text kind) m.blocks } := by
  cases kind <;> rfl

theorem reading_piece {b : Block} {kind : DeltaKind} {before : String} (text : String)
    (hkind : b.kind = kind.blockKind) (h : b.reading = some (runReading (kind, before))) :
    (b.add (piece text kind)).reading = some (runReading (kind, before ++ text)) := by
  cases kind <;> simp only [Block.reading, hkind, DeltaKind.blockKind] at h <;> cases h <;>
    simp [Block.reading, hkind, DeltaKind.blockKind, piece, Block.add, runReading]

/-- The blocks, the newest first, read as the draft, and the newest is the open run. -/
structure Tells (d : Draft) (current : Option (DeltaKind × Nat)) (bs : List Block) : Prop where
  told : bs.reverse.map Block.reading = d.readings.map some
  idle : d.run = none → current = none
  running : ∀ kind text, d.run = some (kind, text) → ∃ newest rest, bs = newest :: rest ∧
    current = some (kind, newest.index) ∧ newest.kind = kind.blockKind

variable {d : Draft} {current : Option (DeltaKind × Nat)} {bs : List Block}

theorem tells_init : Tells {} none [] := ⟨rfl, fun _ => rfl, nofun⟩

theorem Tells.close (h : Tells d current bs) : Tells d.endRun none bs where
  told := h.told.trans (by rw [Draft.readings_endRun])
  idle := fun _ => rfl
  running := nofun

theorem Tells.begin (h : Tells d current bs) (hidle : d.run = none) (kind : DeltaKind) (i : Nat) :
    Tells (d.start kind) (some (kind, i)) ({ index := i, kind := kind.blockKind } :: bs) where
  told := by
    have hreading : Block.reading { index := i, kind := kind.blockKind } =
        some (runReading (kind, "")) := by
      cases kind <;> rfl
    have htold := h.told
    rw [Draft.readings, hidle] at htold
    rw [List.reverse_cons, List.map_append, htold]
    simpa [Draft.readings, Draft.start] using hreading
  idle := nofun
  running := by
    rintro k text hrun
    cases hrun
    exact ⟨_, bs, rfl, rfl, rfl⟩

theorem Tells.more {kind : DeltaKind} {before : String} (h : Tells d current bs)
    (hrun : d.run = some (kind, before)) (text : String) :
    ∃ i, current = some (kind, i) ∧
      Tells (d.more text) current (addPart i (piece text kind) bs) := by
  obtain ⟨newest, rest, rfl, hcurrent, hkind⟩ := h.running kind before hrun
  have htold := h.told
  rw [Draft.readings, hrun] at htold
  obtain ⟨hended, hlast⟩ : rest.reverse.map Block.reading = d.ended.map some ∧
      newest.reading = some (runReading (kind, before)) := by simpa using htold
  refine ⟨newest.index, hcurrent, ?_, ?_, ?_⟩
  · rw [addPart_head, List.reverse_cons, List.map_append, hended, List.map_singleton,
      reading_piece text hkind hlast]
    simp [Draft.readings, Draft.more, hrun]
  · intro hnone
    simp [Draft.more, hrun] at hnone
  · rintro k t hk
    simp only [Draft.more, hrun, Option.map_some, Option.some.injEq, Prod.mk.injEq] at hk
    obtain ⟨rfl, -⟩ := hk
    rw [addPart_head]
    exact ⟨_, rest, rfl, by rw [hcurrent, Block.add_index], (Block.add_kind newest _).trans hkind⟩

/-- The block that is open is the run. -/
theorem Tells.run_of_current {kind : DeltaKind} {i : Nat} (h : Tells d current bs)
    (hcurrent : current = some (kind, i)) : ∃ before, d.run = some (kind, before) := by
  cases hrun : d.run with
  | none =>
    rw [h.idle hrun] at hcurrent
    cases hcurrent
  | some run =>
    obtain ⟨newest, rest, -, hrunning, -⟩ := h.running run.1 run.2 hrun
    rw [hcurrent] at hrunning
    cases hrunning
    exact ⟨run.2, rfl⟩

theorem Tells.goOn {kind : DeltaKind} {before : String} (h : Tells d current bs)
    (hrun : d.run = some (kind, before)) (text : String) :
    ∃ i, current = some (kind, i) ∧
      Tells (d.say kind text) current (addPart i (piece text kind) bs) := by
  rw [Draft.say, Draft.ensure_of_eq hrun]
  exact h.more hrun text

theorem Tells.change {kind : DeltaKind} (h : Tells d current bs)
    (hother : ∀ before, d.run ≠ some (kind, before)) (text : String) (i : Nat) :
    Tells (d.say kind text) (some (kind, i))
      (addPart i (piece text kind) ({ index := i, kind := kind.blockKind } :: bs)) := by
  have hrun : (d.endRun.start kind).run = some (kind, "") := rfl
  obtain ⟨j, hj, hmore⟩ := (h.close.begin rfl kind i).more hrun text
  cases hj
  rw [Draft.say, Draft.ensure_of_ne hother]
  exact hmore

theorem Tells.tell (h : Tells d current bs) {b : Block} {x : Spoken} (hb : b.reading = some x) :
    Tells (d.tell x) none (b :: bs) where
  told := by
    rw [List.reverse_cons, List.map_append, h.told, Draft.readings_tell, List.map_append,
      List.map_singleton, hb]
    rfl
  idle := fun _ => rfl
  running := nofun

end AgentShim
