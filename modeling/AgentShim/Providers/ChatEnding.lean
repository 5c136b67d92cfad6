import AgentShim.Stream.Envelope

/-
  The end of a Chat Completions stream

  The parsers of the Chat Completions dialects end a stream with the same steps:
  a response and a message that were not started are started, the message is
  closed and stopped, and the response is stopped. What closes a message is the
  dialect's own.

  What is proved:
    1. `accepts_done`, `accepts_finalize` — if closing the message readies the
       envelope, the end leaves it closed, after `[DONE]` and without it.
    2. `within_finalize_empty` — a stream in which nothing was read has no
       envelope.
    3. `within_doomed_done`, `within_doomed_finalize` — a message that was stopped
       before it was started is started too late.
-/

namespace AgentShim

namespace ChatWire

open Transducer

/-- The steps of the end, the flags that guard them, and what the steps do to the
flags. -/
structure Ending (σ : Type) where
  responseStart : σ → Bool
  messageStart : σ → Bool
  responseStop : σ → Bool
  ensureResponseStart : Emitter σ StreamEvent
  ensureMessageStart : Emitter σ StreamEvent
  closeMessage : Emitter σ StreamEvent
  stopResponse : Emitter σ StreamEvent
  markCompleted : Emitter σ StreamEvent
  ensureResponseStart_started : ∀ s, responseStart s = true → ensureResponseStart s = (s, [])
  mem_ensureMessageStart : ∀ s, messageStart s = false →
    .messageStart .assistant ∈ (ensureMessageStart s).2
  stopResponse_stops : ∀ s, (stopResponse s).2 = [.responseStop none] ∧
    responseStop (stopResponse s).1 = true
  markCompleted_quiet : ∀ s, (markCompleted s).2 = [] ∧
    responseStop (markCompleted s).1 = responseStop s

namespace Ending

variable {σ : Type} (E : Ending σ)

def ensureResponseStop : Emitter σ StreamEvent := fun s =>
  if E.responseStop s then (s, []) else E.stopResponse s

/-- What `[DONE]` sets off. -/
def done : Emitter σ StreamEvent :=
  inOrder [E.ensureResponseStart, E.ensureMessageStart, E.closeMessage, E.ensureResponseStop,
    E.markCompleted]

/-- What the end of the source sets off. -/
def finalize : Emitter σ StreamEvent := fun s =>
  if E.responseStop s then (s, [])
  else if E.responseStart s then
    inOrder [E.ensureMessageStart, E.closeMessage, E.stopResponse] s
  else (s, [])

/-- Only the response is left to stop. -/
structure Ready (s : σ) (m : Envelope) : Prop where
  responseStop : E.responseStop s = false
  stopped : m.stopped = true
  running : m.concluded = false
  closed : ∀ i, (m.block i).isOpen = false

/-- The message was stopped before it was started. -/
structure Doomed (s : σ) (m : Envelope) : Prop where
  responseStart : E.responseStart s = true
  messageStart : E.messageStart s = false
  responseStop : E.responseStop s = false
  stopped : m.stopped = true

variable {E}

theorem finalize_of_stopped {s : σ} (h : E.responseStop s = true) : E.finalize s = (s, []) := by
  rw [finalize, if_pos h]

theorem finalize_of_running {s : σ} (hstart : E.responseStart s = true)
    (hstop : E.responseStop s = false) :
    E.finalize s = andThen E.ensureMessageStart (andThen E.closeMessage E.stopResponse) s := by
  simp only [finalize, hstart, hstop, Bool.false_eq_true, if_false, if_true, inOrder_cons,
    inOrder_nil, andThen_skip]

variable {nested : Bool} {P P' P'' Q : σ → Envelope → Prop}

/-! ## The end of a message in order -/

theorem accepts_stopResponse :
    Accepts (Envelope.step nested) E.Ready E.stopResponse
      (fun s m => E.responseStop s = true ∧ m.Closed) := by
  intro s m h
  obtain ⟨hout, hflag⟩ := E.stopResponse_stops s
  refine ⟨{ m with concluded := true }, ?_, hflag, rfl, h.closed⟩
  rw [hout]
  exact Envelope.exec_singleton_iff.mpr ⟨⟨h.stopped, h.running⟩, rfl⟩

theorem accepts_ensureResponseStop :
    Accepts (Envelope.step nested) E.Ready E.ensureResponseStop
      (fun s m => E.responseStop s = true ∧ m.Closed) := by
  intro s m h
  have hrun : E.ensureResponseStop s = E.stopResponse s := by
    rw [ensureResponseStop, h.responseStop]
    rfl
  rw [hrun]
  exact accepts_stopResponse s m h

theorem accepts_finalize
    (hflags : ∀ s m, P s m → E.responseStart s = true ∧ E.responseStop s = false)
    (hopen : Accepts (Envelope.step nested) P E.ensureMessageStart P')
    (hclose : Accepts (Envelope.step nested) P' E.closeMessage E.Ready) :
    Accepts (Envelope.step nested) P E.finalize (fun _ m => m.Closed) := by
  intro s m h
  obtain ⟨hstart, hstop⟩ := hflags s m h
  rw [finalize_of_running hstart hstop]
  obtain ⟨m', hm, -, hclosed⟩ := hopen.andThen (hclose.andThen accepts_stopResponse) s m h
  exact ⟨m', hm, hclosed⟩

/-- A stream in which nothing was read has no envelope. -/
theorem within_finalize_empty
    (h : ∀ s m, P s m →
      E.responseStart s = false ∧ E.responseStop s = false ∧ m.concluded = false) :
    Within (Envelope.step nested) P E.finalize (fun _ m => ¬ m.Closed) := by
  intro s m hp m' hm hclosed
  obtain ⟨hstart, hstop, hrunning⟩ := h s m hp
  have hquiet : E.finalize s = (s, []) := by
    rw [finalize, hstart, hstop]
    rfl
  rw [hquiet] at hm
  cases hm
  have hconcluded := hclosed.1
  rw [hrunning] at hconcluded
  cases hconcluded

/-- After `[DONE]` the drain has nothing left to do. -/
theorem accepts_markCompleted_finalize :
    Accepts (Envelope.step nested) (fun s m => E.responseStop s = true ∧ m.Closed)
      (andThen E.markCompleted E.finalize) (fun _ m => m.Closed) := by
  intro s m h
  obtain ⟨hout, hflag⟩ := E.markCompleted_quiet s
  have hlast : E.finalize (E.markCompleted s).1 = ((E.markCompleted s).1, []) :=
    finalize_of_stopped (hflag.trans h.1)
  refine ⟨m, ?_, h.2⟩
  rw [andThen_apply, hout, hlast]
  rfl

theorem accepts_done (hbegin : Accepts (Envelope.step nested) P E.ensureResponseStart P')
    (hopen : Accepts (Envelope.step nested) P' E.ensureMessageStart P'')
    (hclose : Accepts (Envelope.step nested) P'' E.closeMessage E.Ready) :
    Accepts (Envelope.step nested) P (andThen E.done E.finalize) (fun _ m => m.Closed) := by
  have hrun : andThen E.done E.finalize =
      andThen E.ensureResponseStart (andThen E.ensureMessageStart (andThen E.closeMessage
        (andThen E.ensureResponseStop (andThen E.markCompleted E.finalize)))) := by
    simp only [done, inOrder_cons, inOrder_nil, andThen_skip, andThen_assoc]
  rw [hrun]
  apply hbegin.andThen
  apply hopen.andThen
  apply hclose.andThen
  exact accepts_ensureResponseStop.andThen accepts_markCompleted_finalize

/-! ## A message stopped before it was started -/

theorem within_doomed_open {f : Emitter σ StreamEvent} :
    Within (Envelope.step nested) E.Doomed (andThen E.ensureMessageStart f) Q := by
  refine Envelope.within_of_stopped (fun _ _ h => h.stopped) ?_
  intro s m h
  have hmem := E.mem_ensureMessageStart s h.messageStart
  exact ⟨_, List.mem_append_left _ hmem, rfl⟩

theorem within_doomed_finalize : Within (Envelope.step nested) E.Doomed E.finalize Q := by
  intro s m h
  rw [finalize_of_running h.responseStart h.responseStop]
  exact within_doomed_open s m h

theorem within_doomed_done :
    Within (Envelope.step nested) E.Doomed (andThen E.done E.finalize) Q := by
  have hstart : Within (Envelope.step nested) E.Doomed E.ensureResponseStart E.Doomed := by
    intro s m h m' hm
    rw [E.ensureResponseStart_started s h.responseStart] at hm ⊢
    cases hm
    exact h
  simp only [done, inOrder_cons, inOrder_nil, andThen_skip, andThen_assoc]
  exact hstart.andThen within_doomed_open

end Ending

end ChatWire

end AgentShim
