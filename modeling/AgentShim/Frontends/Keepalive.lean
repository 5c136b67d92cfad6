import AgentShim.Core.Types
import Mathlib.Data.List.Forall2

/-
  Keepalive pings

  The SSE stream of an encoder, with a comment sent whenever it is pending and the
  interval has fired. A stream is what its polls give, at the times it is polled;
  the interval ticks at any times.

  What is proved:
    1. `pollNext_open`, `passes_pollNext` — poll by poll the wrapper gives what the
       inner stream gives, or a ping where that is pending.
    2. `transparent_polls` — the items are the inner items with pings between them,
       the ends are the same, and nothing comes after the end.

  Correspondence (Rust ↔ Lean):
    `std::task::Poll`               ↔ `Poll`; a waker is left out
    `Stream::poll_next`             ↔ `Source`, at a time and from a state
    `sse::comment`                  ↔ `comment`; bytes are a string
    `tokio::time::interval`,        ↔ `Timer`, a parameter; nothing where the
      `Interval::poll_tick`           construction panics
    `KeepaliveStream`, its `new`    ↔ the same names; `pollNext`
      and `poll_next`
    what the encoders return        ↔ `SseStream`, `encode`
-/

namespace AgentShim.Sse

/-! ## Streams -/

inductive Poll (α : Type)
  | pending
  | ready (value : α)
  deriving DecidableEq, Repr

/-- A stream: what a poll gives at a time. -/
abbrev Source (σ α : Type) := Nat → σ → σ × Poll (Option α)

section Streams

variable {σ α : Type} (source : Source σ α)

/-- What polls at the given times give. -/
def polls : List Nat → σ → List (Poll (Option α))
  | [], _ => []
  | now :: times, s => (source now s).2 :: polls times (source now s).1

/-- What polls give of a stream that is not polled past its end. -/
def trace : List Nat → σ → List (Poll (Option α))
  | [], _ => []
  | now :: times, s =>
    match source now s with
    | (_, .ready none) => .ready none :: times.map fun _ => .ready none
    | (s', given) => given :: trace times s'

def items (given : List (Poll (Option α))) : List α :=
  given.filterMap fun
    | .ready item => item
    | .pending => none

theorem trace_of_end {now : Nat} {s : σ} (times : List Nat)
    (h : (source now s).2 = .ready none) :
    trace source (now :: times) s = .ready none :: times.map fun _ => .ready none := by
  rw [trace]
  rcases hpoll : source now s with ⟨s', given⟩
  rw [hpoll] at h
  cases h
  rfl

theorem trace_of_more {now : Nat} {s : σ} (times : List Nat)
    (h : (source now s).2 ≠ .ready none) :
    trace source (now :: times) s = (source now s).2 :: trace source times (source now s).1 := by
  rw [trace]
  rcases hpoll : source now s with ⟨s', _ | (_ | item)⟩
  · rfl
  · rw [hpoll] at h
    exact absurd rfl h
  · rfl

theorem eq_of_getElem?_map {rest : List Nat} {k : Nat} {x y : Poll (Option α)}
    (h : (rest.map fun _ => y)[k]? = some x) : x = y := by
  rw [List.getElem?_map] at h
  obtain ⟨_, -, rfl⟩ := Option.map_eq_some_iff.mp h
  rfl

/-- After the end a stream is at its end. -/
theorem trace_ended {times : List Nat} {s : σ} {m n : Nat} {given : Poll (Option α)}
    (hend : (trace source times s)[m]? = some (.ready none)) (hmn : m ≤ n)
    (hn : (trace source times s)[n]? = some given) : given = .ready none := by
  induction times generalizing s m n with
  | nil => exact absurd hn (by simp [trace])
  | cons now times ih =>
    by_cases hfirst : (source now s).2 = .ready none
    · rw [trace_of_end source times hfirst] at hn
      cases n with
      | zero => exact (Option.some.inj hn).symm
      | succ n => exact eq_of_getElem?_map hn
    · rw [trace_of_more source times hfirst] at hend hn
      cases m with
      | zero => exact absurd (Option.some.inj hend) hfirst
      | succ m =>
        cases n with
        | zero => exact absurd hmn (Nat.not_succ_le_zero m)
        | succ n => exact ih hend (Nat.le_of_succ_le_succ hmn) hn

end Streams

/-! ## The wrapper -/

def comment (text : String) : String := ": " ++ text ++ "\n\n"

/-- The interval of the runtime. `interval` panics on a period of zero, and on no
other; when it ticks is not looked at. -/
structure Timer (τ : Type) where
  interval : Nat → Option τ
  pollTick : Nat → τ → τ × Poll Unit
  interval_eq_none : ∀ period, interval period = none ↔ period = 0

structure KeepaliveStream (σ τ : Type) where
  inner : σ
  interval : τ
  innerDone : Bool

def KeepaliveStream.new {σ τ : Type} (timer : Timer τ) (inner : σ) (period : Nat) :
    Option (KeepaliveStream σ τ) :=
  (timer.interval period).map fun interval =>
    { inner := inner, interval := interval, innerDone := false }

section Wrapper

variable {E σ τ : Type} (timer : Timer τ) (source : Source σ (Except E String))

def ping : Except E String := .ok (comment "ping")

def pollNext : Source (KeepaliveStream σ τ) (Except E String) := fun now s =>
  if s.innerDone then (s, .ready none)
  else
    match source now s.inner with
    | (inner, .ready (some item)) => ({ s with inner := inner }, .ready (some item))
    | (inner, .ready none) => ({ s with inner := inner, innerDone := true }, .ready none)
    | (inner, .pending) =>
      match timer.pollTick now s.interval with
      | (interval, .ready _) =>
        ({ s with inner := inner, interval := interval }, .ready (some ping))
      | (interval, .pending) => ({ s with inner := inner, interval := interval }, .pending)

/-- An encoder's stream, with or without pings. -/
inductive SseStream (σ τ : Type)
  | plain (inner : σ)
  | kept (s : KeepaliveStream σ τ)

/-- The end of the three `encode` functions. -/
def encode (encoder : σ) : Option Nat → Option (SseStream σ τ)
  | some period => (KeepaliveStream.new timer encoder period).map .kept
  | none => some (.plain encoder)

def SseStream.pollNext : Source (SseStream σ τ) (Except E String) := fun now s =>
  match s with
  | .plain inner => (.plain (source now inner).1, (source now inner).2)
  | .kept k => (.kept (Sse.pollNext timer source now k).1, (Sse.pollNext timer source now k).2)

/-! ## Transparency -/

/-- What a poll of the wrapper gives, by what the inner stream gives. -/
def Passes (inner outer : Poll (Option (Except E String))) : Prop :=
  outer = inner ∨ (inner = .pending ∧ outer = .ready (some ping))

/-- An item of the wrapper, and where it is from. -/
inductive Signal (E : Type)
  | inner (item : Except E String)
  | ping

def Signal.item : Signal E → Except E String
  | .inner item => item
  | .ping => Sse.ping

def Signal.fromInner : Signal E → Option (Except E String)
  | .inner item => some item
  | .ping => none

/-- The pings taken away, the wrapper gives the items of the inner stream; it ends
where that ends, and nothing comes after. -/
structure Transparent (inner outer : List (Poll (Option (Except E String)))) : Prop where
  passes : List.Forall₂ Passes inner outer
  items : ∃ signals : List (Signal E), items outer = signals.map Signal.item ∧
    signals.filterMap Signal.fromInner = Sse.items inner
  ends : ∀ n : Nat, outer[n]? = some (.ready none) ↔ inner[n]? = some (.ready none)
  silent : ∀ (m n : Nat) (given : Poll (Option (Except E String))),
    outer[m]? = some (.ready none) → m ≤ n → outer[n]? = some given → given = .ready none

theorem polls_done (times : List Nat) {s : KeepaliveStream σ τ} (h : s.innerDone = true) :
    polls (pollNext timer source) times s = times.map fun _ => .ready none := by
  induction times with
  | nil => rfl
  | cons now times ih =>
    have hpoll : pollNext timer source now s = (s, .ready none) := if_pos h
    rw [polls, hpoll, ih]
    rfl

/-- One poll: what the inner stream gives, or a ping where that is pending; the end is
noted. -/
theorem pollNext_open (now : Nat) {s : KeepaliveStream σ τ} (h : s.innerDone = false) :
    Passes (source now s.inner).2 (pollNext timer source now s).2 ∧
      (pollNext timer source now s).1.inner = (source now s.inner).1 ∧
      ((pollNext timer source now s).1.innerDone = true ↔
        (source now s.inner).2 = .ready none) := by
  have hfree : ¬ s.innerDone = true := Bool.eq_false_iff.mp h
  rw [pollNext, if_neg hfree]
  rcases source now s.inner with ⟨inner, _ | (_ | item)⟩
  · -- the inner stream is pending: a ping, or nothing
    rcases timer.pollTick now s.interval with ⟨interval, _ | u⟩
    · exact ⟨Or.inl rfl, rfl, by simp [h]⟩
    · exact ⟨Or.inr ⟨rfl, rfl⟩, rfl, by simp [h]⟩
  · exact ⟨Or.inl rfl, rfl, by simp⟩
  · exact ⟨Or.inl rfl, rfl, by simp [h]⟩

/-- Poll by poll. -/
theorem passes_pollNext (times : List Nat) {s : KeepaliveStream σ τ} (h : s.innerDone = false) :
    List.Forall₂ Passes (trace source times s.inner) (polls (pollNext timer source) times s) := by
  induction times generalizing s with
  | nil => exact .nil
  | cons now times ih =>
    obtain ⟨hpass, hinner, hdone⟩ := pollNext_open timer source now h
    rw [polls]
    by_cases hend : (source now s.inner).2 = .ready none
    · -- the inner stream ends, and the wrapper with it
      rw [trace_of_end source times hend, polls_done timer source times (hdone.mpr hend)]
      rw [hend] at hpass
      exact .cons hpass (List.forall₂_same.mpr fun _ _ => Or.inl rfl)
    · rw [trace_of_more source times hend, ← hinner]
      exact .cons hpass (ih (Bool.eq_false_iff.mpr fun hended => hend (hdone.mp hended)))

/-- The items of a wrapper, each with where it is from. -/
theorem signals_of_passes {inner outer : List (Poll (Option (Except E String)))}
    (h : List.Forall₂ Passes inner outer) :
    ∃ signals : List (Signal E), items outer = signals.map Signal.item ∧
      signals.filterMap Signal.fromInner = items inner := by
  induction h with
  | nil => exact ⟨[], rfl, rfl⟩
  | @cons given given' inner outer hpass _ ih =>
    obtain ⟨signals, hitems, hinner⟩ := ih
    rcases hpass with rfl | ⟨rfl, rfl⟩
    · -- the same poll of both
      rcases given' with _ | (_ | item)
      · exact ⟨signals, hitems, hinner⟩
      · exact ⟨signals, hitems, hinner⟩
      · refine ⟨.inner item :: signals, ?_, ?_⟩
        · show item :: items outer = _
          rw [hitems]
          rfl
        · show item :: signals.filterMap Signal.fromInner = item :: items inner
          rw [hinner]
    · -- a ping
      refine ⟨.ping :: signals, ?_, hinner⟩
      show ping :: items outer = _
      rw [hitems]
      rfl

theorem passes_at {inner outer : List (Poll (Option (Except E String)))}
    (h : List.Forall₂ Passes inner outer) (n : Nat) :
    Option.Rel Passes inner[n]? outer[n]? := by
  induction h generalizing n with
  | nil => exact .none
  | cons hpass _ ih =>
    cases n with
    | zero => exact .some hpass
    | succ n => exact ih n

theorem ends_of_passes {inner outer : List (Poll (Option (Except E String)))}
    (h : List.Forall₂ Passes inner outer) (n : Nat) :
    outer[n]? = some (.ready none) ↔ inner[n]? = some (.ready none) := by
  have hat := passes_at h n
  generalize inner[n]? = given at hat ⊢
  generalize outer[n]? = given' at hat ⊢
  rcases hat with ⟨rfl | ⟨rfl, rfl⟩⟩ | _
  · rfl
  · constructor <;> intro heq <;> cases heq
  · rfl

/-- The wrapper with an interval. -/
theorem transparent_polls (times : List Nat) {s : KeepaliveStream σ τ} (h : s.innerDone = false) :
    Transparent (trace source times s.inner) (polls (pollNext timer source) times s) := by
  have hpasses := passes_pollNext timer source times h
  refine ⟨hpasses, signals_of_passes hpasses, ends_of_passes hpasses, ?_⟩
  intro m n given hend hmn hn
  have hinner := (ends_of_passes hpasses m).mp hend
  -- at `n` the inner stream is at its end, and the wrapper with it
  have hat := passes_at hpasses n
  rw [hn] at hat
  rcases hinn : (trace source times s.inner)[n]? with _ | given'
  · rw [hinn] at hat
    cases hat
  · rw [trace_ended source hinner hmn hinn] at hinn
    exact Option.some.inj (hn.symm.trans ((ends_of_passes hpasses n).mpr hinn))

theorem polls_kept (times : List Nat) (s : KeepaliveStream σ τ) :
    polls (SseStream.pollNext timer source) times (.kept s) =
      polls (pollNext timer source) times s := by
  induction times generalizing s with
  | nil => rfl
  | cons now times ih =>
    rw [polls, polls, ← ih]
    rfl

/-- An encoder's stream is built unless its period is zero, and pings stay between its
items. -/
theorem encode_of_pos {period : Nat} (h : 0 < period) (s : σ) :
    ∃ k : KeepaliveStream σ τ, encode timer s (some period) = some (.kept k) ∧
      k.inner = s ∧ k.innerDone = false := by
  have hsome : timer.interval period ≠ none := fun hnone =>
    (Nat.pos_iff_ne_zero.mp h) ((timer.interval_eq_none period).mp hnone)
  obtain ⟨interval, hinterval⟩ := Option.ne_none_iff_exists'.mp hsome
  refine ⟨{ inner := s, interval := interval, innerDone := false }, ?_, rfl, rfl⟩
  rw [encode, KeepaliveStream.new, hinterval]
  rfl

theorem encode_zero (s : σ) : encode timer s (some 0) = none := by
  rw [encode, KeepaliveStream.new, (timer.interval_eq_none 0).mpr rfl]
  rfl

end Wrapper

end AgentShim.Sse
