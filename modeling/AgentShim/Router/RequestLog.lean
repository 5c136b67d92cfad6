import AgentShim.Core.Types
import AgentShim.Lib.Ledger
import AgentShim.Router.RateLimit

/-
  The world of one request, and its log

  A request moves the buckets of the rate limiter and the breakers. The world
  keeps beside them the log of what the request did to its surroundings: the
  holds it was granted or refused, the upstream calls it made with their
  answers, and the outcomes it recorded. The clock is read once per event, so
  the length of the log names the reading.

  What is proved:
    1. `Adds.trans`, `adds_tryHold`, `adds_settle` — the steps of a request
       extend the log, and a breaker moves only by an event of its key.
    2. `release_adds` — what releasing the holds of a ticket adds to the log.
    3. `exec_held_released` — the grants and the records of one list of holds
       are a history of the ledger that leaves nothing open.
-/

namespace AgentShim.RequestLog

open AgentShim.CircuitBreaker AgentShim.RateLimit

/-- What one poll of a stream answers. -/
inductive Poll (α : Type)
  | pending
  | ready (item : α)
  | ended
  deriving Repr

/-- How an upstream call ends: with a stream, given by the answers to the polls
made until it is dropped, with an error, or by the request being dropped. -/
inductive Answer (α : Type)
  | accepted (polls : List (Poll α))
  | failed (e : ProviderError)
  | dropped
  deriving Repr

/-- The first item a stream yields. -/
def firstReady {α : Type} : List (Poll α) → Option α
  | [] => none
  | .ready item :: _ => some item
  | .pending :: rest => firstReady rest
  | .ended :: rest => firstReady rest

/-- An item of a canonical stream. -/
abbrev EventItem := Except StreamError StreamEvent

/-- An item of a raw byte stream, the transport's error as its message. -/
abbrev ByteItem := Except String (List UInt8)

/-- What a request does, by the position in the chain. -/
inductive Event
  | granted (i : Nat) (key : BreakerKey)
  | refused (i : Nat)
  | called (i : Nat) (answer : Answer EventItem)
  | calledRaw (i : Nat) (answer : Answer ByteItem)
  | recorded (i : Nat) (key : BreakerKey) (succeeded : Bool)

namespace Event

/-- The breaker an event moves. -/
def key? : Event → Option BreakerKey
  | granted _ key => some key
  | recorded _ key _ => some key
  | _ => none

/-- The position an upstream call goes to. -/
def callAt : Event → Option Nat
  | called i _ => some i
  | calledRaw i _ => some i
  | _ => none

/-- The error an upstream call ends with. -/
def failure : Event → Option ProviderError
  | called _ (.failed e) => some e
  | calledRaw _ (.failed e) => some e
  | _ => none

/-- A grant opens the obligation to record, a record settles it. -/
def entry : Event → Option (Ledger.Entry (Nat × BreakerKey))
  | granted i key => some (.issue (i, key))
  | recorded i key _ => some (.settle (i, key))
  | _ => none

end Event

/-- What a request moves, and its log. -/
structure World (L : Type) where
  limiter : LimiterRegistry L
  breakers : BreakerRegistry
  log : List Event

variable {L : Type}

/-- The world a request finds. -/
def World.start (limiter : LimiterRegistry L) (breakers : BreakerRegistry) : World L where
  limiter := limiter
  breakers := breakers
  log := []

/-- The world after an event that moves no breaker. -/
def World.emit (w : World L) (e : Event) : World L := { w with log := w.log ++ [e] }

/-- `es` are the events from `w` to `w'`, and a breaker without an event among
them is the same in both. -/
structure Adds (w w' : World L) (es : List Event) : Prop where
  log : w'.log = w.log ++ es
  breakers : ∀ k, (∀ e ∈ es, e.key? ≠ some k) → w'.breakers k = w.breakers k

theorem Adds.refl (w : World L) : Adds w w [] :=
  ⟨(List.append_nil _).symm, fun _ _ => rfl⟩

theorem Adds.trans {w w' w'' : World L} {es es' : List Event} (h : Adds w w' es)
    (h' : Adds w' w'' es') : Adds w w'' (es ++ es') := by
  refine ⟨by rw [h'.log, h.log, List.append_assoc], fun k hk => ?_⟩
  have hleft := h.breakers k fun e he => hk e (List.mem_append_left _ he)
  have hright := h'.breakers k fun e he => hk e (List.mem_append_right _ he)
  rw [hright, hleft]

/-- The events a step adds are the log past the old one. -/
theorem Adds.drop_log {w w' : World L} {es : List Event} (h : Adds w w' es) :
    w'.log.drop w.log.length = es := by
  rw [h.log, List.drop_left]

theorem adds_emit (w : World L) {e : Event} : Adds w (w.emit e) [e] :=
  ⟨rfl, fun _ _ => rfl⟩

/-- The buckets of the limiter are not logged. -/
theorem adds_limiter (w : World L) (r : LimiterRegistry L) : Adds w { w with limiter := r } [] :=
  ⟨(List.append_nil _).symm, fun _ _ => rfl⟩

/-! ## Holds -/

/-- The event of a hold asked for, by the answer. -/
def holdEvent (i : Nat) : Option BreakerHold → Event
  | some hold => .granted i hold.key
  | none => .refused i

/-- Asks the breaker of the `i`-th target for a hold. -/
def World.tryHold (clock : Nat → Instant) (policy : BreakerPolicy) (i : Nat)
    (target : BackendTarget) (w : World L) : Option BreakerHold × World L :=
  let answer := w.breakers.tryHold target.provider target.model policy (clock w.log.length)
  (answer.1,
    { w with
      breakers := answer.2
      log := w.log ++ [holdEvent i answer.1] })

/-- Records a hold: with its outcome when it is consumed, as a failure when it
is dropped. -/
def World.settle (clock : Nat → Instant) (i : Nat) (hold : BreakerHold)
    (outcome : Option Bool) (w : World L) : World L :=
  match outcome with
  | some succeeded =>
    { w with
      breakers := hold.consume w.breakers succeeded (clock w.log.length)
      log := w.log ++ [.recorded i hold.key succeeded] }
  | none =>
    { w with
      breakers := hold.drop w.breakers (clock w.log.length)
      log := w.log ++ [.recorded i hold.key false] }

theorem adds_tryHold (clock : Nat → Instant) (policy : BreakerPolicy) (i : Nat)
    (target : BackendTarget) (w : World L) :
    Adds w (w.tryHold clock policy i target).2
      [holdEvent i (w.tryHold clock policy i target).1] := by
  refine ⟨rfl, fun k hk => ?_⟩
  show (w.breakers.tryHold target.provider target.model policy (clock w.log.length)).2 k = _
  cases hanswer : (w.breakers.tryHold target.provider target.model policy
    (clock w.log.length)).1 with
  | none => rw [BreakerRegistry.tryHold_none hanswer]
  | some hold =>
    apply BreakerRegistry.tryHold_of_ne
    intro heq
    have hkey := hk _ List.mem_cons_self
    rw [World.tryHold, hanswer, BreakerRegistry.tryHold_some hanswer, heq] at hkey
    exact hkey rfl

theorem adds_settle (clock : Nat → Instant) (i : Nat) (hold : BreakerHold)
    (outcome : Option Bool) (w : World L) :
    Adds w (w.settle clock i hold outcome) [.recorded i hold.key (outcome == some true)] := by
  have hmoved : ∀ succeeded k, (∀ e ∈ [Event.recorded i hold.key succeeded], e.key? ≠ some k) →
      (w.breakers.record hold.provider hold.model succeeded hold.policy
        (clock w.log.length)) k = w.breakers k := by
    intro succeeded k hk
    apply BreakerRegistry.record_of_ne
    intro heq
    rw [heq] at hk
    exact hk _ List.mem_cons_self rfl
  cases outcome with
  | none => exact ⟨rfl, hmoved false⟩
  | some succeeded =>
    cases succeeded with
    | false => exact ⟨rfl, hmoved false⟩
    | true => exact ⟨rfl, hmoved true⟩

/-- What a release does with the hold at a position: the chosen one is consumed
with its outcome, the others are dropped. -/
def outcomeAt (chosen : Option (Nat × Bool)) (i : Nat) : Option Bool :=
  match chosen with
  | some (index, succeeded) => if i == index then some succeeded else none
  | none => none

/-- Releases holds in chain order. -/
def release (clock : Nat → Instant) (chosen : Option (Nat × Bool)) :
    Nat → List (Option BreakerHold) → World L → World L
  | _, [], w => w
  | i, none :: rest, w => release clock chosen (i + 1) rest w
  | i, some hold :: rest, w =>
    release clock chosen (i + 1) rest (w.settle clock i hold (outcomeAt chosen i))

theorem outcomeAt_eq_true (chosen : Option (Nat × Bool)) (i : Nat) :
    (outcomeAt chosen i == some true) = (chosen == some (i, true)) := by
  cases chosen with
  | none => rfl
  | some c =>
    obtain ⟨index, succeeded⟩ := c
    by_cases hi : i = index
    · subst hi
      cases succeeded <;> simp [outcomeAt]
    · simp [outcomeAt, hi, Ne.symm hi]

/-! ## The log of a list of holds -/

/-- The answers to the holds asked for, from position `i` on. -/
def holdEvents : Nat → List (Option BreakerHold) → List Event
  | _, [] => []
  | i, hold :: rest => holdEvent i hold :: holdEvents (i + 1) rest

/-- The records of the holds that are released. -/
def releaseEvents (chosen : Option (Nat × Bool)) : Nat → List (Option BreakerHold) → List Event
  | _, [] => []
  | i, none :: rest => releaseEvents chosen (i + 1) rest
  | i, some hold :: rest =>
    .recorded i hold.key (chosen == some (i, true)) :: releaseEvents chosen (i + 1) rest

theorem release_adds (clock : Nat → Instant) (chosen : Option (Nat × Bool)) (i : Nat)
    (holds : List (Option BreakerHold)) (w : World L) :
    Adds w (release clock chosen i holds w) (releaseEvents chosen i holds) := by
  induction holds generalizing i w with
  | nil => exact Adds.refl w
  | cons hold rest ih =>
    cases hold with
    | none => exact ih (i + 1) w
    | some hold =>
      show Adds w (release clock chosen (i + 1) rest _)
        ([.recorded i hold.key (chosen == some (i, true))] ++ releaseEvents chosen (i + 1) rest)
      rw [← outcomeAt_eq_true]
      exact (adds_settle clock i hold (outcomeAt chosen i) w).trans (ih (i + 1) _)

/-- The positions and keys of the holds in a list. -/
def tokens : Nat → List (Option BreakerHold) → List (Nat × BreakerKey)
  | _, [] => []
  | i, none :: rest => tokens (i + 1) rest
  | i, some hold :: rest => (i, hold.key) :: tokens (i + 1) rest

theorem le_of_mem_tokens {i : Nat} {holds : List (Option BreakerHold)} {t : Nat × BreakerKey}
    (h : t ∈ tokens i holds) : i ≤ t.1 := by
  induction holds generalizing i with
  | nil => cases h
  | cons hold rest ih =>
    cases hold with
    | none => exact Nat.le_of_succ_le (ih h)
    | some hold =>
      rcases List.mem_cons.mp h with rfl | h
      · exact Nat.le_refl _
      · exact Nat.le_of_succ_le (ih h)

theorem nodup_positions (i : Nat) (holds : List (Option BreakerHold)) :
    ((tokens i holds).map Prod.fst).Nodup := by
  induction holds generalizing i with
  | nil => exact List.nodup_nil
  | cons hold rest ih =>
    cases hold with
    | none => exact ih (i + 1)
    | some hold =>
      rw [tokens, List.map_cons, List.nodup_cons]
      refine ⟨fun hmem => ?_, ih (i + 1)⟩
      obtain ⟨t, ht, heq⟩ := List.mem_map.mp hmem
      have hle := le_of_mem_tokens ht
      rw [heq] at hle
      omega

/-- Every token is a grant in the log of the holds. -/
theorem granted_of_mem_tokens {i : Nat} {holds : List (Option BreakerHold)}
    {t : Nat × BreakerKey} (h : t ∈ tokens i holds) :
    .granted t.1 t.2 ∈ holdEvents i holds := by
  induction holds generalizing i with
  | nil => cases h
  | cons hold rest ih =>
    cases hold with
    | none => exact List.mem_cons_of_mem _ (ih h)
    | some hold =>
      rcases List.mem_cons.mp h with rfl | h
      · exact List.mem_cons_self
      · exact List.mem_cons_of_mem _ (ih h)

/-- A record is that of a token, and a success only at the chosen position. -/
theorem mem_releaseEvents {chosen : Option (Nat × Bool)} {i : Nat}
    {holds : List (Option BreakerHold)} {e : Event} (h : e ∈ releaseEvents chosen i holds) :
    ∃ t ∈ tokens i holds, e = .recorded t.1 t.2 (chosen == some (t.1, true)) := by
  induction holds generalizing i with
  | nil => cases h
  | cons hold rest ih =>
    cases hold with
    | none => exact ih h
    | some hold =>
      rcases List.mem_cons.mp h with rfl | h
      · exact ⟨(i, hold.key), List.mem_cons_self, rfl⟩
      · obtain ⟨t, ht, he⟩ := ih h
        exact ⟨t, List.mem_cons_of_mem _ ht, he⟩

/-- The log of holds asked for has grants and refusals only. -/
theorem mem_holdEvents {i : Nat} {holds : List (Option BreakerHold)} {e : Event}
    (h : e ∈ holdEvents i holds) : ∃ j, e = .refused j ∨ ∃ key, e = .granted j key := by
  induction holds generalizing i with
  | nil => cases h
  | cons hold rest ih =>
    rcases List.mem_cons.mp h with rfl | h
    · cases hold with
      | none => exact ⟨i, Or.inl rfl⟩
      | some hold => exact ⟨i, Or.inr ⟨hold.key, rfl⟩⟩
    · exact ih h

theorem entries_holdEvents (i : Nat) (holds : List (Option BreakerHold)) :
    (holdEvents i holds).filterMap Event.entry = (tokens i holds).map .issue := by
  induction holds generalizing i with
  | nil => rfl
  | cons hold rest ih =>
    cases hold with
    | none => exact ih (i + 1)
    | some hold => exact congrArg (Ledger.Entry.issue (i, hold.key) :: ·) (ih (i + 1))

theorem entries_releaseEvents (chosen : Option (Nat × Bool)) (i : Nat)
    (holds : List (Option BreakerHold)) :
    (releaseEvents chosen i holds).filterMap Event.entry = (tokens i holds).map .settle := by
  induction holds generalizing i with
  | nil => rfl
  | cons hold rest ih =>
    cases hold with
    | none => exact ih (i + 1)
    | some hold => exact congrArg (Ledger.Entry.settle (i, hold.key) :: ·) (ih (i + 1))

/-- Opening the tokens of a list of holds and settling them leaves nothing
open. -/
theorem exec_held_released (i : Nat) (holds : List (Option BreakerHold)) :
    Runs.exec Ledger.step ∅
      ((tokens i holds).map .issue ++ (tokens i holds).map .settle) = some ∅ := by
  have hnodup : (tokens i holds).Nodup := List.Nodup.of_map _ (nodup_positions i holds)
  have hopen := Ledger.exec_opened hnodup (fun _ _ => Finset.notMem_empty _)
  rw [Runs.exec_append, hopen, Option.bind_some, Finset.empty_union]
  exact Ledger.exec_settled hnodup

end AgentShim.RequestLog
