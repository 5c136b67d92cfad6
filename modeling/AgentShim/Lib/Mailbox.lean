import AgentShim.Lib.Runs

/-
  A server behind a mailbox

  Clients send messages into a bounded mailbox; a server takes them out one at a
  time. A message is answered as it is taken, or it is put to work and answered
  when the work comes back, and nothing else is taken meanwhile. Sends, takes
  and returns interleave in any order.

  What is proved:
    1. `step_cases` — what one event does.
    2. `exec_order` — what is served, at work and waiting, in this order, is what
       was sent.
    3. `exec_replay` — the served messages, with what was read for each, replay
       on the sequential server: state and answers are its own.
    4. `exec_progress` — every take and return brings the server on: two of them
       serve a message, whatever is sent meanwhile.
    5. `Replay.at`, `Replay.history` — the state a served message met, and the
       invariant rule for what was served so far.
-/

namespace Mailbox

open Runs

variable {S M X Y R : Type*}

/-- What the server makes of a message as it takes it. -/
inductive Outcome (S R : Type*)
  | answered (s : S) (r : R)
  | working

/-- `X` is what the server reads as it takes a message, `Y` what work comes back
with. -/
structure Server (S M X Y R : Type*) where
  take : S → M → X → Outcome S R
  finish : S → M → X → Y → S × R

/-- A message that was served; `reply` is what its work came back with. -/
structure Served (M X Y R : Type*) where
  msg : M
  input : X
  reply : Option Y
  answer : R

structure World (S M X Y R : Type*) where
  queue : List M
  busy : Option (M × X)
  state : S
  served : List (Served M X Y R)

def World.start (s : S) : World S M X Y R := ⟨[], none, s, []⟩

inductive Event (M X Y : Type*)
  | send (m : M)
  | take (x : X)
  | finish (y : Y)

/-- An event on the world; none where it is not possible: a full mailbox, an
empty one, a server at work or one that is not. -/
def step (srv : Server S M X Y R) (capacity : Nat) (w : World S M X Y R) :
    Event M X Y → Option (World S M X Y R)
  | .send m =>
    if w.queue.length < capacity then some { w with queue := w.queue ++ [m] } else none
  | .take x =>
    match w.busy, w.queue with
    | none, m :: rest =>
      match srv.take w.state m x with
      | .answered s r =>
        some { queue := rest, busy := none, state := s, served := w.served ++ [⟨m, x, none, r⟩] }
      | .working => some { w with queue := rest, busy := some (m, x) }
    | _, _ => none
  | .finish y =>
    match w.busy with
    | some (m, x) =>
      let (s, r) := srv.finish w.state m x y
      some { w with busy := none, state := s, served := w.served ++ [⟨m, x, some y, r⟩] }
    | none => none

/-- The sequential server on one message, served to its end. -/
def Serves (srv : Server S M X Y R) (s : S) (e : Served M X Y R) (s' : S) : Prop :=
  (e.reply = none ∧ srv.take s e.msg e.input = .answered s' e.answer) ∨
  (∃ y, e.reply = some y ∧ srv.take s e.msg e.input = .working ∧
    srv.finish s e.msg e.input y = (s', e.answer))

/-- The sequential server on a list of messages. -/
def Replay (srv : Server S M X Y R) : S → List (Served M X Y R) → S → Prop
  | s, [], s' => s = s'
  | s, e :: es, s' => ∃ m, Serves srv s e m ∧ Replay srv m es s'

def sent : List (Event M X Y) → List M
  | [] => []
  | .send m :: es => m :: sent es
  | .take _ :: es => sent es
  | .finish _ :: es => sent es

/-- The takes and returns of a run. -/
def moves : List (Event M X Y) → Nat
  | [] => 0
  | .send _ :: es => moves es
  | .take _ :: es => moves es + 1
  | .finish _ :: es => moves es + 1

/-- The message at work. -/
def World.working (w : World S M X Y R) : List M := w.busy.toList.map Prod.fst

@[simp] theorem sent_nil : sent ([] : List (Event M X Y)) = [] := rfl

@[simp] theorem moves_nil : moves ([] : List (Event M X Y)) = 0 := rfl

theorem sent_append (es fs : List (Event M X Y)) : sent (es ++ fs) = sent es ++ sent fs := by
  induction es with
  | nil => rfl
  | cons e es ih => cases e <;> simp [sent, ih]

theorem moves_append (es fs : List (Event M X Y)) : moves (es ++ fs) = moves es + moves fs := by
  induction es with
  | nil => simp
  | cons e es ih => cases e <;> simp [moves, ih] <;> omega

variable {srv : Server S M X Y R} {capacity : Nat} {w w' : World S M X Y R}

/-! ## One event -/

/-- Everything an event can do. -/
theorem step_cases {a : Event M X Y} (h : step srv capacity w a = some w') :
    (∃ m, a = .send m ∧ w.queue.length < capacity ∧ w' = { w with queue := w.queue ++ [m] }) ∨
    (∃ x m rest s r, a = .take x ∧ w.busy = none ∧ w.queue = m :: rest ∧
      srv.take w.state m x = .answered s r ∧
      w' = { queue := rest, busy := none, state := s,
             served := w.served ++ [⟨m, x, none, r⟩] }) ∨
    (∃ x m rest, a = .take x ∧ w.busy = none ∧ w.queue = m :: rest ∧
      srv.take w.state m x = .working ∧ w' = { w with queue := rest, busy := some (m, x) }) ∨
    (∃ y m x s r, a = .finish y ∧ w.busy = some (m, x) ∧ srv.finish w.state m x y = (s, r) ∧
      w' = { w with busy := none, state := s,
                    served := w.served ++ [⟨m, x, some y, r⟩] }) := by
  cases a with
  | send m =>
    simp only [step] at h
    split at h
    · rename_i hroom
      exact Or.inl ⟨m, rfl, hroom, (Option.some.inj h).symm⟩
    · simp at h
  | take x =>
    simp only [step] at h
    cases hb : w.busy with
    | some job => simp [hb] at h
    | none =>
      cases hq : w.queue with
      | nil => simp [hb, hq] at h
      | cons m rest =>
        cases ht : srv.take w.state m x with
        | answered s r =>
          simp only [hb, hq, ht] at h
          exact Or.inr (Or.inl ⟨x, m, rest, s, r, rfl, rfl, rfl, ht, (Option.some.inj h).symm⟩)
        | working =>
          simp only [hb, hq, ht] at h
          exact Or.inr (Or.inr (Or.inl ⟨x, m, rest, rfl, rfl, rfl, ht,
            (Option.some.inj h).symm⟩))
  | finish y =>
    simp only [step] at h
    cases hb : w.busy with
    | none => simp [hb] at h
    | some job =>
      simp only [hb] at h
      exact Or.inr (Or.inr (Or.inr ⟨y, job.1, job.2, _, _, rfl, rfl, rfl,
        (Option.some.inj h).symm⟩))

theorem step_order {a : Event M X Y} (h : step srv capacity w a = some w') :
    w'.served.map Served.msg ++ w'.working ++ w'.queue =
      w.served.map Served.msg ++ w.working ++ w.queue ++ sent [a] := by
  obtain ⟨m, rfl, -, rfl⟩ | ⟨x, m, rest, s, r, rfl, hb, hq, -, rfl⟩ |
    ⟨x, m, rest, rfl, hb, hq, -, rfl⟩ | ⟨y, m, x, s, r, rfl, hb, -, rfl⟩ := step_cases h
  · simp [World.working, sent]
  · simp [World.working, hb, hq, sent]
  · simp [World.working, hb, hq, sent]
  · simp [World.working, hb, sent]

theorem step_progress {a : Event M X Y} (h : step srv capacity w a = some w') :
    2 * w.served.length + w.working.length + moves [a] ≤
      2 * w'.served.length + w'.working.length := by
  obtain ⟨m, rfl, -, rfl⟩ | ⟨x, m, rest, s, r, rfl, hb, hq, -, rfl⟩ |
    ⟨x, m, rest, rfl, hb, hq, -, rfl⟩ | ⟨y, m, x, s, r, rfl, hb, -, rfl⟩ := step_cases h
  · simp [World.working, moves]
  · have hidle : w.working = [] := by simp [World.working, hb]
    rw [hidle]
    simp only [moves, World.working, List.length_append, List.length_nil,
      List.length_singleton, Option.toList_none, List.map_nil]
    omega
  · simp [World.working, hb, moves]
  · have hbusy : w.working = [m] := by simp [World.working, hb]
    rw [hbusy]
    simp only [moves, World.working, List.length_append, List.length_nil,
      List.length_singleton, Option.toList_none, List.map_nil]
    omega

/-! ## Runs -/

theorem exec_order_from {es : List (Event M X Y)}
    (h : exec (step srv capacity) w es = some w') :
    w'.served.map Served.msg ++ w'.working ++ w'.queue =
      w.served.map Served.msg ++ w.working ++ w.queue ++ sent es := by
  induction es generalizing w with
  | nil =>
    cases h
    simp
  | cons a es ih =>
    obtain ⟨m, hm, hrest⟩ := exec_cons_eq_some.mp h
    calc w'.served.map Served.msg ++ w'.working ++ w'.queue
        = m.served.map Served.msg ++ m.working ++ m.queue ++ sent es := ih hrest
      _ = w.served.map Served.msg ++ w.working ++ w.queue ++ sent [a] ++ sent es := by
          rw [step_order hm]
      _ = w.served.map Served.msg ++ w.working ++ w.queue ++ sent (a :: es) := by
          rw [List.append_assoc _ (sent [a]), ← sent_append, List.singleton_append]

theorem exec_order {s₀ : S} {es : List (Event M X Y)}
    (h : exec (step srv capacity) (World.start s₀) es = some w) :
    w.served.map Served.msg ++ w.working ++ w.queue = sent es := by
  simpa [World.start, World.working] using exec_order_from h

/-- The messages taken so far are the first ones sent. -/
theorem exec_taken_le {s₀ : S} {es : List (Event M X Y)}
    (h : exec (step srv capacity) (World.start s₀) es = some w) :
    w.served.length + w.working.length ≤ (sent es).length := by
  have hlen := congrArg List.length (exec_order h)
  simp at hlen
  omega

/-- The message sent at a position is the one served at it. -/
theorem exec_served_msg {s₀ : S} {es : List (Event M X Y)}
    (h : exec (step srv capacity) (World.start s₀) es = some w) {i : Nat}
    {e : Served M X Y R} (he : w.served[i]? = some e) : (sent es)[i]? = some e.msg := by
  have hi : i < w.served.length := (List.getElem?_eq_some_iff.mp he).1
  rw [← exec_order h, List.append_assoc,
    List.getElem?_append_left (by simpa using hi), List.getElem?_map, he]
  rfl

theorem exec_progress {es : List (Event M X Y)}
    (h : exec (step srv capacity) w es = some w') :
    2 * w.served.length + w.working.length + moves es ≤
      2 * w'.served.length + w'.working.length := by
  induction es generalizing w with
  | nil =>
    cases h
    simp
  | cons a es ih =>
    obtain ⟨m, hm, hrest⟩ := exec_cons_eq_some.mp h
    have hone := step_progress hm
    have hmany := ih hrest
    have hsum : moves (a :: es) = moves [a] + moves es := moves_append [a] es
    omega

theorem World.working_length_le (w : World S M X Y R) : w.working.length ≤ 1 := by
  cases hb : w.busy <;> simp [World.working, hb]

/-! ## The sequential server -/

theorem replay_append {s s' : S} {es fs : List (Served M X Y R)} :
    Replay srv s (es ++ fs) s' ↔ ∃ m, Replay srv s es m ∧ Replay srv m fs s' := by
  induction es generalizing s with
  | nil => simp [Replay]
  | cons e es ih =>
    simp only [List.cons_append, Replay, ih]
    constructor
    · intro ⟨m, hm, n, hn, hfs⟩
      exact ⟨n, ⟨m, hm, hn⟩, hfs⟩
    · intro ⟨n, ⟨m, hm, hn⟩, hfs⟩
      exact ⟨m, hm, n, hn, hfs⟩

theorem replay_singleton {s s' : S} {e : Served M X Y R} :
    Replay srv s [e] s' ↔ Serves srv s e s' := by
  simp [Replay]

/-- The state a served message met, and the one it left. -/
theorem Replay.at {s s' : S} {es : List (Served M X Y R)} (h : Replay srv s es s') {i : Nat}
    {e : Served M X Y R} (he : es[i]? = some e) :
    ∃ m m', Replay srv s (es.take i) m ∧ Serves srv m e m' := by
  obtain ⟨hi, rfl⟩ := List.getElem?_eq_some_iff.mp he
  rw [← List.take_append_drop i es] at h
  obtain ⟨m, hm, hrest⟩ := replay_append.mp h
  rw [List.drop_eq_getElem_cons hi] at hrest
  obtain ⟨m', hm', -⟩ := hrest
  exact ⟨m, m', hm, hm'⟩

/-- The invariant rule for what was served so far and the state it left. -/
theorem Replay.history {I : List (Served M X Y R) → S → Prop} {s₀ s : S}
    {es : List (Served M X Y R)} (h₀ : I [] s₀)
    (hstep : ∀ pre e m m', I pre m → Serves srv m e m' → I (pre ++ [e]) m')
    (h : Replay srv s₀ es s) : I es s := by
  induction es using List.reverseRecOn generalizing s with
  | nil =>
    cases h
    exact h₀
  | append_singleton es e ih =>
    obtain ⟨m, hm, hlast⟩ := replay_append.mp h
    exact hstep es e m s (ih hm) (replay_singleton.mp hlast)

/-- A run refines the sequential server. -/
theorem exec_replay {s₀ : S} {es : List (Event M X Y)}
    (h : exec (step srv capacity) (World.start s₀) es = some w) :
    Replay srv s₀ w.served w.state ∧
      ∀ m x, w.busy = some (m, x) → srv.take w.state m x = .working := by
  refine exec_history (I := fun _ w => Replay srv s₀ w.served w.state ∧
    ∀ m x, w.busy = some (m, x) → srv.take w.state m x = .working) ?_ ?_ h
  · exact ⟨rfl, fun m x hb => by simp [World.start] at hb⟩
  · intro _ a v v' ⟨hreplay, hwork⟩ hstep
    obtain ⟨m, -, -, rfl⟩ | ⟨x, m, rest, s, r, -, hb, -, ht, rfl⟩ |
      ⟨x, m, rest, -, hb, -, ht, rfl⟩ | ⟨y, m, x, s, r, -, hb, hf, rfl⟩ := step_cases hstep
    · exact ⟨hreplay, hwork⟩
    · refine ⟨replay_append.mpr ⟨v.state, hreplay, ?_⟩, fun m x hb => by simp at hb⟩
      exact replay_singleton.mpr (Or.inl ⟨rfl, ht⟩)
    · refine ⟨hreplay, fun m' x' hb' => ?_⟩
      simp only [Option.some.injEq, Prod.mk.injEq] at hb'
      rw [← hb'.1, ← hb'.2]
      exact ht
    · refine ⟨replay_append.mpr ⟨v.state, hreplay, ?_⟩, fun m x hb => by simp at hb⟩
      exact replay_singleton.mpr (Or.inr ⟨y, rfl, hwork m x hb, hf⟩)

end Mailbox
