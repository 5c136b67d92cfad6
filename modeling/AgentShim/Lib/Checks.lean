import Mathlib.Logic.Basic

/-
  Validators as sequences of checks

  A check is an `Except ε Unit`: it passes, or it refuses with the first error
  it meets. This module is the algebra of passing: what it means that a
  sequence, a loop, a loop with an accumulator or a relabelled check passes.

  What is proved:
    1. `ensure_eq_ok`, `andThen_eq_ok`, `relabel_eq_ok` — passing of a guard,
       of a sequence and of a check whose error is rewrapped.
    2. `each_eq_ok` — a loop passes iff the check passes on every element.
    3. `eachDistinct_eq_ok` — a loop that also refuses repeated keys passes iff
       the check passes on every element and the keys are distinct.
    4. `bind_eq_ok`, `foldlM_invariant`, `foldlM_history` — a fallible loop with
       an accumulator: what every passing step keeps holds of its result.
    5. `foldlM_appends` — where every step appends to an output, the loop appends
       the outputs of its steps.
-/

namespace Checks

variable {ε : Type*} {ε' : Type*} {α : Type*} {κ : Type*}

/-- Passes when the condition holds, refuses with `e` otherwise. -/
def ensure (c : Bool) (e : ε) : Except ε Unit :=
  if c then .ok () else .error e

/-- The second check after the first has passed. -/
def andThen (x : Except ε Unit) (y : Except ε Unit) : Except ε Unit :=
  match x with
  | .ok () => y
  | .error e => .error e

/-- The checks of a list, in order, up to the first that refuses. -/
def all : List (Except ε Unit) → Except ε Unit
  | [] => .ok ()
  | x :: xs => andThen x (all xs)

/-- The check of every element, in order, up to the first refusal. -/
def each (f : α → Except ε Unit) : List α → Except ε Unit
  | [] => .ok ()
  | x :: xs => andThen (f x) (each f xs)

/-- The check of every element with its position. -/
def eachIdx (f : Nat → α → Except ε Unit) (i : Nat) : List α → Except ε Unit
  | [] => .ok ()
  | x :: xs => andThen (f i x) (eachIdx f (i + 1) xs)

/-- The check of every element, refusing with `dup k` an element whose key is
among those `seen`. -/
def eachDistinct [DecidableEq κ] (key : α → κ) (dup : κ → ε) (f : α → Except ε Unit)
    (seen : List κ) : List α → Except ε Unit
  | [] => .ok ()
  | x :: xs =>
    andThen (f x) <|
      andThen (ensure (decide (key x ∉ seen)) (dup (key x)))
        (eachDistinct key dup f (key x :: seen) xs)

/-- The same check under another error type. -/
def relabel (g : ε → ε') : Except ε Unit → Except ε' Unit
  | .ok () => .ok ()
  | .error e => .error (g e)

@[simp] theorem ensure_eq_ok {c : Bool} {e : ε} : ensure c e = .ok () ↔ c = true := by
  unfold ensure
  split <;> simp_all

@[simp] theorem andThen_eq_ok {x y : Except ε Unit} :
    andThen x y = .ok () ↔ x = .ok () ∧ y = .ok () := by
  cases x with
  | ok u => simp [andThen]
  | error e => simp [andThen]

@[simp] theorem all_nil : all ([] : List (Except ε Unit)) = .ok () := rfl

@[simp] theorem all_cons_eq_ok {x : Except ε Unit} {xs : List (Except ε Unit)} :
    all (x :: xs) = .ok () ↔ x = .ok () ∧ all xs = .ok () :=
  andThen_eq_ok

@[simp] theorem relabel_eq_ok {g : ε → ε'} {x : Except ε Unit} :
    relabel g x = .ok () ↔ x = .ok () := by
  cases x with
  | ok u => simp [relabel]
  | error e => simp [relabel]

theorem each_eq_ok {f : α → Except ε Unit} {l : List α} :
    each f l = .ok () ↔ ∀ x ∈ l, f x = .ok () := by
  induction l with
  | nil => simp [each]
  | cons x xs ih => rw [each, andThen_eq_ok, ih, List.forall_mem_cons]

theorem eachIdx_eq_ok {f : Nat → α → Except ε Unit} {l : List α} {i : Nat}
    (h : eachIdx f i l = .ok ()) : ∀ x ∈ l, ∃ j, f j x = .ok () := by
  induction l generalizing i with
  | nil => simp
  | cons x xs ih =>
    rw [eachIdx, andThen_eq_ok] at h
    rw [List.forall_mem_cons]
    exact ⟨⟨i, h.1⟩, ih h.2⟩

theorem eachDistinct_eq_ok [DecidableEq κ] {key : α → κ} {dup : κ → ε}
    {f : α → Except ε Unit} {seen : List κ} {l : List α} :
    eachDistinct key dup f seen l = .ok () ↔
      (∀ x ∈ l, f x = .ok ()) ∧ (l.map key).Nodup ∧ ∀ x ∈ l, key x ∉ seen := by
  induction l generalizing seen with
  | nil => simp [eachDistinct]
  | cons x xs ih =>
    rw [eachDistinct, andThen_eq_ok, andThen_eq_ok, ensure_eq_ok, decide_eq_true_eq, ih,
      List.forall_mem_cons, List.forall_mem_cons, List.map_cons, List.nodup_cons]
    constructor
    · rintro ⟨hx, hseen, hxs, hnodup, hfresh⟩
      refine ⟨⟨hx, hxs⟩, ⟨?_, hnodup⟩, hseen, fun y hy hys => ?_⟩
      · intro hmem
        obtain ⟨y, hy, hkey⟩ := List.mem_map.mp hmem
        exact hfresh y hy (by rw [hkey]; exact List.mem_cons_self)
      · exact hfresh y hy (List.mem_cons_of_mem _ hys)
    · rintro ⟨⟨hx, hxs⟩, ⟨hnot, hnodup⟩, hseen, hrest⟩
      refine ⟨hx, hseen, hxs, hnodup, fun y hy hys => ?_⟩
      rcases List.mem_cons.mp hys with hkey | hmem
      · exact hnot (hkey ▸ List.mem_map_of_mem hy)
      · exact hrest y hy hmem

/-! ## Fallible loops -/

theorem bind_eq_ok {β : Type*} {x : Except ε α} {f : α → Except ε β} {b : β} :
    x.bind f = .ok b ↔ ∃ a, x = .ok a ∧ f a = .ok b := by
  cases x with
  | error e => simp [Except.bind]
  | ok a => simp [Except.bind]

/-- The same for the bind of a do block. -/
theorem do_eq_ok {ε α β : Type} {x : Except ε α} {f : α → Except ε β} {b : β} :
    (x >>= f) = .ok b ↔ ∃ a, x = .ok a ∧ f a = .ok b :=
  bind_eq_ok

theorem map_eq_ok {β : Type*} {x : Except ε α} {f : α → β} {b : β} :
    x.map f = .ok b ↔ ∃ a, x = .ok a ∧ f a = b := by
  cases x with
  | error e => simp [Except.map]
  | ok a => simp [Except.map]

theorem foldlM_invariant {β ε' : Type} {γ : Type*} {f : β → γ → Except ε' β} {I : β → Prop}
    (hf : ∀ b x b', I b → f b x = .ok b' → I b') {xs : List γ} {b b' : β} (hb : I b)
    (h : xs.foldlM f b = .ok b') : I b' := by
  induction xs generalizing b with
  | nil =>
    cases h
    exact hb
  | cons x xs ih =>
    rw [List.foldlM_cons] at h
    obtain ⟨m, hm, hrest⟩ := bind_eq_ok.mp h
    exact ih (hf b x m hb hm) hrest

/-- The same for what holds of the elements done and the accumulator. -/
theorem foldlM_history {β ε' : Type} {γ : Type*} {f : β → γ → Except ε' β}
    {I : List γ → β → Prop} (hf : ∀ done b x b', I done b → f b x = .ok b' → I (done ++ [x]) b')
    {xs done : List γ} {b b' : β} (hb : I done b) (h : xs.foldlM f b = .ok b') :
    I (done ++ xs) b' := by
  induction xs generalizing done b with
  | nil =>
    cases h
    rwa [List.append_nil]
  | cons x xs ih =>
    rw [List.foldlM_cons] at h
    obtain ⟨m, hm, hrest⟩ := bind_eq_ok.mp h
    rw [List.append_cons]
    exact ih (hf done b x m hb hm) hrest

theorem foldlM_appends {β ε' : Type} {γ δ : Type*} {f : β → γ → Except ε' β} {out : β → List δ}
    {emit : γ → List δ} (hf : ∀ b x b', f b x = .ok b' → out b' = out b ++ emit x) {xs : List γ}
    {b b' : β} (h : xs.foldlM f b = .ok b') : out b' = out b ++ xs.flatMap emit := by
  induction xs generalizing b with
  | nil =>
    cases h
    rw [List.flatMap_nil, List.append_nil]
  | cons x xs ih =>
    rw [List.foldlM_cons] at h
    obtain ⟨m, hm, hrest⟩ := bind_eq_ok.mp h
    rw [ih hrest, hf b x m hm, List.flatMap_cons, List.append_assoc]

end Checks
