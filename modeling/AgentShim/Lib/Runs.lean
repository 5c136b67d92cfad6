import Mathlib.Data.List.Induction

/-
  Runs of a partial step function

  A system is a state type `S`, an operation type `A` and a step
  `S → A → Option S` that answers `none` where the operation is not allowed.
  This module is the execution of a list of operations and the three ways the
  developments above it talk about a whole run.

  What is proved:
    1. `exec_append`, `exec_cons_eq_some` — a run splits at any of its
       operations.
    2. `along_append`, `along_iff_forall_split` — a condition on every step of
       a run is a condition on the operation after each initial segment.
    3. `PreservedUnder.exec`, `PreservedUnder.along` — the invariant rule: what
       every step that meets a guard preserves holds at the end of every run
       whose steps all meet the guard, and what the invariant and the guard
       imply of a step holds of each of the run's steps.
    4. `exec_history` — the same rule for a property of the state and the
       operations that led to it.
-/

namespace Runs

variable {S : Type*} {A : Type*} {step : S → A → Option S}

/-- Runs a list of operations, stopping at the first one the state does not
allow. -/
def exec (step : S → A → Option S) : S → List A → Option S
  | s, [] => some s
  | s, a :: as => (step s a).bind fun s' => exec step s' as

@[simp] theorem exec_nil (s : S) : exec step s [] = some s := rfl

theorem exec_cons (s : S) (a : A) (as : List A) :
    exec step s (a :: as) = (step s a).bind fun s' => exec step s' as := rfl

theorem exec_cons_eq_some {s s' : S} {a : A} {as : List A} :
    exec step s (a :: as) = some s' ↔
      ∃ m, step s a = some m ∧ exec step m as = some s' := by
  rw [exec_cons, Option.bind_eq_some_iff]

theorem exec_append (s : S) (as bs : List A) :
    exec step s (as ++ bs) = (exec step s as).bind fun s' => exec step s' bs := by
  induction as generalizing s with
  | nil => rfl
  | cons a as ih =>
    rw [List.cons_append, exec_cons, exec_cons]
    cases step s a with
    | none => rfl
    | some m => exact ih m

theorem exec_append_eq_some {s s' : S} {as bs : List A} :
    exec step s (as ++ bs) = some s' ↔
      ∃ m, exec step s as = some m ∧ exec step m bs = some s' := by
  rw [exec_append, Option.bind_eq_some_iff]

/-- `P` holds of every step of the run: of the state an operation meets and the
operation itself. -/
def Along (step : S → A → Option S) (P : S → A → Prop) : S → List A → Prop
  | _, [] => True
  | s, a :: as => P s a ∧ ∀ s', step s a = some s' → Along step P s' as

@[simp] theorem along_nil (P : S → A → Prop) (s : S) : Along step P s [] := trivial

theorem along_cons {P : S → A → Prop} {s : S} {a : A} {as : List A} :
    Along step P s (a :: as) ↔ P s a ∧ ∀ s', step s a = some s' → Along step P s' as :=
  Iff.rfl

theorem along_cons_of_step {P : S → A → Prop} {s m : S} {a : A} {as : List A}
    (h : step s a = some m) : Along step P s (a :: as) ↔ P s a ∧ Along step P m as := by
  rw [along_cons]
  refine and_congr_right fun _ => ⟨fun hall => hall m h, fun hm s' hs' => ?_⟩
  rw [h] at hs'
  cases hs'
  exact hm

theorem Along.mono {P Q : S → A → Prop} (hPQ : ∀ s a, P s a → Q s a) {s : S} {as : List A}
    (h : Along step P s as) : Along step Q s as := by
  induction as generalizing s with
  | nil => trivial
  | cons a as ih => exact ⟨hPQ s a h.1, fun s' hs' => ih (h.2 s' hs')⟩

theorem Along.and {P Q : S → A → Prop} {s : S} {as : List A}
    (hP : Along step P s as) (hQ : Along step Q s as) :
    Along step (fun s a => P s a ∧ Q s a) s as := by
  induction as generalizing s with
  | nil => trivial
  | cons a as ih =>
    exact ⟨⟨hP.1, hQ.1⟩, fun s' hs' => ih (hP.2 s' hs') (hQ.2 s' hs')⟩

theorem along_append {P : S → A → Prop} {s m : S} {as bs : List A}
    (h : exec step s as = some m) :
    Along step P s (as ++ bs) ↔ Along step P s as ∧ Along step P m bs := by
  induction as generalizing s with
  | nil =>
    cases h
    exact ⟨fun hb => ⟨trivial, hb⟩, fun hb => hb.2⟩
  | cons a as ih =>
    obtain ⟨n, hn, hm⟩ := exec_cons_eq_some.mp h
    rw [List.cons_append, along_cons_of_step hn, along_cons_of_step hn, ih hm, and_assoc]

/-- The step after an initial segment of the run. -/
theorem Along.at_split {P : S → A → Prop} {s m : S} {pre post : List A} {a : A}
    (h : Along step P s (pre ++ a :: post)) (hm : exec step s pre = some m) : P m a :=
  ((along_append hm).mp h).2.1

theorem along_iff_forall_split {P : S → A → Prop} {s : S} {as : List A} :
    Along step P s as ↔
      ∀ pre a post m, as = pre ++ a :: post → exec step s pre = some m → P m a := by
  constructor
  · intro h pre a post m has hm
    subst has
    exact h.at_split hm
  · intro h
    induction as generalizing s with
    | nil => trivial
    | cons b as ih =>
      refine ⟨h [] b as s rfl rfl, fun s' hs' => ih fun pre a post m has hm => ?_⟩
      refine h (b :: pre) a post m (by rw [has, List.cons_append]) ?_
      exact exec_cons_eq_some.mpr ⟨s', hs', hm⟩

instance decidableAlong (P : S → A → Prop) [∀ s a, Decidable (P s a)] :
    (s : S) → (as : List A) → Decidable (Along step P s as)
  | _, [] => isTrue trivial
  | s, a :: as =>
    match h : step s a with
    | none =>
      decidable_of_iff (P s a)
        ⟨fun hp => ⟨hp, fun s' hs' => by rw [h] at hs'; cases hs'⟩, fun hp => hp.1⟩
    | some m =>
      have := decidableAlong P m as
      decidable_of_iff (P s a ∧ Along step P m as) (along_cons_of_step h).symm

/-- Every step that meets the guard `G` keeps `I`. -/
def PreservedUnder (step : S → A → Option S) (G : S → A → Prop) (I : S → Prop) : Prop :=
  ∀ s a s', I s → G s a → step s a = some s' → I s'

/-- Every step keeps `I`. -/
def Preserved (step : S → A → Option S) (I : S → Prop) : Prop :=
  PreservedUnder step (fun _ _ => True) I

theorem along_true (s : S) (as : List A) : Along step (fun _ _ => True) s as := by
  induction as generalizing s with
  | nil => trivial
  | cons a as ih => exact ⟨trivial, fun s' _ => ih s'⟩

theorem PreservedUnder.exec {G : S → A → Prop} {I : S → Prop}
    (hI : PreservedUnder step G I) {s s' : S} {as : List A} (hs : I s)
    (hG : Along step G s as) (h : Runs.exec step s as = some s') : I s' := by
  induction as generalizing s with
  | nil =>
    cases h
    exact hs
  | cons a as ih =>
    obtain ⟨m, hm, hrest⟩ := exec_cons_eq_some.mp h
    exact ih (hI s a m hs hG.1 hm) (hG.2 m hm) hrest

theorem Preserved.exec {I : S → Prop} (hI : Preserved step I) {s s' : S} {as : List A}
    (hs : I s) (h : Runs.exec step s as = some s') : I s' :=
  PreservedUnder.exec hI hs (along_true s as) h

/-- The invariant rule for a property of the operations performed so far. -/
theorem exec_history {I : List A → S → Prop} {s₀ s : S} {as : List A} (h₀ : I [] s₀)
    (hstep : ∀ pre a m m', I pre m → step m a = some m' → I (pre ++ [a]) m')
    (h : Runs.exec step s₀ as = some s) : I as s := by
  induction as using List.reverseRecOn generalizing s with
  | nil =>
    cases h
    exact h₀
  | append_singleton as a ih =>
    obtain ⟨m, hm, hlast⟩ := exec_append_eq_some.mp h
    obtain ⟨m', hm', hs⟩ := exec_cons_eq_some.mp hlast
    cases hs
    exact hstep as a m _ (ih hm) hm'

theorem PreservedUnder.along {G Q : S → A → Prop} {I : S → Prop}
    (hI : PreservedUnder step G I) (hQ : ∀ s a, I s → G s a → Q s a) {s : S} {as : List A}
    (hs : I s) (hG : Along step G s as) : Along step Q s as := by
  induction as generalizing s with
  | nil => trivial
  | cons a as ih =>
    exact ⟨hQ s a hs hG.1, fun s' hs' => ih (hI s a s' hs hG.1 hs') (hG.2 s' hs')⟩

end Runs
