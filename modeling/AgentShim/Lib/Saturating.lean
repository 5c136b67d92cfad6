import Mathlib.Algebra.BigOperators.Group.List.Basic
import Mathlib.Algebra.Ring.Nat

/-
  Saturating sums

  Addition that stops at a largest value, and the folds made of it.

  What is proved:
    1. `foldl_add`, `foldl_eq_add` — a fold of saturating additions is the saturated
       sum.
    2. `add_eq_max_iff`, `add_lt_add_iff` — where an addition saturates, and
       where it keeps two numbers apart.
    3. `sum_cap_le_iff`, `sum_cap_fits_iff` — how a sum of capped numbers compares
       with the sum of the numbers.
-/

namespace Saturating

/-- Addition that stops at the largest value `m`. -/
def add (m a b : Nat) : Nat := min (a + b) m

variable {m a b : Nat}

theorem add_le (m a b : Nat) : add m a b ≤ m := Nat.min_le_right _ _

theorem add_of_le (h : a + b ≤ m) : add m a b = a + b := Nat.min_eq_left h

theorem add_eq_max_iff : add m a b = m ↔ m ≤ a + b := by
  unfold add
  omega

/-- Two numbers stay apart under the same addition as long as the smaller sum
does not saturate. -/
theorem add_lt_add_iff {c : Nat} : add m a c < add m b c ↔ a < b ∧ a + c < m := by
  unfold add
  omega

/-- Saturating at every step is saturating once. -/
theorem foldl_add (l : List Nat) (ha : a ≤ m) : l.foldl (add m) a = add m a l.sum := by
  induction l generalizing a with
  | nil =>
    rw [List.foldl_nil, List.sum_nil, add_of_le ha]
    rfl
  | cons b l ih =>
    rw [List.foldl_cons, ih (add_le m a b), List.sum_cons]
    unfold add
    omega

theorem add_min_right (m a b : Nat) : add m a (min b m) = add m a b := by
  unfold add
  omega

/-- A loop whose rounds add what their items take adds the sum. -/
theorem foldl_eq_add {α : Type*} {step : Nat → α → Nat} {g : α → Nat} (l : List α)
    (h : ∀ t x, t ≤ m → step t x = add m t (g x)) (ha : a ≤ m) :
    l.foldl step a = add m a (l.map g).sum := by
  induction l generalizing a with
  | nil =>
    rw [List.foldl_nil, List.map_nil, List.sum_nil, add_of_le ha]
    rfl
  | cons x l ih =>
    rw [List.foldl_cons, h a x ha, ih (add_le m a (g x)), List.map_cons, List.sum_cons]
    unfold add
    omega

/-! ## Sums of capped numbers -/

/-- Every number cut to `m`. -/
def cap (m : Nat) (xs : List Nat) : List Nat := xs.map fun x => min x m

variable {xs : List Nat}

theorem cap_drop (m : Nat) (xs : List Nat) (k : Nat) : cap m (xs.drop k) = (cap m xs).drop k :=
  List.map_drop

theorem sum_cap_le (m : Nat) (xs : List Nat) : (cap m xs).sum ≤ xs.sum := by
  induction xs with
  | nil => exact Nat.le_refl _
  | cons x xs ih =>
    have hx : min x m ≤ x := Nat.min_le_left x m
    simp only [cap, List.map_cons, List.sum_cons] at ih ⊢
    omega

/-- A sum below the cap is of numbers that were not cut. -/
theorem sum_cap_of_lt (h : (cap m xs).sum < m) : (cap m xs).sum = xs.sum := by
  induction xs with
  | nil => rfl
  | cons x xs ih =>
    simp only [cap, List.map_cons, List.sum_cons] at h ih ⊢
    have hxs := ih (by omega)
    omega

theorem sum_cap_of_le (h : xs.sum ≤ m) : (cap m xs).sum = xs.sum := by
  induction xs with
  | nil => rfl
  | cons x xs ih =>
    simp only [cap, List.map_cons, List.sum_cons] at h ih ⊢
    have hxs := ih (by omega)
    omega

/-- Below the cap, a bound holds of both sums or of neither. -/
theorem sum_cap_le_iff {bound : Nat} (h : bound < m ∨ xs.sum ≤ m) :
    (cap m xs).sum ≤ bound ↔ xs.sum ≤ bound := by
  constructor
  · intro hcap
    rcases h with hlt | hle
    · rw [← sum_cap_of_lt (Nat.lt_of_le_of_lt hcap hlt)]
      exact hcap
    · rw [← sum_cap_of_le hle]
      exact hcap
  · exact Nat.le_trans (sum_cap_le m xs)

theorem sum_cap_eq_zero (hm : 0 < m) (h : (cap m xs).sum = 0) : xs.filter (0 < ·) = [] := by
  rw [List.filter_eq_nil_iff]
  intro x hx
  have hsum : xs.sum = 0 := (sum_cap_of_lt (m := m) (by omega)).symm.trans h
  simpa using List.sum_eq_zero_iff_forall_eq_nat.mp hsum x hx

/-- The capped sum is within the cap iff the sum is, or one number is all there is. -/
theorem sum_cap_fits_iff (hm : 0 < m) :
    (cap m xs).sum ≤ m ↔ xs.sum ≤ m ∨ (xs.filter (0 < ·)).length ≤ 1 := by
  constructor
  · intro hfits
    by_cases hsum : xs.sum ≤ m
    · exact Or.inl hsum
    · refine Or.inr ?_
      induction xs with
      | nil => exact Nat.zero_le _
      | cons x xs ih =>
        simp only [cap, List.map_cons, List.sum_cons] at hfits hsum ih
        rcases Nat.eq_zero_or_pos x with rfl | hx
        · simpa using ih (by omega) (by omega)
        · -- the first number uses up the cap: nothing is left for the others
          have hrest : (cap m xs).sum = 0 := by
            rcases Nat.lt_or_ge (cap m xs).sum m with hlt | hge
            · have heq := sum_cap_of_lt hlt
              simp only [cap] at heq ⊢
              omega
            · simp only [cap] at hge ⊢
              omega
          simp [hx, sum_cap_eq_zero hm hrest]
  · rintro (hsum | hone)
    · exact Nat.le_trans (sum_cap_le m xs) hsum
    · induction xs with
      | nil => exact Nat.zero_le _
      | cons x xs ih =>
        rcases Nat.eq_zero_or_pos x with rfl | hx
        · have hxs := ih (by simpa using hone)
          simpa [cap] using hxs
        · -- no other number: the sum is the first one, cut
          have hnone : xs.filter (0 < ·) = [] := by
            simpa [hx] using hone
          have hzero : ∀ y ∈ xs, y = 0 := by
            intro y hy
            simpa using List.filter_eq_nil_iff.mp hnone y hy
          have hsum : xs.sum = 0 := List.sum_eq_zero hzero
          have hrest := sum_cap_le m xs
          simp only [cap, List.map_cons, List.sum_cons] at hrest ⊢
          omega

end Saturating
