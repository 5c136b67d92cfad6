import Mathlib.Order.Bounds.Basic

/-
  Clamping into a set of offers

  What is offered is a set of a linear order. A request is clamped to the greatest offer
  at or below it, or to the least offer where all are above.

  What is proved:
    1. `Clamps.mono`, `Clamps.unique` — a higher request is not clamped lower, and a
       request is clamped to one offer only.
    2. `clamps_self` — an offer is clamped to itself.
-/

namespace Clamping

variable {α : Type*} [LinearOrder α] {offers : Set α} {r r' c c' : α}

/-- What a request is clamped to. -/
def Clamps (offers : Set α) (r c : α) : Prop :=
  IsGreatest (offers ∩ Set.Iic r) c ∨ (offers ∩ Set.Iic r = ∅ ∧ IsLeast offers c)

theorem Clamps.mem (h : Clamps offers r c) : c ∈ offers := by
  rcases h with hgreatest | ⟨-, hleast⟩
  · exact hgreatest.1.1
  · exact hleast.1

/-- A higher request is not clamped lower. -/
theorem Clamps.mono (h : Clamps offers r c) (h' : Clamps offers r' c') (hr : r ≤ r') :
    c ≤ c' := by
  rcases h with hgreatest | ⟨-, hleast⟩
  · have hc : c ∈ offers ∩ Set.Iic r' := ⟨hgreatest.1.1, hgreatest.1.2.trans hr⟩
    rcases h' with hgreatest' | ⟨hempty, -⟩
    · exact hgreatest'.2 hc
    · rw [hempty] at hc
      exact absurd hc (Set.notMem_empty c)
  · exact hleast.2 h'.mem

theorem Clamps.unique (h : Clamps offers r c) (h' : Clamps offers r c') : c = c' :=
  le_antisymm (h.mono h' le_rfl) (h'.mono h le_rfl)

/-- An offer is clamped to itself. -/
theorem clamps_self (h : c ∈ offers) : Clamps offers c c :=
  Or.inl ⟨⟨h, le_refl c⟩, fun _ hx => hx.2⟩

end Clamping
