/-
  Tilings

  Ranges of indices that follow one another through a list without gap or
  overlap: what they hold, put together, is the list.

  What is proved:
    1. `Tiles.flatMap_slice` — the slices of a tiling are the list from its start.
    2. `Tiles.drop` — from any of its ranges on, a tiling is one again.
-/

namespace Tiling

/-- The indices from `start` up to `stop`. -/
structure Range where
  start : Nat
  stop : Nat
  deriving DecidableEq, Repr

variable {α : Type} {n lo k : Nat} {r : Range} {ranges : List Range}

/-- What a range holds of a list. -/
def Range.slice (r : Range) (xs : List α) : List α := (xs.drop r.start).take (r.stop - r.start)

/-- The ranges follow one another from `lo` to `n`, none of them empty. -/
def Tiles (n : Nat) : Nat → List Range → Prop
  | lo, [] => lo = n
  | lo, r :: rest => r.start = lo ∧ lo < r.stop ∧ Tiles n r.stop rest

theorem Tiles.le (h : Tiles n lo ranges) : lo ≤ n := by
  induction ranges generalizing lo with
  | nil => exact Nat.le_of_eq h
  | cons r rest ih =>
    obtain ⟨-, hlt, hrest⟩ := h
    have hstop := ih hrest
    omega

theorem Tiles.flatMap_slice (xs : List α) (h : Tiles xs.length lo ranges) :
    ranges.flatMap (fun r => r.slice xs) = xs.drop lo := by
  induction ranges generalizing lo with
  | nil =>
    have hlo : lo = xs.length := h
    simp [hlo]
  | cons r rest ih =>
    obtain ⟨rfl, hlt, hrest⟩ := h
    calc (r :: rest).flatMap (fun r => r.slice xs)
        = r.slice xs ++ xs.drop r.stop := by rw [List.flatMap_cons, ih hrest]
      _ = (xs.drop r.start).take (r.stop - r.start) ++
            (xs.drop r.start).drop (r.stop - r.start) := by
          rw [List.drop_drop, Nat.add_sub_cancel' (Nat.le_of_lt hlt)]
          rfl
      _ = xs.drop r.start := List.take_append_drop _ _

theorem Tiles.drop (h : Tiles n lo ranges) (hr : ranges[k]? = some r) :
    Tiles n r.start (ranges.drop k) := by
  induction ranges generalizing lo k with
  | nil => simp at hr
  | cons r' rest ih =>
    cases k with
    | zero =>
      cases hr
      exact ⟨rfl, h.1 ▸ h.2.1, h.2.2⟩
    | succ k =>
      rw [List.getElem?_cons_succ] at hr
      exact ih h.2.2 hr

/-- A range of a tiling starts inside the list. -/
theorem Tiles.start_lt (h : Tiles n lo ranges) (hr : ranges[k]? = some r) : r.start < n := by
  have hdrop := h.drop hr
  obtain ⟨hk, rfl⟩ := List.getElem?_eq_some_iff.mp hr
  rw [List.drop_eq_getElem_cons hk] at hdrop
  exact Nat.lt_of_lt_of_le hdrop.2.1 hdrop.2.2.le

end Tiling
