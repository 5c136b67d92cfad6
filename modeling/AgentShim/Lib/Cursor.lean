import Mathlib.Data.List.Basic
import Mathlib.Data.List.TakeDrop

/-
  Cursors into a list

  A scanner that walks a list by an index is at a cursor: an offset and what the
  list reads from there on. What a scanner does is then stated of what it reads,
  and the offset follows by the length.

  What is proved:
    1. `At.get`, `At.step`, `At.append` — reading at a cursor and moving it.
    2. `skipWhile_append` — skipping stops at the first element that fails.
-/

namespace Cursor

variable {α : Type*} {body xs rest : List α} {b : α} {i : Nat}

/-- From offset `i` on, `body` reads `rest`. -/
structure At (body : List α) (i : Nat) (rest : List α) : Prop where
  le : i ≤ body.length
  drop : body.drop i = rest

theorem At.start (body : List α) : At body 0 body := ⟨Nat.zero_le _, rfl⟩

theorem At.of_append (front back : List α) : At (front ++ back) front.length back :=
  ⟨by rw [List.length_append]; exact Nat.le_add_right _ _, List.drop_left⟩

/-- The body up to a cursor, and what is read from there. -/
theorem At.take_append (h : At body i rest) : body.take i ++ rest = body := by
  rw [← h.drop, List.take_append_drop]

theorem At.get (h : At body i (b :: rest)) : body[i]? = some b := by
  rw [← List.head?_drop, h.drop]
  rfl

theorem At.append (h : At body i (xs ++ rest)) : At body (i + xs.length) rest := by
  have hlength : body.length - i = xs.length + rest.length := by
    rw [← List.length_drop, h.drop, List.length_append]
  have hle := h.le
  refine ⟨by omega, ?_⟩
  rw [← List.drop_drop, h.drop, List.drop_left]

theorem At.step (h : At body i (b :: rest)) : At body (i + 1) rest := by
  have hone : At body i ([b] ++ rest) := h
  exact hone.append

/-- What a scanner has read between two cursors. -/
theorem At.slice (h : At body i (xs ++ rest)) : (body.drop i).take xs.length = xs := by
  rw [h.drop, List.take_left]

/-- The offset of the first element, from `i` on, that fails `p`. -/
def skipWhile (p : α → Bool) : List α → Nat → Nat
  | [], i => i
  | b :: rest, i => if p b then skipWhile p rest (i + 1) else i

theorem le_skipWhile (p : α → Bool) (xs : List α) (i : Nat) : i ≤ skipWhile p xs i := by
  induction xs generalizing i with
  | nil => exact Nat.le_refl _
  | cons b rest ih =>
    rw [skipWhile]
    split
    · exact Nat.le_trans (Nat.le_succ i) (ih (i + 1))
    · exact Nat.le_refl _

theorem skipWhile_append {p : α → Bool} (hxs : ∀ x ∈ xs, p x = true)
    (hrest : ∀ x ∈ rest.head?, p x = false) (i : Nat) :
    skipWhile p (xs ++ rest) i = i + xs.length := by
  induction xs generalizing i with
  | nil =>
    cases rest with
    | nil => rfl
    | cons b rest =>
      have hb : p b = false := hrest b rfl
      rw [List.nil_append, skipWhile, hb]
      rfl
  | cons x xs ih =>
    rw [List.cons_append, skipWhile, if_pos (hxs x List.mem_cons_self),
      ih (fun y hy => hxs y (List.mem_cons_of_mem _ hy)), List.length_cons]
    omega

end Cursor
