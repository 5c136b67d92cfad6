import Mathlib.Data.List.AList
import Mathlib.Data.List.Induction

/-
  Text buffers

  Texts collected under keys, piece by piece, as a stream brings them. A buffer
  tells a text that is empty from one of which no piece came; so does `gather`,
  which says what a list of pieces comes to.

  What is proved:
    1. `lookup_pushText_self`, `lookup_pushText_ne`, `isSome_pushText` — what a
       piece does to the buffers.
    2. `gather_concat_some`, `gather_concat_none`, `gather_eq_none_iff` — what it
       does to what was gathered.
-/

namespace Buffers

abbrev Buffer := AList fun _ : Nat => String

/-- `entry(key).or_default().push_str(text)`. -/
def pushText (buf : Buffer) (key : Nat) (text : String) : Buffer :=
  buf.insert key ((buf.lookup key).getD "" ++ text)

theorem lookup_pushText_self (buf : Buffer) (key : Nat) (text : String) :
    (pushText buf key text).lookup key = some ((buf.lookup key).getD "" ++ text) :=
  AList.lookup_insert _

theorem lookup_pushText_ne {buf : Buffer} {key k : Nat} {text : String} (h : k ≠ key) :
    (pushText buf key text).lookup k = buf.lookup k :=
  AList.lookup_insert_ne h

/-- More text for a key that has some adds no key. -/
theorem isSome_pushText {buf : Buffer} {key : Nat} {text : String}
    (h : (buf.lookup key).isSome = true) (k : Nat) :
    ((pushText buf key text).lookup k).isSome = true ↔ (buf.lookup k).isSome = true := by
  by_cases hk : k = key
  · subst hk
    simp [lookup_pushText_self, h]
  · rw [lookup_pushText_ne hk]

variable {α : Type*} {read : α → Option String} {xs : List α} {x : α} {text : String}

/-- The text read off a list of pieces, if any has some. -/
def gather (read : α → Option String) (xs : List α) : Option String :=
  xs.foldl (fun acc x => match read x with
    | some text => some (acc.getD "" ++ text)
    | none => acc) none

@[simp] theorem gather_nil : gather read [] = none := rfl

theorem gather_concat_some (h : read x = some text) :
    gather read (xs ++ [x]) = some ((gather read xs).getD "" ++ text) := by
  rw [gather, List.foldl_append, ← gather, List.foldl_cons, List.foldl_nil, h]

theorem gather_concat_none (h : read x = none) : gather read (xs ++ [x]) = gather read xs := by
  rw [gather, List.foldl_append, ← gather, List.foldl_cons, List.foldl_nil, h]

theorem gather_eq_none_iff : gather read xs = none ↔ ∀ x ∈ xs, read x = none := by
  induction xs using List.reverseRecOn with
  | nil => exact iff_of_true rfl nofun
  | append_singleton xs x ih =>
    rw [List.forall_mem_append, List.forall_mem_singleton]
    cases h : read x with
    | none => rw [gather_concat_none h, ih, and_iff_left rfl]
    | some text => simp [gather_concat_some h]

end Buffers
