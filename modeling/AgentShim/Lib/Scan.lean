import Mathlib.Data.List.Basic

/-
  Scanning a list for a pattern

  A matcher says where in a haystack a pattern matches and where that match
  ends. A search returns the leftmost match; a scan returns the matches one
  after the other, each search from the end of the last match, and an empty
  match is not taken where the last one ended. Replacing puts something in the
  place of each match of the scan.

  What is proved:
    1. `find_spec`, `find_leftmost` — a search returns a match at or after its
       start, and nothing matches before it.
    2. `iterate_fuel` — a scan stops on its own: more steps find no more.
    3. `findIter_never`, `replaceAll_atStart` — the pattern that matches nowhere, and
       replacing by the one that matches the start only.
-/

namespace Scan

variable {α : Type*}

/-- What a pattern matches: from a position of a haystack, where its match
ends. -/
structure Matcher (α : Type*) where
  matchAt : List α → Nat → Option Nat
  bounds : ∀ hay start stop, matchAt hay start = some stop → start ≤ stop ∧ stop ≤ hay.length

namespace Matcher

/-- The leftmost match that starts at or after a position. -/
def find (m : Matcher α) (hay : List α) (start : Nat) : Option (Nat × Nat) :=
  (List.range' start (hay.length + 1 - start)).findSome? fun i => (m.matchAt hay i).map (i, ·)

/-- The matches from a position on; `after` says that the last match ended
there. -/
def iterate (m : Matcher α) (hay : List α) : Nat → Nat → Bool → List (Nat × Nat)
  | 0, _, _ => []
  | fuel + 1, start, after =>
    match m.find hay start with
    | none => []
    | some x =>
      if x.2 = start ∧ after = true then
        -- an empty match where the last one ended: search on behind it
        match m.find hay (start + 1) with
        | none => []
        | some y => y :: m.iterate hay fuel y.2 true
      else x :: m.iterate hay fuel x.2 true

/-- All matches of a scan. -/
def findIter (m : Matcher α) (hay : List α) : List (Nat × Nat) :=
  m.iterate hay (2 * hay.length + 2) 0 false

/-- The haystack from a position on, each match replaced. -/
def replaceFrom (rewrite : Nat × Nat → List α) (hay : List α) : Nat → List (Nat × Nat) → List α
  | pos, [] => hay.drop pos
  | pos, x :: xs =>
    (hay.drop pos).take (x.1 - pos) ++ rewrite x ++ replaceFrom rewrite hay x.2 xs

def replaceAll (m : Matcher α) (rewrite : Nat × Nat → List α) (hay : List α) : List α :=
  replaceFrom rewrite hay 0 (m.findIter hay)

theorem find_spec {m : Matcher α} {hay : List α} {start : Nat} {x : Nat × Nat}
    (h : m.find hay start = some x) :
    start ≤ x.1 ∧ x.1 ≤ x.2 ∧ x.2 ≤ hay.length ∧ m.matchAt hay x.1 = some x.2 := by
  obtain ⟨i, hi, hx⟩ := List.exists_of_findSome?_eq_some h
  obtain ⟨stop, hstop, rfl⟩ := Option.map_eq_some_iff.mp hx
  obtain ⟨hle, hlength⟩ := m.bounds hay i stop hstop
  exact ⟨(List.mem_range'_1.mp hi).1, hle, hlength, hstop⟩

theorem find_eq_none_iff {m : Matcher α} {hay : List α} {start : Nat} :
    m.find hay start = none ↔ ∀ i, start ≤ i → m.matchAt hay i = none := by
  unfold find
  rw [List.findSome?_eq_none_iff]
  constructor
  · intro h i hi
    cases hmatch : m.matchAt hay i with
    | none => rfl
    | some stop =>
      -- a match lies within the haystack
      obtain ⟨hle, hlength⟩ := m.bounds hay i stop hmatch
      have hnone := h i (List.mem_range'_1.mpr ⟨hi, by omega⟩)
      rw [hmatch] at hnone
      cases hnone
  · intro h i hi
    rw [h i (List.mem_range'_1.mp hi).1]
    rfl

/-- Nothing matches before the match found. -/
theorem find_leftmost {m : Matcher α} {hay : List α} {start : Nat} {x : Nat × Nat}
    (h : m.find hay start = some x) {i : Nat} (hstart : start ≤ i) (hi : i < x.1) :
    m.matchAt hay i = none := by
  unfold find at h
  obtain ⟨before, j, after, hsplit, hj, hbefore⟩ := List.findSome?_eq_some_iff.mp h
  obtain ⟨stop, hstop, rfl⟩ := Option.map_eq_some_iff.mp hj
  have hmem : i ∈ List.range' start (hay.length + 1 - start) := by
    obtain ⟨hle, hlength⟩ := m.bounds hay j stop hstop
    exact List.mem_range'_1.mpr ⟨hstart, by omega⟩
  have hsorted := List.pairwise_lt_range' (s := start) (n := hay.length + 1 - start)
  rw [hsplit] at hmem hsorted
  rcases List.mem_append.mp hmem with hmem | hmem
  · exact Option.map_eq_none_iff.mp (hbefore i hmem)
  · rcases List.mem_cons.mp hmem with rfl | hmem
    · exact absurd hi (Nat.lt_irrefl _)
    · -- the positions after the match are larger
      have hlt := (List.pairwise_cons.mp (List.pairwise_append.mp hsorted).2.1).1 i hmem
      omega

/-- The steps a scan may still take. -/
def measure (hay : List α) (start : Nat) (after : Bool) : Nat :=
  2 * (hay.length - start) + if after then 0 else 1

theorem iterate_fuel {m : Matcher α} {hay : List α} {fuel start : Nat} {after : Bool}
    (hstart : start ≤ hay.length) (h : measure hay start after < fuel) :
    m.iterate hay (fuel + 1) start after = m.iterate hay fuel start after := by
  induction fuel generalizing start after with
  | zero => cases h
  | succ fuel ih =>
    rw [iterate, iterate]
    cases hfind : m.find hay start with
    | none => rfl
    | some x =>
      obtain ⟨hx₁, hx₂, hx₃, -⟩ := find_spec hfind
      dsimp only
      by_cases hempty : x.2 = start ∧ after = true
      · rw [if_pos hempty, if_pos hempty]
        cases hnext : m.find hay (start + 1) with
        | none => rfl
        | some y =>
          obtain ⟨hy₁, hy₂, hy₃, -⟩ := find_spec hnext
          dsimp only
          rw [ih hy₃]
          rw [measure, hempty.2] at h
          simp only [measure, if_true] at h ⊢
          omega
      · rw [if_neg hempty, if_neg hempty]
        rw [ih hx₃]
        -- the next search starts later, or right behind a match
        cases after with
        | false =>
          simp only [measure, if_true, Bool.false_eq_true, if_false] at h ⊢
          omega
        | true =>
          have hne : x.2 ≠ start := fun heq => hempty ⟨heq, rfl⟩
          simp only [measure, if_true] at h ⊢
          omega

/-- The pattern that matches nowhere. -/
def never : Matcher α where
  matchAt := fun _ _ => none
  bounds := by
    intro hay start stop h
    cases h

/-- The pattern that matches the start, and nothing of what follows. -/
def atStart : Matcher α where
  matchAt := fun _ start => if start = 0 then some 0 else none
  bounds := by
    intro hay start stop h
    split at h
    · cases h
      omega
    · cases h

/-- The pattern that matches one word. -/
def literal [DecidableEq α] (word : List α) : Matcher α where
  matchAt := fun hay start =>
    if start ≤ hay.length ∧ word.isPrefixOf (hay.drop start) then some (start + word.length)
    else none
  bounds := by
    intro hay start stop h
    split at h
    · rename_i hword
      cases h
      have hle := (List.isPrefixOf_iff_prefix.mp hword.2).length_le
      rw [List.length_drop] at hle
      omega
    · cases h

theorem findIter_never (hay : List α) : never.findIter hay = [] := by
  have hfind : never.find hay 0 = none := find_eq_none_iff.mpr fun _ _ => rfl
  rw [findIter, iterate, hfind]

theorem findIter_atStart (hay : List α) : atStart.findIter hay = [(0, 0)] := by
  have hmatch : atStart.matchAt hay 0 = some 0 := rfl
  have hfirst : atStart.find hay 0 = some (0, 0) := by
    rw [find, Nat.sub_zero, List.range'_succ, List.findSome?_cons, hmatch]
    rfl
  have hnone : atStart.find hay 1 = none :=
    find_eq_none_iff.mpr fun i hi => if_neg (by omega)
  rw [findIter, iterate, hfirst]
  simp [iterate, hfirst, hnone]

theorem replaceAll_atStart (rewrite : Nat × Nat → List α) (hay : List α) :
    atStart.replaceAll rewrite hay = rewrite (0, 0) ++ hay := by
  rw [replaceAll, findIter_atStart]
  rfl

end Matcher

end Scan
