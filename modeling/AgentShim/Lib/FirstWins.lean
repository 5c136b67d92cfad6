import Mathlib.Data.Finset.Insert
import Mathlib.Data.List.Nodup

/-
  The first one wins

  Two folds in which what comes first stays: a key belongs to the first element that
  claims it, and of the elements of the largest weight the first is taken.

  What is proved:
    1. `foldl_claim` — claiming one by one appends what is left of the list.
    2. `mem_keepFirst`, `mem_keys_keepFirst`, `nodup_keepFirst` — that is the first
       element of each key not taken before, once.
    3. `best_eq_some`, `best_eq_none` — an element of the largest weight, and none only
       where nothing has weight.
-/

namespace FirstWins

variable {α : Type*} {κ : Type*} [DecidableEq κ]

/-- An element is appended unless its key is taken. -/
def claim (key : α → κ) (state : List α × Finset κ) (a : α) : List α × Finset κ :=
  if key a ∈ state.2 then state else (state.1 ++ [a], insert (key a) state.2)

/-- The elements whose key is not taken, at the start or by an earlier one. -/
def keepFirst (key : α → κ) : Finset κ → List α → List α
  | _, [] => []
  | taken, a :: l =>
    if key a ∈ taken then keepFirst key taken l
    else a :: keepFirst key (insert (key a) taken) l

theorem foldl_claim (key : α → κ) (l : List α) (kept : List α) (taken : Finset κ) :
    (l.foldl (claim key) (kept, taken)).1 = kept ++ keepFirst key taken l := by
  induction l generalizing kept taken with
  | nil => exact (List.append_nil kept).symm
  | cons a l ih =>
    rw [List.foldl_cons, claim, keepFirst]
    by_cases ha : key a ∈ taken
    · rw [if_pos ha, if_pos ha, ih]
    · rw [if_neg ha, if_neg ha, ih, List.append_assoc, List.singleton_append]

theorem mem_keepFirst {key : α → κ} {taken : Finset κ} {l : List α} {x : α} :
    x ∈ keepFirst key taken l ↔
      key x ∉ taken ∧ l.find? (fun y => decide (key y = key x)) = some x := by
  induction l generalizing taken with
  | nil => simp [keepFirst]
  | cons a l ih =>
    rw [keepFirst, List.find?_cons]
    by_cases hkey : key a = key x
    · -- the key of the first element
      rw [decide_eq_true hkey]
      by_cases ha : key a ∈ taken
      · rw [if_pos ha, ih]
        have hx : key x ∈ taken := hkey ▸ ha
        exact ⟨fun h => absurd hx h.1, fun h => absurd hx h.1⟩
      · rw [if_neg ha, List.mem_cons, ih]
        constructor
        · rintro (rfl | ⟨hx, -⟩)
          · exact ⟨ha, rfl⟩
          · exact absurd (hkey ▸ Finset.mem_insert_self (key a) taken) hx
        · exact fun h => Or.inl (Option.some.inj h.2).symm
    · rw [decide_eq_false hkey]
      by_cases ha : key a ∈ taken
      · rw [if_pos ha, ih]
      · have hne : x ≠ a := fun h => hkey (congrArg key h.symm)
        rw [if_neg ha, List.mem_cons, ih, Finset.mem_insert]
        constructor
        · rintro (h | ⟨hx, hfind⟩)
          · exact absurd h hne
          · exact ⟨fun hmem => hx (Or.inr hmem), hfind⟩
        · rintro ⟨hx, hfind⟩
          refine Or.inr ⟨?_, hfind⟩
          rintro (h | hmem)
          · exact hkey h.symm
          · exact hx hmem

theorem mem_keys_keepFirst {key : α → κ} {taken : Finset κ} {l : List α} {k : κ} :
    k ∈ (keepFirst key taken l).map key ↔ k ∉ taken ∧ k ∈ l.map key := by
  constructor
  · intro h
    obtain ⟨x, hx, rfl⟩ := List.mem_map.mp h
    obtain ⟨hfree, hfind⟩ := mem_keepFirst.mp hx
    exact ⟨hfree, List.mem_map_of_mem (List.mem_of_find?_eq_some hfind)⟩
  · rintro ⟨hfree, hmem⟩
    obtain ⟨y, hy, rfl⟩ := List.mem_map.mp hmem
    have hsome : (l.find? fun z => decide (key z = key y)).isSome :=
      List.find?_isSome.mpr ⟨y, hy, decide_eq_true rfl⟩
    obtain ⟨x, hx⟩ := Option.isSome_iff_exists.mp hsome
    have hkey : key x = key y := by simpa using List.find?_some hx
    rw [← hkey] at hfree hx ⊢
    exact List.mem_map_of_mem (mem_keepFirst.mpr ⟨hfree, hx⟩)

theorem nodup_keepFirst (key : α → κ) (taken : Finset κ) (l : List α) :
    ((keepFirst key taken l).map key).Nodup := by
  induction l generalizing taken with
  | nil => exact List.nodup_nil
  | cons a l ih =>
    rw [keepFirst]
    by_cases ha : key a ∈ taken
    · rw [if_pos ha]
      exact ih taken
    · rw [if_neg ha, List.map_cons, List.nodup_cons]
      refine ⟨fun hmem => ?_, ih _⟩
      exact (mem_keys_keepFirst.mp hmem).1 (Finset.mem_insert_self _ _)

/-! ## The largest -/

/-- The heavier of the best element so far and the next one; nothing weighs nothing. -/
def heavier (weight : α → Nat) (best : Option α) (a : α) : Option α :=
  if (best.map weight).getD 0 < weight a then some a else best

def best (weight : α → Nat) (l : List α) : Option α := l.foldl (heavier weight) none

theorem best_concat (weight : α → Nat) (l : List α) (a : α) :
    best weight (l ++ [a]) = heavier weight (best weight l) a := by
  rw [best, List.foldl_append]
  rfl

theorem weight_le_best (weight : α → Nat) (l : List α) {x : α} (hx : x ∈ l) :
    weight x ≤ ((best weight l).map weight).getD 0 := by
  induction l using List.reverseRecOn with
  | nil => cases hx
  | append_singleton l a ih =>
    rw [best_concat, heavier]
    rcases List.mem_append.mp hx with hx | hx
    · have hle := ih hx
      split
      · rename_i hlt
        exact Nat.le_trans hle (Nat.le_of_lt hlt)
      · exact hle
    · obtain rfl := List.mem_singleton.mp hx
      split
      · exact Nat.le_refl _
      · rename_i hlt
        exact Nat.le_of_not_lt hlt

theorem best_mem {weight : α → Nat} {l : List α} {x : α} (h : best weight l = some x) :
    x ∈ l := by
  induction l using List.reverseRecOn with
  | nil => cases h
  | append_singleton l a ih =>
    rw [best_concat, heavier] at h
    split at h
    · obtain rfl := Option.some.inj h
      exact List.mem_append_right l (List.mem_singleton_self _)
    · exact List.mem_append_left [a] (ih h)

theorem best_eq_some {weight : α → Nat} {l : List α} {x : α} (h : best weight l = some x) :
    x ∈ l ∧ ∀ y ∈ l, weight y ≤ weight x := by
  refine ⟨best_mem h, fun y hy => ?_⟩
  have hle := weight_le_best weight l hy
  rwa [h] at hle

theorem best_eq_none {weight : α → Nat} {l : List α} (h : best weight l = none) :
    ∀ y ∈ l, weight y = 0 := by
  intro y hy
  have hle := weight_le_best weight l hy
  rw [h] at hle
  exact Nat.le_zero.mp hle

end FirstWins
