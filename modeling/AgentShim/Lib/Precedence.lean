import Mathlib.Data.List.Induction
import Mathlib.Data.List.Sort

/-
  Precedence among declared alternatives

  Two rules by which a list of declarations is read: a later declaration under
  the same key replaces an earlier one, and of the declarations that apply to a
  query the longest is taken.

  What is proved:
    1. `mem_keepLast_iff` — replacing earlier declarations keeps, for each key,
       the last one and no other.
    2. `exists_mem_keepLast` — a key that is declared keeps a declaration.
    3. `head?_eq_getLast?_iff` — the first and the last of distinct
       declarations agree only where there is at most one.
    4. `find?_sortDesc_eq_some`, `find?_sortDesc_eq_none` — the first match of
       the list sorted by descending length is a longest match, and there is no
       match only where nothing applies.
    5. `lastOf_iff`, `LastOf.unique` — the last declaration of a kind.
-/

namespace Precedence

variable {α : Type*} {κ : Type*} [DecidableEq κ]

/-- A new declaration replaces the earlier one under its key and goes last. -/
def replaceLast (key : α → κ) (l : List α) (x : α) : List α :=
  l.filter (fun y => key y ≠ key x) ++ [x]

/-- The declarations that no later one replaces. -/
def keepLast (key : α → κ) (l : List α) : List α := l.foldl (replaceLast key) []

@[simp] theorem keepLast_nil (key : α → κ) : keepLast key [] = [] := rfl

theorem keepLast_concat (key : α → κ) (l : List α) (x : α) :
    keepLast key (l ++ [x]) = replaceLast key (keepLast key l) x := by
  rw [keepLast, List.foldl_append]
  rfl

theorem mem_replaceLast {key : α → κ} {l : List α} {x y : α} :
    y ∈ replaceLast key l x ↔ (y ∈ l ∧ key y ≠ key x) ∨ y = x := by
  simp [replaceLast]

theorem mem_keepLast_iff {key : α → κ} {l : List α} {y : α} :
    y ∈ keepLast key l ↔ (l.filter fun x => key x = key y).getLast? = some y := by
  induction l using List.reverseRecOn with
  | nil => simp
  | append_singleton l x ih =>
    rw [keepLast_concat, mem_replaceLast, ih, List.filter_append]
    by_cases hk : key x = key y
    · simp [hk, eq_comm]
    · have hk' : key y ≠ key x := fun h => hk h.symm
      have hy : y ≠ x := fun h => hk (by rw [h])
      simp [hk, hk', hy]

theorem mem_of_mem_keepLast {key : α → κ} {l : List α} {y : α} (h : y ∈ keepLast key l) :
    y ∈ l :=
  (List.mem_filter.mp (List.mem_of_getLast? (mem_keepLast_iff.mp h))).1

/-- A declaration under every key that has one survives. -/
theorem exists_mem_keepLast {key : α → κ} {l : List α} {x : α} (h : x ∈ l) :
    ∃ y ∈ keepLast key l, key y = key x := by
  have hne : (l.filter fun y => key y = key x) ≠ [] :=
    List.ne_nil_of_mem (List.mem_filter.mpr ⟨h, by simp⟩)
  obtain ⟨y, hy⟩ : ∃ y, (l.filter fun y => key y = key x).getLast? = some y :=
    ⟨_, List.getLast?_eq_some_getLast hne⟩
  have hkey : key y = key x := by simpa using (List.mem_filter.mp (List.mem_of_getLast? hy)).2
  exact ⟨y, mem_keepLast_iff.mpr (by rw [hkey]; exact hy), hkey⟩

/-- First and last agree exactly in a list of at most one element. -/
theorem head?_eq_getLast?_iff {l : List α} (hl : l.Nodup) :
    l.head? = l.getLast? ↔ l.length ≤ 1 := by
  cases l with
  | nil => simp
  | cons a l =>
    cases l with
    | nil => simp
    | cons b l =>
      have hne : a ≠ (b :: l).getLast (List.cons_ne_nil b l) := by
        intro h
        have hmem := List.getLast_mem (List.cons_ne_nil b l)
        rw [← h] at hmem
        exact (List.nodup_cons.mp hl).1 hmem
      simp [List.getLast?_eq_some_getLast, hne]

/-- The last of the declarations with the property. -/
def LastOf (p : α → Prop) (l : List α) (x : α) : Prop :=
  ∃ before after, l = before ++ x :: after ∧ p x ∧ ∀ y ∈ after, ¬ p y

theorem LastOf.mem {p : α → Prop} {l : List α} {x : α} (h : LastOf p l x) : x ∈ l ∧ p x := by
  obtain ⟨before, after, rfl, hx, -⟩ := h
  exact ⟨by simp, hx⟩

theorem lastOf_iff {p : α → Prop} [DecidablePred p] {l : List α} {x : α} :
    LastOf p l x ↔ (l.filter p).getLast? = some x := by
  constructor
  · intro h
    obtain ⟨before, after, rfl, hx, hafter⟩ := h
    have hnone : after.filter p = [] := by
      apply List.filter_eq_nil_iff.mpr
      intro y hy
      simpa using hafter y hy
    rw [List.filter_append, List.filter_cons_of_pos (by simpa using hx), hnone,
      List.getLast?_concat]
  · intro h
    obtain ⟨front, hfront⟩ := List.getLast?_eq_some_iff.mp h
    obtain ⟨before, rest, rfl, -, hrest⟩ := List.filter_eq_append_iff.mp hfront
    obtain ⟨skipped, after, rfl, -, hx, hafter⟩ := List.filter_eq_cons_iff.mp hrest
    refine ⟨before ++ skipped, after, by rw [List.append_assoc], by simpa using hx, ?_⟩
    intro y hy
    simpa using List.filter_eq_nil_iff.mp hafter y hy

theorem LastOf.unique {p : α → Prop} {l : List α} {x y : α} (hx : LastOf p l x)
    (hy : LastOf p l y) : x = y := by
  classical
  rw [lastOf_iff] at hx hy
  exact Option.some.inj (hx.symm.trans hy)

theorem exists_lastOf {p : α → Prop} {l : List α} {x : α} (hmem : x ∈ l) (hx : p x) :
    ∃ y, LastOf p l y := by
  classical
  have hne : l.filter p ≠ [] :=
    List.ne_nil_of_mem (List.mem_filter.mpr ⟨hmem, by simpa using hx⟩)
  exact ⟨_, lastOf_iff.mpr (List.getLast?_eq_some_getLast hne)⟩

variable {len : α → Nat}

/-- Stable sort by descending length. -/
def sortDesc (len : α → Nat) (l : List α) : List α :=
  l.insertionSort fun a b => len b ≤ len a

theorem mem_sortDesc {l : List α} {x : α} : x ∈ sortDesc len l ↔ x ∈ l :=
  List.mem_insertionSort _

theorem pairwise_sortDesc (l : List α) :
    (sortDesc len l).Pairwise fun a b => len b ≤ len a := by
  have : Std.Total (fun a b : α => len b ≤ len a) := ⟨fun a b => Nat.le_total (len b) (len a)⟩
  have : IsTrans α (fun a b : α => len b ≤ len a) := ⟨fun _ _ _ hab hbc => Nat.le_trans hbc hab⟩
  exact List.pairwise_insertionSort _ l

theorem find?_eq_some_of_pairwise {r : α → α → Prop} {l : List α} (hl : l.Pairwise r)
    {p : α → Bool} {x : α} (h : l.find? p = some x) : ∀ y ∈ l, p y = true → y = x ∨ r x y := by
  induction l with
  | nil => cases h
  | cons a l ih =>
    rw [List.pairwise_cons] at hl
    rw [List.find?_cons] at h
    intro y hy hpy
    cases ha : p a with
    | true =>
      rw [ha] at h
      obtain rfl := Option.some.inj h
      rcases List.mem_cons.mp hy with hya | hyl
      · exact Or.inl hya
      · exact Or.inr (hl.1 y hyl)
    | false =>
      rw [ha] at h
      rcases List.mem_cons.mp hy with rfl | hyl
      · rw [ha] at hpy
        cases hpy
      · exact ih hl.2 h y hyl hpy

theorem find?_sortDesc_eq_some {l : List α} {p : α → Bool} {x : α}
    (h : (sortDesc len l).find? p = some x) :
    x ∈ l ∧ p x = true ∧ ∀ y ∈ l, p y = true → len y ≤ len x := by
  refine ⟨mem_sortDesc.mp (List.mem_of_find?_eq_some h), List.find?_some h, fun y hy hpy => ?_⟩
  rcases find?_eq_some_of_pairwise (pairwise_sortDesc l) h y (mem_sortDesc.mpr hy) hpy with
    rfl | hle
  · exact Nat.le_refl _
  · exact hle

theorem find?_sortDesc_eq_none {l : List α} {p : α → Bool} :
    (sortDesc len l).find? p = none ↔ ∀ y ∈ l, p y = false := by
  rw [List.find?_eq_none]
  constructor
  · intro h y hy
    simpa using h y (mem_sortDesc.mpr hy)
  · intro h y hy
    simpa using h y (mem_sortDesc.mp hy)

end Precedence
