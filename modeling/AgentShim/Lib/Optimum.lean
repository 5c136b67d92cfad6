import Mathlib.Data.List.MinMax

/-
  The best of a list

  A running best: the first element that is admitted, then every element that ranks
  strictly above the best so far. Admission is by rank: what ranks at least as high as an
  admitted element is admitted.

  What is proved:
    1. `foldl_keep` — that is the best of the admitted elements (`List.argmax`).
    2. `foldl_keep_eq_some_iff`, `foldl_keep_isSome_iff` — where ranks tell elements
       apart, the one admitted element that outranks all others, and there is one as
       soon as one is admitted.
    3. `foldl_keep_congr` — the order of the list does not matter.
    4. `find?_eq_some_iff_of_sorted` — in an ordered list the first element with a
       property is the least one.
-/

namespace Optimum

variable {α : Type*} {β : Type*} [LinearOrder β]

/-- The best so far, after the next element. -/
def keep (admits : α → Bool) (rank : α → β) (best : Option α) (a : α) : Option α :=
  match best with
  | none => if admits a then some a else none
  | some b => if rank b < rank a then some a else some b

variable {admits : α → Bool} {rank : α → β} {l : List α} {m : α}

/-- What is not admitted does not outrank what is. -/
theorem foldl_keep_filter
    (hup : ∀ b a, admits b = true → rank b ≤ rank a → admits a = true) (l : List α)
    {best : Option α} (hbest : ∀ b, best = some b → admits b = true) :
    l.foldl (keep admits rank) best =
      (l.filter admits).foldl (List.argAux fun b c => rank c < rank b) best := by
  induction l generalizing best with
  | nil => rfl
  | cons a l ih =>
    rw [List.foldl_cons, List.filter_cons]
    by_cases ha : admits a = true
    · rw [if_pos ha, List.foldl_cons]
      have hstep : keep admits rank best a =
          List.argAux (fun b c => rank c < rank b) best a := by
        cases best with
        | none => exact if_pos ha
        | some b => rfl
      rw [← hstep]
      apply ih
      intro b hb
      cases best with
      | none =>
        obtain rfl := Option.some.inj ((if_pos ha).symm.trans hb)
        exact ha
      | some c =>
        unfold keep at hb
        dsimp only at hb
        split at hb
        · obtain rfl := Option.some.inj hb
          exact ha
        · exact hbest b hb
    · rw [if_neg ha]
      have hstep : keep admits rank best a = best := by
        cases best with
        | none => exact if_neg ha
        | some b => exact if_neg fun hlt => ha (hup b a (hbest b rfl) hlt.le)
      rw [hstep]
      exact ih hbest

theorem foldl_keep (hup : ∀ b a, admits b = true → rank b ≤ rank a → admits a = true)
    (l : List α) : l.foldl (keep admits rank) none = (l.filter admits).argmax rank :=
  foldl_keep_filter hup l fun _ hb => by cases hb

theorem foldl_keep_isSome_iff
    (hup : ∀ b a, admits b = true → rank b ≤ rank a → admits a = true) :
    (∃ m, l.foldl (keep admits rank) none = some m) ↔ ∃ a ∈ l, admits a = true := by
  rw [foldl_keep hup, ← Option.ne_none_iff_exists', ne_eq, List.argmax_eq_none,
    List.filter_eq_nil_iff]
  push Not
  rfl

/-- Where ranks tell elements apart, the best outranks every other element. -/
theorem foldl_keep_eq_some_iff
    (hup : ∀ b a, admits b = true → rank b ≤ rank a → admits a = true)
    (hinj : Function.Injective rank) :
    l.foldl (keep admits rank) none = some m ↔
      m ∈ l ∧ admits m = true ∧ ∀ a ∈ l, a ≠ m → rank a < rank m := by
  rw [foldl_keep hup]
  constructor
  · intro h
    obtain ⟨hm, hadmits⟩ := List.mem_filter.mp (List.argmax_mem h)
    refine ⟨hm, hadmits, fun a ha hne => ?_⟩
    apply lt_of_le_of_ne _ fun heq => hne (hinj heq)
    by_cases hadm : admits a = true
    · exact List.le_of_mem_argmax (List.mem_filter.mpr ⟨ha, hadm⟩) h
    · apply le_of_not_ge
      intro hle
      exact hadm (hup m a hadmits hle)
  · rintro ⟨hm, hadmits, hall⟩
    have hmem : m ∈ l.filter admits := List.mem_filter.mpr ⟨hm, hadmits⟩
    cases hbest : (l.filter admits).argmax rank with
    | none =>
      rw [List.argmax_eq_none.mp hbest] at hmem
      cases hmem
    | some b =>
      have hb : b ∈ l := (List.mem_filter.mp (List.argmax_mem hbest)).1
      have hle : rank m ≤ rank b := List.le_of_mem_argmax hmem hbest
      by_cases hne : b = m
      · rw [hne]
      · exact absurd (hall b hb hne) (not_lt_of_ge hle)

/-- The best depends on what is in the list, not on its order. -/
theorem foldl_keep_congr
    (hup : ∀ b a, admits b = true → rank b ≤ rank a → admits a = true)
    (hinj : Function.Injective rank) {l' : List α} (h : ∀ a, a ∈ l ↔ a ∈ l') :
    l.foldl (keep admits rank) none = l'.foldl (keep admits rank) none := by
  apply Option.ext
  intro m
  rw [foldl_keep_eq_some_iff hup hinj, foldl_keep_eq_some_iff hup hinj]
  simp only [h]

/-! ## The first of an ordered list -/

theorem find?_eq_some_iff_of_sorted {l : List β} (hsorted : l.Pairwise (· < ·))
    {p : β → Bool} {a : β} :
    l.find? p = some a ↔ a ∈ l ∧ p a = true ∧ ∀ b ∈ l, b < a → p b = false := by
  have hleast : ∀ {a : β}, l.find? p = some a →
      a ∈ l ∧ p a = true ∧ ∀ b ∈ l, b < a → p b = false := by
    intro a h
    obtain ⟨hp, before, after, rfl, hbefore⟩ := List.find?_eq_some_iff_append.mp h
    refine ⟨List.mem_append_right _ List.mem_cons_self, hp, fun b hb hlt => ?_⟩
    rcases List.mem_append.mp hb with hb | hb
    · simpa using hbefore b hb
    · rcases List.mem_cons.mp hb with rfl | hb
      · exact absurd hlt (lt_irrefl b)
      · have hlater := (List.pairwise_cons.mp (List.pairwise_append.mp hsorted).2.1).1 b hb
        exact absurd hlt hlater.asymm
  refine ⟨hleast, ?_⟩
  rintro ⟨ha, hp, hmin⟩
  obtain ⟨b, hb⟩ := Option.isSome_iff_exists.mp (List.find?_isSome.mpr ⟨a, ha, hp⟩)
  obtain ⟨hmem, hpb, hminb⟩ := hleast hb
  rcases lt_trichotomy a b with hlt | heq | hlt
  · exact absurd hp (by rw [hminb a ha hlt]; exact Bool.false_ne_true)
  · rw [hb, heq]
  · exact absurd hpb (by rw [hmin b hmem hlt]; exact Bool.false_ne_true)

end Optimum
