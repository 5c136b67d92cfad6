import Mathlib.Data.List.Basic
import Mathlib.Data.List.Dedup
import Mathlib.Data.List.Forall2
import Mathlib.Data.List.Induction
import Mathlib.Data.List.Sort

/-
  Selections from a list

  A selection is `filterMap` of a partial function. Where one selects the same
  as another or nothing, the selections are equal iff the functions agree on
  every element.

  What is proved:
    1. `filterMap_sublist_of_weaker` — the weaker selection is a sublist.
    2. `filterMap_eq_iff_of_weaker` — it is the whole one iff nothing selected
       was dropped.
    3. `length_eq_one_of_flatMap`, `imp_of_countP_eq` — where a sum of parts is as
       large as it can be, each part is.
    4. `foldl_or` — where later selections replace earlier ones, the last is left.
    5. `nodup_firsts`, `mem_firsts`, `firsts_concat`, `length_firsts_iff`,
       `firsts_eq_range` — the elements of a list in the order in which they come first.
    6. `mapRun_eq_iff`, `mapRun_mapRun` — a list whose leading run is mapped apart.
    7. `forall₂_append_iff`, `forall₂_flatMap_iff` — lists related element by
       element, in parts, or after each element became one other.
    8. `forall₂_filterMap_iff` — a list a partial map keeps, element by element.
    9. `flatMap_sublist_of_forall₂` — parts of what related elements give.
   10. `eq_of_filterMap_eq`, `filterMap_eq_self_iff` — selections that come to the same,
       and one that changes nothing.
   11. `pairwise_insertionSort_of`, `insertionSort_concat`, `find?_least` — what a stable
       sort leaves in order and last, and what is found first in it.
-/

namespace Lists

variable {α β : Type*} {f g : α → Option β}

theorem filterMap_concat (f : α → Option β) (l : List α) (x : α) :
    (l ++ [x]).filterMap f = l.filterMap f ++ (f x).toList := by
  rw [List.filterMap_append]
  cases h : f x <;> simp [h]

/-- `f` selects what `g` does, or nothing. -/
def Weaker (f g : α → Option β) : Prop := ∀ x, f x = none ∨ f x = g x

theorem filterMap_sublist_of_weaker (h : Weaker f g) (l : List α) :
    (l.filterMap f).Sublist (l.filterMap g) := by
  induction l with
  | nil => exact List.Sublist.refl _
  | cons x xs ih =>
    rcases h x with hnone | hsame
    · rw [List.filterMap_cons_none hnone]
      cases hg : g x with
      | none => rwa [List.filterMap_cons_none hg]
      | some y =>
        rw [List.filterMap_cons_some hg]
        exact ih.cons y
    · cases hg : g x with
      | none => rwa [List.filterMap_cons_none (hsame.trans hg), List.filterMap_cons_none hg]
      | some y =>
        rw [List.filterMap_cons_some (hsame.trans hg), List.filterMap_cons_some hg]
        exact ih.cons_cons y

theorem filterMap_eq_iff_of_weaker (h : Weaker f g) {l : List α} :
    l.filterMap f = l.filterMap g ↔ ∀ x ∈ l, f x = g x := by
  constructor
  · intro heq
    induction l with
    | nil => simp
    | cons x xs ih =>
      have hsub := filterMap_sublist_of_weaker h xs
      rw [List.forall_mem_cons]
      cases hg : g x with
      | none =>
        have hf : f x = none := (h x).elim id fun hsame => hsame.trans hg
        rw [List.filterMap_cons_none hf, List.filterMap_cons_none hg] at heq
        exact ⟨hf, ih heq⟩
      | some y =>
        rcases h x with hnone | hsame
        · -- a dropped element leaves the selection too short
          rw [List.filterMap_cons_none hnone, List.filterMap_cons_some hg] at heq
          have hlength := hsub.length_le
          rw [heq, List.length_cons] at hlength
          omega
        · rw [List.filterMap_cons_some (hsame.trans hg), List.filterMap_cons_some hg] at heq
          exact ⟨hsame.trans hg, ih (List.cons.inj heq).2⟩
  · exact fun hall => List.filterMap_congr hall

theorem length_flatMap_le {f : α → List β} {l : List α} (hone : ∀ x ∈ l, (f x).length ≤ 1) :
    (l.flatMap f).length ≤ l.length := by
  induction l with
  | nil => exact Nat.le_refl 0
  | cons x xs ih =>
    obtain ⟨hx, hxs⟩ := List.forall_mem_cons.mp hone
    have hrest := ih hxs
    rw [List.flatMap_cons, List.length_append, List.length_cons]
    omega

/-- Each element gives at most one, and together they give as many as there are. -/
theorem length_eq_one_of_flatMap {f : α → List β} {l : List α}
    (hone : ∀ x ∈ l, (f x).length ≤ 1) (hlength : (l.flatMap f).length = l.length) :
    ∀ x ∈ l, (f x).length = 1 := by
  induction l with
  | nil => exact nofun
  | cons x xs ih =>
    obtain ⟨hx, hxs⟩ := List.forall_mem_cons.mp hone
    have hle := length_flatMap_le hxs
    rw [List.flatMap_cons, List.length_append, List.length_cons] at hlength
    refine List.forall_mem_cons.mpr ⟨by omega, ih hxs (by omega)⟩

theorem imp_of_countP_eq {p q : α → Bool} {l : List α} (himp : ∀ x ∈ l, p x = true → q x = true)
    (hcount : l.countP p = l.countP q) : ∀ x ∈ l, q x = true → p x = true := by
  induction l with
  | nil => exact nofun
  | cons x xs ih =>
    obtain ⟨hx, hxs⟩ := List.forall_mem_cons.mp himp
    have hle : xs.countP p ≤ xs.countP q := List.countP_mono_left hxs
    rw [List.countP_cons, List.countP_cons] at hcount
    cases hp : p x with
    | true =>
      rw [hp, hx hp] at hcount
      exact List.forall_mem_cons.mpr ⟨fun _ => hp, ih hxs (by simpa using hcount)⟩
    | false =>
      cases hq : q x with
      | true =>
        rw [hp, hq] at hcount
        simp at hcount
        omega
      | false =>
        rw [hp, hq] at hcount
        refine List.forall_mem_cons.mpr ⟨fun h => ?_, ih hxs (by simpa using hcount)⟩
        rw [hq] at h
        cases h

/-- The last that is selected wins. -/
theorem foldl_or (f : α → Option β) (l : List α) :
    l.foldl (fun acc x => (f x).or acc) none = (l.filterMap f).getLast? := by
  induction l using List.reverseRecOn with
  | nil => rfl
  | append_singleton l x ih =>
    rw [List.foldl_append, List.foldl_cons, List.foldl_nil, ih, filterMap_concat]
    cases f x with
    | none => rw [Option.none_or, Option.toList_none, List.append_nil]
    | some y => rw [Option.some_or, Option.toList_some, List.getLast?_concat]

/-! ## First occurrences -/

section Firsts

variable [DecidableEq α]

/-- The elements of a list, each where it comes first. -/
def firsts (l : List α) : List α := l.reverse.dedup.reverse

theorem nodup_firsts (l : List α) : (firsts l).Nodup :=
  List.nodup_reverse.mpr (List.nodup_dedup _)

theorem mem_firsts {l : List α} {x : α} : x ∈ firsts l ↔ x ∈ l := by
  rw [firsts, List.mem_reverse, List.mem_dedup, List.mem_reverse]

theorem firsts_concat (l : List α) (x : α) :
    firsts (l ++ [x]) = if x ∈ l then firsts l else firsts l ++ [x] := by
  rw [firsts, List.reverse_append, List.reverse_singleton, List.singleton_append]
  by_cases h : x ∈ l
  · rw [if_pos h, List.dedup_cons_of_mem (List.mem_reverse.mpr h), firsts]
  · have hnew : x ∉ l.reverse := fun hx => h (List.mem_reverse.mp hx)
    rw [if_neg h, List.dedup_cons_of_notMem hnew, List.reverse_cons, firsts]

end Firsts

/-- Numbers that come first in their order are counted up. -/
theorem firsts_eq_range {l : List Nat}
    (h : ∀ past x rest, l = past ++ x :: rest → ∀ y < x, y ∈ past) :
    ∃ n, firsts l = List.range n := by
  induction l using List.reverseRecOn with
  | nil => exact ⟨0, rfl⟩
  | append_singleton l x ih =>
    obtain ⟨n, hn⟩ := ih fun past y rest hsplit => h past y (rest ++ [x]) (by simp [hsplit])
    have hmem : ∀ y, y ∈ l ↔ y < n := by
      intro y
      rw [← mem_firsts, hn, List.mem_range]
    rw [firsts_concat, hn]
    by_cases hx : x ∈ l
    · exact ⟨n, if_pos hx⟩
    · -- every number below is there, and no other
      have hxn : x = n := by
        have hge : n ≤ x := by
          rw [hmem] at hx
          omega
        rcases Nat.lt_or_eq_of_le hge with hlt | heq
        · have hn' := (hmem n).mp (h l x [] rfl n hlt)
          omega
        · exact heq.symm
      exact ⟨n + 1, by rw [if_neg hx, hxn, List.range_succ]⟩

/-! ## A leading run -/

section LeadingRun

variable {p : α → Bool} {x : α} {l : List α}

/-- The leading run by one map, what follows by another. -/
def mapRun (p : α → Bool) (f g : α → β) (l : List α) : List β :=
  (l.takeWhile p).map f ++ (l.dropWhile p).map g

theorem mapRun_cons_of_pos {f g : α → β} (h : p x = true) :
    mapRun p f g (x :: l) = f x :: mapRun p f g l := by
  simp [mapRun, h]

theorem mapRun_cons_of_neg {f g : α → β} (h : p x = false) :
    mapRun p f g (x :: l) = (x :: l).map g := by
  simp [mapRun, h]

theorem mapRun_eq_iff {f g f' g' : α → β} :
    mapRun p f g l = mapRun p f' g' l ↔
      (∀ x ∈ l.takeWhile p, f x = f' x) ∧ ∀ x ∈ l.dropWhile p, g x = g' x := by
  have hlength : ((l.takeWhile p).map f).length = ((l.takeWhile p).map f').length := by
    rw [List.length_map, List.length_map]
  rw [← List.map_inj_left, ← List.map_inj_left]
  constructor
  · exact fun h => List.append_inj h hlength
  · exact fun h => congrArg₂ (· ++ ·) h.1 h.2

/-- Maps that leave the run where it ends are made one after the other. -/
theorem mapRun_mapRun {f g f' g' : α → α} (hf : ∀ x, p (f x) = p x) (hg : ∀ x, p (g x) = p x)
    (l : List α) :
    mapRun p f' g' (mapRun p f g l) = mapRun p (fun x => f' (f x)) (fun x => g' (g x)) l := by
  induction l with
  | nil => rfl
  | cons x l ih =>
    cases hx : p x with
    | true =>
      rw [mapRun_cons_of_pos hx, mapRun_cons_of_pos ((hf x).trans hx), mapRun_cons_of_pos hx, ih]
    | false =>
      rw [mapRun_cons_of_neg hx, List.map_cons, mapRun_cons_of_neg ((hg x).trans hx),
        mapRun_cons_of_neg hx, ← List.map_cons, List.map_map]
      rfl

theorem mem_mapRun {f g : α → β} {y : β} (h : y ∈ mapRun p f g l) :
    ∃ x ∈ l, (p x = true ∧ y = f x) ∨ y = g x := by
  rcases List.mem_append.mp h with h | h
  · obtain ⟨x, hx, rfl⟩ := List.mem_map.mp h
    have hrun : p x = true := List.all_eq_true.mp List.all_takeWhile x hx
    exact ⟨x, (List.takeWhile_sublist p).subset hx, Or.inl ⟨hrun, rfl⟩⟩
  · obtain ⟨x, hx, rfl⟩ := List.mem_map.mp h
    exact ⟨x, (List.dropWhile_sublist p).subset hx, Or.inr rfl⟩

end LeadingRun

/-! ## Lists related element by element -/

theorem map_eq_of_forall₂ {γ δ ε : Type*} {R : γ → δ → Prop} {f : γ → ε} {g : δ → ε}
    {as : List γ} {bs : List δ} (h : List.Forall₂ R as bs) (heq : ∀ a b, R a b → g b = f a) :
    bs.map g = as.map f := by
  induction h with
  | nil => rfl
  | cons hab _ ih => rw [List.map_cons, List.map_cons, heq _ _ hab, ih]

theorem flatMap_eq_of_forall₂ {γ δ ε : Type*} {R : γ → δ → Prop} {f : γ → ε} {g : δ → List ε}
    {as : List γ} {bs : List δ} (h : List.Forall₂ R as bs) (heq : ∀ a b, R a b → g b = [f a]) :
    bs.flatMap g = as.map f := by
  induction h with
  | nil => rfl
  | cons hab _ ih => rw [List.flatMap_cons, heq _ _ hab, ih, List.map_cons, List.singleton_append]

theorem forall₂_append_iff {γ δ : Type*} {R : γ → δ → Prop} {as cs : List γ} {bs ds : List δ}
    (h : as.length = bs.length) :
    List.Forall₂ R (as ++ cs) (bs ++ ds) ↔ List.Forall₂ R as bs ∧ List.Forall₂ R cs ds := by
  constructor
  · intro hall
    have htake := List.forall₂_take_append _ _ _ hall
    have hdrop := List.forall₂_drop_append _ _ _ hall
    rw [← h, List.take_left] at htake
    rw [← h, List.drop_left] at hdrop
    exact ⟨htake, hdrop⟩
  · rintro ⟨hfront, hback⟩
    exact List.rel_append hfront hback

/-- If each `b` becomes one `c`, the `c`s are related to the `a`s iff each `a` is as its
own `b` needs it. -/
theorem forall₂_flatMap_iff {γ δ ε : Type*} {Q : γ → δ → Prop} {R : γ → ε → Prop}
    {P : γ → Prop} {outs : δ → List ε} {as : List γ} {bs : List δ}
    (hone : ∀ a b, Q a b → ∃ out, outs b = [out] ∧ (R a out ↔ P a)) (h : List.Forall₂ Q as bs) :
    as.length = (bs.flatMap outs).length ∧
      (List.Forall₂ R as (bs.flatMap outs) ↔ ∀ a ∈ as, P a) := by
  induction h with
  | nil => exact ⟨rfl, iff_of_true .nil nofun⟩
  | @cons a b as bs hab _ ih =>
    obtain ⟨out, hout, hiff⟩ := hone a b hab
    rw [List.flatMap_cons, hout, List.singleton_append, List.length_cons, List.length_cons,
      List.forall₂_cons, List.forall_mem_cons, hiff, ih.2, ih.1]
    exact ⟨rfl, Iff.rfl⟩

/-- A list is kept by a partial map, up to `R`, iff each of its elements is. -/
theorem forall₂_filterMap_iff {γ δ : Type*} {R : γ → δ → Prop} {f : γ → Option δ} {l : List γ} :
    List.Forall₂ R l (l.filterMap f) ↔ ∀ x ∈ l, ∃ y, f x = some y ∧ R x y := by
  induction l with
  | nil => exact iff_of_true .nil (List.forall_mem_nil _)
  | cons x l ih =>
    rw [List.forall_mem_cons]
    cases hx : f x with
    | none =>
      -- one is missing
      refine iff_of_false (fun hall => ?_) (fun hkept => ?_)
      · have hlength := hall.length_eq
        have hle := List.length_filterMap_le f l
        rw [List.filterMap_cons_none hx, List.length_cons] at hlength
        omega
      · obtain ⟨y, hy, -⟩ := hkept.1
        cases hy
    | some y =>
      rw [List.filterMap_cons_some hx, List.forall₂_cons, ih]
      refine and_congr_left fun _ => ⟨fun hy => ⟨y, rfl, hy⟩, ?_⟩
      rintro ⟨y', hy', hR⟩
      cases hy'
      exact hR

/-- Where each `b` gives a part of what its `a` does, all of them give a part. -/
theorem flatMap_sublist_of_forall₂ {γ δ ε : Type*} {Q : γ → δ → Prop} {f : γ → List ε}
    {g : δ → List ε} {as : List γ} {bs : List δ} (hone : ∀ a b, Q a b → (g b).Sublist (f a))
    (h : List.Forall₂ Q as bs) : (bs.flatMap g).Sublist (as.flatMap f) := by
  induction h with
  | nil => exact List.Sublist.refl _
  | cons hab _ ih =>
    rw [List.flatMap_cons, List.flatMap_cons]
    exact (hone _ _ hab).append ih

/-- Selections from the same places that come to the same are the same everywhere. -/
theorem eq_of_filterMap_eq {l : List α} (hplaces : ∀ x ∈ l, (f x).isSome = (g x).isSome)
    (h : l.filterMap f = l.filterMap g) : ∀ x ∈ l, f x = g x := by
  induction l with
  | nil => exact fun x hx => absurd hx List.not_mem_nil
  | cons x l ih =>
    obtain ⟨hx, hl⟩ := List.forall_mem_cons.mp hplaces
    rw [List.forall_mem_cons]
    cases hf : f x with
    | none =>
      have hg : g x = none := by simpa [hf] using hx.symm
      rw [List.filterMap_cons_none hf, List.filterMap_cons_none hg] at h
      exact ⟨hg.symm, ih hl h⟩
    | some y =>
      obtain ⟨z, hg⟩ : ∃ z, g x = some z := Option.isSome_iff_exists.mp (by rw [← hx, hf]; rfl)
      rw [List.filterMap_cons_some hf, List.filterMap_cons_some hg, List.cons.injEq] at h
      exact ⟨by rw [hg, h.1], ih hl h.2⟩

/-- A selection leaves a list as it is iff it keeps each element as it is. -/
theorem filterMap_eq_self_iff {f : α → Option α} {l : List α} :
    l.filterMap f = l ↔ ∀ x ∈ l, f x = some x := by
  constructor
  · intro h
    have hall : ∀ x ∈ l, f x = some x := by
      have hrelated : List.Forall₂ (· = ·) l (l.filterMap f) := by
        rw [h]
        exact List.forall₂_refl l
      intro x hx
      obtain ⟨y, hy, he⟩ := forall₂_filterMap_iff.mp hrelated x hx
      rw [hy, ← he]
    exact hall
  · intro h
    rw [List.filterMap_congr h, List.filterMap_some]

/-! ## Stable sorts -/

section sorts

variable {r : α → α → Prop} [DecidableRel r]

/-- A relation that orders the elements of the list sorts it. -/
theorem pairwise_insertionSort_of {P : α → Prop} (total : ∀ a b, P a → P b → r a b ∨ r b a)
    (trans : ∀ a b c, P a → P b → P c → r a b → r b c → r a c) {l : List α}
    (h : ∀ a ∈ l, P a) : (l.insertionSort r).Pairwise r := by
  let onP : {a // P a} → {a // P a} → Prop := fun a b => r a b
  have : Std.Total onP := ⟨fun a b => total a b a.2 b.2⟩
  have : IsTrans _ onP := ⟨fun a b c => trans a b c a.2 b.2 c.2⟩
  have hmap := List.map_insertionSort (r := onP) (s := r) Subtype.val (l.attachWith P h)
    fun _ _ _ _ => Iff.rfl
  rw [List.attachWith_map_subtype_val] at hmap
  rw [← hmap, List.pairwise_map]
  exact List.pairwise_insertionSort onP _

theorem orderedInsert_concat {a z : α} (h : r a z) (l : List α) :
    (l ++ [z]).orderedInsert r a = l.orderedInsert r a ++ [z] := by
  induction l with
  | nil => simp [h]
  | cons b l ih =>
    by_cases hab : r a b
    · simp [hab]
    · simp only [List.cons_append, List.orderedInsert_cons, if_neg hab, ih]

/-- What no element comes after stays the last. -/
theorem insertionSort_concat {l : List α} {z : α} (h : ∀ a ∈ l, r a z) :
    (l ++ [z]).insertionSort r = l.insertionSort r ++ [z] := by
  induction l with
  | nil => rfl
  | cons a l ih =>
    obtain ⟨ha, hl⟩ := List.forall_mem_cons.mp h
    rw [List.cons_append, List.insertionSort_cons, ih hl, orderedInsert_concat ha,
      List.insertionSort_cons]

end sorts

/-- The first of a kind comes before every other of it. -/
theorem find?_least {r : α → α → Prop} {p : α → Bool} {l : List α} (hsorted : l.Pairwise r)
    (hrefl : ∀ a ∈ l, r a a) {a b : α} (hfind : l.find? p = some a) (hb : b ∈ l) (hp : p b = true) : r a b := by
  obtain ⟨-, front, back, rfl, hfront⟩ := List.find?_eq_some_iff_append.mp hfind
  rcases List.mem_append.mp hb with hmem | hmem
  · have hnot := hfront b hmem
    simp [hp] at hnot
  · rcases List.mem_cons.mp hmem with rfl | hmem
    · exact hrefl b (by simp)
    · exact (List.pairwise_cons.mp (List.pairwise_append.mp hsorted).2.1).1 b hmem

end Lists
