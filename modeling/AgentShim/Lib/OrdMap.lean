import Mathlib.Data.List.Sort

/-
  String-keyed ordered maps

  A `BTreeMap<String, _>` as its entries in key order. Iteration is over
  `entries`; the strict order of the keys is a field, so a map with a repeated
  or misplaced key cannot be built.

  What is proved:
    1. `get?_eq_some_iff` — lookup finds exactly the entries.
    2. `get?_mapValues`, `get?_filterMapEntries` — what lookup finds among transformed
       entries, and among the entries kept.
    3. `get?_insert`, `ext_get?` — what lookup finds after an insertion; it tells maps
       apart.
-/

/-- A map from strings, its entries strictly ordered by key. -/
structure OrdMap (ν : Type*) where
  entries : List (String × ν)
  sorted : (entries.map Prod.fst).Pairwise (· < ·)

namespace OrdMap

variable {ν : Type*} {ν' : Type*}

def empty : OrdMap ν := { entries := [], sorted := List.Pairwise.nil }

instance : Inhabited (OrdMap ν) := ⟨empty⟩

def keys (m : OrdMap ν) : List String := m.entries.map Prod.fst

def values (m : OrdMap ν) : List ν := m.entries.map Prod.snd

def get? (m : OrdMap ν) (k : String) : Option ν := m.entries.lookup k

def containsKey (m : OrdMap ν) (k : String) : Bool := (m.get? k).isSome

/-- The same keys over transformed values. -/
def mapValues (f : ν → ν') (m : OrdMap ν) : OrdMap ν' where
  entries := m.entries.map fun e => (e.1, f e.2)
  sorted := by
    rw [List.map_map]
    exact m.sorted

/-- The entries a partial function keeps, under their keys. -/
def filterMapEntries (f : String → ν → Option ν') (m : OrdMap ν) : OrdMap ν' where
  entries := m.entries.filterMap fun e => (f e.1 e.2).map fun v => (e.1, v)
  sorted := by
    rw [List.pairwise_map, List.pairwise_filterMap]
    apply (List.pairwise_map.mp m.sorted).imp
    intro a b hlt x hx y hy
    obtain ⟨v, _, rfl⟩ := Option.map_eq_some_iff.mp hx
    obtain ⟨w, _, rfl⟩ := Option.map_eq_some_iff.mp hy
    exact hlt

/-- Sets the value under a key. -/
def insert (m : OrdMap ν) (k : String) (v : ν) : OrdMap ν where
  entries := m.entries.filter (fun e => decide (e.1 < k)) ++
    (k, v) :: m.entries.filter (fun e => decide (k < e.1))
  sorted := by
    have hsorted := List.pairwise_map.mp m.sorted
    rw [List.pairwise_map, List.pairwise_append, List.pairwise_cons]
    refine ⟨hsorted.filter _, ⟨fun e he => ?_, hsorted.filter _⟩, fun a ha b hb => ?_⟩
    · simpa using (List.mem_filter.mp he).2
    · have hlow : a.1 < k := by simpa using (List.mem_filter.mp ha).2
      rcases List.mem_cons.mp hb with rfl | hb
      · exact hlow
      · have hhigh : k < b.1 := by simpa using (List.mem_filter.mp hb).2
        exact String.lt_trans hlow hhigh

theorem nodup_keys (m : OrdMap ν) : m.keys.Nodup := by
  apply m.sorted.imp
  intro a b hlt hab
  rw [hab] at hlt
  exact String.lt_irrefl _ hlt

theorem lookup_eq_some_iff {l : List (String × ν)} (hl : (l.map Prod.fst).Nodup) {k : String}
    {v : ν} : l.lookup k = some v ↔ (k, v) ∈ l := by
  induction l with
  | nil => simp
  | cons e l ih =>
    obtain ⟨k', v'⟩ := e
    rw [List.map_cons, List.nodup_cons] at hl
    rw [List.lookup_cons]
    by_cases hk : k = k'
    · subst hk
      have hno : (k, v) ∉ l := fun hmem => hl.1 (List.mem_map.mpr ⟨(k, v), hmem, rfl⟩)
      simp [hno, eq_comm]
    · have hb : (k == k') = false := beq_eq_false_iff_ne.mpr hk
      simp [hb, ih hl.2, hk]

theorem get?_eq_some_iff {m : OrdMap ν} {k : String} {v : ν} :
    m.get? k = some v ↔ (k, v) ∈ m.entries :=
  lookup_eq_some_iff m.nodup_keys

theorem mem_keys_iff {m : OrdMap ν} {k : String} :
    k ∈ m.keys ↔ ∃ v, m.get? k = some v := by
  rw [keys, List.mem_map]
  constructor
  · rintro ⟨⟨k', v⟩, hmem, rfl⟩
    exact ⟨v, get?_eq_some_iff.mpr hmem⟩
  · rintro ⟨v, hv⟩
    exact ⟨(k, v), get?_eq_some_iff.mp hv, rfl⟩

theorem get?_mapValues (f : ν → ν') (m : OrdMap ν) (k : String) :
    (m.mapValues f).get? k = (m.get? k).map f := by
  apply Option.ext
  intro v
  rw [get?_eq_some_iff, Option.map_eq_some_iff]
  constructor
  · intro h
    obtain ⟨e, he, heq⟩ := List.mem_map.mp h
    obtain ⟨rfl, rfl⟩ := Prod.mk.inj heq
    exact ⟨e.2, get?_eq_some_iff.mpr he, rfl⟩
  · intro h
    obtain ⟨w, hw, rfl⟩ := h
    exact List.mem_map.mpr ⟨(k, w), get?_eq_some_iff.mp hw, rfl⟩

theorem get?_filterMapEntries (f : String → ν → Option ν') (m : OrdMap ν) (k : String) :
    (m.filterMapEntries f).get? k = (m.get? k).bind (f k) := by
  apply Option.ext
  intro v
  rw [get?_eq_some_iff, Option.bind_eq_some_iff]
  constructor
  · intro h
    obtain ⟨⟨k', w⟩, hmem, hv⟩ := List.mem_filterMap.mp h
    obtain ⟨v', hv', hpair⟩ := Option.map_eq_some_iff.mp hv
    obtain ⟨rfl, rfl⟩ := Prod.mk.inj hpair
    exact ⟨w, get?_eq_some_iff.mpr hmem, hv'⟩
  · intro h
    obtain ⟨w, hmem, hv⟩ := h
    apply List.mem_filterMap.mpr
    refine ⟨(k, w), get?_eq_some_iff.mp hmem, ?_⟩
    rw [hv]
    rfl

theorem get?_insert (m : OrdMap ν) (k : String) (v : ν) (k' : String) :
    (m.insert k v).get? k' = if k' = k then some v else m.get? k' := by
  apply Option.ext
  intro w
  rw [get?_eq_some_iff]
  show (k', w) ∈ m.entries.filter (fun e => decide (e.1 < k)) ++
    (k, v) :: m.entries.filter (fun e => decide (k < e.1)) ↔ _
  rw [List.mem_append, List.mem_cons, List.mem_filter, List.mem_filter]
  by_cases hk : k' = k
  · subst hk
    rw [if_pos rfl]
    constructor
    · rintro (⟨-, hlt⟩ | h | ⟨-, hlt⟩)
      · exact absurd (of_decide_eq_true hlt) (String.lt_irrefl _)
      · rw [(Prod.mk.inj h).2]
      · exact absurd (of_decide_eq_true hlt) (String.lt_irrefl _)
    · exact fun h => Or.inr (Or.inl (by rw [Option.some.inj h]))
  · rw [if_neg hk, get?_eq_some_iff]
    have hne : (k', w) ≠ (k, v) := fun h => hk (Prod.mk.inj h).1
    constructor
    · rintro (⟨hmem, -⟩ | h | ⟨hmem, -⟩)
      · exact hmem
      · exact absurd h hne
      · exact hmem
    · intro hmem
      by_cases hlt : k' < k
      · exact Or.inl ⟨hmem, decide_eq_true hlt⟩
      · by_cases hgt : k < k'
        · exact Or.inr (Or.inr ⟨hmem, decide_eq_true hgt⟩)
        · exact absurd (String.le_antisymm (String.not_lt.mp hgt) (String.not_lt.mp hlt)) hk

/-- What lookup finds is the map. -/
theorem ext_get? {m m' : OrdMap ν} (h : ∀ k, m.get? k = m'.get? k) : m = m' := by
  have hmem : ∀ e, e ∈ m.entries ↔ e ∈ m'.entries := by
    rintro ⟨k, v⟩
    rw [← get?_eq_some_iff, ← get?_eq_some_iff, h k]
  have hsorted : ∀ m : OrdMap ν, m.entries.Pairwise fun a b => a.1 < b.1 :=
    fun m => List.pairwise_map.mp m.sorted
  have hnodup : ∀ m : OrdMap ν, m.entries.Nodup := fun m => List.Nodup.of_map _ m.nodup_keys
  have hperm : m.entries.Perm m'.entries :=
    (List.perm_ext_iff_of_nodup (hnodup m) (hnodup m')).mpr hmem
  have hentries : m.entries = m'.entries :=
    hperm.eq_of_pairwise
      (fun a b _ _ hab hba => absurd (String.lt_trans hab hba) (String.lt_irrefl _))
      (hsorted m) (hsorted m')
  cases m
  cases m'
  cases hentries
  rfl

end OrdMap
