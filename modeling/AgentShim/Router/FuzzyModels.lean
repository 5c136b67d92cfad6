import AgentShim.Lib.Optimum
import AgentShim.Router.ModelIndex
import Mathlib.Data.Prod.Lex
import Mathlib.Data.String.Basic
import Mathlib.Order.OrderDual

/-
  The choice among fuzzy matches

  Listed models are ranked by their score against the request, then by the shorter
  name, then by the smaller one; this is a linear order on names. A request that meets
  no listed model directly is resolved to the listed model that ranks highest, if its
  score reaches the threshold.

  What is proved:
    1. `resolve_eq_of_hit`, `resolve_eq_of_miss` — the two paths of a resolution.
    2. `resolve_fuzzy` — off the fast path the one preferred model is chosen, for every
       order of the catalog.

  Correspondence (Rust ↔ Lean):
    `entry.normalized.eq_ignore_ascii_case(requested)` ↔ `Meets`
    the `dominated` test of the loop                   ↔ `Preferred`
-/

namespace AgentShim.ModelIndexing

open OrderDual

variable {M : Type} (lower : String → String)

/-! ## The order of preference -/

/-- How well a model fits a request. -/
def fit (requested id : String) : ℚ :=
  score (tokenize lower requested) (tokenize lower id) (lower requested) (lower id)

/-- The first model is preferred to the second: the higher score, then the shorter name,
then the smaller one. -/
def Preferred (requested id id' : String) : Prop :=
  fit lower requested id' < fit lower requested id ∨
    (fit lower requested id' = fit lower requested id ∧
      (Text.len id < Text.len id' ∨ (Text.len id = Text.len id' ∧ id < id')))

/-- What models are ranked by. -/
def standing (requested id : String) : ℚ ×ₗ ℕᵒᵈ ×ₗ Stringᵒᵈ :=
  toLex (fit lower requested id, toLex (toDual (Text.len id), toDual id))

theorem standing_injective (requested : String) :
    Function.Injective (standing lower requested) := by
  intro a b h
  exact toDual.injective (congrArg (fun s => (ofLex (ofLex s).2).2) h)

theorem standing_lt_iff {requested id id' : String} :
    standing lower requested id' < standing lower requested id ↔
      Preferred lower requested id id' := by
  rw [standing, standing, Prod.Lex.toLex_lt_toLex, Prod.Lex.toLex_lt_toLex, Preferred]
  simp only [toDual_lt_toDual, toDual_inj]
  constructor
  · rintro (h | ⟨heq, h | ⟨hlen, h⟩⟩)
    · exact Or.inl h
    · exact Or.inr ⟨heq, Or.inl h⟩
    · exact Or.inr ⟨heq, Or.inr ⟨hlen.symm, h⟩⟩
  · rintro (h | ⟨heq, h | ⟨hlen, h⟩⟩)
    · exact Or.inl h
    · exact Or.inr ⟨heq, Or.inl h⟩
    · exact Or.inr ⟨heq, Or.inr ⟨hlen.symm, h⟩⟩

/-- Whether a model may be chosen at all. -/
def admits (requested id : String) : Bool := threshold ≤ fit lower requested id

theorem admits_of_standing_le {requested : String} (b a : String)
    (hb : admits lower requested b = true)
    (hle : standing lower requested b ≤ standing lower requested a) :
    admits lower requested a = true := by
  have hfit : fit lower requested b ≤ fit lower requested a :=
    Prod.Lex.monotone_fst _ _ hle
  exact decide_eq_true ((of_decide_eq_true hb).trans hfit)

/-! ## The catalog of a provider -/

/-- The index lists these models for a provider, in this order. -/
def ModelIndex.Lists (index : ModelIndex M) (provider : String) (ids : List String) : Prop :=
  index.fuzzy.lookup provider = some (ids.map (modelEntry lower))

theorem lookup_foldl_insert_of_notMem {α β : Type} (f : α → β) {l : List (String × α)}
    {k : String} (hk : k ∉ l.map Prod.fst) (m : AList fun _ : String => β) :
    (l.foldl (fun m e => m.insert e.1 (f e.2)) m).lookup k = m.lookup k := by
  induction l generalizing m with
  | nil => rfl
  | cons e l ih =>
    rw [List.map_cons, List.mem_cons, not_or] at hk
    rw [List.foldl_cons, ih hk.2, AList.lookup_insert_ne hk.1]

theorem lookup_foldl_insert {α β : Type} (f : α → β) {l : List (String × α)}
    (hnodup : (l.map Prod.fst).Nodup) {k : String} {a : α} (hmem : (k, a) ∈ l)
    (m : AList fun _ : String => β) :
    (l.foldl (fun m e => m.insert e.1 (f e.2)) m).lookup k = some (f a) := by
  induction l generalizing m with
  | nil => cases hmem
  | cons e l ih =>
    rw [List.map_cons, List.nodup_cons] at hnodup
    rw [List.foldl_cons]
    rcases List.mem_cons.mp hmem with rfl | hmem
    · rw [lookup_foldl_insert_of_notMem f hnodup.1, AList.lookup_insert]
    · exact ih hnodup.2 hmem _

theorem lists_withMetadata {providers : List (String × OrdMap M)}
    (hnodup : (providers.map Prod.fst).Nodup) {provider : String} {models : OrdMap M}
    (hmem : (provider, models) ∈ providers) :
    (ModelIndex.withMetadata lower providers).Lists lower provider models.keys :=
  lookup_foldl_insert (fun models : OrdMap M => models.keys.map (modelEntry lower)) hnodup hmem ∅

/-! ## The two paths -/

/-- The lower-cased name of a model is the request, up to ASCII case. -/
def Meets (requested id : String) : Bool :=
  Text.toAsciiLowercase (lower id) == Text.toAsciiLowercase requested

variable {lower} {index : ModelIndex M} {provider requested : String} {ids : List String}

theorem resolve_eq_of_hit (hlists : index.Lists lower provider ids) {id : String}
    (hhit : ids.find? (Meets lower requested) = some id) :
    index.resolve lower provider requested = some id := by
  have hfind : (ids.map (modelEntry lower)).find? (fun e =>
      Text.toAsciiLowercase e.normalized == Text.toAsciiLowercase requested) =
        some (modelEntry lower id) := by
    rw [List.find?_map]
    exact congrArg (Option.map (modelEntry lower)) hhit
  unfold ModelIndex.resolve
  rw [hlists]
  dsimp only
  rw [hfind]
  rfl

/-- A name with its score and entry, as the loop keeps it. -/
def scored (lower : String → String) (requested id : String) : ℚ × ModelEntry :=
  (fit lower requested id, modelEntry lower id)

theorem better_scored_iff {id b : String} :
    better (fit lower requested id) (modelEntry lower id) (some (scored lower requested b)) =
      true ↔ standing lower requested b < standing lower requested id := by
  rw [standing_lt_iff, Preferred, eq_comm (a := fit lower requested b)]
  simp only [better, scored, modelEntry, Bool.or_eq_true, Bool.and_eq_true, beq_iff_eq]
  exact or_congr decide_eq_true_iff (and_congr_right fun _ =>
    or_congr decide_eq_true_iff (and_congr_right fun _ => decide_eq_true_iff))

/-- One step of the loop, on names. -/
theorem better_eq_keep (best : Option String) (id : String) :
    (if better (fit lower requested id) (modelEntry lower id)
        (best.map (scored lower requested)) then some (scored lower requested id)
      else best.map (scored lower requested)) =
      (Optimum.keep (admits lower requested) (standing lower requested) best id).map
        (scored lower requested) := by
  unfold Optimum.keep
  cases best with
  | none =>
    show (if admits lower requested id = true then some (scored lower requested id) else none) = _
    dsimp only
    split <;> rfl
  | some b =>
    dsimp only [Option.map_some]
    by_cases hlt : standing lower requested b < standing lower requested id
    · rw [if_pos hlt, if_pos (better_scored_iff.mpr hlt)]
      rfl
    · rw [if_neg hlt, if_neg fun h => hlt (better_scored_iff.mp h)]
      rfl

theorem resolve_eq_of_miss (hlists : index.Lists lower provider ids)
    (hmiss : ∀ id ∈ ids, Meets lower requested id = false) :
    index.resolve lower provider requested =
      ids.foldl (Optimum.keep (admits lower requested) (standing lower requested)) none := by
  have hfind : (ids.map (modelEntry lower)).find? (fun e =>
      Text.toAsciiLowercase e.normalized == Text.toAsciiLowercase requested) = none := by
    rw [List.find?_map, Option.map_eq_none_iff, List.find?_eq_none]
    intro id hid
    exact Bool.eq_false_iff.mp (hmiss id hid)
  have hloop : ids.foldl (fun best id =>
      if better (fit lower requested id) (modelEntry lower id) best then
        some (scored lower requested id)
      else best) ((none : Option String).map (scored lower requested)) =
      (ids.foldl (Optimum.keep (admits lower requested) (standing lower requested)) none).map
        (scored lower requested) :=
    List.foldl_hom (Option.map (scored lower requested)) better_eq_keep
  unfold ModelIndex.resolve
  rw [hlists]
  dsimp only
  rw [hfind]
  dsimp only
  rw [List.foldl_map]
  apply (congrArg (Option.map fun b => b.2.original) hloop).trans
  rw [Option.map_map]
  exact congrFun Option.map_id _

/-- A request whose form some model has is that model, the first there is. Any other
request is the one model that reaches the threshold and is preferred to every other, in
whatever order the models are listed. -/
theorem resolve_fuzzy (hlists : index.Lists lower provider ids) :
    (∀ id, ids.find? (Meets lower requested) = some id →
      index.resolve lower provider requested = some id) ∧
    ((∀ id ∈ ids, Meets lower requested id = false) →
      (∀ m, index.resolve lower provider requested = some m ↔
        m ∈ ids ∧ 1 / 2 ≤ fit lower requested m ∧
          ∀ id ∈ ids, id ≠ m → Preferred lower requested m id) ∧
      ((∃ m, index.resolve lower provider requested = some m) ↔
        ∃ id ∈ ids, 1 / 2 ≤ fit lower requested id) ∧
      ∀ (index' : ModelIndex M) (ids' : List String), index'.Lists lower provider ids' →
        ids'.Perm ids →
          index'.resolve lower provider requested = index.resolve lower provider requested) := by
  refine ⟨fun id hhit => resolve_eq_of_hit hlists hhit, ?_⟩
  intro hmiss
  have hup := @admits_of_standing_le lower requested
  have hinj := standing_injective lower requested
  have hadmits : ∀ id, admits lower requested id = true ↔ 1 / 2 ≤ fit lower requested id :=
    fun id => decide_eq_true_iff
  refine ⟨fun m => ?_, ?_, ?_⟩
  · rw [resolve_eq_of_miss hlists hmiss, Optimum.foldl_keep_eq_some_iff hup hinj, hadmits]
    simp only [standing_lt_iff]
  · rw [resolve_eq_of_miss hlists hmiss, Optimum.foldl_keep_isSome_iff hup]
    simp only [hadmits]
  · intro index' ids' hlists' hperm
    have hmiss' : ∀ id ∈ ids', Meets lower requested id = false :=
      fun id hid => hmiss id (hperm.mem_iff.mp hid)
    rw [resolve_eq_of_miss hlists hmiss, resolve_eq_of_miss hlists' hmiss']
    exact Optimum.foldl_keep_congr hup hinj fun _ => hperm.mem_iff

/-! ## Names that are not ASCII -/

/-- `char::to_lowercase` of a Latin-1 character or the Kelvin sign. -/
def latinLowerChar (c : Char) : Char :=
  if c.toNat = 0x212A then 'k'
  else if 0xC0 ≤ c.toNat ∧ c.toNat ≤ 0xDE ∧ c.toNat ≠ 0xD7 then Char.ofNat (c.toNat + 32)
  else c.toLower

/-- `str::to_lowercase` of a text of such characters. -/
def latinLower (s : String) : String := String.ofList (s.toList.map latinLowerChar)

/-- Two names, the longer one first, with one form. -/
def foldedModels : OrdMap Unit where
  entries := [("\u00c9\u212a\u00c9", ()), ("\u00e9k\u00c9", ())]
  sorted := by decide

/-- The request has the form of both names and is neither: the first is taken, though
the other scores as much and is shorter. -/
theorem resolve_folded :
    (∀ id ∈ foldedModels.keys,
      Text.toAsciiLowercase id ≠ Text.toAsciiLowercase "\u00e9k\u00e9") ∧
    (ModelIndex.withMetadata latinLower [("p", foldedModels)]).resolve latinLower "p"
      "\u00e9k\u00e9" = some "\u00c9\u212a\u00c9" ∧
    "\u00e9k\u00c9" ∈ foldedModels.keys ∧
    Preferred latinLower "\u00e9k\u00e9" "\u00e9k\u00c9" "\u00c9\u212a\u00c9" := by
  refine ⟨by decide, by decide, by decide, Or.inr ⟨?_, Or.inl (by decide)⟩⟩
  decide +kernel

/-- The models of the repository's own example. -/
def sonnets : OrdMap Unit where
  entries := [("claude-sonnet-4", ()), ("claude-sonnet-4-5-20250514", ())]
  sorted := by decide

/-- Two models begin like the request or are its beginning; the closer one is taken. -/
theorem resolve_fuzzy_sonnet :
    (ModelIndex.withMetadata Text.toAsciiLowercase [("copilot", sonnets)]).resolve
      Text.toAsciiLowercase "copilot" "Claude-Sonnet-4-5" = some "claude-sonnet-4" := by
  have hnodup : ([("copilot", sonnets)].map Prod.fst).Nodup := List.nodup_singleton _
  have hlists := lists_withMetadata Text.toAsciiLowercase hnodup (List.mem_singleton_self _)
  apply (((resolve_fuzzy hlists).2 (by decide)).1 "claude-sonnet-4").mpr
  refine ⟨by decide, by decide +kernel, ?_⟩
  intro id hid hne
  obtain rfl : id = "claude-sonnet-4-5-20250514" := by
    rcases List.mem_cons.mp hid with rfl | hid
    · exact absurd rfl hne
    · exact List.mem_singleton.mp hid
  exact Or.inl (by decide +kernel)

end AgentShim.ModelIndexing
