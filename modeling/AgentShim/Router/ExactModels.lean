import AgentShim.Router.FuzzyModels
import Mathlib.Algebra.Order.BigOperators.Group.List
import Mathlib.Order.Monotone.Basic
import Mathlib.Tactic.Linarith
import Mathlib.Tactic.Positivity

/-
  Requests for a listed model

  A request may be the very name of a listed model. It has that model's form, so the
  model scores one, which no model exceeds; whether it is the model that is chosen
  depends on the others that have its form or the same tokens.

  What is proved:
    1. `fit_spec` — the largest score, and the names that reach it.
    2. `resolve_self_iff` — exactly when a listed model resolves to itself.
    3. `resolve_idempotent` — what a request was resolved to does, where the listed names
       are ASCII.
-/

namespace AgentShim.ModelIndexing

variable {M : Type} (lower : String → String)

/-! ## Scores of one -/

theorem len_lt_of_startsWith {s pre : String} (h : Text.startsWith s pre = true) (hne : pre ≠ s) :
    Text.len pre < Text.len s := by
  obtain ⟨rest, hrest⟩ := Text.startsWith_iff.mp h
  have happ : s = pre ++ String.ofList rest := by
    apply String.ext
    rw [String.toList_append, String.toList_ofList, hrest]
  have hpos : 0 < (String.ofList rest).utf8ByteSize := by
    apply Nat.pos_of_ne_zero
    intro hzero
    rw [String.utf8ByteSize_eq_zero_iff.mp hzero, String.append_empty] at happ
    exact hne happ.symm
  rw [Text.len, Text.len, happ, String.utf8ByteSize_append]
  omega

theorem ratio_lt_one {short long : String} (h : Text.len short < Text.len long) :
    ratio short long < 1 := by
  have hlong : (0 : ℚ) < Text.len long := by
    exact_mod_cast Nat.lt_of_le_of_lt (Nat.zero_le _) h
  rw [ratio, div_lt_one hlong]
  exact_mod_cast h

theorem weight_pos (i : Nat) : 0 < weight i := by
  unfold weight
  positivity

/-- The weight of the first positions. -/
def weights (n : Nat) : ℚ := ((List.range n).map weight).sum

theorem weights_strictMono : StrictMono weights := by
  apply strictMono_nat_of_lt_succ
  intro n
  rw [weights, weights, List.range_succ, List.map_append, List.sum_append, List.map_singleton,
    List.sum_singleton]
  exact lt_add_of_pos_right _ (weight_pos n)

/-- The weight of the requested tokens a candidate has. -/
def matched (requestedTokens candidateTokens : List String) : ℚ :=
  (requestedTokens.zipIdx.map fun p => if candidateTokens.contains p.1 then weight p.2 else 0).sum

theorem sum_zipIdx (tokens : List String) :
    (tokens.zipIdx.map fun p => weight p.2).sum = weights tokens.length := by
  rw [weights, List.range_eq_range', ← List.zipIdx_map_snd 0 tokens, List.map_map]
  rfl

theorem matched_term_le (candidateTokens : List String) (p : String × Nat) :
    (if candidateTokens.contains p.1 then weight p.2 else 0) ≤ weight p.2 := by
  split
  · exact le_refl _
  · exact (weight_pos p.2).le

theorem matched_le (requestedTokens candidateTokens : List String) :
    matched requestedTokens candidateTokens ≤ weights requestedTokens.length := by
  rw [← sum_zipIdx]
  exact List.sum_le_sum fun p _ => matched_term_le candidateTokens p

theorem matched_eq_iff {requestedTokens candidateTokens : List String} :
    matched requestedTokens candidateTokens = weights requestedTokens.length ↔
      ∀ tok ∈ requestedTokens, tok ∈ candidateTokens := by
  rw [← sum_zipIdx]
  constructor
  · intro heq tok htok
    by_contra hnot
    obtain ⟨i, hi⟩ : ∃ i, (tok, i) ∈ requestedTokens.zipIdx := by
      have hfst : tok ∈ (requestedTokens.zipIdx).map Prod.fst := by
        rw [List.zipIdx_map_fst]
        exact htok
      obtain ⟨⟨tok', i⟩, hp, rfl⟩ := List.mem_map.mp hfst
      exact ⟨i, hp⟩
    apply absurd heq (ne_of_lt _)
    refine List.sum_lt_sum _ _ (fun p _ => matched_term_le candidateTokens p) ⟨(tok, i), hi, ?_⟩
    rw [if_neg (by rw [List.contains_iff_mem]; exact hnot)]
    exact weight_pos i
  · intro hall
    apply congrArg List.sum
    apply List.map_congr_left
    intro p hp
    have hmem : p.1 ∈ requestedTokens := by
      rw [← List.zipIdx_map_fst 0 requestedTokens]
      exact List.mem_map_of_mem hp
    exact if_pos (List.contains_iff_mem.mpr (hall p.1 hmem))

/-- What the tokens alone say of two names: the weighted share of common tokens is at most
one, and one where the candidate has every requested token and no more tokens. -/
theorem share_le_one {requestedTokens candidateTokens : List String}
    (hpos : 0 < max requestedTokens.length candidateTokens.length) :
    matched requestedTokens candidateTokens /
        weights (max requestedTokens.length candidateTokens.length) ≤ 1 ∧
      (matched requestedTokens candidateTokens /
          weights (max requestedTokens.length candidateTokens.length) = 1 ↔
        (∀ tok ∈ requestedTokens, tok ∈ candidateTokens) ∧
          candidateTokens.length ≤ requestedTokens.length) := by
  have hmatched := matched_le requestedTokens candidateTokens
  have hweights : weights requestedTokens.length ≤
      weights (max requestedTokens.length candidateTokens.length) :=
    weights_strictMono.monotone (Nat.le_max_left _ _)
  have htotal : 0 < weights (max requestedTokens.length candidateTokens.length) := by
    have hzero : weights 0 = 0 := rfl
    rw [← hzero]
    exact weights_strictMono hpos
  refine ⟨(div_le_one htotal).mpr (hmatched.trans hweights), ?_⟩
  rw [div_eq_one_iff_eq htotal.ne']
  constructor
  · intro heq
    have hsame : weights requestedTokens.length =
        weights (max requestedTokens.length candidateTokens.length) :=
      le_antisymm hweights (heq ▸ hmatched)
    refine ⟨matched_eq_iff.mp (heq.trans hsame.symm), ?_⟩
    have hlen := weights_strictMono.injective hsame
    omega
  · rintro ⟨hall, hlen⟩
    rw [matched_eq_iff.mpr hall, Nat.max_eq_left hlen]

/-- Two names with one form; or, where neither form begins the other, the second has every
token of the first and no more tokens. -/
def Alike (requested id : String) : Prop :=
  lower id = lower requested ∨
    (Text.startsWith (lower id) (lower requested) = false ∧
      Text.startsWith (lower requested) (lower id) = false ∧
      tokenize lower requested ≠ [] ∧
      (∀ tok ∈ tokenize lower requested, tok ∈ tokenize lower id) ∧
      (tokenize lower id).length ≤ (tokenize lower requested).length)

theorem prefixed_lt_one {short long : String} (h : Text.startsWith long short = true)
    (hne : short ≠ long) : 4 / 5 + 1 / 5 * ratio short long < 1 := by
  have hratio := ratio_lt_one (len_lt_of_startsWith h hne)
  linarith

theorem fit_spec (requested id : String) :
    fit lower requested id ≤ 1 ∧ (fit lower requested id = 1 ↔ Alike lower requested id) := by
  unfold fit score Alike
  by_cases hnorm : lower requested = lower id
  · rw [if_pos (beq_iff_eq.mpr hnorm)]
    exact ⟨le_refl _, iff_of_true rfl (Or.inl hnorm.symm)⟩
  rw [if_neg (by rw [beq_iff_eq]; exact hnorm), or_iff_right (Ne.symm hnorm)]
  by_cases hforward : Text.startsWith (lower id) (lower requested) = true
  · rw [if_pos hforward]
    have hlt := prefixed_lt_one hforward hnorm
    exact ⟨hlt.le, iff_of_false hlt.ne fun h => by rw [hforward] at h; cases h.1⟩
  rw [if_neg hforward]
  by_cases hback : Text.startsWith (lower requested) (lower id) = true
  · rw [if_pos hback]
    have hlt := prefixed_lt_one hback (Ne.symm hnorm)
    exact ⟨hlt.le, iff_of_false hlt.ne fun h => by rw [hback] at h; cases h.2.1⟩
  rw [if_neg hback]
  dsimp only
  by_cases hmax : max (tokenize lower requested).length (tokenize lower id).length = 0
  · -- neither name has a token
    rw [if_pos (beq_iff_eq.mpr hmax)]
    refine ⟨zero_le_one, iff_of_false zero_ne_one fun h => h.2.2.1 ?_⟩
    exact List.length_eq_zero_iff.mp (by omega)
  · rw [if_neg (by rw [beq_iff_eq]; exact hmax)]
    obtain ⟨hle, heq⟩ := share_le_one (Nat.pos_of_ne_zero hmax)
    refine ⟨hle, heq.trans ?_⟩
    constructor
    · rintro ⟨hall, hlen⟩
      refine ⟨Bool.eq_false_iff.mpr hforward, Bool.eq_false_iff.mpr hback, ?_, hall, hlen⟩
      intro hnil
      rw [hnil, List.length_nil] at hmax hlen
      omega
    · rintro ⟨-, -, -, hall, hlen⟩
      exact ⟨hall, hlen⟩

/-! ## Listed models -/

/-- No other listed model takes the place of a listed one. If the model has its own form
up to ASCII case, no model before it has that form; otherwise no model at all has it, and
every model that is alike is longer, or as long and greater. -/
def ExactWins (ids : List String) (m : String) : Prop :=
  if Meets lower m m then ∀ id ∈ ids, id < m → Meets lower m id = false
  else (∀ id ∈ ids, Meets lower m id = false) ∧
    ∀ id ∈ ids, id ≠ m → Alike lower m id →
      Text.len m < Text.len id ∨ (Text.len m = Text.len id ∧ m < id)

variable {lower}

theorem preferred_self_iff {m id : String} :
    Preferred lower m m id ↔ (Alike lower m id →
      Text.len m < Text.len id ∨ (Text.len m = Text.len id ∧ m < id)) := by
  have hself : fit lower m m = 1 := (fit_spec lower m m).2.mpr (Or.inl rfl)
  obtain ⟨hle, hone⟩ := fit_spec lower m id
  rw [Preferred, hself, ← hone]
  constructor
  · rintro (hlt | ⟨-, h⟩) heq
    · exact absurd heq hlt.ne
    · exact h
  · intro h
    rcases hle.lt_or_eq with hlt | heq
    · exact Or.inl hlt
    · exact Or.inr ⟨heq, h heq⟩

variable {index : ModelIndex M} {provider : String} {ids : List String}

theorem resolve_listed_iff (hlists : index.Lists lower provider ids)
    (hsorted : ids.Pairwise (· < ·)) {m : String} (hm : m ∈ ids) :
    index.resolve lower provider m = some m ↔ ExactWins lower ids m := by
  unfold ExactWins
  cases hfind : ids.find? (Meets lower m) with
  | some id =>
    rw [resolve_eq_of_hit hlists hfind, ← hfind, Optimum.find?_eq_some_iff_of_sorted hsorted]
    by_cases hself : Meets lower m m = true
    · rw [if_pos hself]
      exact ⟨fun h => h.2.2, fun h => ⟨hm, hself, h⟩⟩
    · rw [if_neg hself]
      refine iff_of_false (fun h => hself h.2.1) fun h => ?_
      have hmeets := List.find?_some hfind
      rw [h.1 id (List.mem_of_find?_eq_some hfind)] at hmeets
      cases hmeets
  | none =>
    have hmiss : ∀ id ∈ ids, Meets lower m id = false :=
      fun id hid => Bool.eq_false_iff.mpr (List.find?_eq_none.mp hfind id hid)
    rw [if_neg (Bool.eq_false_iff.mp (hmiss m hm)), resolve_eq_of_miss hlists hmiss,
      Optimum.foldl_keep_eq_some_iff (admits_of_standing_le lower) (standing_injective lower m)]
    simp only [standing_lt_iff, preferred_self_iff]
    constructor
    · rintro ⟨-, -, h⟩
      exact ⟨hmiss, h⟩
    · rintro ⟨-, h⟩
      refine ⟨hm, ?_, h⟩
      have hself : fit lower m m = 1 := (fit_spec lower m m).2.mpr (Or.inl rfl)
      rw [admits, hself]
      decide +kernel

theorem mem_of_resolve (hlists : index.Lists lower provider ids) {requested m : String}
    (h : index.resolve lower provider requested = some m) : m ∈ ids := by
  cases hfind : ids.find? (Meets lower requested) with
  | some id =>
    rw [resolve_eq_of_hit hlists hfind] at h
    obtain rfl := Option.some.inj h
    exact List.mem_of_find?_eq_some hfind
  | none =>
    have hmiss : ∀ id ∈ ids, Meets lower requested id = false :=
      fun id hid => Bool.eq_false_iff.mpr (List.find?_eq_none.mp hfind id hid)
    rw [resolve_eq_of_miss hlists hmiss, Optimum.foldl_keep_eq_some_iff
      (admits_of_standing_le lower) (standing_injective lower requested)] at h
    exact h.1

/-- A listed model resolves to itself exactly if no other takes its place, and so does
what a request was resolved to. -/
theorem resolve_self_iff {providers : List (String × OrdMap M)}
    (hnodup : (providers.map Prod.fst).Nodup) {models : OrdMap M}
    (hmem : (provider, models) ∈ providers) :
    (∀ m ∈ models.keys,
      (ModelIndex.withMetadata lower providers).resolve lower provider m = some m ↔
        ExactWins lower models.keys m) ∧
    ∀ requested m,
      (ModelIndex.withMetadata lower providers).resolve lower provider requested = some m →
        ((ModelIndex.withMetadata lower providers).resolve lower provider m = some m ↔
          ExactWins lower models.keys m) := by
  have hlists := lists_withMetadata lower hnodup hmem
  refine ⟨fun m hm => resolve_listed_iff hlists models.sorted hm, ?_⟩
  intro requested m h
  exact resolve_listed_iff hlists models.sorted (mem_of_resolve hlists h)

/-- Two models that differ only in case: the second resolves to the first. -/
def gpt4os : OrdMap Unit where
  entries := [("GPT-4o", ()), ("gpt-4o", ()), ("gpt-4o-mini", ())]
  sorted := by decide

theorem resolve_self_other :
    "gpt-4o" ∈ gpt4os.keys ∧
      (ModelIndex.withMetadata Text.toAsciiLowercase [("copilot", gpt4os)]).resolve
        Text.toAsciiLowercase "copilot" "gpt-4o" = some "GPT-4o" := by
  decide

theorem resolve_self_iff_mini :
    (ModelIndex.withMetadata Text.toAsciiLowercase [("copilot", gpt4os)]).resolve
      Text.toAsciiLowercase "copilot" "gpt-4o-mini" = some "gpt-4o-mini" := by
  have hnodup : ([("copilot", gpt4os)].map Prod.fst).Nodup := List.nodup_singleton _
  apply ((resolve_self_iff hnodup (List.mem_singleton_self _)).1 "gpt-4o-mini" (by decide)).mpr
  rw [ExactWins, if_pos (by decide)]
  intro id hid hlt
  have hall : gpt4os.keys.all fun id => id == "gpt-4o-mini" ||
      !Meets Text.toAsciiLowercase "gpt-4o-mini" id := by
    decide
  have hid' := List.all_eq_true.mp hall id hid
  rcases Bool.or_eq_true _ _ ▸ hid' with heq | hnot
  · rw [beq_iff_eq.mp heq] at hlt
    exact absurd hlt (lt_irrefl _)
  · simpa using hnot

/-! ## ASCII names -/

/-- Where lower-casing the listed names is lower-casing in ASCII, what a request was
resolved to resolves to itself. -/
theorem resolve_idempotent (hlists : index.Lists lower provider ids)
    (hsorted : ids.Pairwise (· < ·))
    (hascii : ∀ id ∈ ids, lower id = Text.toAsciiLowercase id) {requested m : String}
    (h : index.resolve lower provider requested = some m) :
    index.resolve lower provider m = some m := by
  have hm := mem_of_resolve hlists h
  have hform : ∀ id ∈ ids, Text.toAsciiLowercase (lower id) = Text.toAsciiLowercase id :=
    fun id hid => by rw [hascii id hid, Text.toAsciiLowercase_idem]
  have hself : Meets lower m m = true := beq_iff_eq.mpr (hform m hm)
  rw [resolve_listed_iff hlists hsorted hm, ExactWins, if_pos hself]
  intro id hid hlt
  apply Bool.eq_false_iff.mpr
  intro hmeets
  have hsame : Text.toAsciiLowercase id = Text.toAsciiLowercase m := by
    rw [← hform id hid]
    exact beq_iff_eq.mp hmeets
  have hlower : lower id = lower m := by
    rw [hascii id hid, hascii m hm, hsame]
  cases hfind : ids.find? (Meets lower requested) with
  | some first =>
    -- both have the form of the request
    rw [resolve_eq_of_hit hlists hfind] at h
    obtain rfl := Option.some.inj h
    obtain ⟨-, hfirst, hmin⟩ := (Optimum.find?_eq_some_iff_of_sorted hsorted).mp hfind
    have hother := hmin id hid hlt
    rw [Meets, hlower] at hother
    rw [Meets, hother] at hfirst
    cases hfirst
  | none =>
    -- both score the same and are as long
    have hmiss : ∀ id ∈ ids, Meets lower requested id = false :=
      fun id hid => Bool.eq_false_iff.mpr (List.find?_eq_none.mp hfind id hid)
    rw [resolve_eq_of_miss hlists hmiss, Optimum.foldl_keep_eq_some_iff
      (admits_of_standing_le lower) (standing_injective lower requested)] at h
    have hpreferred := (standing_lt_iff lower).mp (h.2.2 id hid hlt.ne)
    have hfit : fit lower requested id = fit lower requested m := by
      rw [fit, fit, tokenize, tokenize, tokenize, hlower]
    have hlen : Text.len id = Text.len m := by
      rw [← Text.len_toAsciiLowercase id, hsame, Text.len_toAsciiLowercase]
    rcases hpreferred with hscore | ⟨-, hshort | ⟨-, hless⟩⟩
    · exact hscore.ne hfit
    · omega
    · exact hlt.asymm hless

end AgentShim.ModelIndexing
