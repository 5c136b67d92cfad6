import AgentShim.Plugins.Compressor

/-
  Truncation to a token budget

  `truncate_to_tokens` drops groups from the front, one after the other, until
  what is left fits or the floor of kept groups is reached. The token count of a
  group stops at `u32::MAX`; the sum over the groups is a plain one.

  What is proved:
    1. `remainingTokens_eq` — what is left without the first groups counts what
       the other groups count.
    2. `dropLoop_spec` — the loop stops at the first group from which on the counts
       meet the target, or at the floor.
    3. `truncated_of_fits` — as long as the sum fits, truncation drops the least
       number of groups and says what it did.
    4. `truncate_minimal_iff` — for a list longer than the floor, it does so unless
       the sum wraps, or a count that was stopped is as large as the target.
-/

namespace AgentShim.PromptCompressor

open Tiling

/-- The index at which the group `k` starts, the end of the messages for none. -/
def groupStart (messages : List Message) (k : Nat) : Nat :=
  ((groupBoundaries messages)[k]?.map Range.start).getD messages.length

/-- The tokens of what is left without the first `k` groups. -/
def remainingTokens (encodedLen : String → Nat) (messages : List Message) (k : Nat) : Nat :=
  textTokens encodedLen (messages.drop (groupStart messages k))

/-- Dropping the first `k` groups is the least that meets the target, or all that
the floor allows, and the result says so. -/
structure Truncated (encodedLen : String → Nat) (messages : List Message)
    (targetTokens keepLastN k : Nat) (result : CompressionResult) : Prop where
  suffix : result.newMessages = messages.drop (groupStart messages k)
  floor : min keepLastN (groupBoundaries messages).length ≤ (groupBoundaries messages).length - k
  least : ∀ j < k, targetTokens < remainingTokens encodedLen messages j
  reached : remainingTokens encodedLen messages k ≤ targetTokens ∨
    k = (groupBoundaries messages).length - keepLastN
  action : result.action =
    if k = 0 then .skipped
    else if remainingTokens encodedLen messages k ≤ targetTokens then .compressed
    else .compressedButOverBudget
  dropped : result.dropped + result.newMessages.length = messages.length

/-- The sum over the groups, where it is taken, is a `u32`. -/
def SumFits (encodedLen : String → Nat) (messages : List Message) (keepLastN : Nat) : Prop :=
  keepLastN < (groupBoundaries messages).length → (groupTokens encodedLen messages).sum ≤ maxU32

/-- The tokens of the groups, before they are stopped at `u32::MAX`. -/
def groupSizes (encodedLen : String → Nat) (messages : List Message) : List Nat :=
  (groupBoundaries messages).map fun group => textTokens encodedLen (group.slice messages)

section Counts

variable (encodedLen : String → Nat) (messages : List Message)

theorem textTokens_flatMap {α : Type} (l : List α) (f : α → List Message) :
    textTokens encodedLen (l.flatMap f) = (l.map fun a => textTokens encodedLen (f a)).sum := by
  induction l with
  | nil => rfl
  | cons a l ih => rw [List.flatMap_cons, textTokens_append, ih, List.map_cons, List.sum_cons]

theorem groupTokens_eq :
    groupTokens encodedLen messages = Saturating.cap maxU32 (groupSizes encodedLen messages) := by
  rw [groupTokens, Saturating.cap, groupSizes, List.map_map]
  exact List.map_congr_left fun group _ => countMessagesTokens_eq encodedLen _

theorem groupStart_zero : groupStart messages 0 = 0 := by
  cases messages with
  | nil => rfl
  | cons msg rest =>
    obtain ⟨stop, tail, hloop⟩ := groupLoop_head rest 1 0
    simp [groupStart, groupBoundaries, hloop]

theorem groupStart_of_get {k : Nat} {group : Range}
    (h : (groupBoundaries messages)[k]? = some group) : groupStart messages k = group.start := by
  simp [groupStart, h]

/-- What is left without the first groups counts what the others count. -/
theorem remainingTokens_eq (k : Nat) :
    remainingTokens encodedLen messages k = ((groupSizes encodedLen messages).drop k).sum := by
  cases hget : (groupBoundaries messages)[k]? with
  | none =>
    have hlength := List.getElem?_eq_none_iff.mp hget
    have hdrop : (groupSizes encodedLen messages).drop k = [] :=
      List.drop_eq_nil_of_le (by simpa [groupSizes] using hlength)
    simp [remainingTokens, groupStart, hget, hdrop, textTokens]
  | some group =>
    have hslices := ((groupBoundaries_tiles messages).drop hget).flatMap_slice
    calc remainingTokens encodedLen messages k
        = textTokens encodedLen (messages.drop group.start) := by
          rw [remainingTokens, groupStart_of_get messages hget]
      _ = textTokens encodedLen
            (((groupBoundaries messages).drop k).flatMap fun r => r.slice messages) := by
          rw [hslices]
      _ = ((groupSizes encodedLen messages).drop k).sum := by
          rw [textTokens_flatMap, groupSizes, List.map_drop]

theorem remainingTokens_zero :
    remainingTokens encodedLen messages 0 = (groupSizes encodedLen messages).sum :=
  remainingTokens_eq encodedLen messages 0

theorem sum_groupSizes : (groupSizes encodedLen messages).sum = textTokens encodedLen messages := by
  rw [← remainingTokens_zero, remainingTokens, groupStart_zero, List.drop_zero]

end Counts

/-! ## The loop -/

theorem foldl_addU32 (xs : List Nat) {total : Nat} (h : total + xs.sum ≤ maxU32) :
    xs.foldl Wire.addU32 total = total + xs.sum := by
  induction xs generalizing total with
  | nil => rfl
  | cons x xs ih =>
    rw [List.sum_cons] at h ⊢
    have hmax : maxU32 < 4294967296 := by decide
    have hadd : Wire.addU32 total x = total + x := Nat.mod_eq_of_lt (by omega)
    rw [List.foldl_cons, hadd, ih (by omega)]
    omega

/-- From the sum of the counts on, the loop drops `d` more groups: before each of
them the rest is above the target, and it ends with the target met or at the floor. -/
theorem dropLoop_spec (targetTokens maxDrop : Nat) (tokens : List Nat) (dropIdx : Nat) :
    ∃ d, dropLoop targetTokens maxDrop tokens tokens.sum dropIdx =
        ((tokens.drop d).sum, dropIdx + d) ∧
      (∀ j < d, targetTokens < (tokens.drop j).sum ∧ dropIdx + j < maxDrop) ∧
      ((tokens.drop d).sum ≤ targetTokens ∨ maxDrop ≤ dropIdx + d) := by
  induction tokens generalizing dropIdx with
  | nil => exact ⟨0, rfl, by simp, Or.inl (Nat.zero_le _)⟩
  | cons count tokens ih =>
    by_cases hgo : targetTokens < (count :: tokens).sum ∧ dropIdx < maxDrop
    · obtain ⟨d, hloop, hbefore, hafter⟩ := ih (dropIdx + 1)
      have hsub : (count :: tokens).sum - count = tokens.sum := by
        rw [List.sum_cons, Nat.add_sub_cancel_left]
      refine ⟨d + 1, ?_, ?_, ?_⟩
      · rw [dropLoop, if_pos hgo, hsub, hloop, List.drop_succ_cons]
        congr 1
        omega
      · intro j hj
        cases j with
        | zero => exact hgo
        | succ j =>
          rw [List.drop_succ_cons]
          have hj' := hbefore j (by omega)
          exact ⟨hj'.1, by omega⟩
      · rw [List.drop_succ_cons]
        rcases hafter with hmet | hfloor
        · exact Or.inl hmet
        · exact Or.inr (by omega)
    · refine ⟨0, ?_, ?_, ?_⟩
      · rw [dropLoop, if_neg hgo]
        rfl
      · intro j hj
        omega
      · rw [List.drop_zero]
        omega

/-! ## Truncation -/

section Truncation

variable {encodedLen : String → Nat} {messages : List Message} {targetTokens keepLastN : Nat}

theorem truncateToTokens_short (h : (groupBoundaries messages).length ≤ keepLastN) :
    truncateToTokens encodedLen messages targetTokens keepLastN = some (skip messages) :=
  if_pos h

/-- A result without a cut, where none is called for. -/
theorem truncated_skip
    (h : remainingTokens encodedLen messages 0 ≤ targetTokens ∨
      (groupBoundaries messages).length ≤ keepLastN) :
    Truncated encodedLen messages targetTokens keepLastN 0 (skip messages) where
  suffix := by rw [groupStart_zero]; rfl
  floor := Nat.min_le_right _ _
  least := fun j hj => absurd hj (Nat.not_lt_zero j)
  reached := h.imp_right fun hle => (Nat.sub_eq_zero_of_le hle).symm
  action := rfl
  dropped := Nat.zero_add _

/-- A result cut at a group, when the loop has dropped some. -/
theorem truncated_cutAt {k : Nat} {group : Range} (hk : 0 < k)
    (hget : (groupBoundaries messages)[k]? = some group)
    (hfloor : k ≤ (groupBoundaries messages).length - keepLastN)
    (hleast : ∀ j < k, targetTokens < remainingTokens encodedLen messages j)
    (hreached : remainingTokens encodedLen messages k ≤ targetTokens ∨
      k = (groupBoundaries messages).length - keepLastN) :
    Truncated encodedLen messages targetTokens keepLastN k
      (cutAt messages group.start
        (if targetTokens < remainingTokens encodedLen messages k then .compressedButOverBudget
         else .compressed)) where
  suffix := by rw [groupStart_of_get messages hget]; rfl
  floor := by omega
  least := hleast
  reached := hreached
  action := by
    rw [if_neg (Nat.ne_of_gt hk)]
    by_cases hmet : remainingTokens encodedLen messages k ≤ targetTokens
    · rw [if_pos hmet]
      exact if_neg (Nat.not_lt.mpr hmet)
    · rw [if_neg hmet]
      exact if_pos (Nat.not_le.mp hmet)
  dropped := by
    have hlt := (groupBoundaries_tiles messages).start_lt hget
    show group.start + (messages.drop group.start).length = messages.length
    rw [List.length_drop]
    omega

/-- As long as the sum fits and no stopped count reaches the target, the least
number of groups is dropped. -/
theorem truncated_of_fits (hkeep : 1 ≤ keepLastN)
    (hfits : (groupTokens encodedLen messages).sum ≤ maxU32)
    (hcapped : targetTokens < maxU32 ∨ textTokens encodedLen messages ≤ maxU32) :
    ∃ result k, truncateToTokens encodedLen messages targetTokens keepLastN = some result ∧
      Truncated encodedLen messages targetTokens keepLastN k result := by
  by_cases hshort : (groupBoundaries messages).length ≤ keepLastN
  · exact ⟨_, 0, truncateToTokens_short hshort, truncated_skip (Or.inr hshort)⟩
  have hsum : (groupTokens encodedLen messages).foldl Wire.addU32 0 =
      (groupTokens encodedLen messages).sum := by
    rw [foldl_addU32 _ (by omega), Nat.zero_add]
  -- the counts that stop at `u32::MAX` and the others compare alike with the target
  have hcount : ∀ j, ((groupTokens encodedLen messages).drop j).sum ≤ targetTokens ↔
      remainingTokens encodedLen messages j ≤ targetTokens := by
    intro j
    rw [groupTokens_eq, ← Saturating.cap_drop, remainingTokens_eq]
    apply Saturating.sum_cap_le_iff
    have hsplit := List.sum_take_add_sum_drop (groupSizes encodedLen messages) j
    rw [← sum_groupSizes] at hcapped
    omega
  have hcountLt : ∀ j, targetTokens < ((groupTokens encodedLen messages).drop j).sum ↔
      targetTokens < remainingTokens encodedLen messages j := by
    intro j
    rw [← Nat.not_le, hcount j, Nat.not_le]
  unfold truncateToTokens
  rw [if_neg hshort]
  dsimp only
  rw [hsum]
  by_cases hmet : (groupTokens encodedLen messages).sum ≤ targetTokens
  · rw [if_pos hmet]
    exact ⟨_, 0, rfl, truncated_skip (Or.inl ((hcount 0).mp hmet))⟩
  · rw [if_neg hmet]
    obtain ⟨k, hloop, hbefore, hafter⟩ := dropLoop_spec targetTokens
      ((groupBoundaries messages).length - keepLastN) (groupTokens encodedLen messages) 0
    rw [Nat.zero_add] at hloop hafter
    have hpos : 0 < k := by
      rcases Nat.eq_zero_or_pos k with rfl | hpos
      · rw [List.drop_zero] at hafter
        omega
      · exact hpos
    have hfloor : k ≤ (groupBoundaries messages).length - keepLastN := by
      have hlast := (hbefore (k - 1) (by omega)).2
      omega
    obtain ⟨group, hget⟩ : ∃ group, (groupBoundaries messages)[k]? = some group :=
      ⟨_, List.getElem?_eq_getElem (by omega)⟩
    rw [hloop]
    dsimp only
    simp only [hcountLt k, hget]
    refine ⟨_, k, rfl, truncated_cutAt hpos hget hfloor ?_ ?_⟩
    · exact fun j hj => (hcountLt j).mp (hbefore j hj).1
    · rcases hafter with hmet' | hlast
      · exact Or.inl ((hcount k).mp hmet')
      · exact Or.inr (Nat.le_antisymm hfloor hlast)

/-- Truncation keeps to its budget, and no sum overflows, iff the list is within
the floor, or counts at most `u32::MAX` tokens, or counts more in a single group
while the target is below `u32::MAX`. -/
theorem truncate_minimal_iff (hkeep : 1 ≤ keepLastN) (htarget : targetTokens ≤ maxU32) :
    ((∃ result k, truncateToTokens encodedLen messages targetTokens keepLastN = some result ∧
        Truncated encodedLen messages targetTokens keepLastN k result) ∧
      SumFits encodedLen messages keepLastN) ↔
    ((groupBoundaries messages).length ≤ keepLastN ∨
      textTokens encodedLen messages ≤ maxU32 ∨
      (targetTokens < maxU32 ∧
        ((groupSizes encodedLen messages).filter (0 < ·)).length ≤ 1)) := by
  have hfits : (groupTokens encodedLen messages).sum ≤ maxU32 ↔
      textTokens encodedLen messages ≤ maxU32 ∨
        ((groupSizes encodedLen messages).filter (0 < ·)).length ≤ 1 := by
    rw [groupTokens_eq, Saturating.sum_cap_fits_iff (by decide), sum_groupSizes]
  constructor
  · rintro ⟨⟨result, k, hresult, htruncated⟩, hsum⟩
    by_cases hshort : (groupBoundaries messages).length ≤ keepLastN
    · exact Or.inl hshort
    rcases hfits.mp (hsum (Nat.not_le.mp hshort)) with htotal | hone
    · exact Or.inr (Or.inl htotal)
    by_cases htotal : textTokens encodedLen messages ≤ maxU32
    · exact Or.inr (Or.inl htotal)
    refine Or.inr (Or.inr ⟨Nat.lt_of_le_of_ne htarget ?_, hone⟩)
    -- a target of `u32::MAX` is met by the sum, and nothing is dropped
    rintro rfl
    have hle := hsum (Nat.not_le.mp hshort)
    have hfold : (groupTokens encodedLen messages).foldl Wire.addU32 0 ≤ maxU32 := by
      rw [foldl_addU32 _ (by omega), Nat.zero_add]
      exact hle
    rw [truncateToTokens, if_neg hshort, if_pos hfold] at hresult
    cases hresult
    have hk : k = 0 := by
      by_contra hk
      have haction := htruncated.action
      rw [if_neg hk] at haction
      split at haction
      · cases haction
      · cases haction
    subst hk
    rcases htruncated.reached with hmet | hlast
    · rw [remainingTokens_zero, sum_groupSizes] at hmet
      exact htotal hmet
    · omega
  · intro hcond
    by_cases hshort : (groupBoundaries messages).length ≤ keepLastN
    · exact ⟨⟨_, 0, truncateToTokens_short hshort, truncated_skip (Or.inr hshort)⟩,
        fun hlt => absurd hshort (Nat.not_le.mpr hlt)⟩
    rcases hcond with hle | htotal | ⟨hbelow, hone⟩
    · exact absurd hle hshort
    · have hsum := hfits.mpr (Or.inl htotal)
      exact ⟨truncated_of_fits hkeep hsum (Or.inr htotal), fun _ => hsum⟩
    · have hsum := hfits.mpr (Or.inr hone)
      exact ⟨truncated_of_fits hkeep hsum (Or.inl hbelow), fun _ => hsum⟩

end Truncation

/-- Two groups of one text each. -/
def twoTurns : List Message :=
  [.user [.ofText "What is a monad?"], .user [.ofText "And a comonad?"]]

theorem truncate_minimal_iff_twoTurns :
    (∃ result k, truncateToTokens (fun _ => 5) twoTurns 8 1 = some result ∧
        Truncated (fun _ => 5) twoTurns 8 1 k result) ∧
      SumFits (fun _ => 5) twoTurns 1 :=
  (truncate_minimal_iff (by decide) (by decide)).mpr (Or.inr (Or.inl (by decide)))

/-- With 2^31 tokens in either text the sum wraps to zero, and nothing is dropped. -/
theorem sum_wraps_twoTurns :
    truncateToTokens (fun _ => 2147483648) twoTurns 1000 1 = some (skip twoTurns) ∧
      1000 < remainingTokens (fun _ => 2147483648) twoTurns 0 ∧
      ¬ ((∃ result k, truncateToTokens (fun _ => 2147483648) twoTurns 1000 1 = some result ∧
            Truncated (fun _ => 2147483648) twoTurns 1000 1 k result) ∧
          SumFits (fun _ => 2147483648) twoTurns 1) := by
  refine ⟨rfl, by decide, ?_⟩
  rintro ⟨-, hfits⟩
  have hsum := hfits (by decide)
  revert hsum
  decide

end AgentShim.PromptCompressor
