import AgentShim.Core.Request
import AgentShim.Lib.Clamping
import Mathlib.Order.Lattice

/-
  Clamping an effort

  Efforts are ordered by intensity, and the advertised list of a model offers those that
  some entry stands for. The effort sent is the requested one, clamped into this set.

  What is proved:
    1. `clamps_of_clampToAdvertised` — what is sent stands for the greatest offer at or
       below the request, or the least where all are above.
    2. `clampToAdvertised_lawful` — with it, when nothing is sent, that the choice grows
       with the request, and that it is clamped to itself.

  Correspondence (Rust ↔ Lean):
    `impl Ord for ReasoningEffort` (derived) ↔ the order by `tier`
-/

namespace AgentShim.ReasoningEffort

open Clamping

theorem tier_injective : Function.Injective tier := by
  intro a b h
  cases a <;> cases b <;> first | rfl | cases h

instance : LinearOrder ReasoningEffort := LinearOrder.lift' tier tier_injective

theorem le_iff_tier_le {a b : ReasoningEffort} : a ≤ b ↔ a.tier ≤ b.tier := Iff.rfl

/-- The efforts that some entry of a list stands for. -/
def offered (advertised : List String) : Set ReasoningEffort :=
  {e | ∃ s ∈ advertised, parse s = some e}

theorem clamps_of_clampToAdvertised {self : ReasoningEffort} {advertised : List String}
    {s : String} (h : self.clampToAdvertised advertised = some s) :
    ∃ e, parse s = some e ∧ Clamps (offered advertised) self e := by
  obtain ⟨e, hparse, hchoice⟩ := clampToAdvertised_tier h
  have hmem : e ∈ offered advertised := ⟨s, clampToAdvertised_mem h, hparse⟩
  refine ⟨e, hparse, ?_⟩
  rcases hchoice with ⟨hle, hgreatest⟩ | habove
  · -- the highest at or below the request
    refine Or.inl ⟨⟨hmem, hle⟩, ?_⟩
    intro e' he'
    obtain ⟨⟨s', hs', hparse'⟩, hle'⟩ := he'
    exact hgreatest s' hs' e' hparse' hle'
  · -- the lowest of all
    refine Or.inr ⟨?_, hmem, ?_⟩
    · apply Set.eq_empty_of_forall_notMem
      intro e' he'
      obtain ⟨⟨s', hs', hparse'⟩, hle'⟩ := he'
      exact absurd (le_iff_tier_le.mp hle') (Nat.not_le.mpr (habove s' hs' e' hparse').1)
    · intro e' he'
      obtain ⟨s', hs', hparse'⟩ := he'
      exact (habove s' hs' e' hparse').2

/-- Something is sent as soon as something is offered. -/
theorem clampToAdvertised_of_mem (self : ReasoningEffort) {advertised : List String}
    {e : ReasoningEffort} (h : e ∈ offered advertised) :
    ∃ s, self.clampToAdvertised advertised = some s := by
  obtain ⟨s, hs, hparse⟩ := h
  apply Option.ne_none_iff_exists'.mp
  intro hnone
  have hunparsed := clampToAdvertised_eq_none_iff.mp hnone s hs
  rw [hparse] at hunparsed
  cases hunparsed

/-- An effort that is offered is sent as itself, in some spelling. -/
theorem clampToAdvertised_self {e : ReasoningEffort} {advertised : List String}
    (h : e ∈ offered advertised) :
    ∃ s, e.clampToAdvertised advertised = some s ∧ parse s = some e := by
  obtain ⟨s, hs⟩ := clampToAdvertised_of_mem e h
  obtain ⟨e', hparse, hclamps⟩ := clamps_of_clampToAdvertised hs
  obtain rfl := hclamps.unique (clamps_self h)
  exact ⟨s, hs, hparse⟩

/-- Nothing is sent where no entry is recognised. Otherwise it is an entry, verbatim, of
the request clamped into what is offered; a higher request is not clamped lower, and the
choice is clamped to itself. -/
theorem clampToAdvertised_lawful (self : ReasoningEffort) (advertised : List String) :
    (self.clampToAdvertised advertised = none ↔ ∀ s ∈ advertised, parse s = none) ∧
    ∀ s, self.clampToAdvertised advertised = some s →
      s ∈ advertised ∧ ∃ e, parse s = some e ∧ Clamps (offered advertised) self e ∧
        (∀ self' ≥ self, ∃ s' e', self'.clampToAdvertised advertised = some s' ∧
          parse s' = some e' ∧ e ≤ e') ∧
        ∃ s', e.clampToAdvertised advertised = some s' ∧ parse s' = some e := by
  refine ⟨clampToAdvertised_eq_none_iff, ?_⟩
  intro s hs
  obtain ⟨e, hparse, hclamps⟩ := clamps_of_clampToAdvertised hs
  refine ⟨clampToAdvertised_mem hs, e, hparse, hclamps, ?_, clampToAdvertised_self hclamps.mem⟩
  intro self' hself
  obtain ⟨s', hs'⟩ := clampToAdvertised_of_mem self' hclamps.mem
  obtain ⟨e', hparse', hclamps'⟩ := clamps_of_clampToAdvertised hs'
  exact ⟨s', e', hs', hparse', hclamps.mono hclamps' hself⟩

/-- Less was asked for than the model has: its lowest, in its own spelling. -/
theorem clampToAdvertised_lawful_floor :
    ReasoningEffort.low.clampToAdvertised ["HIGH", "default", "turbo"] = some "default" ∧
      ∃ e, parse "default" = some e ∧
        Clamps (offered ["HIGH", "default", "turbo"]) .low e := by
  have hsent : ReasoningEffort.low.clampToAdvertised ["HIGH", "default", "turbo"] =
      some "default" := by
    decide
  obtain ⟨-, e, hparse, hclamps, -⟩ := (clampToAdvertised_lawful _ _).2 _ hsent
  exact ⟨hsent, e, hparse, hclamps⟩

end AgentShim.ReasoningEffort
