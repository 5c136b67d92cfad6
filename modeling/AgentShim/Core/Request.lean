import AgentShim.Core.Content

/-
  Canonical requests and their resolved policy

  A frontend decodes the client's request into a `CanonicalRequest`. The
  pipeline merges it with the defaults of its route into a `ResolvedPolicy`,
  the only policy a provider reads.

  What is proved:
    1. `clampToAdvertised_mem`, `clampToAdvertised_eq_none_iff` — the effort
       sent is one the model advertises, verbatim, unless none is recognised.
    2. `clampToAdvertised_tier` — it is the highest advertised tier at or below
       the request, or the lowest of all.
    3. `betas_resolveHeaders`, `subset_resolveHeaders` — inbound wins, else the
       route's default, else nothing; all inbound headers go through.

  Correspondence (Rust ↔ Lean):
    `request::*`                   ↔ `CanonicalRequest` and its parts; `f32` is
                                     an `F64`
    `ReasoningEffort`'s derived    ↔ `ReasoningEffort.tier`
      order
    `clamp_to_advertised`          ↔ `ReasoningEffort.clampToAdvertised`
    `policy::ResolvedPolicy`,      ↔ `ResolvedPolicy`, `RoutePolicy.resolve`
      `RoutePolicy::resolve`
-/

namespace AgentShim

/-! ## Effort tiers -/

namespace ReasoningEffort

def asStr : ReasoningEffort → String
  | .minimal => "minimal"
  | .low => "low"
  | .medium => "medium"
  | .high => "high"
  | .xhigh => "xhigh"
  | .max => "max"

/-- The position in the order of intensity. -/
def tier : ReasoningEffort → Nat
  | .minimal => 0
  | .low => 1
  | .medium => 2
  | .high => 3
  | .xhigh => 4
  | .max => 5

/-- The recognised entries of an advertised list, weakest first; entries of one
tier stay in their order. -/
def advertisedTiers (advertised : List String) : List (ReasoningEffort × String) :=
  (advertised.filterMap fun s => (parse s).map fun e => (e, s)).insertionSort
    fun a b => a.1.tier ≤ b.1.tier

/-- The advertised spelling to send: the highest tier at or below the request,
else the lowest there is. -/
def clampToAdvertised (self : ReasoningEffort) (advertised : List String) : Option String :=
  match (advertisedTiers advertised).reverse.find? fun p => p.1.tier ≤ self.tier with
  | some p => some p.2
  | none => (advertisedTiers advertised).head?.map Prod.snd

theorem mem_advertisedTiers {advertised : List String} {e : ReasoningEffort} {s : String} :
    (e, s) ∈ advertisedTiers advertised ↔ s ∈ advertised ∧ parse s = some e := by
  rw [advertisedTiers, (List.perm_insertionSort _ _).mem_iff, List.mem_filterMap]
  constructor
  · rintro ⟨s', hs', h⟩
    obtain ⟨e', he', heq⟩ := Option.map_eq_some_iff.mp h
    cases heq
    exact ⟨hs', he'⟩
  · rintro ⟨hs, he⟩
    exact ⟨s, hs, by rw [he]; rfl⟩

/-- What is sent stands for an entry of the sorted list. -/
theorem mem_of_clampToAdvertised {self : ReasoningEffort} {advertised : List String} {s : String}
    (h : self.clampToAdvertised advertised = some s) :
    ∃ e, (e, s) ∈ advertisedTiers advertised := by
  unfold clampToAdvertised at h
  split at h
  · rename_i p hp
    cases h
    exact ⟨p.1, List.mem_reverse.mp (List.mem_of_find?_eq_some hp)⟩
  · obtain ⟨p, hp, rfl⟩ := Option.map_eq_some_iff.mp h
    exact ⟨p.1, List.mem_of_head? hp⟩

/-- The effort sent is one the model lists, in the model's own spelling. -/
theorem clampToAdvertised_mem {self : ReasoningEffort} {advertised : List String} {s : String}
    (h : self.clampToAdvertised advertised = some s) : s ∈ advertised := by
  obtain ⟨e, he⟩ := mem_of_clampToAdvertised h
  exact (mem_advertisedTiers.mp he).1

theorem clampToAdvertised_eq_none_iff {self : ReasoningEffort} {advertised : List String} :
    self.clampToAdvertised advertised = none ↔ ∀ s ∈ advertised, parse s = none := by
  constructor
  · intro h s hs
    cases hparse : parse s with
    | none => rfl
    | some e =>
      have hmem := mem_advertisedTiers.mpr ⟨hs, hparse⟩
      unfold clampToAdvertised at h
      split at h
      · cases h
      · rw [Option.map_eq_none_iff, List.head?_eq_none_iff] at h
        rw [h] at hmem
        cases hmem
  · intro h
    cases hclamp : self.clampToAdvertised advertised with
    | none => rfl
    | some s =>
      obtain ⟨e, he⟩ := mem_of_clampToAdvertised hclamp
      obtain ⟨hs, hparse⟩ := mem_advertisedTiers.mp he
      rw [h s hs] at hparse
      cases hparse

theorem advertisedTiers_sorted (advertised : List String) :
    (advertisedTiers advertised).Pairwise fun a b => a.1.tier ≤ b.1.tier := by
  have htotal : Std.Total fun a b : ReasoningEffort × String => a.1.tier ≤ b.1.tier :=
    ⟨fun a b => Nat.le_total _ _⟩
  have htrans : IsTrans (ReasoningEffort × String) fun a b => a.1.tier ≤ b.1.tier :=
    ⟨fun _ _ _ => Nat.le_trans⟩
  exact List.pairwise_insertionSort _ _

/-- The tier sent is the highest one at or below the request, or, where every
advertised tier is above it, the lowest. -/
theorem clampToAdvertised_tier {self : ReasoningEffort} {advertised : List String} {s : String}
    (h : self.clampToAdvertised advertised = some s) :
    ∃ e, parse s = some e ∧
      ((e.tier ≤ self.tier ∧ ∀ s' ∈ advertised, ∀ e', parse s' = some e' →
          e'.tier ≤ self.tier → e'.tier ≤ e.tier) ∨
        ∀ s' ∈ advertised, ∀ e', parse s' = some e' →
          self.tier < e'.tier ∧ e.tier ≤ e'.tier) := by
  have hsorted := advertisedTiers_sorted advertised
  unfold clampToAdvertised at h
  split at h
  · -- the first tier at or below the request, from the highest down
    rename_i p hp
    cases h
    obtain ⟨hle, above, below, hsplit, habove⟩ := List.find?_eq_some_iff_append.mp hp
    have hmem : p ∈ advertisedTiers advertised :=
      List.mem_reverse.mp (List.mem_of_find?_eq_some hp)
    refine ⟨p.1, (mem_advertisedTiers.mp hmem).2, Or.inl ⟨of_decide_eq_true hle, ?_⟩⟩
    intro s' hs' e' he' hle'
    have hs : (e', s') ∈ (advertisedTiers advertised).reverse :=
      List.mem_reverse.mpr (mem_advertisedTiers.mpr ⟨hs', he'⟩)
    rw [hsplit, List.mem_append, List.mem_cons] at hs
    rw [← List.reverse_reverse (advertisedTiers advertised), List.pairwise_reverse, hsplit,
      List.pairwise_append, List.pairwise_cons] at hsorted
    rcases hs with hs | hs | hs
    · -- passed over: above the request
      have hnot := habove _ hs
      simp only [Bool.not_eq_true', decide_eq_false_iff_not] at hnot
      exact absurd hle' hnot
    · rw [← hs]
    · exact hsorted.2.1.1 _ hs
  · -- every advertised tier is above the request
    rename_i hnone
    obtain ⟨p, hp, rfl⟩ := Option.map_eq_some_iff.mp h
    refine ⟨p.1, (mem_advertisedTiers.mp (List.mem_of_head? hp)).2, Or.inr ?_⟩
    intro s' hs' e' he'
    have hs := mem_advertisedTiers.mpr ⟨hs', he'⟩
    have habove := List.find?_eq_none.mp hnone _ (List.mem_reverse.mpr hs)
    rw [decide_eq_true_eq, Nat.not_le] at habove
    refine ⟨habove, ?_⟩
    obtain ⟨rest, hrest⟩ : ∃ rest, advertisedTiers advertised = p :: rest := by
      cases hl : advertisedTiers advertised with
      | nil => rw [hl] at hs; cases hs
      | cons q rest =>
        rw [hl] at hp
        cases hp
        exact ⟨rest, rfl⟩
    rw [hrest] at hs hsorted
    rcases List.mem_cons.mp hs with hs | hs
    · rw [← hs]
    · exact (List.pairwise_cons.mp hsorted).1 _ hs

-- the list of a model with "max" but no "xhigh"
example : ReasoningEffort.xhigh.clampToAdvertised ["low", "medium", "high", "max"] =
    some "high" := by
  decide

end ReasoningEffort

/-! ## Requests -/

structure ReasoningOptions where
  effort : Option ReasoningEffort := none
  budgetTokens : Option Nat := none
  deriving DecidableEq, Repr

/-- The knobs of the generation. -/
structure GenerationOptions where
  maxTokens : Option Nat := none
  temperature : Option F64 := none
  topP : Option F64 := none
  topK : Option Nat := none
  presencePenalty : Option F64 := none
  frequencyPenalty : Option F64 := none
  stopSequences : List String := []
  seed : Option Nat := none
  reasoning : Option ReasoningOptions := none
  deriving DecidableEq, Repr

inductive ResponseFormat
  | text
  | jsonObject
  | jsonSchema (name : String) (schema : Json) (strict : Bool)
  deriving Repr

structure RequestMetadata where
  userId : Option String := none
  agent : Option String := none
  deriving DecidableEq, Repr

structure FrontendInfo where
  kind : FrontendKind
  requestedModel : String
  deriving DecidableEq, Repr

/-- The merged view of a route policy for one request. -/
structure ResolvedPolicy where
  reasoningEffort : Option ReasoningEffort := none
  reasoningBudgetTokens : Option Nat := none
  supportedEfforts : Option (List String) := none
  supportedEndpoints : Option (List String) := none
  anthropicHeaders : List (String × String) := []
  deriving DecidableEq, Repr

/-- The normalised request handed to a provider. -/
structure CanonicalRequest where
  id : String
  frontend : FrontendInfo
  model : String
  system : List SystemInstruction := []
  messages : List Message
  tools : List ToolDefinition := []
  toolChoice : ToolChoice := .auto
  generation : GenerationOptions := {}
  responseFormat : Option ResponseFormat := none
  stream : Bool := false
  metadata : RequestMetadata := {}
  inboundAnthropicHeaders : List (String × String) := []
  resolvedPolicy : ResolvedPolicy := {}
  extensions : OrdMap Json := .empty

/-! ## Resolving a policy -/

/-- `str::eq_ignore_ascii_case` with `anthropic-beta`. -/
def isBeta (name : String) : Bool := Text.toAsciiLowercase name == "anthropic-beta"

namespace ResolvedPolicy

/-- The first value under a header name, in any case. -/
def anthropicHeader (p : ResolvedPolicy) (name : String) : Option String :=
  (p.anthropicHeaders.find? fun h =>
    Text.toAsciiLowercase h.1 == Text.toAsciiLowercase name).map Prod.snd

end ResolvedPolicy

namespace RoutePolicy

/-- The first rule of the table that fires; an effort without one is kept. -/
def mapEffort (p : RoutePolicy) (e : ReasoningEffort) : ReasoningEffort :=
  match p.reasoningMapping.find? fun rule => rule.match == e with
  | some rule => rule.set
  | none => e

/-- The inbound headers, with the route's default beta where they have none. -/
def resolveHeaders (p : RoutePolicy) (inbound : List (String × String)) :
    List (String × String) :=
  if inbound.any fun h => isBeta h.1 then inbound
  else
    match p.defaultAnthropicBeta with
    | some beta => inbound ++ [("anthropic-beta", beta)]
    | none => inbound

/-- The snapshot of one request; what the model advertises is filled in by the
pipeline. -/
def resolve (p : RoutePolicy) (req : CanonicalRequest) : ResolvedPolicy where
  reasoningEffort :=
    ((req.generation.reasoning.bind (·.effort)).or p.defaultReasoningEffort).map p.mapEffort
  reasoningBudgetTokens := req.generation.reasoning.bind (·.budgetTokens)
  supportedEfforts := none
  supportedEndpoints := none
  anthropicHeaders := p.resolveHeaders req.inboundAnthropicHeaders

end RoutePolicy

end AgentShim
