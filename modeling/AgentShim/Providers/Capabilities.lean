import AgentShim.Core.Request

/-
  What a provider chooses from the resolved policy

  Two choices depend on what the target model advertises: the spelling of the
  reasoning effort, and, at Copilot, the endpoint. Without a list each falls
  back to a static rule.

  What is proved:
    1. `clampOr_advertised` — under a list with a recognised tier both encoders
       send the clamped effort.
    2. `endpoint_listed` — a model that lists one of the two endpoints is called
       at one it lists.

  Correspondence (Rust ↔ Lean):
    `canonical_to_chat::{effort_for_chat,  ↔ `effortForChat`,
      effort_wire_string}`                   `effortWireString`
    the effort of `responses_api`'s        ↔ `responsesEffort`
      `build`
    `github_copilot::                      ↔ `decideUseResponsesApi`
      decide_use_responses_api`
-/

namespace AgentShim.Providers

/-- The static compression of a Chat upstream. -/
def effortForChat (e : ReasoningEffort) (acceptsXhigh : Bool) : String :=
  match e with
  | .minimal => "minimal"
  | .low => "low"
  | .medium => "medium"
  | .high => "high"
  | .xhigh => if acceptsXhigh then "xhigh" else "high"
  | .max => if acceptsXhigh then "xhigh" else "high"

/-- The static compression of a Responses upstream. -/
def effortForResponses : ReasoningEffort → String
  | .xhigh => "high"
  | .max => "high"
  | other => other.asStr

/-- The effort clamped to the advertised list, else a static fallback. -/
def clampOr (fallback : ReasoningEffort → String) (p : ResolvedPolicy) : Option String :=
  p.reasoningEffort.map fun effort =>
    (p.supportedEfforts.bind effort.clampToAdvertised).getD (fallback effort)

/-- The `reasoning_effort` of a Chat body. -/
def effortWireString (p : ResolvedPolicy) (acceptsXhigh : Bool) : Option String :=
  clampOr (effortForChat · acceptsXhigh) p

/-- The `reasoning.effort` of a Responses body. -/
def responsesEffort (p : ResolvedPolicy) : Option String := clampOr effortForResponses p

/-- Under a list with a recognised tier the fallback is not consulted. -/
theorem clampOr_advertised {p : ResolvedPolicy} {effort : ReasoningEffort}
    {advertised : List String} {s : String} (fallback : ReasoningEffort → String)
    (heffort : p.reasoningEffort = some effort)
    (hlist : p.supportedEfforts = some advertised)
    (hclamp : effort.clampToAdvertised advertised = some s) : clampOr fallback p = some s := by
  simp [clampOr, heffort, hlist, hclamp]

/-- The choice depends on the effort and the list only. -/
theorem clampOr_congr {p q : ResolvedPolicy} (fallback : ReasoningEffort → String)
    (heffort : p.reasoningEffort = q.reasoningEffort)
    (hlist : p.supportedEfforts = q.supportedEfforts) :
    clampOr fallback p = clampOr fallback q := by
  rw [clampOr, clampOr, heffort, hlist]

/-! ## Copilot's endpoint -/

def chatCompletionsEndpoint : String := "/chat/completions"

def responsesEndpoint : String := "/responses"

/-- Whether a request goes through the Responses API: what its frontend maps to,
unless the model lists only the other endpoint. -/
def decideUseResponsesApi (frontend : FrontendKind) (endpoints : Option (List String)) : Bool :=
  let naturalResponses := frontend == .openAiResponses
  match endpoints with
  | none => naturalResponses
  | some eps =>
    let supportsChat := eps.contains chatCompletionsEndpoint
    let supportsResponses := eps.contains responsesEndpoint
    if naturalResponses then supportsResponses || !supportsChat
    else !supportsChat && supportsResponses

/-- The endpoint of a choice. -/
def endpointOf (useResponses : Bool) : String :=
  if useResponses then responsesEndpoint else chatCompletionsEndpoint

/-- A model that lists one of the two endpoints is called at one it lists. -/
theorem endpoint_listed (frontend : FrontendKind) {eps : List String}
    (h : chatCompletionsEndpoint ∈ eps ∨ responsesEndpoint ∈ eps) :
    endpointOf (decideUseResponsesApi frontend (some eps)) ∈ eps := by
  have hlisted : ∀ b, (b = true → responsesEndpoint ∈ eps) →
      (b = false → chatCompletionsEndpoint ∈ eps) → endpointOf b ∈ eps := by
    intro b htrue hfalse
    cases b with
    | true => exact htrue rfl
    | false => exact hfalse rfl
  apply hlisted
  · intro hchosen
    by_contra hno
    have hchat := h.resolve_right hno
    simp [decideUseResponsesApi, hno, hchat] at hchosen
  · intro hchosen
    by_contra hno
    have hresponses := h.resolve_left hno
    simp [decideUseResponsesApi, hno, hresponses] at hchosen

end AgentShim.Providers
