import AgentShim.Providers.Capabilities
import AgentShim.Router.ModelIndex
import AgentShim.Router.ResilientCaller

/-
  The policy snapshot of a request

  Before admission the pipeline captures the client's `anthropic-*` headers,
  merges the request with the route's policy, and copies onto the result what
  the catalog lists for the head of the resolved chain. The same canonical
  request then goes to every element the walk calls.

  What is proved:
    1. `mem_providerCalls` — a call of the walk goes to an element of the
       filtered chain, with the prepared request.
    2. `fallback_advertised_iff` — a called element is handed its own
       capabilities iff the catalog lists the same ones for it and for the head
       of the chain.
    3. `fallback_not_advertised` — a fallback that is sent an effort and an
       endpoint it does not list.

  Plugins may rewrite a request before and after the snapshot. A hook of
  `Hooks` leaves the captured headers and the resolved policy alone: what it
  wrote there would be its own choice, not the pipeline's.

  Correspondence (Rust ↔ Lean):
    `capture_anthropic_headers`     ↔ `captureAnthropicHeaders`; `toStr` is
                                      `HeaderValue::to_str`
    `PipelineSpec`                  ↔ `PipelineSpec`
    the lines of `dispatch_inner`   ↔ `prepare`, `snapshotPolicy`
      before admission
    `req.clone()` in                ↔ `providerCalls`
      `complete_inner`
-/

namespace AgentShim.Gateway

open AgentShim.ModelIndexing AgentShim.Providers AgentShim.RequestAdmission AgentShim.RequestLog
  AgentShim.ResilientCaller AgentShim.Retrying AgentShim.StaticRoutes

variable {Prov V : Type}

/-! ## Preparing a request -/

/-- What varies between the frontends. -/
structure PipelineSpec where
  frontend : FrontendKind
  captureAnthropicHeaders : Bool
  tryProxyRaw : Bool
  deriving DecidableEq, Repr

namespace PipelineSpec

def anthropicMessages : PipelineSpec where
  frontend := .anthropicMessages
  captureAnthropicHeaders := true
  tryProxyRaw := true

def openAiChat : PipelineSpec where
  frontend := .openAiChat
  captureAnthropicHeaders := false
  tryProxyRaw := false

def openAiResponses : PipelineSpec where
  frontend := .openAiResponses
  captureAnthropicHeaders := false
  tryProxyRaw := true

end PipelineSpec

/-- Whether an inbound header is captured by its name: the credentials are
not. -/
def isCaptured (name : String) : Bool :=
  Text.startsWith name "anthropic-" &&
    !(name == "anthropic-api-key" || name == "anthropic-auth-token")

/-- The captured headers whose values are text, in their order. -/
def captureAnthropicHeaders (toStr : V → Option String) (headers : List (String × V)) :
    List (String × String) :=
  headers.filterMap fun h =>
    if isCaptured h.1 then (toStr h.2).map fun v => (h.1, v) else none

/-- What the catalog lists as the efforts of a target. -/
def listedEfforts (index : ModelIndex ModelMetadata) (target : BackendTarget) :
    Option (List String) :=
  (index.listed target.provider target.model).bind (·.supports.reasoningEffortValues)

/-- What the catalog lists as the endpoints of a target. -/
def listedEndpoints (index : ModelIndex ModelMetadata) (target : BackendTarget) :
    Option (List String) :=
  (index.listed target.provider target.model).bind (·.supportedEndpoints)

/-- The merged policy, with the capabilities of the chain's head. -/
def snapshotPolicy (index : ModelIndex ModelMetadata) (firstTarget : BackendTarget)
    (canonical : CanonicalRequest) : CanonicalRequest :=
  { canonical with
    resolvedPolicy :=
      { firstTarget.policy.resolve canonical with
        supportedEfforts := listedEfforts index firstTarget
        supportedEndpoints := listedEndpoints index firstTarget } }

/-- The two hooks before admission. -/
structure Hooks where
  onDecodedRequest : CanonicalRequest → CanonicalRequest
  onResolved : BackendTarget → CanonicalRequest → CanonicalRequest
  keepsHeaders : ∀ req,
    (onDecodedRequest req).inboundAnthropicHeaders = req.inboundAnthropicHeaders
  keepsPolicy : ∀ target req, (onResolved target req).resolvedPolicy = req.resolvedPolicy

/-- A route without plugins. -/
def Hooks.none : Hooks where
  onDecodedRequest := fun req => req
  onResolved := fun _ req => req
  keepsHeaders := fun _ => rfl
  keepsPolicy := fun _ _ => rfl

/-- The decoded request with its captured headers. -/
def withCapturedHeaders (spec : PipelineSpec) (toStr : V → Option String)
    (headers : List (String × V)) (decoded : CanonicalRequest) : CanonicalRequest :=
  if spec.captureAnthropicHeaders then
    { decoded with inboundAnthropicHeaders := captureAnthropicHeaders toStr headers }
  else decoded

/-- The request as it goes to admission and to the providers; none where the
resolved chain is empty, which the router excludes. -/
def prepare (spec : PipelineSpec) (hooks : Hooks) (index : ModelIndex ModelMetadata)
    (resolved : ResolvedRoute) (toStr : V → Option String) (headers : List (String × V))
    (decoded : CanonicalRequest) : Option CanonicalRequest :=
  resolved.chain.head?.map fun firstTarget =>
    hooks.onResolved firstTarget <|
      snapshotPolicy index firstTarget <|
        hooks.onDecodedRequest <| withCapturedHeaders spec toStr headers decoded

/-- What the providers read of a prepared request's policy is the snapshot. -/
theorem resolvedPolicy_of_prepare {spec : PipelineSpec} {hooks : Hooks}
    {index : ModelIndex ModelMetadata} {resolved : ResolvedRoute} {toStr : V → Option String}
    {headers : List (String × V)} {decoded req : CanonicalRequest}
    (h : prepare spec hooks index resolved toStr headers decoded = some req) :
    ∃ firstTarget, resolved.chain.head? = some firstTarget ∧
      req.resolvedPolicy = (snapshotPolicy index firstTarget <| hooks.onDecodedRequest <|
        withCapturedHeaders spec toStr headers decoded).resolvedPolicy := by
  obtain ⟨firstTarget, hhead, rfl⟩ := Option.map_eq_some_iff.mp h
  exact ⟨firstTarget, hhead, hooks.keepsPolicy _ _⟩

/-! ## What the elements of a chain are handed -/

/-- The calls of a walk: the position, its element, and the request it gets. -/
def providerCalls (providers : OrdMap Prov) (up : Upstreams) (t : AdmissionTicket)
    (req : CanonicalRequest) : List (Nat × BackendTarget × CanonicalRequest) :=
  (completeInner providers up t).1.filterMap fun e =>
    match e with
    | .called i _ => t.filteredChain[i]?.map fun target => (i, target, req)
    | _ => none

/-- A call goes to an element of the filtered chain, with the prepared
request. -/
theorem mem_providerCalls {providers : OrdMap Prov} {up : Upstreams} {t : AdmissionTicket}
    {req : CanonicalRequest} {i : Nat} {target : BackendTarget} {handed : CanonicalRequest} :
    (i, target, handed) ∈ providerCalls providers up t req ↔
      (∃ answer, .called i answer ∈ (completeInner providers up t).1) ∧
        t.filteredChain[i]? = some target ∧ handed = req := by
  rw [providerCalls, List.mem_filterMap]
  constructor
  · rintro ⟨e, he, heq⟩
    cases e with
    | called j answer =>
      obtain ⟨target', htarget, hcall⟩ := Option.map_eq_some_iff.mp heq
      obtain ⟨rfl, rfl, rfl⟩ : j = i ∧ target' = target ∧ req = handed := by
        simpa using hcall
      exact ⟨⟨answer, he⟩, htarget, rfl⟩
    | granted j key => cases heq
    | refused j => cases heq
    | calledRaw j answer => cases heq
    | recorded j key succeeded => cases heq
  · rintro ⟨⟨answer, he⟩, htarget, rfl⟩
    exact ⟨.called i answer, he, by simp [htarget]⟩

/-- The request carries what the catalog lists for the target, and so the effort
and the endpoint chosen from it are those of the target. -/
structure Advertised (index : ModelIndex ModelMetadata) (target : BackendTarget)
    (handed : CanonicalRequest) : Prop where
  efforts : handed.resolvedPolicy.supportedEfforts = listedEfforts index target
  endpoints : handed.resolvedPolicy.supportedEndpoints = listedEndpoints index target
  effort : ∀ acceptsXhigh, effortWireString handed.resolvedPolicy acceptsXhigh =
    effortWireString { handed.resolvedPolicy with
      supportedEfforts := listedEfforts index target } acceptsXhigh
  endpoint : decideUseResponsesApi handed.frontend.kind handed.resolvedPolicy.supportedEndpoints =
    decideUseResponsesApi handed.frontend.kind (listedEndpoints index target)

/-- The catalog lists the same capabilities for the target as for the head of
the chain. -/
def ListedAsHead (index : ModelIndex ModelMetadata) (chain : List BackendTarget)
    (target : BackendTarget) : Prop :=
  ∀ head ∈ chain.head?, listedEfforts index target = listedEfforts index head ∧
    listedEndpoints index target = listedEndpoints index head

/-- An element the walk calls is handed its own capabilities iff the catalog
lists the same ones for it and for the head of the resolved chain. -/
theorem fallback_advertised_iff {spec : PipelineSpec} {hooks : Hooks}
    {index : ModelIndex ModelMetadata} {toStr : V → Option String} {headers : List (String × V)}
    {decoded req : CanonicalRequest} {providers : OrdMap Prov} {up : Upstreams}
    {t : AdmissionTicket} {i : Nat} {target : BackendTarget} {handed : CanonicalRequest}
    (hreq : prepare spec hooks index t.resolved toStr headers decoded = some req)
    (hcall : (i, target, handed) ∈ providerCalls providers up t req) :
    Advertised index target handed ↔ ListedAsHead index t.resolved.chain target := by
  obtain ⟨head, hhead, hpolicy⟩ := resolvedPolicy_of_prepare hreq
  obtain ⟨-, -, rfl⟩ := mem_providerCalls.mp hcall
  -- the walk hands every element the lists that were looked up for the head
  have hefforts : handed.resolvedPolicy.supportedEfforts = listedEfforts index head := by
    rw [hpolicy, snapshotPolicy]
  have hendpoints : handed.resolvedPolicy.supportedEndpoints = listedEndpoints index head := by
    rw [hpolicy, snapshotPolicy]
  constructor
  · intro h head' hhead'
    obtain rfl : head = head' := Option.some.inj (hhead.symm.trans hhead')
    exact ⟨h.efforts.symm.trans hefforts, h.endpoints.symm.trans hendpoints⟩
  · intro h
    obtain ⟨hsame, hsame'⟩ := h head hhead
    have hown := hefforts.trans hsame.symm
    have hown' := hendpoints.trans hsame'.symm
    refine ⟨hown, hown', fun acceptsXhigh => ?_, ?_⟩
    · exact clampOr_congr _ rfl hown
    · rw [hown']

/-! ## A chain of two models -/

def opus : BackendTarget where
  provider := "copilot"
  model := "claude-opus-4.8"
  policy :=
    { defaultReasoningEffort := some .max, defaultAnthropicBeta := none, reasoningMapping := [] }

def gpt : BackendTarget := { opus with model := "gpt-5.5" }

/-- The catalog of a provider that lists these capabilities for the two. -/
def twoModels (forOpus forGpt : ModelMetadata) : ModelIndex ModelMetadata :=
  .withMetadata id [("copilot",
    { entries := [("claude-opus-4.8", forOpus), ("gpt-5.5", forGpt)]
      sorted := show ["claude-opus-4.8", "gpt-5.5"].Pairwise (· < ·) by decide })]

/-- A model on the Chat endpoint, up to the strongest effort. -/
def chatModel : ModelMetadata where
  supports := { reasoningEffortValues := some ["low", "medium", "high", "xhigh", "max"] }
  supportedEndpoints := some ["/chat/completions"]

/-- A model on the Responses endpoint only, without that effort. -/
def responsesModel : ModelMetadata where
  supports := { reasoningEffortValues := some ["none", "low", "medium", "high", "xhigh"] }
  supportedEndpoints := some ["/responses", "ws:/responses"]

/-- A ticket that holds the permission of both. -/
def twoTicket : AdmissionTicket :=
  let hold (target : BackendTarget) : CircuitBreaker.BreakerHold :=
    { provider := target.provider, model := target.model, policy := breakerPolicy .default }
  { filteredChain := [opus, gpt]
    resolved :=
      { chain := [opus, gpt]
        retry := { Config.RetryConfig.default with maxAttempts := 1 }
        breaker := .default
        routeLabel := "opus" }
    identity := .anonymous
    breakerHolds := [some (hold opus), some (hold gpt)]
    consumed := false
    released := fun h => by cases h }

/-- The head is overloaded, the fallback accepts. -/
def overloadedHead : Upstreams where
  complete := fun i _ => if i = 0 then .failed (.upstream 503 "overloaded") else .accepted [.ended]
  proxyRaw := none
  backoffMs := fun _ _ => 0
  sleepDropped := fun _ _ => false

def copilotOnly : OrdMap Unit := { entries := [("copilot", ())], sorted := by decide }

def chatRequest : CanonicalRequest where
  id := "req_1"
  frontend := { kind := .openAiChat, requestedModel := "opus" }
  model := "opus"
  messages := [.user [.ofText "hi"]]

/-- The chat request as it is handed on. -/
def preparedFor (index : ModelIndex ModelMetadata) : Option CanonicalRequest :=
  prepare .openAiChat .none index twoTicket.resolved (fun v : String => some v) [] chatRequest

/-- The walk calls both. -/
theorem overloadedHead_calls : (completeInner copilotOnly overloadedHead twoTicket).1 =
    [.called 0 (.failed (.upstream 503 "overloaded")), .called 1 (.accepted [.ended])] :=
  rfl

theorem gpt_called (req : CanonicalRequest) :
    (1, gpt, req) ∈ providerCalls copilotOnly overloadedHead twoTicket req := by
  rw [mem_providerCalls, overloadedHead_calls]
  exact ⟨⟨.accepted [.ended], by simp⟩, rfl, rfl⟩

/-- Under one listing for both the fallback gets its own. -/
theorem gpt_advertised : ∃ req, preparedFor (twoModels chatModel chatModel) = some req ∧
    Advertised (twoModels chatModel chatModel) gpt req := by
  have hreq : preparedFor (twoModels chatModel chatModel) = some _ := rfl
  refine ⟨_, hreq, (fallback_advertised_iff hreq (gpt_called _)).mpr ?_⟩
  intro head hhead
  cases hhead
  exact ⟨rfl, rfl⟩

/-- The fallback is handed the capabilities of the head: it is sent an effort and
at an endpoint it does not list. -/
theorem fallback_not_advertised : ∃ req,
    preparedFor (twoModels chatModel responsesModel) = some req ∧
      (1, gpt, req) ∈ providerCalls copilotOnly overloadedHead twoTicket req ∧
      ¬ Advertised (twoModels chatModel responsesModel) gpt req ∧
      effortWireString req.resolvedPolicy true = some "max" ∧
      endpointOf (decideUseResponsesApi req.frontend.kind
        req.resolvedPolicy.supportedEndpoints) = "/chat/completions" := by
  refine ⟨_, rfl, gpt_called _, fun h => ?_, ?_, ?_⟩
  · exact absurd h.endpoints (by decide)
  · decide
  · decide

end AgentShim.Gateway
