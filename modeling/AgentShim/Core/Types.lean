import AgentShim.Core.Scalars

/-
  Canonical types shared by the router, the gateway and the frontends

  The request-independent part of the core crate that routing, admission and
  the resilience layer read: frontend kinds, reasoning efforts, route policies,
  backend targets, provider errors and the events of a canonical stream.

  Correspondence (Rust ↔ Lean):
    `target::{FrontendKind, BackendTarget}`     ↔ `FrontendKind`, `BackendTarget`
    `request::ReasoningEffort` (declared in     ↔ `ReasoningEffort`, `parse`
      order of intensity)
    `policy::{MappingRule, RoutePolicy}`        ↔ `MappingRule`, `RoutePolicy`
    `usage::{StopReason, Usage}`                ↔ `StopReason`, `Usage`
    `safety::{SafetyRating, SafetyCategory,     ↔ `SafetyRating`, `SafetyCategory`,
      SafetyLevel}`                               `SafetyLevel`
    `stream::StreamEvent`, `error::StreamError` ↔ `StreamEvent`, `StreamError`
    `catalog::{ModelMetadata, ModelSupports}`   ↔ `ModelMetadata`, `ModelSupports`
    `providers::ProviderError`                  ↔ `ProviderError`
-/

namespace AgentShim

/-- A JSON number: an integer, or a double for any other literal. -/
inductive JsonNumber
  | int (n : Int)
  | float (x : F64)
  deriving DecidableEq, Repr

/-- `serde_json::Value`. -/
inductive Json
  | null
  | bool (b : Bool)
  | num (n : JsonNumber)
  | str (s : String)
  | arr (xs : List Json)
  | obj (fields : List (String × Json))
  deriving Repr

/-- Which frontend API dialect the client is speaking. -/
inductive FrontendKind
  | anthropicMessages
  | openAiChat
  | openAiResponses
  deriving DecidableEq, Repr

/-- Qualitative reasoning effort, in order of intensity. -/
inductive ReasoningEffort
  | minimal
  | low
  | medium
  | high
  | xhigh
  | max
  deriving DecidableEq, Repr

def ReasoningEffort.parse (s : String) : Option ReasoningEffort :=
  match Text.toAsciiLowercase s with
  | "minimal" | "none" => some .minimal
  | "low" => some .low
  | "medium" | "default" => some .medium
  | "high" => some .high
  | "xhigh" | "x-high" | "extra_high" => some .xhigh
  | "max" => some .max
  | _ => none

/-- One rule of a route's effort rewrite table. -/
structure MappingRule where
  «match» : ReasoningEffort
  set : ReasoningEffort
  deriving DecidableEq, Repr

/-- Per-route defaults applied when the request does not set a value. -/
structure RoutePolicy where
  defaultReasoningEffort : Option ReasoningEffort
  defaultAnthropicBeta : Option String
  reasoningMapping : List MappingRule
  deriving DecidableEq, Repr

/-- The upstream and model a request is sent to. -/
structure BackendTarget where
  provider : String
  model : String
  policy : RoutePolicy
  deriving DecidableEq, Repr

/-- What a provider call can fail with. -/
inductive ProviderError
  | unknownProvider (name : String)
  | upstream (status : Nat) (body : String)
  | network (message : String)
  | decode (message : String)
  | encode (message : String)
  | capabilityMismatch (message : String)
  deriving DecidableEq, Repr

inductive MessageRole
  | user
  | assistant
  | tool
  | system
  deriving DecidableEq, Repr

inductive ContentBlockKind
  | text
  | toolCall
  | reasoning
  | redactedReasoning
  | image
  | audio
  deriving DecidableEq, Repr

inductive StopReason
  | endTurn
  | maxTokens
  | toolUse
  | stopSequence
  | contentFilter
  | other (s : String)
  deriving DecidableEq, Repr

/-- Normalises a provider's stop reason. -/
def StopReason.fromProviderString (s : String) : StopReason :=
  match s with
  | "end_turn" | "stop" => .endTurn
  | "max_tokens" | "length" => .maxTokens
  | "tool_use" | "tool_calls" => .toolUse
  | "stop_sequence" => .stopSequence
  | "content_filter" => .contentFilter
  | _ => .other s

/-- A safety dimension; an unrecognised wire value is kept as it is. -/
inductive SafetyCategory
  | hateSpeech
  | harassment
  | dangerousContent
  | sexuallyExplicit
  | other (s : String)
  deriving DecidableEq, Repr

def SafetyCategory.ofString (s : String) : SafetyCategory :=
  match s with
  | "HARM_CATEGORY_HATE_SPEECH" => .hateSpeech
  | "HARM_CATEGORY_HARASSMENT" => .harassment
  | "HARM_CATEGORY_DANGEROUS_CONTENT" => .dangerousContent
  | "HARM_CATEGORY_SEXUALLY_EXPLICIT" => .sexuallyExplicit
  | _ => .other s

inductive SafetyLevel
  | negligible
  | low
  | medium
  | high
  | other (s : String)
  deriving DecidableEq, Repr

def SafetyLevel.ofString (s : String) : SafetyLevel :=
  match s with
  | "NEGLIGIBLE" => .negligible
  | "LOW" => .low
  | "MEDIUM" => .medium
  | "HIGH" => .high
  | _ => .other s

structure SafetyRating where
  category : SafetyCategory
  probability : SafetyLevel
  deriving DecidableEq, Repr

/-- Token usage of one request and its response. -/
structure Usage where
  inputTokens : Option Nat := none
  outputTokens : Option Nat := none
  cacheCreationInputTokens : Option Nat := none
  cacheReadInputTokens : Option Nat := none
  reasoningTokens : Option Nat := none
  estimated : Bool := false
  providerRaw : Option Json := none
  safetyRatings : Option (List SafetyRating) := none
  deriving Repr

/-- One event of a canonical stream. -/
inductive StreamEvent
  | responseStart (id : String) (model : String) (createdAtUnix : Nat)
  | messageStart (role : MessageRole)
  | contentBlockStart (index : Nat) (kind : ContentBlockKind)
  | textDelta (index : Nat) (text : String)
  | reasoningDelta (index : Nat) (text : String)
  | toolCallStart (index : Nat) (id : String) (name : String)
  | toolCallArgumentsDelta (index : Nat) (jsonFragment : String)
  | toolCallStop (index : Nat)
  | contentBlockStop (index : Nat)
  | usageDelta (usage : Usage)
  | messageStop (stopReason : StopReason) (stopSequence : Option String)
  | responseStop (usage : Option Usage)
  | error (message : String)
  | rawProviderEvent (provider : String) (eventName : String) (data : Json)
  deriving Repr

/-- What a model supports; nothing where the provider did not say. -/
structure ModelSupports where
  vision : Option Bool := none
  toolCalls : Option Bool := none
  streaming : Option Bool := none
  structuredOutputs : Option Bool := none
  reasoningEffort : Option Bool := none
  reasoningEffortValues : Option (List String) := none
  deriving DecidableEq, Repr

/-- What a provider's catalog lists for one model. -/
structure ModelMetadata where
  contextWindowTokens : Option Nat := none
  maxOutputTokens : Option Nat := none
  family : Option String := none
  supports : ModelSupports := {}
  supportedEndpoints : Option (List String) := none
  version : Option String := none
  adaptiveThinking : Option Bool := none
  thinkingBudgetMin : Option Nat := none
  thinkingBudgetMax : Option Nat := none
  deriving DecidableEq, Repr

inductive StreamError
  | upstream (message : String)
  | decode (message : String)
  | encode (message : String)
  | clientDisconnected
  | timeout
  deriving DecidableEq, Repr

/-- How an error reads. -/
def StreamError.display : StreamError → String
  | .upstream message => "upstream error: " ++ message
  | .decode message => "decode error: " ++ message
  | .encode message => "encode error: " ++ message
  | .clientDisconnected => "client disconnected"
  | .timeout => "stream timeout"

end AgentShim
