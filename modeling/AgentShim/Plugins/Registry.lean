import AgentShim.Config.Schema
import AgentShim.Lib.Checks
import Mathlib.Data.List.AList
import Mathlib.Logic.Function.Basic

/-
  The plugin registry

  The registry is built from the plugin factories, the declared plugins and the
  routes: one instance per declaration, and for every frontend the hook lists
  of its routes. The first factory clash, unknown kind, failed instantiation or
  bad route reference refuses the whole registry.

  What is proved:
    1. `build_ok_subscribed` — every plugin on a hook list is a declared one,
       enabled, and subscribes to that hook.

  A plugin instance is a type with the two accessors the registry reads; the
  factories are a parameter of `build`, as in the source.

  Correspondence (Rust ↔ Lean):
    `trait_def::{Hook, HookSet, Plugin, PluginFactory}` ↔ the same names
    `HookTimeouts::{default, uniform, from_yaml}`       ↔ the same names
    `PluginRegistry::build`, in its three phases        ↔ `indexFactories`,
      `instantiate`, `addRoute` (with `resolveHook`), joined in `build`
    `PluginRegistry::lookup`                            ↔ `lookup`
  The supervisor of running tasks holds no policy and is left out.
-/

namespace AgentShim.Plugins

open AgentShim.Config Checks

inductive Hook
  | decodedRequest
  | resolved
  | streamEvent
  | responseComplete
  deriving DecidableEq, Repr

def Hook.asStr : Hook → String
  | decodedRequest => "on_decoded_request"
  | resolved => "on_resolved"
  | streamEvent => "on_stream_event"
  | responseComplete => "on_response_complete"

/-- The hooks a plugin subscribes to. -/
structure HookSet where
  decodedRequest : Bool
  resolved : Bool
  streamEvent : Bool
  responseComplete : Bool
  deriving DecidableEq, Repr

namespace HookSet

def contains (hs : HookSet) : Hook → Bool
  | .decodedRequest => hs.decodedRequest
  | .resolved => hs.resolved
  | .streamEvent => hs.streamEvent
  | .responseComplete => hs.responseComplete

/-- The names of the hooks in the set, in hook order. -/
def toStrs (hs : HookSet) : List String :=
  ([.decodedRequest, .resolved, .streamEvent, .responseComplete].filter hs.contains).map Hook.asStr

end HookSet

/-- What the registry asks of a plugin instance. -/
class Plugin (P : Type) where
  kindName : P → String
  hooks : P → HookSet

/-- An error of a plugin's own configuration. -/
inductive PluginConfigError
  | missingField (plugin field path : String)
  | invalidValue (plugin field reason : String)
  | deserialize (error plugin : String)
  deriving DecidableEq, Repr

/-- One plugin kind: an instance from a name, its configuration and the live
providers. -/
structure PluginFactory (P : Type) (Prov : Type) where
  kindName : String
  instantiate : String → Json → OrdMap Prov → Except PluginConfigError P

inductive RegistryBuildError
  | unknownKind (plugin kind : String) (known : List String)
  | instantiation (error : PluginConfigError) (plugin : String)
  | hookSubscriptionMismatch (frontend : FrontendKind) (model plugin hook : String)
      (subscribed : List String)
  | duplicateFactoryKind (kind : String)
  | undeclaredPluginReference (route hook plugin : String)
  | unknownFrontend (frontend : String)
  deriving DecidableEq, Repr

inductive OnError
  | skip
  | fail
  deriving DecidableEq, Repr

def OnError.ofYaml : OnErrorYaml → OnError
  | .skip => skip
  | .fail => fail

/-- Timeouts per hook, in milliseconds. -/
structure HookTimeouts where
  onDecodedRequest : Nat
  onResolved : Nat
  onStreamEvent : Nat
  onResponseComplete : Nat
  deriving DecidableEq, Repr

namespace HookTimeouts

def default : HookTimeouts where
  onDecodedRequest := 50
  onResolved := 50
  onStreamEvent := 5
  onResponseComplete := 50

def uniform (ms : Nat) : HookTimeouts where
  onDecodedRequest := ms
  onResolved := ms
  onStreamEvent := ms
  onResponseComplete := ms

/-- Per hook: its own value, else the declared default, else the system's. -/
def fromYaml : TimeoutMs → HookTimeouts
  | .uniform ms => uniform ms
  | .perHook dflt h2 h3 h5 h7 =>
    { onDecodedRequest := (h2.or dflt).getD default.onDecodedRequest
      onResolved := (h3.or dflt).getD default.onResolved
      onStreamEvent := (h5.or dflt).getD default.onStreamEvent
      onResponseComplete := (h7.or dflt).getD default.onResponseComplete }

end HookTimeouts

/-- A plugin instance and the policy bound to it. -/
structure PluginEntry (P : Type) where
  name : String
  kind : String
  plugin : P
  onError : OnError
  timeouts : HookTimeouts
  enabled : Bool

/-- The plugins of one route, per hook and in declared order. -/
structure RouteHookPlan (P : Type) where
  onDecodedRequest : List (PluginEntry P)
  onResolved : List (PluginEntry P)
  onStreamEvent : List (PluginEntry P)
  onResponseComplete : List (PluginEntry P)

def RouteHookPlan.forHook {P : Type} (plan : RouteHookPlan P) : Hook → List (PluginEntry P)
  | .decodedRequest => plan.onDecodedRequest
  | .resolved => plan.onResolved
  | .streamEvent => plan.onStreamEvent
  | .responseComplete => plan.onResponseComplete

structure FrontendRoutePlans (P : Type) where
  specific : AList fun _ : String => RouteHookPlan P
  wildcard : Option (RouteHookPlan P)
  isEmpty : Bool

abbrev PluginMap (P : Type) := AList fun _ : String => PluginEntry P

abbrev PlanMap (P : Type) := FrontendKind → Option (FrontendRoutePlans P)

structure PluginRegistry (P : Type) where
  plugins : PluginMap P
  plans : PlanMap P

/-- The plan of a request: the specific one of its model, else the wildcard of
its frontend. -/
def PluginRegistry.lookup {P : Type} (r : PluginRegistry P) (frontend : FrontendKind)
    (model : String) : Option (RouteHookPlan P) :=
  match r.plans frontend with
  | none => none
  | some fp =>
    if fp.isEmpty then none
    else
      match fp.specific.lookup model with
      | some plan => some plan
      | none => fp.wildcard

section Build

variable {P : Type} {Prov : Type}

abbrev FactoryMap (P : Type) (Prov : Type) := AList fun _ : String => PluginFactory P Prov

/-- Phase 1: the factories by kind. -/
def indexFactories (factories : List (PluginFactory P Prov)) :
    Except RegistryBuildError (FactoryMap P Prov) :=
  factories.foldlM
    (fun map factory =>
      if (map.lookup factory.kindName).isSome then .error (.duplicateFactoryKind factory.kindName)
      else .ok (map.insert factory.kindName factory))
    ∅

variable [Plugin P]

/-- Phase 2, one declaration. -/
def instantiate (factories : FactoryMap P Prov) (providers : OrdMap Prov) (plugins : PluginMap P)
    (spec : String × Config.PluginEntry) : Except RegistryBuildError (PluginMap P) :=
  match factories.lookup spec.2.kind with
  | none => .error (.unknownKind spec.1 spec.2.kind (factories.keys.mergeSort (· ≤ ·)))
  | some factory =>
    match factory.instantiate spec.1 spec.2.config providers with
    | .error e => .error (.instantiation e spec.1)
    | .ok plugin =>
      .ok (plugins.insert spec.1
        { name := spec.1
          kind := Plugin.kindName plugin
          plugin := plugin
          onError := OnError.ofYaml spec.2.onError
          timeouts := (spec.2.timeoutMs.map HookTimeouts.fromYaml).getD HookTimeouts.default
          enabled := spec.2.enabled })

/-- The instances behind the names of one hook list; a disabled one is checked
and then left out. -/
def resolveHook (plugins : PluginMap P) (route : RouteEntry) (frontend : FrontendKind)
    (hook : Hook) : List String → Except RegistryBuildError (List (PluginEntry P))
  | [] => .ok []
  | name :: names =>
    match plugins.lookup name with
    | none =>
      .error (.undeclaredPluginReference s!"{route.frontend}/{route.model}" hook.asStr name)
    | some entry =>
      if !(Plugin.hooks entry.plugin).contains hook then
        .error (.hookSubscriptionMismatch frontend route.model name hook.asStr
          (Plugin.hooks entry.plugin).toStrs)
      else
        (resolveHook plugins route frontend hook names).map fun rest =>
          if entry.enabled then entry :: rest else rest

def frontendKind (frontend : String) : Except RegistryBuildError FrontendKind :=
  match frontend with
  | "anthropic" | "anthropic_messages" => .ok .anthropicMessages
  | "openai" | "openai_chat" => .ok .openAiChat
  | "openai_responses" | "responses" => .ok .openAiResponses
  | other => .error (.unknownFrontend other)

/-- The hook lists of one route. -/
def routePlan (plugins : PluginMap P) (route : RouteEntry) (frontend : FrontendKind)
    (block : RoutePluginsBlock) : Except RegistryBuildError (RouteHookPlan P) := do
  let h2 ← resolveHook plugins route frontend .decodedRequest block.onDecodedRequest
  let h3 ← resolveHook plugins route frontend .resolved block.onResolved
  let h5 ← resolveHook plugins route frontend .streamEvent block.onStreamEvent
  let h7 ← resolveHook plugins route frontend .responseComplete block.onResponseComplete
  return { onDecodedRequest := h2, onResolved := h3, onStreamEvent := h5, onResponseComplete := h7 }

/-- Files the plan of a route under its frontend. -/
def filePlan (plans : PlanMap P) (frontend : FrontendKind) (model : String)
    (plan : RouteHookPlan P) : PlanMap P :=
  let fp := (plans frontend).getD { specific := ∅, wildcard := none, isEmpty := false }
  let fp :=
    if model == "*" then { fp with wildcard := some plan }
    else { fp with specific := fp.specific.insert model plan }
  Function.update plans frontend (some { fp with isEmpty := false })

/-- Phase 3, one route. -/
def addRoute (plugins : PluginMap P) (plans : PlanMap P) (route : RouteEntry) :
    Except RegistryBuildError (PlanMap P) := do
  let frontend ← frontendKind route.frontend
  match route.plugins with
  | none => return plans
  | some block =>
    if block.isEmpty then return plans
    else
      let plan ← routePlan plugins route frontend block
      return filePlan plans frontend route.model plan

def PluginRegistry.build (factories : List (PluginFactory P Prov))
    (specs : List (String × Config.PluginEntry)) (routes : List RouteEntry)
    (providers : OrdMap Prov) : Except RegistryBuildError (PluginRegistry P) := do
  let factoryMap ← indexFactories factories
  let plugins ← specs.foldlM (instantiate factoryMap providers) ∅
  let plans ← routes.foldlM (addRoute plugins) (fun _ => none)
  return { plugins := plugins, plans := plans }

end Build

/-! ## What an accepted registry promises -/

section Subscribed

variable {P : Type} {Prov : Type} [Plugin P]

/-- A declared plugin, enabled and subscribed to the hook. -/
def EntrySubscribed (plugins : PluginMap P) (hook : Hook) (entry : PluginEntry P) : Prop :=
  (∃ name, plugins.lookup name = some entry) ∧ entry.enabled = true ∧
    (Plugin.hooks entry.plugin).contains hook = true

def PlanSubscribed (plugins : PluginMap P) (plan : RouteHookPlan P) : Prop :=
  ∀ hook, ∀ entry ∈ plan.forHook hook, EntrySubscribed plugins hook entry

/-- The specific plans of a frontend and its wildcard plan. -/
def FrontendSubscribed (plugins : PluginMap P) (fp : FrontendRoutePlans P) : Prop :=
  (∀ model plan, fp.specific.lookup model = some plan → PlanSubscribed plugins plan) ∧
    ∀ plan, fp.wildcard = some plan → PlanSubscribed plugins plan

def Subscribed (plugins : PluginMap P) (plans : PlanMap P) : Prop :=
  ∀ frontend fp, plans frontend = some fp → FrontendSubscribed plugins fp

theorem entrySubscribed_of_resolveHook {plugins : PluginMap P} {route : RouteEntry}
    {frontend : FrontendKind} {hook : Hook} {names : List String} {out : List (PluginEntry P)}
    (h : resolveHook plugins route frontend hook names = .ok out) :
    ∀ entry ∈ out, EntrySubscribed plugins hook entry := by
  induction names generalizing out with
  | nil =>
    cases h
    intro entry hentry
    cases hentry
  | cons name names ih =>
    unfold resolveHook at h
    split at h
    · cases h
    · rename_i e hlook
      split at h
      · cases h
      · rename_i hsub
        obtain ⟨rest, hrest, rfl⟩ := map_eq_ok.mp h
        intro entry hentry
        have hhead : e.enabled = true → EntrySubscribed plugins hook e := fun hen =>
          ⟨⟨name, hlook⟩, hen, by simpa using hsub⟩
        split at hentry
        · rename_i hen
          obtain rfl | htail := List.mem_cons.mp hentry
          · exact hhead hen
          · exact ih hrest entry htail
        · exact ih hrest entry hentry

theorem planSubscribed_of_routePlan {plugins : PluginMap P} {route : RouteEntry}
    {frontend : FrontendKind} {block : RoutePluginsBlock} {plan : RouteHookPlan P}
    (h : routePlan plugins route frontend block = .ok plan) : PlanSubscribed plugins plan := by
  obtain ⟨h2, hh2, h⟩ := bind_eq_ok.mp h
  obtain ⟨h3, hh3, h⟩ := bind_eq_ok.mp h
  obtain ⟨h5, hh5, h⟩ := bind_eq_ok.mp h
  obtain ⟨h7, hh7, h⟩ := bind_eq_ok.mp h
  cases h
  intro hook
  cases hook with
  | decodedRequest => exact entrySubscribed_of_resolveHook hh2
  | resolved => exact entrySubscribed_of_resolveHook hh3
  | streamEvent => exact entrySubscribed_of_resolveHook hh5
  | responseComplete => exact entrySubscribed_of_resolveHook hh7

theorem subscribed_filePlan {plugins : PluginMap P} {plans : PlanMap P} {frontend : FrontendKind}
    {model : String} {plan : RouteHookPlan P} (hs : Subscribed plugins plans)
    (hp : PlanSubscribed plugins plan) :
    Subscribed plugins (filePlan plans frontend model plan) := by
  -- the plans the frontend had before, or none
  have hold : FrontendSubscribed plugins
      ((plans frontend).getD { specific := ∅, wildcard := none, isEmpty := false }) := by
    cases hplans : plans frontend with
    | none =>
      constructor
      · intro m p hm
        cases hm
      · intro p hw
        cases hw
    | some old => exact hs frontend old hplans
  obtain ⟨hspec, hwild⟩ := hold
  intro k fp hk
  unfold filePlan at hk
  by_cases hkf : k = frontend
  · subst hkf
    rw [Function.update_self] at hk
    cases hk
    split
    · refine ⟨hspec, fun p hw => ?_⟩
      cases hw
      exact hp
    · refine ⟨fun m p hm => ?_, hwild⟩
      by_cases hmodel : m = model
      · subst hmodel
        rw [AList.lookup_insert] at hm
        cases hm
        exact hp
      · rw [AList.lookup_insert_ne hmodel] at hm
        exact hspec m p hm
  · rw [Function.update_of_ne hkf] at hk
    exact hs k fp hk

theorem subscribed_addRoute {plugins : PluginMap P} {plans plans' : PlanMap P}
    {route : RouteEntry} (hs : Subscribed plugins plans)
    (h : addRoute plugins plans route = .ok plans') : Subscribed plugins plans' := by
  obtain ⟨frontend, _, h⟩ := bind_eq_ok.mp h
  split at h
  · cases h
    exact hs
  · split at h
    · cases h
      exact hs
    · obtain ⟨plan, hplan, h⟩ := bind_eq_ok.mp h
      cases h
      exact subscribed_filePlan hs (planSubscribed_of_routePlan hplan)

/-- Every plugin on a hook list of a built registry is declared, enabled and
subscribed to that hook. -/
theorem build_ok_subscribed {factories : List (PluginFactory P Prov)}
    {specs : List (String × Config.PluginEntry)} {routes : List RouteEntry}
    {providers : OrdMap Prov} {r : PluginRegistry P}
    (h : PluginRegistry.build factories specs routes providers = .ok r) :
    Subscribed r.plugins r.plans := by
  obtain ⟨factoryMap, _, h⟩ := bind_eq_ok.mp h
  obtain ⟨plugins, _, h⟩ := bind_eq_ok.mp h
  obtain ⟨plans, hplans, h⟩ := bind_eq_ok.mp h
  cases h
  refine foldlM_invariant (fun _ _ _ hs hstep => subscribed_addRoute hs hstep) ?_ hplans
  intro frontend fp hnone
  cases hnone

end Subscribed

end AgentShim.Plugins
