import AgentShim.Core.Request
import AgentShim.Plugins.Registry

/-
  Invoking a plugin

  Every call of a plugin's hook runs under the timeout of the plugin and its
  `on_error` policy, and answers with the value, with nothing, or with an error
  to be propagated. After a request hook the registry compares the four fields
  that drive routing and identity.

  What is proved:
    1. `invoke_of_failure` — a failure is propagated if it is an abort or the
       policy is `fail`, and is passed over otherwise.
    2. `checkProtectedFields_eq_ok_iff` — the check accepts a request iff all
       four protected fields are those from before.

  A call of a hook is a change of the state the instances keep, the scratch map
  of the request among it, together with an attempt: what the hook returned, or
  that it ran into its timeout.

  Correspondence (Rust ↔ Lean):
    `context::PluginContext`, its scratch map    ↔ `PluginContext`, the state
    `error::PluginError`, its `Display`          ↔ `PluginError`, `display`
    `trait_def::Plugin`'s hook methods           ↔ `PluginMethods`
    `invoke::{InvokeOutcome, invoke,             ↔ the same names
      check_protected_fields}`
  Spans, logs and metrics are left out.
-/

namespace AgentShim.Plugins

inductive PluginError
  | timeout (plugin hook : String) (elapsedMs : Nat)
  | failed (plugin hook message : String)
  | aborted (plugin reason : String)
  | protectedFieldMutated (plugin hook field : String)
  deriving DecidableEq, Repr

/-- How an error reads. -/
def PluginError.display : PluginError → String
  | .timeout plugin hook elapsedMs => s!"plugin {plugin} timed out after {elapsedMs}ms in {hook}"
  | .failed plugin hook message => s!"plugin {plugin} failed in {hook}: {message}"
  | .aborted plugin reason => s!"plugin {plugin} aborted request: {reason}"
  | .protectedFieldMutated plugin hook field =>
    "plugin " ++ plugin ++ " modified protected field `" ++ field ++ "` in " ++ hook

/-- What the registry keeps of a request for its plugins. -/
structure PluginContext where
  requestId : String
  frontend : FrontendKind
  routeLabel : String
  deriving DecidableEq, Repr

/-- How the future of a hook ended: with a result, or dropped at its timeout. -/
inductive Attempt (α : Type)
  | returned (result : Except PluginError α)
  | timedOut (elapsedMs : Nat)

/-- The hooks that rewrite, as the instances implement them. -/
structure PluginMethods (P σ : Type) where
  onDecodedRequest : PluginContext → P → CanonicalRequest → StateM σ (Attempt CanonicalRequest)
  onResolved :
    PluginContext → P → CanonicalRequest → BackendTarget → StateM σ (Attempt CanonicalRequest)
  onStreamEvent : PluginContext → P → StreamEvent → StateM σ (Attempt (List StreamEvent))

inductive InvokeOutcome (α : Type)
  | success (value : α)
  | skipped
  | propagate (err : PluginError)

section Invoke

variable {P α : Type}

/-- What the caller of a hook is told. -/
def invoke (entry : PluginEntry P) (hook : Hook) : Attempt α → InvokeOutcome α
  | .returned (.ok value) => .success value
  | .returned (.error (.aborted plugin reason)) => .propagate (.aborted plugin reason)
  | .returned (.error err) =>
    match entry.onError with
    | .skip => .skipped
    | .fail => .propagate err
  | .timedOut elapsedMs =>
    match entry.onError with
    | .skip => .skipped
    | .fail => .propagate (.timeout entry.name hook.asStr elapsedMs)

/-- The error of an attempt that returned no value. -/
def Attempt.failure? (entry : PluginEntry P) (hook : Hook) : Attempt α → Option PluginError
  | .returned (.ok _) => none
  | .returned (.error err) => some err
  | .timedOut elapsedMs => some (.timeout entry.name hook.asStr elapsedMs)

def PluginError.isAbort : PluginError → Bool
  | .aborted _ _ => true
  | _ => false

/-- Whether an error goes on to the request under a plugin's policy. -/
def mustPropagate (entry : PluginEntry P) (err : PluginError) : Bool :=
  err.isAbort || entry.onError == .fail

@[simp] theorem invoke_ok (entry : PluginEntry P) (hook : Hook) (value : α) :
    invoke entry hook (.returned (.ok value)) = .success value := rfl

/-- An abort is propagated under any policy, every other failure under `fail`
only. -/
theorem invoke_of_failure {entry : PluginEntry P} {hook : Hook} {a : Attempt α}
    {err : PluginError} (h : a.failure? entry hook = some err) :
    invoke entry hook a = if mustPropagate entry err then .propagate err else .skipped := by
  obtain ⟨name, kind, plugin, onError, timeouts, enabled⟩ := entry
  cases a with
  | returned result =>
    cases result with
    | ok value => cases h
    | error e =>
      obtain rfl : e = err := Option.some.inj h
      cases e <;> cases onError <;> rfl
  | timedOut elapsedMs =>
    obtain rfl := Option.some.inj h
    cases onError <;> rfl

theorem failure_eq_none_iff {entry : PluginEntry P} {hook : Hook} {a : Attempt α} :
    a.failure? entry hook = none ↔ ∃ value, a = .returned (.ok value) := by
  constructor
  · intro h
    cases a with
    | returned result =>
      cases result with
      | ok value => exact ⟨value, rfl⟩
      | error e => cases h
    | timedOut elapsedMs => cases h
  · rintro ⟨value, rfl⟩
    rfl

end Invoke

/-! ## Protected fields -/

/-- The first protected field that changed is the one named. -/
def checkProtectedFields (pluginName hook : String) (before after : CanonicalRequest) :
    Except PluginError Unit :=
  if before.id ≠ after.id then .error (.protectedFieldMutated pluginName hook "id")
  else if before.frontend ≠ after.frontend then
    .error (.protectedFieldMutated pluginName hook "frontend")
  else if before.model ≠ after.model then
    .error (.protectedFieldMutated pluginName hook "model")
  else if before.stream ≠ after.stream then
    .error (.protectedFieldMutated pluginName hook "stream")
  else .ok ()

/-- The fields that routing, identity and the choice of a path rest on. -/
structure SameProtected (before after : CanonicalRequest) : Prop where
  id : before.id = after.id
  frontend : before.frontend = after.frontend
  model : before.model = after.model
  stream : before.stream = after.stream

namespace SameProtected

theorem refl (req : CanonicalRequest) : SameProtected req req := ⟨rfl, rfl, rfl, rfl⟩

theorem trans {a b c : CanonicalRequest} (hab : SameProtected a b) (hbc : SameProtected b c) :
    SameProtected a c :=
  ⟨hab.id.trans hbc.id, hab.frontend.trans hbc.frontend, hab.model.trans hbc.model,
    hab.stream.trans hbc.stream⟩

end SameProtected

theorem checkProtectedFields_eq_ok_iff {pluginName hook : String}
    {before after : CanonicalRequest} :
    checkProtectedFields pluginName hook before after = .ok () ↔ SameProtected before after := by
  unfold checkProtectedFields
  constructor
  · intro h
    split at h
    · cases h
    · rename_i hid
      split at h
      · cases h
      · rename_i hfrontend
        split at h
        · cases h
        · rename_i hmodel
          split at h
          · cases h
          · rename_i hstream
            exact ⟨not_not.mp hid, not_not.mp hfrontend, not_not.mp hmodel, not_not.mp hstream⟩
  · intro h
    simp [h.id, h.frontend, h.model, h.stream]

instance (before after : CanonicalRequest) : Decidable (SameProtected before after) :=
  decidable_of_iff (before.id = after.id ∧ before.frontend = after.frontend ∧
      before.model = after.model ∧ before.stream = after.stream)
    ⟨fun h => ⟨h.1, h.2.1, h.2.2.1, h.2.2.2⟩, fun h => ⟨h.id, h.frontend, h.model, h.stream⟩⟩

/-- A refused change names the plugin, the hook and the first field it is
about. -/
theorem checkProtectedFields_eq_error {pluginName hook : String}
    {before after : CanonicalRequest} {e : PluginError}
    (h : checkProtectedFields pluginName hook before after = .error e) :
    ∃ field ∈ ["id", "frontend", "model", "stream"],
      e = .protectedFieldMutated pluginName hook field := by
  unfold checkProtectedFields at h
  split at h
  · cases h
    exact ⟨"id", by simp, rfl⟩
  · split at h
    · cases h
      exact ⟨"frontend", by simp, rfl⟩
    · split at h
      · cases h
        exact ⟨"model", by simp, rfl⟩
      · split at h
        · cases h
          exact ⟨"stream", by simp, rfl⟩
        · cases h

end AgentShim.Plugins
