import AgentShim.Plugins.Invoke
import Mathlib.Data.List.Induction

/-
  The request hooks

  `on_decoded_request` and `on_resolved` hand a copy of the request to one
  plugin after the other. A plugin that succeeds and keeps the protected fields
  decides what the next one sees; any other is passed over, or ends the walk
  with its error.

  What is proved:
    1. `heldAfter_append`, `sameProtected_heldAfter` — the request held after
       some visits, and that its protected fields are the first one's.
    2. `walkRequestHook_transcript` — the walk is told by the visits it makes:
       each enabled plugin in declared order sees the request held so far, up to
       the first that must propagate, and the answer is that plugin's error or
       the request held at the end.

  `Performs` says which calls a walk makes of the plugins and what they answer,
  on any state the plugins keep: no call is made that a transcript leaves out.

  Correspondence (Rust ↔ Lean):
    `registry::{RequestHookKind,      ↔ the same names
      walk_request_hook}`
    `run_on_decoded_request`,         ↔ `runOnDecodedRequest`, `runOnResolved`
      `run_on_resolved`
-/

namespace AgentShim.Plugins

variable {P σ : Type}

/-- The hook to call on every entry, and what only one of the two is given. -/
inductive RequestHookKind
  | decodedRequest
  | resolved (target : BackendTarget)

/-- The method of the hook, on a copy of the request. -/
def RequestHookKind.call (methods : PluginMethods P σ) (ctx : PluginContext) (plugin : P)
    (candidate : CanonicalRequest) : RequestHookKind → StateM σ (Attempt CanonicalRequest)
  | .decodedRequest => methods.onDecodedRequest ctx plugin candidate
  | .resolved target => methods.onResolved ctx plugin candidate target

section Walk

variable (methods : PluginMethods P σ) (ctx : PluginContext) (hook : Hook)
  (kind : RequestHookKind)

def walkRequestHook : List (PluginEntry P) → CanonicalRequest → σ →
    Except PluginError CanonicalRequest × σ
  | [], req, s => (.ok req, s)
  | entry :: entries, req, s =>
    if !entry.enabled then walkRequestHook entries req s
    else
      let (attempt, s) := kind.call methods ctx entry.plugin req s
      match invoke entry hook attempt with
      | .success newReq =>
        match checkProtectedFields entry.name hook.asStr req newReq with
        | .ok _ => walkRequestHook entries newReq s
        | .error e =>
          match entry.onError with
          | .skip => walkRequestHook entries req s
          | .fail => (.error e, s)
      | .skipped => walkRequestHook entries req s
      | .propagate err => (.error err, s)

end Walk

/-- The walk over `on_decoded_request`; nothing is called without a plan. -/
def runOnDecodedRequest (registry : PluginRegistry P) (methods : PluginMethods P σ)
    (frontend : FrontendKind) (model : String) (ctx : PluginContext) (req : CanonicalRequest)
    (s : σ) : Except PluginError CanonicalRequest × σ :=
  match registry.lookup frontend model with
  | none => (.ok req, s)
  | some plan =>
    if plan.onDecodedRequest.isEmpty then (.ok req, s)
    else walkRequestHook methods ctx .decodedRequest .decodedRequest plan.onDecodedRequest req s

/-- The walk over `on_resolved`, with the target the request goes to. -/
def runOnResolved (registry : PluginRegistry P) (methods : PluginMethods P σ)
    (frontend : FrontendKind) (model : String) (ctx : PluginContext) (req : CanonicalRequest)
    (target : BackendTarget) (s : σ) : Except PluginError CanonicalRequest × σ :=
  match registry.lookup frontend model with
  | none => (.ok req, s)
  | some plan =>
    if plan.onResolved.isEmpty then (.ok req, s)
    else walkRequestHook methods ctx .resolved (.resolved target) plan.onResolved req s

/-! ## Visits -/

/-- One plugin's turn: the request it was given and how its hook ended. -/
structure Visit (P : Type) where
  entry : PluginEntry P
  given : CanonicalRequest
  attempt : Attempt CanonicalRequest

namespace Visit

/-- The request a visit leaves behind: a success that kept the protected
fields. -/
def kept? (v : Visit P) : Option CanonicalRequest :=
  match v.attempt with
  | .returned (.ok newReq) => if SameProtected v.given newReq then some newReq else none
  | _ => none

/-- What went wrong in a visit: its failure, or the protected field it
changed. -/
def fault? (hook : Hook) (v : Visit P) : Option PluginError :=
  match v.attempt with
  | .returned (.ok newReq) =>
    match checkProtectedFields v.entry.name hook.asStr v.given newReq with
    | .ok _ => none
    | .error e => some e
  | attempt => attempt.failure? v.entry hook

/-- The error a visit ends the walk with. -/
def refusal? (hook : Hook) (v : Visit P) : Option PluginError :=
  (v.fault? hook).filter (mustPropagate v.entry)

end Visit

/-- The request held after some visits: the last one a visit left behind. -/
def heldAfter (req : CanonicalRequest) (visits : List (Visit P)) : CanonicalRequest :=
  visits.foldl (fun held v => v.kept?.getD held) req

@[simp] theorem heldAfter_nil (req : CanonicalRequest) : heldAfter (P := P) req [] = req := rfl

theorem heldAfter_cons (req : CanonicalRequest) (v : Visit P) (visits : List (Visit P)) :
    heldAfter req (v :: visits) = heldAfter (v.kept?.getD req) visits := rfl

theorem heldAfter_append (req : CanonicalRequest) (before after : List (Visit P)) :
    heldAfter req (before ++ after) = heldAfter (heldAfter req before) after :=
  List.foldl_append

/-- Each visit is given the request held after those before it. -/
def GivenInTurn (req : CanonicalRequest) (visits : List (Visit P)) : Prop :=
  ∀ before v after, visits = before ++ v :: after → v.given = heldAfter req before

theorem givenInTurn_nil (req : CanonicalRequest) : GivenInTurn (P := P) req [] := by
  intro before v after h
  cases before <;> cases h

theorem GivenInTurn.cons {req : CanonicalRequest} {v : Visit P} {visits : List (Visit P)}
    (hv : v.given = req) (h : GivenInTurn (v.kept?.getD req) visits) :
    GivenInTurn req (v :: visits) := by
  intro before w after hsplit
  cases before with
  | nil =>
    cases hsplit
    exact hv
  | cons u before =>
    cases hsplit
    rw [heldAfter_cons]
    exact h before w after rfl

/-- What is held keeps the protected fields of the first request. -/
theorem sameProtected_heldAfter {req : CanonicalRequest} {visits : List (Visit P)}
    (h : GivenInTurn req visits) : SameProtected req (heldAfter req visits) := by
  induction visits using List.reverseRecOn with
  | nil => exact SameProtected.refl req
  | append_singleton visits v ih =>
    have hbefore : SameProtected req (heldAfter req visits) := by
      refine ih fun before w after hsplit => ?_
      exact h before w (after ++ [v]) (by rw [hsplit, List.append_assoc, List.cons_append])
    have hv : v.given = heldAfter req visits := h visits v [] rfl
    rw [heldAfter_append, heldAfter_cons, heldAfter_nil, ← hv]
    rw [← hv] at hbefore
    unfold Visit.kept?
    split
    · split
      · rename_i hsame
        exact hbefore.trans hsame
      · exact hbefore
    · exact hbefore

/-- The calls of some visits, one after the other, and nothing else. -/
inductive Performs (methods : PluginMethods P σ) (ctx : PluginContext) (kind : RequestHookKind) :
    σ → List (Visit P) → σ → Prop
  | done (s : σ) : Performs methods ctx kind s [] s
  | call {s m s' : σ} {v : Visit P} {visits : List (Visit P)}
      (hcall : kind.call methods ctx v.entry.plugin v.given s = (v.attempt, m))
      (hrest : Performs methods ctx kind m visits s') :
      Performs methods ctx kind s (v :: visits) s'

/-! ## The walk and its visits -/

/-- How a walk over some entries ends after its visits. -/
inductive Ends (hook : Hook) (entries : List (PluginEntry P)) (req : CanonicalRequest)
    (visits : List (Visit P)) : Except PluginError CanonicalRequest → Prop
  /-- Every enabled entry was visited and none had to propagate. -/
  | held (hall : visits.map Visit.entry = entries.filter (·.enabled))
      (hnone : ∀ v ∈ visits, v.refusal? hook = none) :
      Ends hook entries req visits (.ok (heldAfter req visits))
  /-- The last visit is the first that had to propagate. -/
  | refused {before : List (Visit P)} {v : Visit P} {unvisited : List (PluginEntry P)}
      {err : PluginError} (hvisits : visits = before ++ [v])
      (hentries : entries.filter (·.enabled) = visits.map Visit.entry ++ unvisited)
      (hbefore : ∀ u ∈ before, u.refusal? hook = none) (hv : v.refusal? hook = some err) :
      Ends hook entries req visits (.error err)

theorem Ends.skip {hook : Hook} {entry : PluginEntry P} {entries : List (PluginEntry P)}
    {req : CanonicalRequest} {visits : List (Visit P)}
    {answer : Except PluginError CanonicalRequest} (hentry : entry.enabled = false)
    (h : Ends hook entries req visits answer) : Ends hook (entry :: entries) req visits answer := by
  have hfilter : (entry :: entries).filter (·.enabled) = entries.filter (·.enabled) :=
    List.filter_cons_of_neg (by simp [hentry])
  cases h with
  | held hall hnone => exact .held (hall.trans hfilter.symm) hnone
  | refused hvisits hentries hbefore hv =>
    exact .refused hvisits (hfilter.trans hentries) hbefore hv

theorem Ends.cons {hook : Hook} {entries : List (PluginEntry P)} {req : CanonicalRequest}
    {v : Visit P} {visits : List (Visit P)} {answer : Except PluginError CanonicalRequest}
    (henabled : v.entry.enabled = true) (hv : v.refusal? hook = none)
    (h : Ends hook entries (v.kept?.getD req) visits answer) :
    Ends hook (v.entry :: entries) req (v :: visits) answer := by
  have hfilter : (v.entry :: entries).filter (·.enabled) =
      v.entry :: entries.filter (·.enabled) := List.filter_cons_of_pos henabled
  cases h with
  | held hall hnone =>
    refine .held ?_ fun u hu => ?_
    · rw [List.map_cons, hall, hfilter]
    · rcases List.mem_cons.mp hu with rfl | hu
      · exact hv
      · exact hnone u hu
  | refused hvisits hentries hbefore hlast =>
    rename_i before last unvisited err
    have hvisits' : v :: visits = (v :: before) ++ [last] := by rw [hvisits, List.cons_append]
    have hentries' : (v.entry :: entries).filter (·.enabled) =
        (v :: visits).map Visit.entry ++ unvisited := by
      rw [hfilter, hentries, List.map_cons, List.cons_append]
    refine .refused hvisits' hentries' (fun u hu => ?_) hlast
    rcases List.mem_cons.mp hu with rfl | hu
    · exact hv
    · exact hbefore u hu

section Transcript

variable {methods : PluginMethods P σ} {ctx : PluginContext} {hook : Hook}
  {kind : RequestHookKind}

theorem walkRequestHook_of_disabled {entry : PluginEntry P} {entries : List (PluginEntry P)}
    {req : CanonicalRequest} {s : σ} (h : entry.enabled = false) :
    walkRequestHook methods ctx hook kind (entry :: entries) req s =
      walkRequestHook methods ctx hook kind entries req s := by
  rw [walkRequestHook, h]
  rfl

/-- A visit that changed a protected field is at fault for it. -/
theorem refusal_of_changed {entry : PluginEntry P} {req newReq : CanonicalRequest}
    {e : PluginError}
    (h : checkProtectedFields entry.name hook.asStr req newReq = .error e) :
    ({ entry := entry, given := req, attempt := .returned (.ok newReq) } : Visit P).refusal? hook =
      if entry.onError = .fail then some e else none := by
  obtain ⟨field, _, rfl⟩ := checkProtectedFields_eq_error h
  obtain ⟨name, pluginKind, plugin, onError, timeouts, enabled⟩ := entry
  simp only [Visit.refusal?, Visit.fault?, h]
  cases onError <;> rfl

/-- An enabled entry is one visit: it ends the walk, or the walk goes on with
what is held after it. -/
theorem walkRequestHook_of_enabled {entry : PluginEntry P} {entries : List (PluginEntry P)}
    {req : CanonicalRequest} {s m : σ} {attempt : Attempt CanonicalRequest}
    (h : entry.enabled = true) (hcall : kind.call methods ctx entry.plugin req s = (attempt, m)) :
    walkRequestHook methods ctx hook kind (entry :: entries) req s =
      match ({ entry := entry, given := req, attempt := attempt } : Visit P).refusal? hook with
      | some err => (.error err, m)
      | none =>
        walkRequestHook methods ctx hook kind entries
          (({ entry := entry, given := req, attempt := attempt } : Visit P).kept?.getD req) m := by
  rw [walkRequestHook, h, hcall]
  simp only [Bool.not_true, Bool.false_eq_true, if_false]
  cases hfail : attempt.failure? entry hook with
  | none =>
    obtain ⟨newReq, rfl⟩ := failure_eq_none_iff.mp hfail
    rw [invoke_ok]
    dsimp only
    cases hcheck : checkProtectedFields entry.name hook.asStr req newReq with
    | ok _ =>
      have hsame : SameProtected req newReq := checkProtectedFields_eq_ok_iff.mp hcheck
      simp [Visit.refusal?, Visit.fault?, Visit.kept?, hcheck, hsame]
    | error e =>
      -- the request from before stays, under `skip`
      have hchanged : ¬ SameProtected req newReq := fun hsame => by
        rw [checkProtectedFields_eq_ok_iff.mpr hsame] at hcheck
        cases hcheck
      rw [refusal_of_changed hcheck]
      cases hpolicy : entry.onError <;> simp [Visit.kept?, hchanged]
  | some err =>
    have hkept : ({ entry := entry, given := req, attempt := attempt } : Visit P).kept? = none := by
      cases attempt with
      | returned result => cases result <;> first | rfl | cases hfail
      | timedOut elapsedMs => rfl
    have hfault : ({ entry := entry, given := req, attempt := attempt } : Visit P).fault? hook =
        some err := by
      cases attempt with
      | returned result => cases result <;> first | exact hfail | cases hfail
      | timedOut elapsedMs => exact hfail
    rw [invoke_of_failure hfail, hkept, Visit.refusal?, hfault]
    cases hmust : mustPropagate entry err <;> simp [Option.filter, hmust]

/-- The walk is told by its visits: they are all the calls it makes, each is
given the request held so far, and the answer is the request held at the end or
the error of the first that must propagate. -/
theorem walkRequestHook_transcript (methods : PluginMethods P σ) (ctx : PluginContext)
    (hook : Hook) (kind : RequestHookKind) (entries : List (PluginEntry P))
    (req : CanonicalRequest) (s : σ) :
    ∃ visits : List (Visit P),
      Performs methods ctx kind s visits (walkRequestHook methods ctx hook kind entries req s).2 ∧
        GivenInTurn req visits ∧
        Ends hook entries req visits (walkRequestHook methods ctx hook kind entries req s).1 ∧
        ∀ r, (walkRequestHook methods ctx hook kind entries req s).1 = .ok r →
          SameProtected req r := by
  suffices htold : ∃ visits : List (Visit P),
      Performs methods ctx kind s visits (walkRequestHook methods ctx hook kind entries req s).2 ∧
        GivenInTurn req visits ∧
        Ends hook entries req visits (walkRequestHook methods ctx hook kind entries req s).1 by
    obtain ⟨visits, hperforms, hgiven, hends⟩ := htold
    refine ⟨visits, hperforms, hgiven, hends, fun r hr => ?_⟩
    rw [hr] at hends
    cases hends with
    | held hall hnone => exact sameProtected_heldAfter hgiven
  induction entries generalizing req s with
  | nil => exact ⟨[], .done s, givenInTurn_nil req, .held rfl (by simp)⟩
  | cons entry entries ih =>
    cases henabled : entry.enabled with
    | false =>
      obtain ⟨visits, hperforms, hgiven, hends⟩ := ih req s
      rw [walkRequestHook_of_disabled henabled]
      exact ⟨visits, hperforms, hgiven, hends.skip henabled⟩
    | true =>
      cases hcall : kind.call methods ctx entry.plugin req s with
      | mk attempt m =>
        let v : Visit P := { entry := entry, given := req, attempt := attempt }
        rw [walkRequestHook_of_enabled henabled hcall]
        cases hv : v.refusal? hook with
        | some err =>
          have hfilter : (entry :: entries).filter (·.enabled) =
              [v].map Visit.entry ++ entries.filter (·.enabled) :=
            List.filter_cons_of_pos henabled
          have hlast : [v] = [] ++ [v] := rfl
          exact ⟨[v], .call hcall (.done m), .cons rfl (givenInTurn_nil _),
            .refused hlast hfilter (by simp) hv⟩
        | none =>
          obtain ⟨visits, hperforms, hgiven, hends⟩ := ih (v.kept?.getD req) m
          exact ⟨v :: visits, .call hcall hperforms, hgiven.cons rfl, hends.cons henabled hv⟩

end Transcript

end AgentShim.Plugins
