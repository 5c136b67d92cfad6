import AgentShim.Lib.Checks
import AgentShim.Stream.Envelope
import Mathlib.Data.Finset.Basic
import Mathlib.Data.List.AList

/-
  The canonical lifecycle validator

  The validator every parser and encoder test of the source runs over its
  events, rule by rule, and the lifecycle contract in its terms: the events
  other than errors pass the validator, the first starts the response and the
  last stops it. The validator stops checking at an error; a parser goes on
  after one, so the contract reads the events around it.

  Correspondence (Rust ↔ Lean):
    `StrictRules`                       ↔ `StrictRules`
    `ValidatorState`                    ↔ `ValidatorState`
    `check_post_message_stop`, …        ↔ `checkPostMessageStop`, …
    the body of the loop                ↔ `checkEvent`
    `assert_canonical_lifecycle_strict` ↔ `assertCanonicalLifecycleStrict`
    a panic, by the rule it names       ↔ `LifecycleRule`

  What is proved:
    1. `Tracks.checkEvent_iff` — from states that agree the validator and the
       envelope take the same events.
    2. `lifecycleValid_iff` — the contract holds iff the envelope takes every
       event and ends closed.
    3. `lifecycleValid_toolsNested_iff` — with the order start, arguments, stop
       inside each tool block, iff the nested envelope does.
    4. `envelopeClosed_iff` — where the envelope takes every event, the events close
       it iff it ends closed.
-/

namespace AgentShim

/-- The rules a violation is reported under: 1a to 1d, then 2 to 8. -/
inductive LifecycleRule
  | alreadyOpen
  | reusesClosed
  | stopsUnopened
  | leftOpen
  | responseStopFirst
  | afterMessageStop
  | toolNotStopped
  | deltaKind
  | blockBeforeMessage
  | duplicate
  | afterResponseStop
  deriving DecidableEq, Repr

/-- Strict-mode toggles. -/
structure StrictRules where
  requireMessageStartBeforeBlocks : Bool := true
  requireSingleStart : Bool := true
  requireResponseStopLast : Bool := true
  deriving DecidableEq, Repr

structure ValidatorState where
  seenResponseStart : Bool := false
  seenMessageStart : Bool := false
  seenMessageStop : Bool := false
  seenResponseStop : Bool := false
  openBlocks : AList fun _ : Nat => ContentBlockKind := ∅
  toolStopped : Finset Nat := ∅
  closedIndices : Finset Nat := ∅
  terminatedByError : Bool := false

namespace ValidatorState

/-- Rule 3. -/
def checkPostMessageStop (st : ValidatorState) : Except LifecycleRule Unit :=
  if st.seenMessageStop then .error .afterMessageStop else .ok ()

/-- Rule 8. -/
def checkPostResponseStop (strict : StrictRules) (st : ValidatorState) :
    Except LifecycleRule Unit :=
  if strict.requireResponseStopLast && st.seenResponseStop then .error .afterResponseStop
  else .ok ()

/-- Rule 5. -/
def checkDeltaKind (st : ValidatorState) (index : Nat) (expected : ContentBlockKind) :
    Except LifecycleRule Unit :=
  if st.openBlocks.lookup index = some expected then .ok () else .error .deltaKind

/-- What the rules say of an event inside an open block. -/
def checkDelta (strict : StrictRules) (st : ValidatorState) (index : Nat)
    (expected : ContentBlockKind) : Except LifecycleRule Unit := do
  st.checkPostMessageStop
  st.checkPostResponseStop strict
  st.checkDeltaKind index expected

def checkEvent (strict : StrictRules) (st : ValidatorState) :
    StreamEvent → Except LifecycleRule ValidatorState
  | .error _ => .ok { st with terminatedByError := true }
  | .responseStart _ _ _ =>
    if st.seenResponseStart && strict.requireSingleStart then .error .duplicate
    else .ok { st with seenResponseStart := true }
  | .messageStart _ => do
    st.checkPostMessageStop
    st.checkPostResponseStop strict
    if st.seenMessageStart && strict.requireSingleStart then .error .duplicate
    else .ok { st with seenMessageStart := true }
  | .contentBlockStart index kind => do
    st.checkPostMessageStop
    st.checkPostResponseStop strict
    if strict.requireMessageStartBeforeBlocks && !st.seenMessageStart then
      .error .blockBeforeMessage
    else if (st.openBlocks.lookup index).isSome then .error .alreadyOpen
    else if index ∈ st.closedIndices then .error .reusesClosed
    else .ok { st with openBlocks := st.openBlocks.insert index kind }
  | .contentBlockStop index => do
    st.checkPostMessageStop
    st.checkPostResponseStop strict
    match st.openBlocks.lookup index with
    | none => .error .stopsUnopened
    | some kind =>
      if kind = .toolCall ∧ index ∉ st.toolStopped then .error .toolNotStopped
      else
        .ok { st with
          openBlocks := st.openBlocks.erase index
          toolStopped := if kind = .toolCall then st.toolStopped.erase index else st.toolStopped
          closedIndices := insert index st.closedIndices }
  | .textDelta index _ => do
    st.checkDelta strict index .text
    .ok st
  | .reasoningDelta index _ => do
    st.checkDelta strict index .reasoning
    .ok st
  | .toolCallStart index _ _ => do
    st.checkDelta strict index .toolCall
    .ok st
  | .toolCallArgumentsDelta index _ => do
    st.checkDelta strict index .toolCall
    .ok st
  | .toolCallStop index => do
    st.checkDelta strict index .toolCall
    .ok { st with toolStopped := insert index st.toolStopped }
  | .messageStop _ _ => do
    st.checkPostResponseStop strict
    if st.seenMessageStop && strict.requireSingleStart then .error .duplicate
    else .ok { st with seenMessageStop := true }
  | .responseStop _ =>
    if !st.seenMessageStop then .error .responseStopFirst
    else if st.seenResponseStop && strict.requireSingleStart then .error .duplicate
    else .ok { st with seenResponseStop := true }
  | .usageDelta _ | .rawProviderEvent _ _ _ => do
    st.checkPostResponseStop strict
    .ok st

/-- The walk over the events: it ends at an error, and at the end of the events
every opened block must be closed (rule 1d). -/
def walk (strict : StrictRules) : ValidatorState → List StreamEvent → Except LifecycleRule Unit
  | st, [] => if st.openBlocks.entries = [] then .ok () else .error .leftOpen
  | st, e :: es =>
    if st.terminatedByError then .ok ()
    else do
      let st ← st.checkEvent strict e
      walk strict st es

end ValidatorState

def assertCanonicalLifecycleStrict (events : List StreamEvent) (strict : StrictRules) :
    Except LifecycleRule Unit :=
  ValidatorState.walk strict {} events

def assertCanonicalLifecycle (events : List StreamEvent) : Except LifecycleRule Unit :=
  assertCanonicalLifecycleStrict events {}

/-- The events the contract is about. -/
def withoutErrors (events : List StreamEvent) : List StreamEvent :=
  events.filter fun e => !e.isError

/-- The canonical lifecycle contract. -/
def LifecycleValid (events : List StreamEvent) : Prop :=
  assertCanonicalLifecycle (withoutErrors events) = .ok () ∧
    (withoutErrors events).head?.any StreamEvent.isResponseStart = true ∧
    (withoutErrors events).getLast?.any StreamEvent.isResponseStop = true

instance : DecidablePred LifecycleValid := fun _ => inferInstanceAs (Decidable (_ ∧ _ ∧ _))

/-- The tool events of one block. -/
inductive ToolEvent
  | start
  | arguments
  | stop
  deriving DecidableEq, Repr

def toolEvent (index : Nat) : StreamEvent → Option ToolEvent
  | .toolCallStart i _ _ => if i = index then some .start else none
  | .toolCallArgumentsDelta i _ => if i = index then some .arguments else none
  | .toolCallStop i => if i = index then some .stop else none
  | _ => none

def toolEvents (index : Nat) (events : List StreamEvent) : List ToolEvent :=
  events.filterMap (toolEvent index)

/-- Arguments, then one stop. -/
def argumentsThenStop : List ToolEvent → Bool
  | [.stop] => true
  | .arguments :: rest => argumentsThenStop rest
  | _ => false

/-- One start, arguments, one stop; or nothing. -/
def isCall : List ToolEvent → Bool
  | [] => true
  | .start :: rest => argumentsThenStop rest
  | _ => false

/-- Each block's tool events are one call in order. -/
def ToolsNested (events : List StreamEvent) : Prop :=
  ∀ index, isCall (toolEvents index events) = true

/-- The kind of an open block. -/
def BlockPhase.kind? : BlockPhase → Option ContentBlockKind
  | .opened kind => some kind
  | .called | .ended => some .toolCall
  | .fresh | .closed => none

namespace ValidatorState

variable {st st' : ValidatorState} {m : Envelope} {e : StreamEvent}

@[simp] theorem checkPostMessageStop_eq_ok {u : Unit} :
    st.checkPostMessageStop = .ok u ↔ st.seenMessageStop = false := by
  unfold checkPostMessageStop
  split <;> simp_all

@[simp] theorem checkPostResponseStop_eq_ok {u : Unit} :
    st.checkPostResponseStop {} = .ok u ↔ st.seenResponseStop = false := by
  unfold checkPostResponseStop
  split <;> simp_all

@[simp] theorem checkDelta_eq_ok {u : Unit} {index : Nat} {kind : ContentBlockKind} :
    st.checkDelta {} index kind = .ok u ↔
      st.seenMessageStop = false ∧ st.seenResponseStop = false ∧
        st.openBlocks.lookup index = some kind := by
  unfold checkDelta checkDeltaKind
  simp only [Checks.do_eq_ok, checkPostMessageStop_eq_ok, checkPostResponseStop_eq_ok]
  split <;> simp_all

/-- The validator and the envelope have seen the same events, the first of them
the start of the response. -/
structure Tracks (st : ValidatorState) (m : Envelope) : Prop where
  responseStart : st.seenResponseStart = true
  started : m.started = true
  greeted : m.greeted = st.seenMessageStart
  stopped : m.stopped = st.seenMessageStop
  concluded : m.concluded = st.seenResponseStop
  running : st.terminatedByError = false
  stopped_of_concluded : st.seenResponseStop = true → st.seenMessageStop = true
  kind : ∀ i, (m.block i).kind? = st.openBlocks.lookup i
  ended : ∀ i, m.block i = .ended ↔ i ∈ st.toolStopped
  closed : ∀ i, st.openBlocks.lookup i = none → (m.block i = .closed ↔ i ∈ st.closedIndices)

theorem Tracks.live (h : Tracks st m) :
    st.seenMessageStop = false ∧ st.seenResponseStop = false ↔ m.stopped = false := by
  rw [h.stopped]
  constructor
  · exact And.left
  · intro hstop
    refine ⟨hstop, Bool.eq_false_iff.mpr fun hconcluded => ?_⟩
    rw [h.stopped_of_concluded hconcluded] at hstop
    cases hstop

theorem Tracks.lookup_toolCall (h : Tracks st m) {i : Nat} :
    st.openBlocks.lookup i = some .toolCall ↔ (m.block i).isTool = true := by
  rw [← h.kind]
  cases m.block i with
  | opened kind => cases kind <;> simp [BlockPhase.kind?, BlockPhase.isTool]
  | _ => simp [BlockPhase.kind?, BlockPhase.isTool]

theorem Tracks.lookup_plain (h : Tracks st m) {i : Nat} {kind : ContentBlockKind}
    (hkind : kind ≠ .toolCall) :
    st.openBlocks.lookup i = some kind ↔ m.block i = .opened kind := by
  rw [← h.kind]
  cases m.block i <;> simp [BlockPhase.kind?, hkind.symm]

theorem Tracks.fresh_iff (h : Tracks st m) {i : Nat} :
    m.block i = .fresh ↔ st.openBlocks.lookup i = none ∧ i ∉ st.closedIndices := by
  constructor
  · intro hfresh
    have hnone : st.openBlocks.lookup i = none := by rw [← h.kind, hfresh]; rfl
    refine ⟨hnone, fun hmem => ?_⟩
    have := (h.closed i hnone).mpr hmem
    rw [hfresh] at this
    cases this
  · rintro ⟨hnone, hmem⟩
    have hkind := h.kind i
    have hclosed := mt (h.closed i hnone).mp hmem
    rw [hnone] at hkind
    cases hb : m.block i <;> simp_all [BlockPhase.kind?]

theorem Tracks.mayClose_iff (h : Tracks st m) {i : Nat} :
    (m.block i).mayClose = true ↔
      ∃ kind, st.openBlocks.lookup i = some kind ∧ ¬ (kind = .toolCall ∧ i ∉ st.toolStopped) := by
  rw [← h.kind, ← h.ended]
  cases m.block i with
  | opened kind => cases kind <;> simp [BlockPhase.kind?, BlockPhase.mayClose]
  | _ => simp [BlockPhase.kind?, BlockPhase.mayClose]

/-- From states that agree the validator passes the events the envelope takes. -/
theorem Tracks.checkEvent_iff (h : Tracks st m) (he : e.isError = false) :
    (∃ st', st.checkEvent {} e = .ok st') ↔ m.Allows false e := by
  cases e with
  | error msg => cases he
  | responseStart id model created =>
    simp [checkEvent, Envelope.Allows, h.responseStart, h.started]
  | messageStart role =>
    simp only [checkEvent, Checks.do_eq_ok, checkPostMessageStop_eq_ok,
      checkPostResponseStop_eq_ok, Envelope.Allows, h.started, ← h.live, h.greeted]
    split <;> simp_all
  | contentBlockStart i kind =>
    simp only [checkEvent, Checks.do_eq_ok, checkPostMessageStop_eq_ok,
      checkPostResponseStop_eq_ok, Envelope.Allows, ← h.live, h.greeted, h.fresh_iff]
    split
    · simp_all
    · split
      · simp_all [Option.isSome_iff_ne_none]
      · split <;> simp_all
  | contentBlockStop i =>
    simp only [checkEvent, Checks.do_eq_ok, checkPostMessageStop_eq_ok,
      checkPostResponseStop_eq_ok, Envelope.Allows, ← h.live, h.mayClose_iff]
    split
    · simp_all
    · split <;> simp_all
  | textDelta i text =>
    simp [checkEvent, Checks.do_eq_ok, Envelope.Allows, ← h.live, h.lookup_plain, and_assoc]
  | reasoningDelta i text =>
    simp [checkEvent, Checks.do_eq_ok, Envelope.Allows, ← h.live, h.lookup_plain, and_assoc]
  | toolCallStart i id name =>
    simp [checkEvent, Checks.do_eq_ok, Envelope.Allows, ← h.live, h.lookup_toolCall, and_assoc,
      BlockPhase.takesStart]
  | toolCallArgumentsDelta i frag =>
    simp [checkEvent, Checks.do_eq_ok, Envelope.Allows, ← h.live, h.lookup_toolCall, and_assoc,
      BlockPhase.takesArguments]
  | toolCallStop i =>
    simp [checkEvent, Checks.do_eq_ok, Envelope.Allows, ← h.live, h.lookup_toolCall, and_assoc,
      BlockPhase.takesStop]
  | messageStop reason seq =>
    simp only [checkEvent, Checks.do_eq_ok, checkPostResponseStop_eq_ok, Envelope.Allows,
      h.started, ← h.live]
    split <;> simp_all
  | responseStop usage =>
    simp only [checkEvent, Envelope.Allows, h.stopped, h.concluded]
    split
    · simp_all
    · split <;> simp_all
  | usageDelta usage =>
    simp [checkEvent, Checks.do_eq_ok, Envelope.Allows, h.started, h.concluded]
  | rawProviderEvent provider name data =>
    simp [checkEvent, Checks.do_eq_ok, Envelope.Allows, h.started, h.concluded]

/-- A change at one index, where the states agree on that index afterwards. -/
theorem Tracks.setBlock (h : Tracks st m) {i : Nat} {p : BlockPhase}
    {opened : AList fun _ : Nat => ContentBlockKind} {stopped closed : Finset Nat}
    (hopened : ∀ j, j ≠ i → opened.lookup j = st.openBlocks.lookup j)
    (hstopped : ∀ j, j ≠ i → (j ∈ stopped ↔ j ∈ st.toolStopped))
    (hclosed : ∀ j, j ≠ i → (j ∈ closed ↔ j ∈ st.closedIndices))
    (hkind : p.kind? = opened.lookup i) (hended : p = .ended ↔ i ∈ stopped)
    (hphase : opened.lookup i = none → (p = .closed ↔ i ∈ closed)) :
    Tracks { st with openBlocks := opened, toolStopped := stopped, closedIndices := closed }
      (m.setBlock i p) := by
  refine { h with kind := fun j => ?_, ended := fun j => ?_, closed := fun j hj => ?_ }
  · by_cases hji : j = i
    · rw [hji, Envelope.setBlock_block_self]
      exact hkind
    · rw [Envelope.setBlock_block_of_ne m p hji, h.kind]
      exact (hopened j hji).symm
  · by_cases hji : j = i
    · rw [hji, Envelope.setBlock_block_self]
      exact hended
    · rw [Envelope.setBlock_block_of_ne m p hji, h.ended]
      exact (hstopped j hji).symm
  · by_cases hji : j = i
    · rw [hji] at hj ⊢
      rw [Envelope.setBlock_block_self]
      exact hphase hj
    · have hnone : st.openBlocks.lookup j = none := (hopened j hji).symm.trans hj
      rw [Envelope.setBlock_block_of_ne m p hji, h.closed j hnone]
      exact (hclosed j hji).symm

/-- An event both take leaves states that agree. -/
theorem Tracks.checkEvent (h : Tracks st m) (he : e.isError = false)
    (hok : st.checkEvent {} e = .ok st') : Tracks st' (m.after e) := by
  cases e with
  | error msg => cases he
  | responseStart id model created => simp [ValidatorState.checkEvent, h.responseStart] at hok
  | messageStart role =>
    simp only [ValidatorState.checkEvent, Checks.do_eq_ok] at hok
    obtain ⟨_, _, _, _, hok⟩ := hok
    split at hok
    · cases hok
    · cases hok
      exact { h with greeted := rfl }
  | contentBlockStart i kind =>
    simp only [ValidatorState.checkEvent, Checks.do_eq_ok] at hok
    obtain ⟨_, _, _, _, hok⟩ := hok
    split at hok
    · cases hok
    · split at hok
      · cases hok
      · split at hok
        · cases hok
        · cases hok
          rename_i hopen hclosed
          have hfresh : m.block i = .fresh := h.fresh_iff.mpr ⟨by simpa using hopen, hclosed⟩
          -- a fresh index has no tool stop of an earlier block
          have hnever : i ∉ st.toolStopped := by
            rw [← h.ended, hfresh]
            simp
          exact h.setBlock (fun j hj => AList.lookup_insert_ne hj) (fun _ _ => Iff.rfl)
            (fun _ _ => Iff.rfl) (by simp [BlockPhase.kind?]) (by simp [hnever]) (by simp)
  | contentBlockStop i =>
    simp only [ValidatorState.checkEvent, Checks.do_eq_ok] at hok
    obtain ⟨_, _, _, _, hok⟩ := hok
    split at hok
    · cases hok
    · split at hok
      · cases hok
      · cases hok
        rename_i kind hkind htool
        -- the tool stop of the block is forgotten with it; other blocks have none
        have hforgot :
            i ∉ (if kind = .toolCall then st.toolStopped.erase i else st.toolStopped) := by
          split
          · simp
          · rename_i hplain
            rw [← h.ended, (h.lookup_plain hplain).mp hkind]
            simp
        refine h.setBlock (fun j hj => AList.lookup_erase_ne hj) (fun j hj => ?_)
          (fun j hj => by simp [hj]) (by simp [BlockPhase.kind?]) (by simp [hforgot]) (by simp)
        split <;> simp [hj]
  | toolCallStart i id name =>
    simp only [ValidatorState.checkEvent, Checks.do_eq_ok] at hok
    obtain ⟨_, hdelta, hok⟩ := hok
    cases hok
    have hkind := (checkDelta_eq_ok.mp hdelta).2.2
    refine h.setBlock (fun _ _ => rfl) (fun _ _ => Iff.rfl) (fun _ _ => Iff.rfl) ?_ ?_ ?_
    · rw [hkind]
      cases m.block i <;> rfl
    · rw [← h.ended]
      cases m.block i <;> simp [BlockPhase.afterStart]
    · simp [hkind]
  | toolCallStop i =>
    simp only [ValidatorState.checkEvent, Checks.do_eq_ok] at hok
    obtain ⟨_, hdelta, hok⟩ := hok
    cases hok
    have hkind := (checkDelta_eq_ok.mp hdelta).2.2
    exact h.setBlock (fun _ _ => rfl) (fun j hj => by simp [hj]) (fun _ _ => Iff.rfl)
      (by simp [BlockPhase.kind?, hkind]) (by simp) (by simp [hkind])
  | messageStop reason seq =>
    simp only [ValidatorState.checkEvent, Checks.do_eq_ok] at hok
    obtain ⟨_, _, hok⟩ := hok
    split at hok
    · cases hok
    · cases hok
      exact { h with stopped := rfl, stopped_of_concluded := fun _ => rfl }
  | responseStop usage =>
    simp only [ValidatorState.checkEvent] at hok
    split at hok
    · cases hok
    · split at hok
      · cases hok
      · cases hok
        rename_i hstop _
        exact { h with concluded := rfl, stopped_of_concluded := fun _ => by simpa using hstop }
  | _ =>
    simp only [ValidatorState.checkEvent, Checks.do_eq_ok] at hok
    obtain ⟨_, _, hok⟩ := hok
    cases hok
    exact { h with }

theorem Tracks.entries_eq_nil_iff (h : Tracks st m) :
    st.openBlocks.entries = [] ↔ ∀ i, (m.block i).isOpen = false := by
  have hopen : ∀ i, (m.block i).isOpen = false ↔ st.openBlocks.lookup i = none := by
    intro i
    rw [← h.kind]
    cases m.block i <;> simp [BlockPhase.kind?, BlockPhase.isOpen]
  constructor
  · intro hnil i
    rw [hopen, AList.lookup_eq_none, AList.mem_keys, AList.keys, hnil]
    exact List.not_mem_nil
  · intro hall
    refine List.eq_nil_iff_forall_not_mem.mpr fun ⟨i, kind⟩ hmem => ?_
    have hnone := (hopen i).mp (hall i)
    rw [AList.lookup_eq_none] at hnone
    exact hnone (AList.mem_keys.mpr (List.mem_map_of_mem hmem))

/-- The walk passes iff the envelope takes every event and leaves no block open. -/
theorem Tracks.walk_iff (h : Tracks st m) {es : List StreamEvent}
    (hes : ∀ e ∈ es, e.isError = false) :
    walk {} st es = .ok () ↔
      ∃ m', Runs.exec (Envelope.step false) m es = some m' ∧
        ∀ i, (m'.block i).isOpen = false := by
  induction es generalizing st m with
  | nil => simp [walk, ← h.entries_eq_nil_iff]
  | cons e es ih =>
    have he := hes e List.mem_cons_self
    rw [walk, if_neg (by simp [h.running]), Checks.do_eq_ok]
    constructor
    · rintro ⟨st₁, hok, hrest⟩
      obtain ⟨m', hm', hclosed⟩ :=
        (ih (h.checkEvent he hok) fun e' he' => hes e' (List.mem_cons_of_mem e he')).mp hrest
      exact ⟨m', Envelope.exec_cons_iff.mpr ⟨(h.checkEvent_iff he).mp ⟨st₁, hok⟩, hm'⟩, hclosed⟩
    · rintro ⟨m', hexec, hclosed⟩
      obtain ⟨hallow, hm'⟩ := Envelope.exec_cons_iff.mp hexec
      obtain ⟨st₁, hok⟩ := (h.checkEvent_iff he).mpr hallow
      exact ⟨st₁, hok,
        (ih (h.checkEvent he hok) fun e' he' => hes e' (List.mem_cons_of_mem e he')).mpr
          ⟨m', hm', hclosed⟩⟩

end ValidatorState

namespace Envelope

variable {nested : Bool} {m m' : Envelope} {es : List StreamEvent}

theorem exec_withoutErrors :
    Runs.exec (step nested) m (withoutErrors es) = Runs.exec (step nested) m es := by
  induction es generalizing m with
  | nil => rfl
  | cons e es ih =>
    cases he : e.isError with
    | false =>
      rw [withoutErrors, List.filter_cons_of_pos (by simp [he]), Runs.exec_cons, Runs.exec_cons]
      congr 1
      funext m₁
      exact ih
    | true =>
      rw [withoutErrors, List.filter_cons_of_neg (by simp [he]), ← withoutErrors, ih,
        Runs.exec_cons]
      cases e with
      | error msg => rfl
      | _ => cases he

/-- The order of the envelope's own events. -/
def Ordered (m : Envelope) : Prop :=
  (m.concluded = true → m.stopped = true) ∧ (m.stopped = true → m.started = true)

theorem Ordered.after (h : m.Ordered) {e : StreamEvent} (hallow : m.Allows nested e) :
    (m.after e).Ordered := by
  obtain ⟨hconcluded, hstop⟩ := h
  cases e with
  | responseStart id model created => exact ⟨hconcluded, fun _ => rfl⟩
  | messageStop reason seq => exact ⟨fun _ => rfl, fun _ => hallow.1⟩
  | responseStop usage => exact ⟨fun _ => hallow.1, hstop⟩
  | _ => exact ⟨hconcluded, hstop⟩

theorem Ordered.exec (h : m.Ordered) (hexec : Runs.exec (step nested) m es = some m') :
    m'.Ordered := by
  refine Runs.Preserved.exec (I := Ordered) ?_ h hexec
  intro m₁ e m₂ hord _ hstep
  obtain ⟨hallow, rfl⟩ := step_eq_some.mp hstep
  exact hord.after hallow

theorem ordered_init : Ordered {} := ⟨fun h => absurd h (by simp), fun h => absurd h (by simp)⟩

/-- The response was stopped iff stopping it was the last event. -/
theorem concluded_iff_getLast (h : m.Ordered) (hconcluded : m.concluded = false)
    (hes : ∀ e ∈ es, e.isError = false) (hexec : Runs.exec (step nested) m es = some m') :
    m'.concluded = true ↔ es.getLast?.any StreamEvent.isResponseStop = true := by
  rcases List.eq_nil_or_concat es with rfl | ⟨front, e, rfl⟩
  · cases hexec
    simp [hconcluded]
  · rw [List.concat_eq_append] at hexec hes ⊢
    obtain ⟨m₁, h₁, hlast⟩ := Runs.exec_append_eq_some.mp hexec
    obtain ⟨hallow, rfl⟩ := exec_singleton_iff.mp hlast
    have he : e.isError = false := hes e (by simp)
    rw [List.getLast?_concat, Option.any_some]
    have hord := h.exec h₁
    -- after the response was stopped nothing but an error is taken
    have hnot : m₁.concluded = true → ¬ m₁.Allows nested e := by
      intro hcon hal
      have hst := hord.1 hcon
      have hsd := hord.2 hst
      cases e <;> simp_all [Allows, StreamEvent.isError]
    cases hcon : m₁.concluded with
    | true => exact absurd hallow (hnot hcon)
    | false =>
      cases e <;> simp_all [after, StreamEvent.isResponseStop]

end Envelope

theorem mem_withoutErrors {events : List StreamEvent} {e : StreamEvent}
    (h : e ∈ withoutErrors events) : e.isError = false := by
  simpa using (List.mem_filter.mp h).2

/-- Before the response starts nothing else may come, errors apart. -/
theorem not_allows_init {e : StreamEvent} (herr : e.isError = false)
    (hstart : e.isResponseStart = false) : ¬ Envelope.Allows false {} e := by
  cases e <;>
    simp_all [Envelope.Allows, StreamEvent.isError, StreamEvent.isResponseStart,
      BlockPhase.mayClose, BlockPhase.takesStart, BlockPhase.takesArguments,
      BlockPhase.takesStop, BlockPhase.isTool]

/-- The start of the response leaves states that agree. -/
theorem tracks_started :
    ValidatorState.Tracks { seenResponseStart := true } { started := true } :=
  { responseStart := rfl, started := rfl, greeted := rfl, stopped := rfl, concluded := rfl,
    running := rfl, stopped_of_concluded := fun h => absurd h (by simp),
    kind := fun i => by simp [BlockPhase.kind?],
    ended := fun i => by simp,
    closed := fun i _ => by simp }

/-- The contract holds iff the envelope takes every event and ends closed. -/
theorem lifecycleValid_iff {events : List StreamEvent} :
    LifecycleValid events ↔
      ∃ m, Runs.exec (Envelope.step false) {} events = some m ∧ m.Closed := by
  rw [LifecycleValid, ← Envelope.exec_withoutErrors]
  have herr : ∀ e ∈ withoutErrors events, e.isError = false := fun e he => mem_withoutErrors he
  generalize withoutErrors events = es at herr ⊢
  cases es with
  | nil => simp [Envelope.Closed]
  | cons e es =>
    cases hstart : e.isResponseStart with
    | false =>
      -- the contract asks for the start, and the envelope takes nothing before it
      constructor
      · intro hvalid
        have hhead := hvalid.2.1
        rw [List.head?_cons, Option.any_some, hstart] at hhead
        cases hhead
      · intro hexec
        obtain ⟨m, hm, -⟩ := hexec
        have hallow := (Envelope.exec_cons_iff.mp hm).1
        exact absurd hallow (not_allows_init (herr e List.mem_cons_self) hstart)
    | true =>
      cases e with
      | responseStart id model created =>
        have hwalk := tracks_started.walk_iff fun e (he : e ∈ es) =>
          herr e (List.mem_cons_of_mem _ he)
        have hexec : ∀ m, Runs.exec (Envelope.step false) {}
            (.responseStart id model created :: es) = some m ↔
            Runs.exec (Envelope.step false) { started := true } es = some m := by
          intro m
          rw [Envelope.exec_cons_iff]
          exact ⟨And.right, fun h => ⟨rfl, h⟩⟩
        have hhead : ((StreamEvent.responseStart id model created :: es).head?.any
            StreamEvent.isResponseStart) = true := rfl
        -- the walk gives the blocks, the order of the stops the last event
        constructor
        · rintro ⟨hok, -, hlast⟩
          obtain ⟨m, hm, hclosed⟩ := hwalk.mp hok
          have hm₀ := (hexec m).mpr hm
          have hconcluded :=
            (Envelope.concluded_iff_getLast Envelope.ordered_init rfl herr hm₀).mpr hlast
          exact ⟨m, hm₀, hconcluded, hclosed⟩
        · rintro ⟨m, hm₀, hconcluded, hclosed⟩
          exact ⟨hwalk.mpr ⟨m, (hexec m).mp hm₀, hclosed⟩, hhead,
            (Envelope.concluded_iff_getLast Envelope.ordered_init rfl herr hm₀).mp hconcluded⟩
      | _ => cases hstart

/-! ## The order of a block's tool events -/

theorem argumentsThenStop_replicate (n : Nat) (w : List ToolEvent) :
    argumentsThenStop (List.replicate n .arguments ++ w) = argumentsThenStop w := by
  induction n with
  | zero => rfl
  | succ n ih => rw [List.replicate_succ, List.cons_append, argumentsThenStop, ih]

/-- The tool events a block has had when it is in a phase of the nested envelope. -/
def Spells (w : List ToolEvent) : BlockPhase → Prop
  | .fresh | .opened _ => w = []
  | .called => ∃ n, w = .start :: List.replicate n .arguments
  | .ended => ∃ n, w = .start :: (List.replicate n .arguments ++ [.stop])
  | .closed => isCall w = true

theorem Spells.isCall {w : List ToolEvent} {p : BlockPhase} (h : Spells w p)
    (hopen : p.isOpen = false) : isCall w = true := by
  cases p with
  | fresh =>
    rw [show w = [] from h]
    rfl
  | closed => exact h
  | _ => cases hopen

theorem toolEvents_concat (index : Nat) (es : List StreamEvent) (e : StreamEvent) :
    toolEvents index (es ++ [e]) = toolEvents index es ++ (toolEvent index e).toList := by
  rw [toolEvents, List.filterMap_append]
  cases h : toolEvent index e <;> simp [toolEvents, h]

theorem toolEvent_of_ne {e : StreamEvent} {i : Nat} (h : e.blockIndex ≠ some i) :
    toolEvent i e = none := by
  cases e with
  | toolCallStart j id name => exact if_neg fun hi => h (congrArg some hi)
  | toolCallArgumentsDelta j fragment => exact if_neg fun hi => h (congrArg some hi)
  | toolCallStop j => exact if_neg fun hi => h (congrArg some hi)
  | _ => rfl

theorem spells_step {m : Envelope} {es : List StreamEvent} {e : StreamEvent}
    (h : ∀ i, Spells (toolEvents i es) (m.block i)) (hallow : m.Allows true e) (i : Nat) :
    Spells (toolEvents i (es ++ [e])) ((m.after e).block i) := by
  rw [toolEvents_concat]
  have hi := h i
  by_cases hindex : e.blockIndex = some i
  case neg =>
    rw [toolEvent_of_ne hindex, Envelope.after_block_of_ne m hindex, Option.toList_none,
      List.append_nil]
    exact hi
  cases e with
  | contentBlockStart j kind =>
    obtain rfl : j = i := Option.some.inj hindex
    simpa [toolEvent, Envelope.after, hallow.2.2, Spells] using hi
  | contentBlockStop j =>
    obtain rfl : j = i := Option.some.inj hindex
    have hphase := hallow.2
    simp only [toolEvent, Option.toList_none, List.append_nil, Envelope.after,
      Envelope.setBlock_block_self, Spells]
    cases hb : m.block j with
    | opened kind =>
      rw [hb] at hi
      rw [show toolEvents j es = [] from hi]
      rfl
    | ended =>
      rw [hb] at hi
      obtain ⟨n, hn⟩ := hi
      rw [hn]
      simp [AgentShim.isCall, argumentsThenStop_replicate, argumentsThenStop]
    | _ => simp [hb, BlockPhase.mayClose] at hphase
  | toolCallStart j id name =>
    obtain rfl : j = i := Option.some.inj hindex
    have hb : m.block j = .opened .toolCall := by
      simpa [BlockPhase.takesStart] using hallow.2
    rw [hb] at hi
    rw [show toolEvents j es = [] from hi]
    simp only [toolEvent, if_true, Option.toList_some, List.nil_append, Envelope.after,
      Envelope.setBlock_block_self, hb]
    exact ⟨0, rfl⟩
  | toolCallArgumentsDelta j frag =>
    obtain rfl : j = i := Option.some.inj hindex
    have hb : m.block j = .called := by simpa [BlockPhase.takesArguments] using hallow.2
    rw [hb] at hi
    obtain ⟨n, hn⟩ := hi
    simp only [toolEvent, if_true, Option.toList_some, Envelope.after, hb]
    exact ⟨n + 1, by rw [hn, List.replicate_succ', List.cons_append]⟩
  | toolCallStop j =>
    obtain rfl : j = i := Option.some.inj hindex
    have hb : m.block j = .called := by simpa [BlockPhase.takesStop] using hallow.2
    rw [hb] at hi
    obtain ⟨n, hn⟩ := hi
    simp only [toolEvent, if_true, Option.toList_some, Envelope.after,
      Envelope.setBlock_block_self]
    exact ⟨n, by rw [hn, List.cons_append]⟩
  | _ => simpa [toolEvent, Envelope.after] using hi

theorem spells_of_exec {m : Envelope} {es : List StreamEvent}
    (h : Runs.exec (Envelope.step true) {} es = some m) (i : Nat) :
    Spells (toolEvents i es) (m.block i) := by
  have hinit : ∀ i, Spells (toolEvents i []) (({} : Envelope).block i) := fun _ => rfl
  refine Runs.exec_history (I := fun es m => ∀ i, Spells (toolEvents i es) (m.block i))
    hinit ?_ h i
  intro past e m₁ m₂ hall hstep
  obtain ⟨hallow, rfl⟩ := Envelope.step_eq_some.mp hstep
  exact spells_step hall hallow

/-- Where a call goes on with `x`, the block waits for its start or has had it. -/
theorem Spells.phase_of_isCall {w rest : List ToolEvent} {x : ToolEvent} {p : BlockPhase}
    (h : Spells w p) (htool : p.isTool = true) (hcall : AgentShim.isCall (w ++ x :: rest) = true) :
    p = if x = .start then .opened .toolCall else .called := by
  cases p with
  | opened kind =>
    rw [show w = [] from h] at hcall
    cases kind <;> cases x <;> simp_all [BlockPhase.isTool, AgentShim.isCall]
  | called =>
    obtain ⟨n, rfl⟩ := h
    cases x <;> simp_all [AgentShim.isCall, argumentsThenStop_replicate, argumentsThenStop]
  | ended =>
    -- nothing follows the stop
    obtain ⟨n, rfl⟩ := h
    simp [AgentShim.isCall, argumentsThenStop_replicate, argumentsThenStop] at hcall
  | fresh => cases htool
  | closed => cases htool

/-- A call that goes on after the events so far goes on with an event the nested
envelope takes. -/
theorem allows_nested_of_extends {m : Envelope} {es : List StreamEvent} {e : StreamEvent}
    (hspells : ∀ i, Spells (toolEvents i es) (m.block i)) (hallow : m.Allows false e)
    (hext : ∀ i, ∃ rest, isCall (toolEvents i (es ++ [e]) ++ rest) = true) :
    m.Allows true e := by
  have hphase : ∀ i x, toolEvent i e = some x → (m.block i).isTool = true →
      m.block i = if x = .start then .opened .toolCall else .called := by
    intro i x hx htool
    obtain ⟨rest, hrest⟩ := hext i
    rw [toolEvents_concat, hx, List.append_assoc] at hrest
    exact (hspells i).phase_of_isCall htool hrest
  cases e with
  | toolCallStart i id name =>
    refine ⟨hallow.1, ?_⟩
    rw [hphase i .start (if_pos rfl) hallow.2]
    rfl
  | toolCallArgumentsDelta i frag =>
    refine ⟨hallow.1, ?_⟩
    rw [hphase i .arguments (if_pos rfl) hallow.2]
    rfl
  | toolCallStop i =>
    refine ⟨hallow.1, ?_⟩
    rw [hphase i .stop (if_pos rfl) hallow.2]
    rfl
  | _ => exact hallow

/-- What the lenient envelope takes the nested one takes too, if every block's
tool events go on to a call. -/
theorem exec_nested_of_extends {m : Envelope} {es : List StreamEvent}
    (h : Runs.exec (Envelope.step false) {} es = some m)
    (hext : ∀ i, ∃ rest, isCall (toolEvents i es ++ rest) = true) :
    Runs.exec (Envelope.step true) {} es = some m := by
  induction es using List.reverseRecOn generalizing m with
  | nil => exact h
  | append_singleton es e ih =>
    obtain ⟨m₁, h₁, hlast⟩ := Runs.exec_append_eq_some.mp h
    obtain ⟨hallow, rfl⟩ := Envelope.exec_singleton_iff.mp hlast
    have hfront : Runs.exec (Envelope.step true) {} es = some m₁ := by
      refine ih h₁ fun i => ?_
      obtain ⟨rest, hrest⟩ := hext i
      exact ⟨(toolEvent i e).toList ++ rest, by
        rwa [toolEvents_concat, List.append_assoc] at hrest⟩
    have hnested := allows_nested_of_extends (spells_of_exec hfront) hallow hext
    exact Runs.exec_append_eq_some.mpr
      ⟨m₁, hfront, Envelope.exec_singleton_iff.mpr ⟨hnested, rfl⟩⟩

theorem exec_lenient {m m' : Envelope} {es : List StreamEvent} {nested : Bool}
    (h : Runs.exec (Envelope.step nested) m es = some m') :
    Runs.exec (Envelope.step false) m es = some m' := by
  induction es generalizing m with
  | nil => exact h
  | cons e es ih =>
    obtain ⟨hallow, hrest⟩ := Envelope.exec_cons_iff.mp h
    exact Envelope.exec_cons_iff.mpr ⟨hallow.lenient, ih hrest⟩

/-- The contract with the tool events of each block in order holds iff the nested
envelope takes every event and ends closed. -/
theorem lifecycleValid_toolsNested_iff {events : List StreamEvent} :
    LifecycleValid events ∧ ToolsNested events ↔
      ∃ m, Runs.exec (Envelope.step true) {} events = some m ∧ m.Closed := by
  rw [lifecycleValid_iff]
  constructor
  · rintro ⟨⟨m, hm, hclosed⟩, hnested⟩
    refine ⟨m, exec_nested_of_extends hm fun i => ⟨[], ?_⟩, hclosed⟩
    rw [List.append_nil]
    exact hnested i
  · rintro ⟨m, hm, hclosed⟩
    exact ⟨⟨m, exec_lenient hm, hclosed⟩, fun i => (spells_of_exec hm i).isCall (hclosed.2 i)⟩

/-! ## The end of the envelope -/

/-- Whether the block is open after one more event. -/
def trackBlock (index : Nat) (isOpen : Bool) : StreamEvent → Bool
  | .contentBlockStart i _ => if i = index then true else isOpen
  | .contentBlockStop i => if i = index then false else isOpen
  | _ => isOpen

def blockOpen (index : Nat) (es : List StreamEvent) : Bool :=
  es.foldl (trackBlock index) false

/-- The envelope of a stream was closed: no block is left open, each tool block was
ended before it was closed, and the message and the response were stopped once. -/
structure EnvelopeClosed (es : List StreamEvent) : Prop where
  blocks : ∀ index, blockOpen index es = false
  tools : ∀ pre index post, es = pre ++ .contentBlockStop index :: post →
    .contentBlockStart index .toolCall ∈ pre → .toolCallStop index ∈ pre
  messageStop : es.countP StreamEvent.isMessageStop = 1
  responseStop : es.countP StreamEvent.isResponseStop = 1

namespace Envelope

variable {nested : Bool} {m m' : Envelope} {es : List StreamEvent}

/-- What a run of the envelope remembers of its events. -/
structure Remembers (es : List StreamEvent) (m : Envelope) : Prop where
  blocks : ∀ i, blockOpen i es = (m.block i).isOpen
  tools : ∀ i, .contentBlockStart i .toolCall ∈ es → .toolCallStop i ∉ es →
    m.block i = .opened .toolCall ∨ m.block i = .called
  messageStop : es.countP StreamEvent.isMessageStop = m.stopped.toNat
  responseStop : es.countP StreamEvent.isResponseStop = m.concluded.toNat

theorem blockOpen_concat (i : Nat) (es : List StreamEvent) (e : StreamEvent) :
    blockOpen i (es ++ [e]) = trackBlock i (blockOpen i es) e := by
  rw [blockOpen, List.foldl_append]
  rfl

theorem Allows.isOpen_after {e : StreamEvent} (h : m.Allows nested e) (i : Nat) :
    trackBlock i (m.block i).isOpen e = ((m.after e).block i).isOpen := by
  cases e with
  | contentBlockStart j kind =>
    simp only [trackBlock, after, setBlock_block]
    by_cases hj : j = i
    · simp [hj, BlockPhase.isOpen]
    · simp [hj, Ne.symm hj]
  | contentBlockStop j =>
    simp only [trackBlock, after, setBlock_block]
    by_cases hj : j = i
    · simp [hj, BlockPhase.isOpen]
    · simp [hj, Ne.symm hj]
  | toolCallStart j id name =>
    simp only [trackBlock, after, setBlock_block]
    by_cases hj : i = j
    · subst hj
      have htool : (m.block i).isTool = true := by
        have := (h.lenient).2
        exact this
      rw [if_pos rfl, BlockPhase.isOpen_of_isTool htool]
      cases m.block i <;> rfl
    · simp [hj]
  | toolCallStop j =>
    simp only [trackBlock, after, setBlock_block]
    by_cases hj : i = j
    · subst hj
      have htool : (m.block i).isTool = true := (h.lenient).2
      rw [if_pos rfl, BlockPhase.isOpen_of_isTool htool]
      rfl
    · simp [hj]
  | _ => rfl

/-- A tool block that is called stays so until it is ended. -/
theorem Allows.unended {e : StreamEvent} (h : m.Allows nested e) {i : Nat}
    (hblock : m.block i = .opened .toolCall ∨ m.block i = .called) (hne : e ≠ .toolCallStop i) :
    (m.after e).block i = .opened .toolCall ∨ (m.after e).block i = .called := by
  cases e with
  | contentBlockStart j kind =>
    have hj : i ≠ j := by
      rintro rfl
      rcases hblock with hblock | hblock <;> rw [h.2.2] at hblock <;> cases hblock
    rwa [after, setBlock_block_of_ne _ _ hj]
  | contentBlockStop j =>
    have hj : i ≠ j := by
      rintro rfl
      have hclose := h.2
      rcases hblock with hblock | hblock <;> rw [hblock] at hclose <;> cases hclose
    rwa [after, setBlock_block_of_ne _ _ hj]
  | toolCallStart j id name =>
    by_cases hj : i = j
    · subst hj
      rw [after, setBlock_block_self]
      rcases hblock with hblock | hblock <;> rw [hblock] <;> exact Or.inr rfl
    · rwa [after, setBlock_block_of_ne _ _ hj]
  | toolCallStop j =>
    have hj : i ≠ j := fun hij => hne (by rw [hij])
    rwa [after, setBlock_block_of_ne _ _ hj]
  | _ => exact hblock

theorem Remembers.step (h : Remembers es m) {e : StreamEvent} (hallow : m.Allows nested e) :
    Remembers (es ++ [e]) (m.after e) where
  blocks i := by rw [blockOpen_concat, h.blocks, hallow.isOpen_after]
  tools i hstart hstop := by
    rw [List.mem_append, not_or] at hstop
    rcases List.mem_append.mp hstart with hstart | hstart
    · refine hallow.unended (h.tools i hstart hstop.1) fun he => hstop.2 ?_
      rw [he]
      exact List.mem_singleton_self _
    · rw [← List.mem_singleton.mp hstart, after, setBlock_block_self]
      exact Or.inl rfl
  messageStop := by
    rw [List.countP_append, h.messageStop]
    cases e <;> simp_all [StreamEvent.isMessageStop, after, Allows]
  responseStop := by
    rw [List.countP_append, h.responseStop]
    cases e <;> simp_all [StreamEvent.isResponseStop, after, Allows]

theorem remembers_of_exec (h : Runs.exec (Envelope.step nested) {} es = some m) :
    Remembers es m := by
  refine Runs.exec_history ?_ (fun pre e m m' hpre hstep => ?_) h
  · exact { blocks := fun _ => rfl, tools := nofun, messageStop := rfl, responseStop := rfl }
  · obtain ⟨hallow, rfl⟩ := step_eq_some.mp hstep
    exact hpre.step hallow

/-- Where the monitor takes every event, the envelope is closed iff the monitor says
so. -/
theorem envelopeClosed_iff (h : Runs.exec (Envelope.step nested) {} es = some m) :
    EnvelopeClosed es ↔ m.Closed := by
  have hm := remembers_of_exec h
  constructor
  · intro hclosed
    refine ⟨?_, fun i => by rw [← hm.blocks, hclosed.blocks]⟩
    cases hconcluded : m.concluded with
    | true => rfl
    | false =>
      have hone := hclosed.responseStop
      rw [hm.responseStop, hconcluded] at hone
      cases hone
  · rintro ⟨hconcluded, hblocks⟩
    have hstop : m.stopped = true := (ordered_init.exec h).1 hconcluded
    refine ⟨fun i => by rw [hm.blocks, hblocks], ?_, ?_, ?_⟩
    · rintro pre i post rfl hstart
      by_contra hstop
      obtain ⟨m₁, hpre, hpost⟩ := Runs.exec_append_eq_some.mp h
      have hclose := (exec_cons_iff.mp hpost).1.2
      rcases (remembers_of_exec hpre).tools i hstart hstop with hblock | hblock <;>
        rw [hblock] at hclose <;> cases hclose
    · rw [hm.messageStop, hstop]
      rfl
    · rw [hm.responseStop, hconcluded]
      rfl

end Envelope
end AgentShim
