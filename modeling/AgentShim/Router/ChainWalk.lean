import AgentShim.Router.ResilientCaller

/-
  The chain walk, specified

  What the resilient caller does with a chain is read off three things: which
  positions hold the breaker's permission, how the retry loop of each permitted
  position ends, and whether that end is eligible for falling through.

  What is proved:
    1. `walk_eq` — the walk calls the attempted positions one after the other,
       each by its own retry loop, and ends as the last of them says.
    2. `mem_attempted` — the attempted positions are the permitted ones whose
       permitted predecessors all fell through.
    3. `completeInner_spec` — calls, result and reported errors of the walk of a
       ticket whose providers are registered.
-/

namespace AgentShim.ResilientCaller

open AgentShim.CircuitBreaker AgentShim.Config AgentShim.RequestAdmission AgentShim.RequestLog
  AgentShim.Retrying

variable {Prov L : Type}

section Spec

variable (up : Upstreams) (policy : RetryPolicy) (t : AdmissionTicket)

/-- The retry loop of the position ended in an error that the route's list makes eligible. -/
def fallsThrough (i : Nat) : Bool :=
  match (retryWithPolicy up policy i).2 with
  | .done (.error e) _ => fallbackEligibilityWithOverrides e policy.retryOn == .eligible
  | _ => false

/-- The record of a permitted position whose retry loop ended in an error. -/
def triedUpstream (i : Nat) (target : BackendTarget) : Option TriedUpstream :=
  match (retryWithPolicy up policy i).2 with
  | .done (.error e) attempts =>
    some
      { provider := target.provider
        model := target.model
        attempts := attempts
        lastErrorTag := errorTag e
        lastErrorMsg := errorMessage e }
  | _ => none

/-- Every permitted position from `start` on and before `i` fell through. -/
def reached (start i : Nat) : Bool :=
  (List.range' start (i - start)).all fun j => !t.breakerAllowed j || fallsThrough up policy j

/-- The permitted positions the walk reaches, in chain order. -/
def attempted : List Nat :=
  (List.range t.filteredChain.length).filter fun i =>
    reached up policy t 0 i && t.breakerAllowed i

/-- The positions the walk reaches without a permission. -/
def skipped : List Nat :=
  (List.range t.filteredChain.length).filter fun i =>
    reached up policy t 0 i && !t.breakerAllowed i

/-- The record of a position of the ticket's chain. -/
def triedAt (i : Nat) : Option TriedUpstream :=
  t.filteredChain[i]?.bind (triedUpstream up policy i)

/-- The positions the walk reaches down the rest of a chain, with their targets. -/
def visitedFrom : Nat → List BackendTarget → List (Nat × BackendTarget)
  | _, [] => []
  | i, target :: rest =>
    (i, target) ::
      if !t.breakerAllowed i || fallsThrough up policy i then visitedFrom (i + 1) rest else []

/-- How the walk ends, from the positions it attempted and skipped. -/
def endOf (p : Progress) (tries : List (Nat × BackendTarget)) (skips : List String) : WalkEnd :=
  match tries.getLast? with
  | none => exhausted { p with breakersSkipped := p.breakersSkipped ++ skips }
  | some (i, _) =>
    match (retryWithPolicy up policy i).2 with
    | .dropped => .abandoned
    | .done (.ok polls) _ => .stream i polls
    | .done (.error e) _ =>
      let tried := p.tried ++ tries.filterMap fun x => triedUpstream up policy x.1 x.2
      match fallbackEligibilityWithOverrides e policy.retryOn with
      | .terminal => .failed (.terminalError e tried)
      | .eligible => .failed (.noUpstreamSucceeded tried e)

variable {up policy t}

theorem fallsThrough_eq_true {i : Nat} :
    fallsThrough up policy i = true ↔
      ∃ e n, (retryWithPolicy up policy i).2 = .done (.error e) n ∧
        fallbackEligibilityWithOverrides e policy.retryOn = .eligible := by
  unfold fallsThrough
  constructor
  · intro h
    split at h
    · rename_i e n hresult
      exact ⟨e, n, hresult, by simpa using h⟩
    · cases h
  · intro h
    obtain ⟨e, n, hresult, heligible⟩ := h
    simp [hresult, heligible]

theorem exhausted_of_tried {p : Progress} {e : ProviderError} (htried : p.tried ≠ [])
    (hlast : p.lastError = some e) : exhausted p = .failed (.noUpstreamSucceeded p.tried e) := by
  have hne : p.tried.isEmpty = false := by simpa using htried
  simp [exhausted, hne, hlast]

/-- After an eligible failure the end is the end of the rest, with the failure on record. -/
theorem endOf_cons {p : Progress} {i : Nat} {target : BackendTarget} {e : ProviderError} {n : Nat}
    (hresult : (retryWithPolicy up policy i).2 = .done (.error e) n)
    (heligible : fallbackEligibilityWithOverrides e policy.retryOn = .eligible)
    (tries : List (Nat × BackendTarget)) (skips : List String) :
    endOf up policy p ((i, target) :: tries) skips =
      endOf up policy
        { p with
          tried := p.tried ++ (triedUpstream up policy i target).toList
          lastError := some e } tries skips := by
  have hentry : triedUpstream up policy i target = some
      { provider := target.provider
        model := target.model
        attempts := n
        lastErrorTag := errorTag e
        lastErrorMsg := errorMessage e } := by
    simp only [triedUpstream, hresult]
  cases tries with
  | nil =>
    -- nothing was attempted after it: the chain is exhausted with this error
    simp only [endOf, List.getLast?_nil, List.getLast?_singleton, hresult, heligible, hentry,
      List.filterMap_cons, List.filterMap_nil]
    rw [exhausted_of_tried (by simp) rfl]
    simp
  | cons next tries =>
    obtain ⟨last, hlast⟩ : ∃ last, (next :: tries).getLast? = some last :=
      ⟨_, List.getLast?_eq_some_getLast (List.cons_ne_nil next tries)⟩
    simp only [endOf, List.getLast?_cons_cons, hlast]
    rw [List.filterMap_cons, hentry]
    simp

variable {providers : OrdMap Prov}

/-- **The walk.** Down a chain whose providers are registered. -/
theorem walk_eq (i : Nat) (chain : List BackendTarget) (p : Progress)
    (hprovider : ∀ target ∈ chain, ∃ provider, providers.get? target.provider = some provider) :
    let visited := visitedFrom up policy t i chain
    let tries := visited.filter fun x => t.breakerAllowed x.1
    let skips := visited.filter fun x => !t.breakerAllowed x.1
    walk providers up policy t i chain p =
      (tries.flatMap fun x => (retryWithPolicy up policy x.1).1,
        endOf up policy p tries (skips.map fun x => x.2.provider)) := by
  induction chain generalizing i p with
  | nil => simp [walk, visitedFrom, endOf]
  | cons target rest ih =>
    obtain ⟨provider, hsome⟩ := hprovider target List.mem_cons_self
    have ih := fun p' => ih (i + 1) p' fun target' h =>
      hprovider target' (List.mem_cons_of_mem _ h)
    intro visited tries skips
    simp only [skips, tries, visited]
    rw [walk, visitedFrom]
    cases hallowed : t.breakerAllowed i with
    | false =>
      simp only [Bool.not_false, Bool.true_or, if_true]
      rw [ih]
      simp [endOf, hallowed, List.append_assoc]
    | true =>
      simp only [Bool.not_true, Bool.false_or, Bool.false_eq_true, if_false, hsome]
      cases hfalls : fallsThrough up policy i with
      | true =>
        obtain ⟨e, n, hresult, heligible⟩ := fallsThrough_eq_true.mp hfalls
        simp only [hresult, heligible, if_true]
        rw [ih]
        simp only [List.filter_cons, hallowed, if_true, Bool.not_true, Bool.false_eq_true, if_false]
        rw [endOf_cons hresult heligible]
        simp [triedUpstream, hresult]
      | false =>
        -- the walk stops here
        cases hresult : (retryWithPolicy up policy i).2 with
        | dropped => simp [endOf, hallowed, hresult]
        | done result n =>
          cases result with
          | ok polls => simp [endOf, hallowed, hresult]
          | error e =>
            have hterminal : fallbackEligibilityWithOverrides e policy.retryOn = .terminal := by
              simp only [fallsThrough, hresult, beq_eq_false_iff_ne, ne_eq] at hfalls
              cases heligible : fallbackEligibilityWithOverrides e policy.retryOn with
              | eligible => exact absurd heligible hfalls
              | terminal => rfl
            simp [endOf, hallowed, hresult, hterminal, triedUpstream]

/-! The positions, in closed form. -/

@[simp] theorem reached_self (i : Nat) : reached up policy t i i = true := by
  simp [reached]

theorem reached_of_lt {start i : Nat} (h : start < i) :
    reached up policy t start i =
      ((!t.breakerAllowed start || fallsThrough up policy start) &&
        reached up policy t (start + 1) i) := by
  have hlen : i - start = (i - (start + 1)) + 1 := by omega
  rw [reached, hlen, List.range'_succ, List.all_cons, reached]

theorem reached_iff {i : Nat} :
    reached up policy t 0 i = true ↔
      ∀ j < i, t.breakerAllowed j = true → fallsThrough up policy j = true := by
  simp only [reached, List.all_eq_true, List.mem_range', Nat.sub_zero, Bool.or_eq_true,
    Bool.not_eq_true']
  constructor
  · intro h j hj hallowed
    rcases h j ⟨j, hj, by omega⟩ with hno | hfalls
    · rw [hallowed] at hno
      cases hno
    · exact hfalls
  · intro h j hj
    obtain ⟨k, hk, rfl⟩ := hj
    cases hallowed : t.breakerAllowed (0 + 1 * k) with
    | false => exact Or.inl rfl
    | true => exact Or.inr (h _ (by omega) hallowed)

theorem visitedFrom_fst (i : Nat) (chain : List BackendTarget) :
    (visitedFrom up policy t i chain).map Prod.fst =
      (List.range' i chain.length).filter fun k => reached up policy t i k := by
  induction chain generalizing i with
  | nil => rfl
  | cons target rest ih =>
    have hlater : (List.range' (i + 1) rest.length).filter (fun k => reached up policy t i k) =
        (List.range' (i + 1) rest.length).filter fun k =>
          (!t.breakerAllowed i || fallsThrough up policy i) && reached up policy t (i + 1) k := by
      apply List.filter_congr
      intro k hk
      obtain ⟨d, -, rfl⟩ := List.mem_range'.mp hk
      exact reached_of_lt (by omega)
    rw [visitedFrom, List.length_cons, List.range'_succ, List.filter_cons_of_pos (reached_self i),
      hlater, List.map_cons]
    cases !t.breakerAllowed i || fallsThrough up policy i with
    | true => simp [ih]
    | false => simp

/-- Each position comes with the target there. -/
theorem mem_visitedFrom {i : Nat} {chain : List BackendTarget} {x : Nat × BackendTarget}
    (h : x ∈ visitedFrom up policy t i chain) : i ≤ x.1 ∧ chain[x.1 - i]? = some x.2 := by
  induction chain generalizing i with
  | nil => cases h
  | cons target rest ih =>
    rw [visitedFrom] at h
    rcases List.mem_cons.mp h with rfl | h
    · simp
    · split at h
      · obtain ⟨hle, hget⟩ := ih h
        have hsub : x.1 - i = (x.1 - (i + 1)) + 1 := by omega
        exact ⟨by omega, by rw [hsub, List.getElem?_cons_succ, hget]⟩
      · cases h

/-- The visited positions that pass a test, in closed form. -/
theorem visited_filter_fst (q : Nat → Bool) :
    ((visitedFrom up policy t 0 t.filteredChain).filter fun x => q x.1).map Prod.fst =
      (List.range t.filteredChain.length).filter fun i => reached up policy t 0 i && q i := by
  have hmap := List.filter_map (f := Prod.fst) (p := q)
    (l := visitedFrom up policy t 0 t.filteredChain)
  rw [visitedFrom_fst, List.filter_filter, ← List.range_eq_range'] at hmap
  simp only [Function.comp_def] at hmap
  rw [← hmap]
  apply List.filter_congr
  intro i _
  rw [Bool.and_comm]


theorem mem_attempted {i : Nat} :
    i ∈ attempted up policy t ↔
      i < t.filteredChain.length ∧ t.breakerAllowed i = true ∧
        ∀ j < i, t.breakerAllowed j = true → fallsThrough up policy j = true := by
  rw [attempted, List.mem_filter, List.mem_range, Bool.and_eq_true, reached_iff]
  constructor
  · intro h
    exact ⟨h.1, h.2.2, h.2.1⟩
  · intro h
    exact ⟨h.1, h.2.2, h.2.1⟩

theorem attempted_pairwise : (attempted up policy t).Pairwise (· < ·) :=
  List.pairwise_lt_range.filter _

/-- Only the last attempted position can end otherwise than in an eligible error. -/
theorem getLast?_attempted {i : Nat} (hi : i ∈ attempted up policy t)
    (hstops : fallsThrough up policy i = false) : (attempted up policy t).getLast? = some i := by
  obtain ⟨last, hlast⟩ : ∃ last, (attempted up policy t).getLast? = some last :=
    ⟨_, List.getLast?_eq_some_getLast (List.ne_nil_of_mem hi)⟩
  obtain ⟨front, hfront⟩ := List.getLast?_eq_some_iff.mp hlast
  have hsorted : (attempted up policy t).Pairwise (· < ·) := attempted_pairwise
  rw [hfront] at hsorted hi
  rcases List.mem_append.mp hi with hbefore | hsame
  · -- the walk went on after `i`
    have hlt : i < last :=
      (List.pairwise_append.mp hsorted).2.2 i hbefore last (List.mem_singleton_self last)
    have hreach := (mem_attempted.mp (List.mem_of_getLast? hlast)).2.2
    have hmem : i ∈ attempted up policy t := by
      rw [hfront]
      exact List.mem_append_left _ hbefore
    rw [hreach i hlt (mem_attempted.mp hmem).2.1] at hstops
    cases hstops
  · rw [List.mem_singleton.mp hsame, hlast]

/-! The end of a ticket's walk. -/

variable (up t) in
/-- **How a walk should end.** The positions are those of the ticket's chain, the retry loops
    those of its policy. -/
inductive EndsAs : WalkEnd → Prop
  /-- An attempted upstream accepts. -/
  | stream {i : Nat} {polls : List (Poll EventItem)} {n : Nat}
      (tried : i ∈ attempted up t.resolved.retry t)
      (result : (retryWithPolicy up t.resolved.retry i).2 = .done (.ok polls) n) :
      EndsAs (.stream i polls)
  /-- The request is dropped during the retry loop of an attempted upstream. -/
  | dropped {i : Nat} (tried : i ∈ attempted up t.resolved.retry t)
      (result : (retryWithPolicy up t.resolved.retry i).2 = .dropped) : EndsAs .abandoned
  /-- An attempted upstream fails terminally. -/
  | terminal {i : Nat} {e : ProviderError} {n : Nat} {entries : List TriedUpstream}
      (tried : i ∈ attempted up t.resolved.retry t)
      (result : (retryWithPolicy up t.resolved.retry i).2 = .done (.error e) n)
      (terminal : fallbackEligibilityWithOverrides e t.resolved.retry.retryOn = .terminal)
      (recorded : entries.map some =
        (attempted up t.resolved.retry t).map (triedAt up t.resolved.retry t)) :
      EndsAs (.failed (.terminalError e entries))
  /-- All attempted upstreams fell through; the last one's error is reported. -/
  | exhausted {i : Nat} {e : ProviderError} {n : Nat} {entries : List TriedUpstream}
      (all : ∀ j ∈ attempted up t.resolved.retry t, fallsThrough up t.resolved.retry j = true)
      (last : (attempted up t.resolved.retry t).getLast? = some i)
      (result : (retryWithPolicy up t.resolved.retry i).2 = .done (.error e) n)
      (recorded : entries.map some =
        (attempted up t.resolved.retry t).map (triedAt up t.resolved.retry t)) :
      EndsAs (.failed (.noUpstreamSucceeded entries e))
  /-- Nothing was attempted and something was skipped. -/
  | allSkipped {names : List String} (noneTried : attempted up t.resolved.retry t = [])
      (someSkipped : skipped up t.resolved.retry t ≠ [])
      (listed : names.map some = (skipped up t.resolved.retry t).map fun i =>
        t.filteredChain[i]?.map BackendTarget.provider) :
      EndsAs (.failed (.allBreakersOpen names))
  /-- The chain was empty. -/
  | emptyChain (empty : t.filteredChain = []) :
      EndsAs (.failed (.terminalError (.network "empty chain") []))

variable (up t) in
/-- The attempted positions with their targets. -/
def tries : List (Nat × BackendTarget) :=
  (visitedFrom up t.resolved.retry t 0 t.filteredChain).filter fun x => t.breakerAllowed x.1

variable (up t) in
/-- The skipped positions with their targets. -/
def skips : List (Nat × BackendTarget) :=
  (visitedFrom up t.resolved.retry t 0 t.filteredChain).filter fun x => !t.breakerAllowed x.1

theorem tries_fst : (tries up t).map Prod.fst = attempted up t.resolved.retry t :=
  visited_filter_fst t.breakerAllowed

theorem skips_fst : (skips up t).map Prod.fst = skipped up t.resolved.retry t :=
  visited_filter_fst fun i => !t.breakerAllowed i

theorem tries_target {x : Nat × BackendTarget} (h : x ∈ tries up t) :
    t.filteredChain[x.1]? = some x.2 := by
  obtain ⟨-, hget⟩ := mem_visitedFrom (List.mem_filter.mp h).1
  exact hget

theorem skips_listed :
    ((skips up t).map fun x => x.2.provider).map some =
      (skipped up t.resolved.retry t).map fun i =>
        t.filteredChain[i]?.map BackendTarget.provider := by
  rw [← skips_fst, List.map_map, List.map_map]
  apply List.map_congr_left
  intro x hx
  obtain ⟨-, hget⟩ := mem_visitedFrom (List.mem_filter.mp hx).1
  simp only [Function.comp_apply]
  rw [show t.filteredChain[x.1]? = some x.2 from hget]
  rfl

theorem tries_recorded :
    ((tries up t).filterMap fun x => triedUpstream up t.resolved.retry x.1 x.2) =
      (attempted up t.resolved.retry t).filterMap (triedAt up t.resolved.retry t) := by
  rw [← tries_fst, List.filterMap_map]
  apply List.filterMap_congr
  intro x hx
  rw [Function.comp_apply, triedAt, tries_target hx, Option.bind_some]

theorem getLast?_tries {i : Nat}
    (h : (attempted up t.resolved.retry t).getLast? = some i) :
    ∃ target, (tries up t).getLast? = some (i, target) := by
  rw [← tries_fst, List.getLast?_map, Option.map_eq_some_iff] at h
  obtain ⟨⟨j, target⟩, hlast, rfl⟩ := h
  exact ⟨target, hlast⟩

theorem map_some_filterMap {α β : Type} {f : α → Option β} {l : List α}
    (h : ∀ x ∈ l, (f x).isSome = true) : (l.filterMap f).map some = l.map f := by
  induction l with
  | nil => rfl
  | cons x l ih =>
    obtain ⟨y, hy⟩ := Option.isSome_iff_exists.mp (h x List.mem_cons_self)
    rw [List.filterMap_cons_some hy, List.map_cons, List.map_cons, hy,
      ih fun z hz => h z (List.mem_cons_of_mem _ hz)]

/-- Where the last attempted position ended in an error, all did. -/
theorem recorded_of_last {i : Nat} {e : ProviderError} {n : Nat}
    (hlast : (attempted up t.resolved.retry t).getLast? = some i)
    (hresult : (retryWithPolicy up t.resolved.retry i).2 = .done (.error e) n) :
    ((attempted up t.resolved.retry t).filterMap (triedAt up t.resolved.retry t)).map some =
      (attempted up t.resolved.retry t).map (triedAt up t.resolved.retry t) := by
  apply map_some_filterMap
  intro j hj
  have herror : ∃ e' n', (retryWithPolicy up t.resolved.retry j).2 = .done (.error e') n' := by
    cases hfalls : fallsThrough up t.resolved.retry j with
    | true =>
      obtain ⟨e', n', hj', -⟩ := fallsThrough_eq_true.mp hfalls
      exact ⟨e', n', hj'⟩
    | false =>
      have hsame := getLast?_attempted hj hfalls
      rw [hlast] at hsame
      obtain rfl := Option.some.inj hsame
      exact ⟨e, n, hresult⟩
  obtain ⟨e', n', hj'⟩ := herror
  obtain ⟨hlt, -⟩ := mem_attempted.mp hj
  rw [triedAt, List.getElem?_eq_getElem hlt, Option.bind_some, triedUpstream, hj']
  rfl

/-- The end of the walk, from the positions it attempted and skipped. -/
theorem completeInner_eq
    (hregistered : ∀ target ∈ t.filteredChain, ∃ provider,
      providers.get? target.provider = some provider) :
    completeInner providers up t =
      ((attempted up t.resolved.retry t).flatMap fun i =>
          (retryWithPolicy up t.resolved.retry i).1,
        endOf up t.resolved.retry .start (tries up t)
          ((skips up t).map fun x => x.2.provider)) := by
  rw [completeInner, walk_eq 0 t.filteredChain .start hregistered, ← tries_fst, List.flatMap_map]
  rfl

/-- The end a walk comes to is the one its tries and skips give. -/
theorem endOf_of_endsAs {e : WalkEnd} (h : EndsAs up t e) :
    endOf up t.resolved.retry .start (tries up t) ((skips up t).map fun x => x.2.provider) =
      e := by
  cases h with
  | stream tried result =>
    obtain ⟨target, hlast⟩ :=
      getLast?_tries (getLast?_attempted tried (by simp [fallsThrough, result]))
    simp [endOf, hlast, result]
  | dropped tried result =>
    obtain ⟨target, hlast⟩ :=
      getLast?_tries (getLast?_attempted tried (by simp [fallsThrough, result]))
    simp [endOf, hlast, result]
  | terminal tried result terminal recorded =>
    have hlast := getLast?_attempted tried (by simp [fallsThrough, result, terminal])
    obtain ⟨target, hlast'⟩ := getLast?_tries hlast
    have hentries := List.map_injective_iff.mpr (Option.some_injective _)
      (recorded.trans (recorded_of_last hlast result).symm)
    simp [endOf, hlast', result, terminal, tries_recorded, hentries, Progress.start]
  | exhausted all last result recorded =>
    obtain ⟨target, hlast'⟩ := getLast?_tries last
    obtain ⟨e, n, hsame, heligible⟩ := fallsThrough_eq_true.mp (all _ (List.mem_of_getLast? last))
    rw [result] at hsame
    cases hsame
    have hentries := List.map_injective_iff.mpr (Option.some_injective _)
      (recorded.trans (recorded_of_last last result).symm)
    simp [endOf, hlast', result, heligible, tries_recorded, hentries, Progress.start]
  | allSkipped noneTried someSkipped listed =>
    rw [← tries_fst, List.map_eq_nil_iff] at noneTried
    have hnames := List.map_injective_iff.mpr (Option.some_injective _)
      (listed.trans skips_listed.symm)
    rw [← skips_fst, ne_eq, List.map_eq_nil_iff] at someSkipped
    simp [endOf, noneTried, exhausted, Progress.start, hnames, someSkipped]
  | emptyChain empty =>
    simp [endOf, tries, skips, empty, visitedFrom, exhausted, Progress.start]

/-- Of a chain with targets and no try, some target was skipped. -/
theorem skips_ne_nil {target : BackendTarget} {rest : List BackendTarget}
    (hchain : t.filteredChain = target :: rest) (htries : tries up t = []) :
    skips up t ≠ [] := by
  intro hnil
  have hall : visitedFrom up t.resolved.retry t 0 t.filteredChain = [] := by
    apply List.eq_nil_iff_forall_not_mem.mpr
    intro x hx
    cases hallowed : t.breakerAllowed x.1 with
    | true =>
      have hmem : x ∈ tries up t := List.mem_filter.mpr ⟨hx, hallowed⟩
      rw [htries] at hmem
      cases hmem
    | false =>
      have hmem : x ∈ skips up t := List.mem_filter.mpr ⟨hx, by simp [hallowed]⟩
      rw [hnil] at hmem
      cases hmem
  rw [hchain, visitedFrom] at hall
  cases hall

/-- Where the last attempt falls through, every attempt did. -/
theorem fallsThrough_of_last {i : Nat} (hlast : (attempted up t.resolved.retry t).getLast? = some i)
    (hfalls : fallsThrough up t.resolved.retry i = true) :
    ∀ j ∈ attempted up t.resolved.retry t, fallsThrough up t.resolved.retry j = true := by
  intro j hj
  by_contra hstops
  have hsame := getLast?_attempted hj (Bool.eq_false_iff.mpr hstops)
  rw [hlast] at hsame
  obtain rfl := Option.some.inj hsame
  exact hstops hfalls

theorem endsAs_endOf :
    EndsAs up t
      (endOf up t.resolved.retry .start (tries up t)
        ((skips up t).map fun x => x.2.provider)) := by
  cases hlast : (attempted up t.resolved.retry t).getLast? with
  | none =>
    have hnone := List.getLast?_eq_none_iff.mp hlast
    have htries : tries up t = [] := by
      rw [← List.map_eq_nil_iff (f := Prod.fst), tries_fst, hnone]
    cases hchain : t.filteredChain with
    | nil =>
      have hend : EndsAs up t _ := EndsAs.emptyChain hchain
      simpa [endOf, tries, skips, hchain, visitedFrom, exhausted, Progress.start] using hend
    | cons target rest =>
      have hskips := skips_ne_nil hchain htries
      have hend := EndsAs.allSkipped hnone
        (by rw [← skips_fst, ne_eq, List.map_eq_nil_iff]; exact hskips)
        skips_listed
      simpa [endOf, htries, exhausted, Progress.start, hskips] using hend
  | some i =>
    obtain ⟨target, hlast'⟩ := getLast?_tries hlast
    have hmem := List.mem_of_getLast? hlast
    cases hresult : (retryWithPolicy up t.resolved.retry i).2 with
    | dropped => simpa [endOf, hlast', hresult] using EndsAs.dropped hmem hresult
    | done result n =>
      cases result with
      | ok polls => simpa [endOf, hlast', hresult] using EndsAs.stream hmem hresult
      | error e =>
        have hrecorded := recorded_of_last hlast hresult
        cases helig : fallbackEligibilityWithOverrides e t.resolved.retry.retryOn with
        | terminal =>
          have hend := EndsAs.terminal hmem hresult helig hrecorded
          simpa [endOf, hlast', hresult, helig, tries_recorded, Progress.start] using hend
        | eligible =>
          have hall := fallsThrough_of_last hlast (fallsThrough_eq_true.mpr ⟨e, n, hresult, helig⟩)
          have hend := EndsAs.exhausted hall hlast hresult hrecorded
          simpa [endOf, hlast', hresult, helig, tries_recorded, Progress.start] using hend

theorem endsAs_iff {e : WalkEnd} :
    EndsAs up t e ↔
      endOf up t.resolved.retry .start (tries up t) ((skips up t).map fun x => x.2.provider) =
        e := by
  constructor
  · exact endOf_of_endsAs
  · rintro rfl
    exact endsAs_endOf

end Spec

/-- **The chain walk.** The walk of a ticket whose providers are registered calls the attempted
    positions in chain order, each by its own retry loop: the permitted positions whose
    permitted predecessors all ended in an eligible error. It ends in the one way that
    `EndsAs` allows. -/
theorem completeInner_spec (providers : OrdMap Prov) (up : Upstreams) (t : AdmissionTicket)
    (hregistered : ∀ target ∈ t.filteredChain, ∃ provider,
      providers.get? target.provider = some provider) :
    (completeInner providers up t).1 =
      ((attempted up t.resolved.retry t).flatMap fun i =>
        (retryWithPolicy up t.resolved.retry i).1) ∧
    (attempted up t.resolved.retry t).Pairwise (· < ·) ∧
    (∀ i, i ∈ attempted up t.resolved.retry t ↔
      i < t.filteredChain.length ∧ t.breakerAllowed i = true ∧
        ∀ j < i, t.breakerAllowed j = true → fallsThrough up t.resolved.retry j = true) ∧
    ∀ e, (completeInner providers up t).2 = e ↔ EndsAs up t e := by
  rw [completeInner_eq hregistered]
  refine ⟨rfl, attempted_pairwise, fun i => mem_attempted, fun e => ?_⟩
  exact endsAs_iff.symm

/-- A ticket for three upstreams without the breaker's permission for the second. -/
def gappedTicket : AdmissionTicket :=
  let policy : RoutePolicy :=
    { defaultReasoningEffort := none, defaultAnthropicBeta := none, reasoningMapping := [] }
  let hold (name : String) : BreakerHold :=
    { provider := name, model := "gpt-4o", policy := breakerPolicy .default }
  let target (name : String) : BackendTarget :=
    { provider := name, model := "gpt-4o", policy := policy }
  let chain := [target "openai", target "mirror", target "backup"]
  { filteredChain := chain
    resolved :=
      { chain := chain, retry := .default, breaker := .default, routeLabel := "openai_chat/gpt-4o" }
    identity := .anonymous
    breakerHolds := [some (hold "openai"), none, some (hold "backup")]
    consumed := false
    released := fun h => Bool.noConfusion h }

/-- The first upstream is unreachable, the others accept. -/
def headUnreachable : Upstreams where
  complete i _ := if i = 0 then .failed (.network "refused") else .accepted []
  proxyRaw := none
  backoffMs _ _ := 100
  sleepDropped _ _ := false

theorem completeInner_spec_gapped :
    attempted headUnreachable gappedTicket.resolved.retry gappedTicket = [0, 2] ∧
      EndsAs headUnreachable gappedTicket (.stream 2 []) := by
  let providers : OrdMap Unit :=
    { entries := [("backup", ()), ("mirror", ()), ("openai", ())], sorted := by decide }
  have hregistered : ∀ target ∈ gappedTicket.filteredChain,
      (providers.get? target.provider).isSome = true := by decide
  have hspec := completeInner_spec providers headUnreachable gappedTicket
    fun target htarget => Option.isSome_iff_exists.mp (hregistered target htarget)
  exact ⟨by decide, (hspec.2.2.2 _).mp rfl⟩

end AgentShim.ResilientCaller
