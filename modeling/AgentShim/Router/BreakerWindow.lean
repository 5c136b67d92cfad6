import AgentShim.Router.CircuitBreaker
import Mathlib.Data.List.Induction

/-
  The window of one breaker, and when it trips

  A breaker from its creation on, as the sequence of outcomes filed with it. Each
  outcome brings its time and the policy of the route that filed it: routes that
  share a (provider, model) key share the breaker. A success filed while the
  breaker is open clears the window.

  What is proved:
    1. `evict_eq_filter` — dropping old samples from the front is keeping those
       within the window.
    2. `samples_eq_window` — after each outcome the samples are those filed since
       the last clear that are within the window.
    3. `tripped_iff` — the trip test is the percentage of the window, where its
       32-bit numbers do not wrap.
    4. `window_exact` — both, in every run whose windows fit.
-/

namespace AgentShim.CircuitBreaker

/-- An outcome as it is filed. -/
structure Filed where
  time : Instant
  ok : Bool
  policy : BreakerPolicy
  deriving DecidableEq, Repr

def Filed.sample (f : Filed) : Instant × Bool := (f.time, f.ok)

/-- The sample is at most a window old when `f` is filed. -/
def Filed.inWindow (f : Filed) (s : Instant × Bool) : Bool := f.time ≤ s.1 + f.policy.window

/-- A breaker with the samples filed since its last clear, the clearing one included. -/
structure WindowRun where
  breaker : BreakerState
  since : List (Instant × Bool)
  deriving DecidableEq, Repr

namespace WindowRun

def new : WindowRun := { breaker := .new, since := [] }

def file (r : WindowRun) (f : Filed) : WindowRun where
  breaker := r.breaker.record f.ok f.time f.policy
  since :=
    if r.breaker.openSince.isSome && f.ok then [f.sample] else r.since ++ [f.sample]

/-- The breaker after the outcomes, oldest first. -/
def after (log : List Filed) : WindowRun := log.foldl file new

theorem after_concat (log : List Filed) (f : Filed) :
    after (log ++ [f]) = (after log).file f := by
  rw [after, List.foldl_append]
  rfl

end WindowRun

/-! The samples. -/

theorem dropWhile_eq_filter {α : Type} {key : α → Nat} {l : List α}
    (h : l.Pairwise fun a b => key a ≤ key b) (c : Nat) :
    l.dropWhile (fun x => key x < c) = l.filter fun x => c ≤ key x := by
  induction l with
  | nil => rfl
  | cons a l ih =>
    obtain ⟨hle, hl⟩ := List.pairwise_cons.mp h
    by_cases ha : key a < c
    · rw [List.dropWhile_cons_of_pos (by simpa using ha), ih hl,
        List.filter_cons_of_neg (by simpa using ha)]
    · -- from here on every key is at least `c`
      rw [List.dropWhile_cons_of_neg (by simpa using ha)]
      symm
      apply List.filter_eq_self.mpr
      intro x hx
      rcases List.mem_cons.mp hx with rfl | hx
      · simpa using ha
      · have := hle x hx
        simp only [decide_eq_true_eq]
        omega

theorem evict_eq_filter {samples : List (Instant × Bool)}
    (h : samples.Pairwise fun a b => a.1 ≤ b.1) (f : Filed) :
    BreakerState.evict samples f.time f.policy.window = samples.filter f.inWindow := by
  unfold BreakerState.evict checkedSub
  by_cases hunder : f.policy.window ≤ f.time
  · simp only [if_pos hunder]
    rw [dropWhile_eq_filter h]
    apply List.filter_congr
    intro s _
    simp only [Filed.inWindow, decide_eq_decide]
    exact Nat.sub_le_iff_le_add
  · -- the clock has not run for a whole window: nothing can be too old
    simp only [if_neg hunder]
    symm
    apply List.filter_eq_self.mpr
    intro s _
    simp only [Filed.inWindow, decide_eq_true_eq]
    exact Nat.le_trans (Nat.le_of_lt (Nat.lt_of_not_le hunder)) (Nat.le_add_left _ _)

/-- `g` is filed no earlier than `f`, and its window is no longer. -/
def Filed.Before (f g : Filed) : Prop := f.time ≤ g.time ∧ g.policy.window ≤ f.policy.window

instance (f g : Filed) : Decidable (f.Before g) := inferInstanceAs (Decidable (_ ∧ _))

theorem Filed.Before.inWindow {f g : Filed} (h : f.Before g) {s : Instant × Bool}
    (hs : g.inWindow s = true) : f.inWindow s = true := by
  obtain ⟨htime, hwindow⟩ := h
  simp only [Filed.inWindow, decide_eq_true_eq] at hs ⊢
  exact Nat.le_trans htime (Nat.le_trans hs (Nat.add_le_add_left hwindow s.1))

/-- The samples a record leaves, whatever it does to the state. -/
theorem record_samples (b : BreakerState) (f : Filed) :
    (b.record f.ok f.time f.policy).samples =
      if b.openSince.isSome && f.ok then [f.sample]
      else BreakerState.evict b.samples f.time f.policy.window ++ [f.sample] := by
  unfold BreakerState.record
  cases hopen : b.openSince with
  | none =>
    simp only [Option.isSome_none, Bool.false_and, Bool.false_eq_true, if_false]
    split <;> rfl
  | some opened =>
    cases hok : f.ok with
    | true => simp [Filed.sample, hok]
    | false =>
      simp only [Option.isSome_some, Bool.and_false, Bool.false_eq_true, if_false]
      split <;> simp [Filed.sample, hok]

/-- What every outcome filed leaves: times in order, none later than the last outcome, and
    nothing missing that a later outcome could still see. -/
structure WindowInv (log : List Filed) (r : WindowRun) : Prop where
  sublist : r.breaker.samples.Sublist r.since
  sorted : r.since.Pairwise fun a b => a.1 ≤ b.1
  filed : ∀ s ∈ r.since, ∃ f ∈ log, s = f.sample
  visible : ∀ g : Filed, (∀ f ∈ log, f.Before g) →
    r.breaker.samples.filter g.inWindow = r.since.filter g.inWindow

theorem windowInv_new : WindowInv [] .new where
  sublist := List.Sublist.slnil
  sorted := List.Pairwise.nil
  filed := by simp [WindowRun.new]
  visible _ _ := rfl

theorem inWindow_self (f : Filed) : f.inWindow f.sample = true := by
  simp [Filed.inWindow, Filed.sample]

/-- The samples after one more outcome. -/
theorem WindowInv.samples_file {log : List Filed} {r : WindowRun} (hI : WindowInv log r)
    {f : Filed} (hf : ∀ g ∈ log, g.Before f) :
    (r.file f).breaker.samples = (r.file f).since.filter f.inWindow := by
  rw [WindowRun.file, record_samples]
  cases hclear : r.breaker.openSince.isSome && f.ok with
  | true => simp [inWindow_self]
  | false =>
    simp only [Bool.false_eq_true, if_false]
    rw [evict_eq_filter (hI.sorted.sublist hI.sublist), hI.visible f hf, List.filter_append]
    simp [inWindow_self]

theorem WindowInv.file {log : List Filed} {r : WindowRun} (hI : WindowInv log r) {f : Filed}
    (hf : ∀ g ∈ log, g.Before f) : WindowInv (log ++ [f]) (r.file f) where
  sublist := by
    rw [hI.samples_file hf]
    exact List.filter_sublist
  sorted := by
    rw [WindowRun.file]
    split
    · exact List.pairwise_singleton _ _
    · apply List.pairwise_append.mpr
      refine ⟨hI.sorted, List.pairwise_singleton _ _, ?_⟩
      intro s hs s' hs'
      obtain ⟨g, hg, rfl⟩ := hI.filed s hs
      obtain rfl := List.mem_singleton.mp hs'
      exact (hf g hg).1
  filed := by
    intro s hs
    rw [WindowRun.file] at hs
    split at hs
    · obtain rfl := List.mem_singleton.mp hs
      exact ⟨f, by simp, rfl⟩
    · rcases List.mem_append.mp hs with hold | hnew
      · obtain ⟨g, hg, rfl⟩ := hI.filed s hold
        exact ⟨g, List.mem_append_left _ hg, rfl⟩
      · obtain rfl := List.mem_singleton.mp hnew
        exact ⟨f, by simp, rfl⟩
  visible := by
    intro g hg
    rw [hI.samples_file hf, List.filter_filter]
    apply List.filter_congr
    intro s _
    have hbefore : f.Before g := hg f (by simp)
    -- what `g` still sees `f` saw
    rw [Bool.and_eq_left_iff_imp]
    exact hbefore.inWindow

/-- Times do not go back and windows do not grow. -/
def Ordered (log : List Filed) : Prop := log.Pairwise Filed.Before

instance (log : List Filed) : Decidable (Ordered log) :=
  inferInstanceAs (Decidable (log.Pairwise Filed.Before))

theorem windowInv_after {log : List Filed} (h : Ordered log) : WindowInv log (.after log) := by
  induction log using List.reverseRecOn with
  | nil => exact windowInv_new
  | append_singleton log f ih =>
    obtain ⟨hlog, -, hlast⟩ := List.pairwise_append.mp h
    rw [WindowRun.after_concat]
    apply (ih hlog).file
    intro g hg
    exact hlast g hg f (List.mem_singleton_self f)

theorem samples_eq_window {log : List Filed} {f : Filed} (h : Ordered (log ++ [f])) :
    (WindowRun.after (log ++ [f])).breaker.samples =
      (WindowRun.after (log ++ [f])).since.filter f.inWindow := by
  obtain ⟨hlog, -, hlast⟩ := List.pairwise_append.mp h
  rw [WindowRun.after_concat]
  apply (windowInv_after hlog).samples_file
  intro g hg
  exact hlast g hg f (List.mem_singleton_self f)

/-! The trip test. -/

/-- The share of failures in the window is at least the threshold, and the window is large
    enough to ask. -/
def TripDue (policy : BreakerPolicy) (window : List (Instant × Bool)) : Prop :=
  policy.minRequests ≤ window.length ∧
    policy.failureThresholdPct * window.length ≤ BreakerState.failures window * 100

instance (policy : BreakerPolicy) (window : List (Instant × Bool)) :
    Decidable (TripDue policy window) := inferInstanceAs (Decidable (_ ∧ _))

/-- The 32-bit numbers of the trip test do not wrap. -/
def Fits (policy : BreakerPolicy) (window : List (Instant × Bool)) : Prop :=
  window.length < 4294967296 ∧
    (window.length < policy.minRequests ∨ BreakerState.failures window * 100 < 4294967296)

theorem failures_le_length (window : List (Instant × Bool)) :
    BreakerState.failures window ≤ window.length :=
  List.length_filter_le _ _

theorem asU32_of_lt {n : Nat} (h : n < 4294967296) : asU32 n = n := Nat.mod_eq_of_lt h

theorem tripped_iff {policy : BreakerPolicy} {window : List (Instant × Bool)}
    (hne : window ≠ []) (hfits : Fits policy window) :
    BreakerState.tripped window policy = true ↔ TripDue policy window := by
  obtain ⟨hlength, hproduct⟩ := hfits
  have hpos : 0 < window.length := List.length_pos_iff.mpr hne
  have hfailures := failures_le_length window
  unfold BreakerState.tripped TripDue
  rw [asU32_of_lt hlength, asU32_of_lt (by omega : BreakerState.failures window < 4294967296)]
  by_cases hfew : window.length < policy.minRequests
  · simp only [if_pos hfew]
    constructor
    · intro h
      cases h
    · intro h
      omega
  · have hproduct' : BreakerState.failures window * 100 < 4294967296 := by omega
    simp only [if_neg hfew]
    rw [asU32_of_lt hproduct', decide_eq_true_iff, Nat.le_div_iff_mul_le hpos]
    constructor
    · intro h
      exact ⟨by omega, h⟩
    · intro h
      exact h.2

/-! Both, over a run. -/

/-- The window an outcome is judged by: the samples since the last clear, its own among them,
    that are within its window. -/
def windowOf (r : WindowRun) (f : Filed) : List (Instant × Bool) :=
  (r.file f).since.filter f.inWindow

/-- The outcome leaves the window it should, and trips a closed breaker when it should. -/
structure WindowExact (r : WindowRun) (f : Filed) : Prop where
  samples : (r.file f).breaker.samples = windowOf r f
  trips : r.breaker.openSince = none →
    ((r.file f).breaker.openSince.isSome = true ↔ TripDue f.policy (windowOf r f))

theorem windowOf_ne_nil (r : WindowRun) (f : Filed) : windowOf r f ≠ [] := by
  apply List.ne_nil_of_mem (a := f.sample)
  apply List.mem_filter.mpr
  refine ⟨?_, inWindow_self f⟩
  rw [WindowRun.file]
  split <;> simp

theorem record_closed_trips {b : BreakerState} (h : b.openSince = none) (f : Filed) :
    (b.record f.ok f.time f.policy).openSince.isSome = true ↔
      BreakerState.tripped (b.record f.ok f.time f.policy).samples f.policy = true := by
  unfold BreakerState.record
  rw [h]
  simp only
  split
  · rename_i htrip
    simpa using htrip
  · rename_i hno
    simp only [Option.isSome_none]
    rw [Bool.eq_false_iff.mpr hno]

/-- **The window and the trip are exact.** In every run whose times do not go back, whose windows
    do not grow, and whose closed breakers see windows that fit 32 bits. -/
theorem window_exact (log : List Filed) (hordered : Ordered log)
    (hfits : ∀ before f, before ++ [f] <+: log →
      (WindowRun.after before).breaker.openSince = none →
      Fits f.policy (windowOf (.after before) f)) :
    ∀ before f, before ++ [f] <+: log → WindowExact (.after before) f := by
  intro before f hprefix
  have hsamples : ((WindowRun.after before).file f).breaker.samples =
      windowOf (.after before) f := by
    have hpart := samples_eq_window (hordered.sublist hprefix.sublist)
    rw [WindowRun.after_concat] at hpart
    exact hpart
  refine ⟨hsamples, ?_⟩
  intro hclosed
  have htrips := record_closed_trips hclosed f
  rw [show ((WindowRun.after before).breaker.record f.ok f.time f.policy).samples =
    windowOf (.after before) f from hsamples] at htrips
  exact htrips.trans (tripped_iff (windowOf_ne_nil _ f) (hfits before f hprefix hclosed))

/-! Short runs always fit. -/

theorem since_length_le (log : List Filed) : (WindowRun.after log).since.length ≤ log.length := by
  induction log using List.reverseRecOn with
  | nil => exact Nat.le_refl _
  | append_singleton log f ih =>
    rw [WindowRun.after_concat, WindowRun.file]
    split
    · simp
    · simp only [List.length_append, List.length_singleton]
      omega

theorem fits_of_length {log : List Filed} (hshort : log.length < 42949673) {before : List Filed}
    {f : Filed} (h : before ++ [f] <+: log) : Fits f.policy (windowOf (.after before) f) := by
  have hwindow : (windowOf (.after before) f).length ≤ log.length :=
    calc (windowOf (.after before) f).length
        ≤ ((WindowRun.after before).file f).since.length := List.length_filter_le _ _
      _ = (WindowRun.after (before ++ [f])).since.length := by rw [WindowRun.after_concat]
      _ ≤ (before ++ [f]).length := since_length_le _
      _ ≤ log.length := h.length_le
  have hfailures := failures_le_length (windowOf (.after before) f)
  exact ⟨by omega, Or.inr (by omega)⟩

/-- Two failures under a policy that asks for two. -/
def twoFailures : List Filed :=
  let policy : BreakerPolicy :=
    { enabled := true
      failureThresholdPct := 50
      minRequests := 2
      window := fromSecs 60
      openCooldown := fromSecs 30 }
  [{ time := 1, ok := false, policy := policy }, { time := 2, ok := false, policy := policy }]

theorem window_exact_twoFailures :
    (WindowRun.after twoFailures).breaker.openSince.isSome = true := by
  have hexact := window_exact twoFailures (by decide)
    (fun _ _ h _ => fits_of_length (by decide) h) (twoFailures.take 1) twoFailures[1]
    (List.prefix_refl twoFailures)
  exact (hexact.trips rfl).mpr (by decide)

/-! The first window whose failures do not fit. -/

/-- One of very many failures at one instant. -/
def floodFailure : Filed where
  time := 0
  ok := false
  policy :=
    { enabled := true
      failureThresholdPct := 50
      minRequests := 42949673
      window := fromSecs 60
      openCooldown := fromSecs 30 }

theorem failures_replicate (n : Nat) :
    BreakerState.failures (List.replicate n floodFailure.sample) = n := by
  rw [BreakerState.failures, List.filter_replicate_of_pos rfl, List.length_replicate]

theorem tripped_flood {n : Nat} (h : n ≤ 42949673) :
    BreakerState.tripped (List.replicate n floodFailure.sample) floodFailure.policy = false := by
  unfold BreakerState.tripped
  rw [failures_replicate, List.length_replicate, asU32_of_lt (by omega)]
  rcases Nat.lt_or_eq_of_le h with hfew | rfl
  · exact if_pos hfew
  · -- 4294967300 wraps to 4
    decide

theorem flood_state {n : Nat} (h : n ≤ 42949673) :
    WindowRun.after (List.replicate n floodFailure) =
      { breaker :=
          { samples := List.replicate n floodFailure.sample
            openSince := none
            probeInFlight := false }
        since := List.replicate n floodFailure.sample } := by
  induction n with
  | zero => rfl
  | succ n ih =>
    have htripped := tripped_flood h
    rw [List.replicate_succ'] at htripped ⊢
    rw [WindowRun.after_concat, ih (by omega)]
    have hevict : BreakerState.evict (List.replicate n floodFailure.sample) floodFailure.time
        floodFailure.policy.window = List.replicate n floodFailure.sample := rfl
    simp only [WindowRun.file, BreakerState.record, hevict]
    simp only [Filed.sample] at htripped ⊢
    simp only [htripped, Bool.false_eq_true, if_false, List.replicate_succ']
    rfl

/-- After 42949673 failures at one instant the breaker is still closed. -/
theorem flood_untripped :
    Ordered (List.replicate 42949673 floodFailure) ∧
    ∃ before f, before ++ [f] <+: List.replicate 42949673 floodFailure ∧
      (WindowRun.after before).breaker.openSince = none ∧ ¬ WindowExact (.after before) f := by
  refine ⟨?_, List.replicate 42949672 floodFailure, floodFailure, ?_, ?_, ?_⟩
  · apply List.pairwise_replicate.mpr
    exact Or.inr ⟨Nat.le_refl _, Nat.le_refl _⟩
  · exact ⟨[], by rw [List.append_nil, ← List.replicate_succ']⟩
  · rw [flood_state (by omega)]
  · intro hexact
    have hafter := flood_state (Nat.le_refl 42949673)
    rw [List.replicate_succ', WindowRun.after_concat] at hafter
    have hclosed : (WindowRun.after (List.replicate 42949672 floodFailure)).breaker.openSince =
        none := by
      rw [flood_state (by omega)]
    have hopen := (hexact.trips hclosed).mpr
    rw [← hexact.samples, hafter] at hopen
    have hdue : TripDue floodFailure.policy (List.replicate 42949673 floodFailure.sample) := by
      unfold TripDue
      rw [failures_replicate, List.length_replicate]
      decide
    cases hopen hdue

end AgentShim.CircuitBreaker
