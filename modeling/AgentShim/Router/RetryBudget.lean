import AgentShim.Config.Validation
import AgentShim.Core.Doubles
import AgentShim.Router.Retry

/-
  The backoff and its budget

  The jittered backoff as the doubles compute it, and the retry loop with its
  sleeps: before each one the loop adds the next backoff to what it has slept and
  compares the 64-bit sum with the budget.

  What is proved:
    1. `computeBackoff_lt` — a backoff is a `u64`.
    2. `retrySteps_calls` — the steps make the calls of `retryLoop`.
    3. `noWrap_iff` — which backoffs keep every sum below 2^64.
    4. `budgetKept_iff` — the calls, the sleeps and the sums of the loop are
       within their bounds on exactly those backoffs.

  Correspondence (Rust ↔ Lean):
    `compute_backoff`   ↔ `computeBackoff`; the number its generator draws from
                          -span..=span is an argument, in range by `InSpan`
    `retry_with_policy` ↔ `retrySteps`: the calls, the sums it compares, the
                          sleeps, and a sleep during which the request is dropped
-/

namespace AgentShim.Retrying

open AgentShim.Config AgentShim.RequestLog

/-! The backoff. -/

/-- The cast `as i32` of a `u32`. -/
def asI32 (n : Nat) : Int :=
  if n % 4294967296 < 2147483648 then n % 4294967296 else (n % 4294967296 : Nat) - 4294967296

def computeBackoff (attempt : Nat) (policy : RetryPolicy) (draw : F64) : Nat :=
  let exponent := asI32 (attempt - 1)
  let baseMs := (F64.ofNat policy.initialBackoffMs).mul (policy.multiplier.powi exponent)
  let jitterFactor :=
    if policy.jitterPct == .finite 0 then .finite 1 else (F64.finite 1).add draw
  ((baseMs.mul jitterFactor).round.max (.finite 0)).toU64

/-- What the generator can draw from `-span..=span`. -/
def InSpan (policy : RetryPolicy) (draw : F64) : Prop :=
  let span := policy.jitterPct.div (.finite 100)
  span.neg.le draw = true ∧ draw.le span = true

/-- The backoffs of an attempt; without jitter nothing is drawn. -/
def CanReturn (policy : RetryPolicy) (attempt ms : Nat) : Prop :=
  ∃ draw, (policy.jitterPct ≠ .finite 0 → InSpan policy draw) ∧
    ms = computeBackoff attempt policy draw

theorem computeBackoff_lt (attempt : Nat) (policy : RetryPolicy) (draw : F64) :
    computeBackoff attempt policy draw < 18446744073709551616 :=
  F64.toU64_lt _

/-! The loop with its sleeps. -/

inductive Step
  | call (attempt : Nat)
  /-- The sum `total_elapsed_ms + backoff_ms` is compared with the budget. -/
  | sum (totalElapsedMs backoffMs : Nat)
  | slept (ms : Nat)
  /-- The request is dropped during the sleep. -/
  | cut (ms : Nat)
  deriving DecidableEq, Repr

def Step.attempt? : Step → Option Nat
  | call attempt => some attempt
  | _ => none

/-- The milliseconds of a sleep, the whole of one that is cut short. -/
def Step.sleepMs : Step → Nat
  | slept ms => ms
  | cut ms => ms
  | _ => 0

def sleptMs : List Step → Nat
  | [] => 0
  | s :: rest => s.sleepMs + sleptMs rest

/-- The attempts made, in order. -/
def attempts (steps : List Step) : List Nat := steps.filterMap Step.attempt?

section
variable (steps : List Step)

@[simp] theorem attempts_nil : attempts [] = [] := rfl

@[simp] theorem attempts_call (n : Nat) : attempts (.call n :: steps) = n :: attempts steps := rfl

@[simp] theorem attempts_sum (total ms : Nat) :
    attempts (.sum total ms :: steps) = attempts steps := rfl

@[simp] theorem attempts_slept (ms : Nat) : attempts (.slept ms :: steps) = attempts steps := rfl

@[simp] theorem attempts_cut (ms : Nat) : attempts (.cut ms :: steps) = attempts steps := rfl

end

section Loop

variable (up : Upstreams) (policy : RetryPolicy) (i : Nat)

/-- The call of the attempt failed with an error on the list. -/
def FailsEligibly (attempt : Nat) : Prop :=
  ∃ e, up.complete i attempt = .failed e ∧
    fallbackEligibilityWithOverrides e policy.retryOn = .eligible

/-- The steps of the loop from `attempt` on, with `total` milliseconds slept. -/
def retrySteps : Nat → Nat → Nat → List Step
  | left, attempt, total =>
    .call attempt ::
      match up.complete i attempt with
      | .accepted _ => []
      | .dropped => []
      | .failed e =>
        match fallbackEligibilityWithOverrides e policy.retryOn with
        | .terminal => []
        | .eligible =>
          match left with
          -- attempt >= max_attempts
          | 0 => []
          | left + 1 =>
            let backoffMs := up.backoffMs i attempt
            .sum total backoffMs ::
              if policy.totalBudgetMs < addU64 total backoffMs then []
              else if up.sleepDropped i attempt then [.cut backoffMs]
              else .slept backoffMs :: retrySteps left (attempt + 1) (addU64 total backoffMs)

/-- One round: the loop ends with the call, or comes to a sum. -/
theorem retrySteps_cases (left attempt total : Nat) :
    (retrySteps up policy i left attempt total = [.call attempt] ∧
      (left = 0 ∨ ¬ FailsEligibly up policy i attempt)) ∨
    (∃ l, left = l + 1 ∧ FailsEligibly up policy i attempt ∧
      retrySteps up policy i left attempt total =
        .call attempt :: .sum total (up.backoffMs i attempt) ::
          if policy.totalBudgetMs < addU64 total (up.backoffMs i attempt) then []
          else if up.sleepDropped i attempt then [.cut (up.backoffMs i attempt)]
          else .slept (up.backoffMs i attempt) ::
            retrySteps up policy i l (attempt + 1) (addU64 total (up.backoffMs i attempt))) := by
  rw [retrySteps.eq_def]
  dsimp only
  cases hanswer : up.complete i attempt with
  | accepted polls =>
    refine Or.inl ⟨rfl, Or.inr ?_⟩
    rintro ⟨e, he, -⟩
    rw [hanswer] at he
    cases he
  | dropped =>
    refine Or.inl ⟨rfl, Or.inr ?_⟩
    rintro ⟨e, he, -⟩
    rw [hanswer] at he
    cases he
  | failed e =>
    dsimp only
    cases heligible : fallbackEligibilityWithOverrides e policy.retryOn with
    | terminal =>
      refine Or.inl ⟨rfl, Or.inr ?_⟩
      rintro ⟨e', he', heligible'⟩
      rw [hanswer] at he'
      cases he'
      rw [heligible] at heligible'
      cases heligible'
    | eligible =>
      cases left with
      | zero => exact Or.inl ⟨rfl, Or.inl rfl⟩
      | succ left => exact Or.inr ⟨left, rfl, ⟨e, hanswer, heligible⟩, rfl⟩

/-- The steps are those of the loop: they make its calls. -/
theorem retrySteps_calls (left attempt total : Nat) :
    (retryLoop up policy i left attempt total).1 =
      (attempts (retrySteps up policy i left attempt total)).map fun n =>
        .called i (up.complete i n) := by
  induction left generalizing attempt total with
  | zero =>
    rw [retryLoop, retrySteps]
    cases hanswer : up.complete i attempt with
    | accepted polls => simp [hanswer]
    | dropped => simp [hanswer]
    | failed e =>
      cases heligible : fallbackEligibilityWithOverrides e policy.retryOn <;>
        simp [hanswer, heligible]
  | succ left ih =>
    rw [retryLoop, retrySteps]
    cases hanswer : up.complete i attempt with
    | accepted polls => simp [hanswer]
    | dropped => simp [hanswer]
    | failed e =>
      dsimp only
      cases fallbackEligibilityWithOverrides e policy.retryOn with
      | terminal => simp [hanswer]
      | eligible =>
        dsimp only
        split
        · simp [hanswer]
        · split
          · simp [hanswer]
          · rw [ih]
            simp [hanswer]

/-! Calls and sleeps. -/

theorem attempts_length (left attempt total : Nat) :
    1 ≤ (attempts (retrySteps up policy i left attempt total)).length ∧
      (attempts (retrySteps up policy i left attempt total)).length ≤ left + 1 := by
  induction left generalizing attempt total with
  | zero =>
    obtain ⟨hsteps, -⟩ | ⟨l, hl, -⟩ := retrySteps_cases up policy i 0 attempt total
    · rw [hsteps]
      exact ⟨Nat.le_refl 1, Nat.le_refl 1⟩
    · cases hl
  | succ left ih =>
    obtain ⟨hsteps, -⟩ | ⟨l, hl, -, hsteps⟩ :=
      retrySteps_cases up policy i (left + 1) attempt total
    · rw [hsteps]
      simp
    · obtain rfl := Nat.succ.inj hl
      have hrest := ih (attempt + 1) (addU64 total (up.backoffMs i attempt))
      rw [hsteps]
      split
      · simp
      · split
        · simp
        · simp only [attempts_call, attempts_sum, attempts_slept, List.length_cons]
          omega

/-- Every whole sleep is followed by a call. -/
theorem slept_followed (left attempt total : Nat) {front rest : List Step} {ms : Nat}
    (h : retrySteps up policy i left attempt total = front ++ .slept ms :: rest) :
    ∃ n, Step.call n ∈ rest := by
  induction left generalizing attempt total front with
  | zero =>
    obtain ⟨hsteps, -⟩ | ⟨l, hl, -⟩ := retrySteps_cases up policy i 0 attempt total
    · rw [hsteps] at h
      have hmem : Step.slept ms ∈ [Step.call attempt] := by rw [h]; simp
      simp at hmem
    · cases hl
  | succ left ih =>
    obtain ⟨hsteps, -⟩ | ⟨l, hl, -, hsteps⟩ :=
      retrySteps_cases up policy i (left + 1) attempt total
    · rw [hsteps] at h
      have hmem : Step.slept ms ∈ [Step.call attempt] := by rw [h]; simp
      simp at hmem
    · obtain rfl := Nat.succ.inj hl
      rw [hsteps] at h
      -- the call and the sum are no sleeps
      obtain _ | ⟨call, front⟩ := front
      · cases h
      obtain ⟨-, h⟩ := List.cons.inj h
      obtain _ | ⟨sum, front⟩ := front
      · cases h
      obtain ⟨-, h⟩ := List.cons.inj h
      split at h
      · simp at h
      · split at h
        · obtain _ | ⟨cut, front⟩ := front
          · cases h
          · simp at h
        · obtain _ | ⟨slept, front⟩ := front
          · -- the sleep of this round: the next round starts with a call
            obtain ⟨-, h⟩ := List.cons.inj h
            rw [← h, retrySteps.eq_def]
            exact ⟨attempt + 1, List.mem_cons_self⟩
          · obtain ⟨-, h⟩ := List.cons.inj h
            exact ih _ _ h

/-! The sums. -/

/-- The sum of the first `n` backoffs. -/
def backoffSum : Nat → Nat
  | 0 => 0
  | n + 1 => backoffSum n + up.backoffMs i (n + 1)

theorem backoffSum_mono {m n : Nat} (h : m ≤ n) : backoffSum up i m ≤ backoffSum up i n := by
  induction n with
  | zero =>
    obtain rfl := Nat.le_zero.mp h
    exact Nat.le_refl _
  | succ n ih =>
    rcases Nat.le_succ_iff.mp h with hle | rfl
    · have := ih hle
      rw [backoffSum]
      omega
    · exact Nat.le_refl _

/-- The first `n` attempts fail eligibly, another is left, the sleeps between them are not cut
    short and fit the budget: the loop adds the backoff of the `n`-th. -/
structure ReachesSum (n : Nat) : Prop where
  pos : 1 ≤ n
  left : n < policy.maxAttempts
  failed : ∀ m, 1 ≤ m → m ≤ n → FailsEligibly up policy i m
  slept : ∀ m, 1 ≤ m → m < n → up.sleepDropped i m = false
  budget : backoffSum up i (n - 1) ≤ policy.totalBudgetMs

/-- No sum among the steps wraps. -/
def NoWrap (steps : List Step) : Prop :=
  ∀ total backoffMs, Step.sum total backoffMs ∈ steps →
    total + backoffMs < 18446744073709551616

/-- What the loop has behind it when it starts attempt `n + 1` without a wrap so far. -/
structure Behind (left n : Nat) : Prop where
  attempts : n + 1 + left = policy.maxAttempts
  failed : ∀ m, 1 ≤ m → m ≤ n → FailsEligibly up policy i m
  slept : ∀ m, 1 ≤ m → m ≤ n → up.sleepDropped i m = false
  budget : backoffSum up i n ≤ policy.totalBudgetMs

end Loop

section Sums

variable {up : Upstreams} {policy : RetryPolicy} {i : Nat}

theorem addU64_of_lt {a b : Nat} (h : a + b < 18446744073709551616) : addU64 a b = a + b :=
  Nat.mod_eq_of_lt h

/-- The round of attempt `n + 1` reaches its sum when the attempt fails eligibly. -/
theorem Behind.reaches {left n : Nat} (h : Behind up policy i (left + 1) n)
    (hfailed : FailsEligibly up policy i (n + 1)) : ReachesSum up policy i (n + 1) where
  pos := by omega
  left := by
    have := h.attempts
    omega
  failed m hm hle := by
    rcases Nat.le_succ_iff.mp hle with hle | rfl
    · exact h.failed m hm hle
    · exact hfailed
  slept m hm hlt := h.slept m hm (by omega)
  budget := h.budget

theorem Behind.next {left n : Nat} (h : Behind up policy i (left + 1) n)
    (hfailed : FailsEligibly up policy i (n + 1)) (hslept : up.sleepDropped i (n + 1) = false)
    (hbudget : backoffSum up i (n + 1) ≤ policy.totalBudgetMs) :
    Behind up policy i left (n + 1) where
  attempts := by
    have := h.attempts
    omega
  failed := (h.reaches hfailed).failed
  slept m hm hle := by
    rcases Nat.le_succ_iff.mp hle with hle | rfl
    · exact h.slept m hm hle
    · exact hslept
  budget := hbudget

theorem noWrap_call (attempt : Nat) : NoWrap [.call attempt] := by
  intro total backoffMs h
  simp at h

theorem noWrap_round {attempt total backoffMs : Nat} {steps : List Step} :
    NoWrap (.call attempt :: .sum total backoffMs :: steps) ↔
      total + backoffMs < 18446744073709551616 ∧ NoWrap steps := by
  unfold NoWrap
  constructor
  · intro h
    exact ⟨h _ _ (by simp), fun t b hmem => h t b (by simp [hmem])⟩
  · rintro ⟨hsum, hsteps⟩ t b hmem
    rcases List.mem_cons.mp hmem with hcall | hmem
    · cases hcall
    · rcases List.mem_cons.mp hmem with heq | hmem
      · obtain ⟨rfl, rfl⟩ := Step.sum.inj heq
        exact hsum
      · exact hsteps t b hmem

theorem noWrap_slept {ms : Nat} {steps : List Step} :
    NoWrap (.slept ms :: steps) ↔ NoWrap steps := by
  simp [NoWrap]

/-- Of the sums from an attempt on, the first one and the later ones. -/
theorem sums_fit_iff {n : Nat} (hreach : ReachesSum up policy i (n + 1)) :
    (∀ m, n < m → ReachesSum up policy i m → backoffSum up i m < 18446744073709551616) ↔
      backoffSum up i (n + 1) < 18446744073709551616 ∧
        ∀ m, n + 1 < m → ReachesSum up policy i m →
          backoffSum up i m < 18446744073709551616 := by
  constructor
  · intro h
    exact ⟨h (n + 1) (by omega) hreach, fun m hlt => h m (by omega)⟩
  · rintro ⟨hfits, hlater⟩ m hlt hm
    rcases Nat.eq_or_lt_of_le (Nat.succ_le_of_lt hlt) with rfl | hlt
    · exact hfits
    · exact hlater m hlt hm

/-- **Which backoffs never wrap.** From attempt `n + 1` on. -/
theorem noWrap_iff {left n : Nat} (h : Behind up policy i left n) :
    NoWrap (retrySteps up policy i left (n + 1) (backoffSum up i n)) ↔
      ∀ m, n < m → ReachesSum up policy i m → backoffSum up i m < 18446744073709551616 := by
  induction left generalizing n with
  | zero =>
    obtain ⟨hsteps, -⟩ | ⟨l, hl, -⟩ := retrySteps_cases up policy i 0 (n + 1) (backoffSum up i n)
    · rw [hsteps]
      refine iff_of_true (noWrap_call _) ?_
      intro m hlt hreach
      have := h.attempts
      have := hreach.left
      omega
    · cases hl
  | succ left ih =>
    obtain ⟨hsteps, hends⟩ | ⟨l, hl, hfailed, hsteps⟩ :=
      retrySteps_cases up policy i (left + 1) (n + 1) (backoffSum up i n)
    · rw [hsteps]
      refine iff_of_true (noWrap_call _) ?_
      intro m hlt hreach
      rcases hends with hzero | hnot
      · cases hzero
      · exact absurd (hreach.failed (n + 1) (by omega) (by omega)) hnot
    · obtain rfl := Nat.succ.inj hl
      rw [hsteps, noWrap_round, sums_fit_iff (h.reaches hfailed)]
      apply and_congr_right
      intro hfits
      -- this sum is the true one; the loop ends here or goes on
      have hsum : addU64 (backoffSum up i n) (up.backoffMs i (n + 1)) =
          backoffSum up i (n + 1) := addU64_of_lt hfits
      rw [hsum]
      split
      · -- over the budget: no later sum is reached
        rename_i hover
        refine iff_of_true (fun _ _ hmem => by cases hmem) ?_
        intro m hlater hm
        have := backoffSum_mono up i (show n + 1 ≤ m - 1 by omega)
        have := hm.budget
        omega
      · rename_i hbudget
        split
        · rename_i hdropped
          refine iff_of_true (fun _ _ hmem => by simp at hmem) ?_
          intro m hlater hm
          have hslept := hm.slept (n + 1) (by omega) hlater
          rw [hdropped] at hslept
          cases hslept
        · rename_i hslept
          rw [noWrap_slept]
          exact ih (h.next hfailed (Bool.eq_false_iff.mpr hslept) (Nat.le_of_not_lt hbudget))

/-- Without a wrap the sleeps stay within what the budget has left. -/
theorem slept_le_budget {left n : Nat} (hbehind : backoffSum up i n ≤ policy.totalBudgetMs)
    (h : NoWrap (retrySteps up policy i left (n + 1) (backoffSum up i n))) :
    backoffSum up i n + sleptMs (retrySteps up policy i left (n + 1) (backoffSum up i n)) ≤
      policy.totalBudgetMs := by
  induction left generalizing n with
  | zero =>
    obtain ⟨hsteps, -⟩ | ⟨l, hl, -⟩ := retrySteps_cases up policy i 0 (n + 1) (backoffSum up i n)
    · rw [hsteps]
      exact hbehind
    · cases hl
  | succ left ih =>
    obtain ⟨hsteps, -⟩ | ⟨l, hl, -, hsteps⟩ :=
      retrySteps_cases up policy i (left + 1) (n + 1) (backoffSum up i n)
    · rw [hsteps]
      exact hbehind
    · obtain rfl := Nat.succ.inj hl
      rw [hsteps, noWrap_round] at h
      rw [hsteps]
      have hsum : addU64 (backoffSum up i n) (up.backoffMs i (n + 1)) =
          backoffSum up i (n + 1) := addU64_of_lt h.1
      rw [hsum] at h ⊢
      obtain ⟨-, hrest⟩ := h
      split
      · simpa [sleptMs, Step.sleepMs] using hbehind
      · rename_i hbudget
        have hle : backoffSum up i (n + 1) ≤ policy.totalBudgetMs := Nat.le_of_not_lt hbudget
        split
        · simpa [sleptMs, Step.sleepMs, backoffSum] using hle
        · rename_i hslept
          rw [if_neg hbudget, if_neg hslept] at hrest
          have hlater := ih hle (fun total ms hmem => hrest total ms (List.mem_cons_of_mem _ hmem))
          simp only [sleptMs, Step.sleepMs, backoffSum] at hlater ⊢
          omega

end Sums

/-! The bounds of a whole loop. -/

/-- One retry loop in its surroundings, with backoffs that `compute_backoff` can return. -/
structure RetryRun (policy : RetryPolicy) where
  up : Upstreams
  position : Nat
  returned : ∀ attempt, 1 ≤ attempt → CanReturn policy attempt (up.backoffMs position attempt)

namespace RetryRun

variable {policy : RetryPolicy} (run : RetryRun policy)

/-- The steps of `retry_with_policy`. -/
def steps : List Step :=
  retrySteps run.up policy run.position (policy.maxAttempts - 1) 1 0

theorem steps_calls :
    (retryWithPolicy run.up policy run.position).1 =
      (attempts run.steps).map fun n => .called run.position (run.up.complete run.position n) :=
  retrySteps_calls run.up policy run.position _ _ _

/-- Between one and `max_attempts` calls, a call after every sleep, the sleeps within the budget
    and no sum wrapped. -/
structure BudgetKept : Prop where
  calls : 1 ≤ (attempts run.steps).length ∧ (attempts run.steps).length ≤ policy.maxAttempts
  sleeps : ∀ front ms rest, run.steps = front ++ .slept ms :: rest → ∃ n, Step.call n ∈ rest
  budget : sleptMs run.steps ≤ policy.totalBudgetMs
  sums : NoWrap run.steps

/-- **The budget.** Under a validated policy the loop keeps its bounds on exactly the backoffs
    whose sum is below 2^64 each time the loop compares it. -/
theorem budgetKept_iff (policy : RetryPolicy) {route : Nat}
    (hvalid : checkRetry route policy = .ok ()) (run : RetryRun policy) :
    run.BudgetKept ↔ ∀ n, ReachesSum run.up policy run.position n →
      backoffSum run.up run.position n < 18446744073709551616 := by
  have hattempts : 1 ≤ policy.maxAttempts := by
    simp only [checkRetry, Checks.all_cons_eq_ok, Checks.ensure_eq_ok, bne_iff_ne] at hvalid
    exact Nat.one_le_iff_ne_zero.mpr hvalid.1
  have hbehind : Behind run.up policy run.position (policy.maxAttempts - 1) 0 :=
    { attempts := by omega
      failed := fun m hm hle => by omega
      slept := fun m hm hle => by omega
      budget := Nat.zero_le _ }
  have hsums : NoWrap run.steps ↔ ∀ m, 0 < m → ReachesSum run.up policy run.position m →
      backoffSum run.up run.position m < 18446744073709551616 := noWrap_iff hbehind
  constructor
  · intro h n hn
    exact hsums.mp h.sums n hn.pos hn
  · intro h
    have hnoWrap : NoWrap run.steps := hsums.mpr fun m _ hm => h m hm
    have hcount := attempts_length run.up policy run.position (policy.maxAttempts - 1) 1 0
    rw [Nat.sub_add_cancel hattempts] at hcount
    refine ⟨hcount, ?_, ?_, hnoWrap⟩
    · intro front ms rest hsplit
      exact slept_followed run.up policy run.position _ _ _ hsplit
    · have hslept := slept_le_budget (n := 0) hbehind.budget hnoWrap
      rw [backoffSum, Nat.zero_add] at hslept
      exact hslept

end RetryRun

/-! A policy whose second backoff is the largest `u64`. -/

/-- Every call fails with an eligible error, and nothing is drawn. -/
def refusing (policy : RetryPolicy) : Upstreams where
  complete _ _ := .failed (.network "refused")
  proxyRaw := none
  backoffMs _ attempt := computeBackoff attempt policy (.finite 0)
  sleepDropped _ _ := false

theorem canReturn_of_no_jitter {policy : RetryPolicy} (h : policy.jitterPct = .finite 0)
    (attempt : Nat) : CanReturn policy attempt (computeBackoff attempt policy (.finite 0)) :=
  ⟨_, fun hne => absurd h hne, rfl⟩

def refusedRun (policy : RetryPolicy) (h : policy.jitterPct = .finite 0) : RetryRun policy where
  up := refusing policy
  position := 0
  returned attempt _ := canReturn_of_no_jitter h attempt

/-- Doubling without jitter, as far as a second goes. -/
def doubling : RetryPolicy :=
  { RetryConfig.default with jitterPct := .finite 0, totalBudgetMs := 1000, maxAttempts := 3 }

theorem budgetKept_doubling : (refusedRun doubling rfl).BudgetKept := by
  apply (RetryRun.budgetKept_iff doubling (rfl : checkRetry 0 doubling = .ok ()) _).mpr
  intro n hn
  have hlt : n < 3 := hn.left
  have hle : backoffSum (refusedRun doubling rfl).up 0 n ≤
      backoffSum (refusedRun doubling rfl).up 0 2 := backoffSum_mono _ _ (by omega)
  have hsum : backoffSum (refusedRun doubling rfl).up 0 2 = 300 := by decide +kernel
  show backoffSum (refusedRun doubling rfl).up 0 n < _
  omega

/-- The multiplier is 2^64. -/
def steep : RetryPolicy :=
  { RetryConfig.default with
    multiplier := .finite (2 ^ 64)
    jitterPct := .finite 0
    maxAttempts := 3 }

/-- The policy passes validation; the loop sleeps 2^64 - 1 milliseconds on a budget of five
    seconds, since the sum wraps to 99. -/
theorem steep_overruns :
    checkRetry 0 steep = .ok () ∧
      (refusedRun steep rfl).steps =
        [.call 1, .sum 0 100, .slept 100, .call 2, .sum 100 18446744073709551615,
          .slept 18446744073709551615, .call 3] ∧
      ¬ (refusedRun steep rfl).BudgetKept := by
  have hsteps : (refusedRun steep rfl).steps =
      [.call 1, .sum 0 100, .slept 100, .call 2, .sum 100 18446744073709551615,
        .slept 18446744073709551615, .call 3] := by decide +kernel
  refine ⟨rfl, hsteps, ?_⟩
  intro hkept
  have hsum := hkept.sums 100 18446744073709551615 (by rw [hsteps]; decide)
  omega

end AgentShim.Retrying
