import Mathlib.Data.List.Basic

/-
  Token buckets

  A bucket holds up to `burst` tokens and gains `perSecond` of them each second. A
  request takes one token, or is refused where there is none. A second is a number
  of ticks, times are whole ticks, and a level is counted in as many parts of a
  token, so nothing is rounded.

  What is proved:
    1. `granted_budget` — the requests granted until a time are paid for by the
       level and what flows in until then.
    2. `granted_window` — in every window of time a bucket grants at most its
       burst and what flows in during the window.
    3. `grants_after_second` — a second after any request there is a token.
-/

namespace Tokens

/-- A bucket as it was left at the time `since`. -/
structure Bucket where
  ticks : Nat
  perSecond : Nat
  burst : Nat
  level : Nat
  since : Nat
  deriving DecidableEq, Repr

namespace Bucket

def full (ticks perSecond burst now : Nat) : Bucket :=
  { ticks := ticks
    perSecond := perSecond
    burst := burst
    level := burst * ticks
    since := now }

/-- The level at a later time. -/
def refilled (b : Bucket) (now : Nat) : Nat :=
  min (b.burst * b.ticks) (b.level + b.perSecond * (now - b.since))

def grants (b : Bucket) (now : Nat) : Bool := b.ticks ≤ b.refilled now

/-- The bucket after a request. -/
def ask (b : Bucket) (now : Nat) : Bucket :=
  { b with
    level := if b.grants now then b.refilled now - b.ticks else b.refilled now
    since := now }

/-- The times at which requests are granted, of those at which they come. -/
def granted : Bucket → List Nat → List Nat
  | _, [] => []
  | b, t :: ts => if b.grants t then t :: granted (b.ask t) ts else granted (b.ask t) ts

@[simp] theorem ask_ticks (b : Bucket) (now : Nat) : (b.ask now).ticks = b.ticks := rfl

@[simp] theorem ask_burst (b : Bucket) (now : Nat) : (b.ask now).burst = b.burst := rfl

@[simp] theorem ask_perSecond (b : Bucket) (now : Nat) : (b.ask now).perSecond = b.perSecond := rfl

@[simp] theorem ask_since (b : Bucket) (now : Nat) : (b.ask now).since = now := rfl

/-- A granted request costs a token, a refused one nothing. -/
theorem ask_level (b : Bucket) (now : Nat) :
    (b.ask now).level + (if b.grants now then b.ticks else 0) = b.refilled now := by
  simp only [ask, grants, decide_eq_true_eq]
  split <;> omega

theorem refilled_le_burst (b : Bucket) (now : Nat) : b.refilled now ≤ b.burst * b.ticks :=
  Nat.min_le_left _ _

theorem refilled_le (b : Bucket) (now : Nat) :
    b.refilled now ≤ b.level + b.perSecond * (now - b.since) := Nat.min_le_right _ _

/-- A second after any request there is a token. -/
theorem grants_after_second {b : Bucket} (hrate : 0 < b.perSecond) (hburst : 0 < b.burst)
    {now t : Nat} (h : now + b.ticks ≤ t) : (b.ask now).grants t = true := by
  have hcap : 1 * b.ticks ≤ b.burst * b.ticks := Nat.mul_le_mul_right _ hburst
  have hinflow : 1 * (t - now) ≤ b.perSecond * (t - now) := Nat.mul_le_mul_right _ hrate
  have hlevel : b.ticks ≤
      min (b.burst * b.ticks) ((b.ask now).level + b.perSecond * (t - now)) := by omega
  exact decide_eq_true hlevel

theorem granted_mem {b : Bucket} {ts : List Nat} : ∀ t ∈ b.granted ts, t ∈ ts := by
  induction ts generalizing b with
  | nil =>
    intro t ht
    cases ht
  | cons t ts ih =>
    intro s hs
    rw [granted] at hs
    split at hs
    · rcases List.mem_cons.mp hs with rfl | hs
      · exact List.mem_cons_self
      · exact List.mem_cons_of_mem _ (ih s hs)
    · exact List.mem_cons_of_mem _ (ih s hs)

/-- The bucket with the inflow until a time written into its level. -/
def refill (b : Bucket) (now : Nat) : Bucket := { b with level := b.refilled now, since := now }

theorem refill_refilled (b : Bucket) (now : Nat) :
    (b.refill now).refilled now = b.refilled now := by
  have hcap := b.refilled_le_burst now
  simp only [refill]
  rw [refilled]
  simp only [Nat.sub_self, Nat.mul_zero, Nat.add_zero]
  omega

/-- A request cannot tell whether the inflow was written down before it. -/
theorem refill_granted (b : Bucket) (t : Nat) (ts : List Nat) :
    (b.refill t).granted (t :: ts) = b.granted (t :: ts) := by
  have hgrants : (b.refill t).grants t = b.grants t := by
    rw [grants, refill_refilled]
    rfl
  have hask : (b.refill t).ask t = b.ask t := by
    rw [ask, hgrants, refill_refilled]
    rfl
  rw [granted, hgrants, hask, granted]

/-- The rate over two stretches of time. -/
theorem rate_split (rate : Nat) {a b c : Nat} (hab : a ≤ b) (hbc : b ≤ c) :
    rate * (b - a) + rate * (c - b) = rate * (c - a) := by
  rw [← Nat.mul_add]
  congr 1
  omega

/-- No grant comes before the first request. -/
theorem le_of_mem_granted {b : Bucket} {t : Nat} {ts : List Nat} (hlater : ∀ s ∈ ts, t ≤ s) :
    ∀ s ∈ b.granted (t :: ts), t ≤ s := by
  intro s hs
  rcases List.mem_cons.mp (granted_mem s hs) with rfl | hs
  · exact Nat.le_refl _
  · exact hlater s hs

/-- Where the first request comes too late, nothing counts. -/
theorem countP_granted_of_lt {b : Bucket} {t hi : Nat} {ts : List Nat}
    (hlater : ∀ s ∈ ts, t ≤ s) (hlt : hi < t) :
    (b.granted (t :: ts)).countP (fun s => s ≤ hi) = 0 := by
  apply List.countP_eq_zero.mpr
  intro s hs
  have hle := le_of_mem_granted hlater s hs
  simp only [decide_eq_true_eq]
  omega

/-- Grants are paid for by the level and the inflow. -/
theorem granted_budget {b : Bucket} {ts : List Nat} {hi : Nat} (hsorted : ts.Pairwise (· ≤ ·))
    (hsince : ∀ t ∈ ts, b.since ≤ t) (hhi : b.since ≤ hi) :
    (b.granted ts).countP (fun t => t ≤ hi) * b.ticks ≤ b.level + b.perSecond * (hi - b.since) := by
  induction ts generalizing b with
  | nil => simp [granted]
  | cons t ts ih =>
    obtain ⟨hlater, hrest⟩ := List.pairwise_cons.mp hsorted
    have hst := hsince t List.mem_cons_self
    by_cases hthi : t ≤ hi
    · have hih := ih (b := b.ask t) hrest (fun s hs => hlater s hs) hthi
      have hlevel := b.ask_level t
      have hrefill := b.refilled_le t
      have hsplit := rate_split b.perSecond hst hthi
      simp only [ask_ticks, ask_perSecond, ask_since] at hih
      rw [granted]
      cases hgrants : b.grants t with
      | true =>
        rw [if_pos rfl, List.countP_cons_of_pos (by simpa using hthi), Nat.add_mul, Nat.one_mul]
        rw [hgrants, if_pos rfl] at hlevel
        omega
      | false =>
        rw [hgrants] at hlevel
        simp only [Bool.false_eq_true, if_false] at hlevel ⊢
        omega
    · rw [countP_granted_of_lt hlater (Nat.lt_of_not_le hthi)]
      omega

/-- **The window bound.** From a bucket that holds no more than its burst. -/
theorem granted_window {b : Bucket} {ts : List Nat} (hsorted : ts.Pairwise (· ≤ ·))
    (hsince : ∀ t ∈ ts, b.since ≤ t) (hlevel : b.level ≤ b.burst * b.ticks) {lo hi : Nat}
    (hwindow : lo ≤ hi) :
    (b.granted ts).countP (fun t => lo ≤ t && t ≤ hi) * b.ticks ≤
      b.burst * b.ticks + b.perSecond * (hi - lo) := by
  induction ts generalizing b with
  | nil => simp [granted]
  | cons t ts ih =>
    obtain ⟨hlater, hrest⟩ := List.pairwise_cons.mp hsorted
    have hask : (b.ask t).level ≤ (b.ask t).burst * (b.ask t).ticks := by
      have := b.ask_level t
      have := b.refilled_le_burst t
      rw [ask_burst, ask_ticks]
      omega
    by_cases hlo : lo ≤ t
    · -- the window has begun: from here on only its end matters
      have hafter : ∀ s ∈ b.granted (t :: ts), (decide (lo ≤ s) && decide (s ≤ hi)) = true ↔
          decide (s ≤ hi) = true := by
        intro s hs
        have hle := le_of_mem_granted hlater s hs
        simp only [Bool.and_eq_true, decide_eq_true_eq]
        omega
      rw [List.countP_congr hafter]
      by_cases hthi : t ≤ hi
      · have hfirst : ∀ s ∈ t :: ts, t ≤ s := by
          intro s hs
          rcases List.mem_cons.mp hs with rfl | hs
          · exact Nat.le_refl _
          · exact hlater s hs
        have hbudget := granted_budget (b := b.refill t) hsorted hfirst hthi
        rw [refill_granted] at hbudget
        have hcap := b.refilled_le_burst t
        have hmono : b.perSecond * (hi - t) ≤ b.perSecond * (hi - lo) :=
          Nat.mul_le_mul_left _ (by omega)
        simp only [refill] at hbudget
        omega
      · rw [countP_granted_of_lt hlater (Nat.lt_of_not_le hthi)]
        omega
    · -- before the window: the bucket goes on with at most its burst
      have hih := ih (b := b.ask t) hrest (fun s hs => hlater s hs) hask
      simp only [ask_ticks, ask_burst, ask_perSecond] at hih
      rw [granted]
      split
      · rw [List.countP_cons_of_neg (by simp [hlo])]
        exact hih
      · exact hih

end Bucket

end Tokens
