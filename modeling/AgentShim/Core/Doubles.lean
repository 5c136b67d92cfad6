import AgentShim.Core.Scalars
import Mathlib.Algebra.Field.Rat
import Mathlib.Algebra.Order.Field.Rat
import Mathlib.Algebra.Order.Field.Power
import Mathlib.Data.Nat.Cast.Order.Ring
import Mathlib.Tactic.Positivity
import Mathlib.Tactic.NormNum

/-
  Arithmetic of double-precision numbers

  The operations the source performs on its doubles: each computes the exact
  rational result and rounds it to the nearest double, ties to even, with
  subnormals below 2^-1022 and an infinity from 2^1024 on. The sign of a zero is
  not kept: no modelled operation divides by one.

  What is proved:
    1. `nearestEven_error` — the rounding to an integer is off by a half at most.
    2. `toU64_lt` — the saturating cast stays below 2^64.
    3. `ofRat_natCast` — whole numbers of up to 53 binary digits are exact.

  Correspondence (Rust ↔ Lean):
    `n as f64`                    ↔ `F64.ofNat`
    `*`, `/`, `+`, unary `-`      ↔ `F64.mul`, `F64.div`, `F64.add`, `F64.neg`
    `f64::powi`                   ↔ `F64.powi`, by repeated squaring as the
                                    compiler's runtime does it
    `f64::round`, `f64::ceil`,    ↔ `F64.round`, `F64.ceil`, `F64.max`
      `f64::max`
    `x as u64`                    ↔ `F64.toU64`
-/

namespace AgentShim.F64

/-! Rounding a rational to the nearest double. -/

/-- The nearest integer, the even one of two. -/
def nearestEven (q : Rat) : Int :=
  let below := q.floor
  if q - below < 1 / 2 then below
  else if 1 / 2 < q - below then below + 1
  else below + below % 2

theorem nearestEven_error (q : Rat) :
    (nearestEven q : Rat) - q ≤ 1 / 2 ∧ q - (nearestEven q : Rat) ≤ 1 / 2 := by
  have hlo : (q.floor : Rat) ≤ q := Rat.floor_le q
  have hhi : q < ((q.floor + 1 : Int) : Rat) := Rat.lt_floor_add_one q
  rw [Rat.intCast_add, Rat.intCast_one] at hhi
  unfold nearestEven
  dsimp only
  split
  · constructor <;> grind
  · split
    · rw [Rat.intCast_add, Rat.intCast_one]
      constructor <;> grind
    · -- a tie
      have htie : q - (q.floor : Rat) = 1 / 2 := by grind
      rw [Rat.intCast_add]
      rcases Int.emod_two_eq q.floor with heven | hodd
      · rw [heven, Rat.intCast_zero]
        constructor <;> grind
      · rw [hodd, Rat.intCast_one]
        constructor <;> grind

/-- The exponent of the leading binary digit of a positive rational. -/
def leadingExponent (q : Rat) : Int :=
  let guess : Int := (Nat.log2 q.num.natAbs : Int) - (Nat.log2 q.den : Int)
  if q < (2 : Rat) ^ guess then guess - 1 else guess

/-- The nearest double: 53 binary digits, none below 2^-1074. -/
def ofRat (q : Rat) : F64 :=
  if q = 0 then .finite 0
  else
    let magnitude := if q < 0 then -q else q
    let digit := (2 : Rat) ^ max (leadingExponent magnitude - 52) (-1074)
    let rounded := nearestEven (magnitude / digit) * digit
    if (2 : Rat) ^ 1024 ≤ rounded then if q < 0 then .negInf else .inf
    else .finite (if q < 0 then -rounded else rounded)

def ofNat (n : Nat) : F64 := ofRat n

/-! The operations. -/

/-- The sign of a number, zero for zero and for not-a-number. -/
def sign : F64 → Int
  | finite q => if 0 < q then 1 else if q < 0 then -1 else 0
  | inf => 1
  | negInf => -1
  | nan => 0

/-- The infinity of a sign; an infinity times zero is not a number. -/
def infinityOf (s : Int) : F64 := if 0 < s then inf else if s < 0 then negInf else nan

def neg : F64 → F64
  | finite q => finite (-q)
  | inf => negInf
  | negInf => inf
  | nan => nan

def add : F64 → F64 → F64
  | nan, _ => nan
  | _, nan => nan
  | finite a, finite b => ofRat (a + b)
  | inf, negInf => nan
  | negInf, inf => nan
  | finite _, b => b
  | a, _ => a

def mul : F64 → F64 → F64
  | nan, _ => nan
  | _, nan => nan
  | finite a, finite b => ofRat (a * b)
  | a, b => infinityOf (a.sign * b.sign)

def div : F64 → F64 → F64
  | nan, _ => nan
  | _, nan => nan
  | finite a, finite b => if b = 0 then infinityOf (sign (finite a)) else ofRat (a / b)
  | finite _, _ => finite 0
  | a, finite b => infinityOf (a.sign * if b < 0 then -1 else 1)
  | _, _ => nan

/-- The loop of `powi` over the binary digits of the exponent, lowest first. -/
def powiLoop : Nat → F64 → Nat → F64 → F64
  | 0, _, _, r => r
  | digits + 1, a, b, r =>
    let r := if b % 2 = 1 then r.mul a else r
    if b / 2 = 0 then r else powiLoop digits (a.mul a) (b / 2) r

/-- `powi` on an `i32`. -/
def powi (a : F64) (exponent : Int) : F64 :=
  let r := powiLoop 32 a exponent.natAbs (finite 1)
  if exponent < 0 then (finite 1).div r else r

/-- Half away from zero, for a magnitude. -/
def floorHalfUp (q : Rat) : Int := (q + 1 / 2).floor

def round : F64 → F64
  | finite q => finite (if q < 0 then -(floorHalfUp (-q) : Rat) else floorHalfUp q)
  | a => a

def ceil : F64 → F64
  | finite q => finite q.ceil
  | a => a

/-- The larger one; a not-a-number is ignored. -/
def max (a b : F64) : F64 :=
  if a = nan then b else if b = nan then a else if a.lt b then b else a

/-- Truncation to a `u64`, at the ends of its range outside it. -/
def toU64 : F64 → Nat
  | finite q => min q.floor.toNat 18446744073709551615
  | inf => 18446744073709551615
  | negInf => 0
  | nan => 0

theorem toU64_lt (a : F64) : a.toU64 < 18446744073709551616 := by
  cases a with
  | finite q =>
    have hle : min q.floor.toNat 18446744073709551615 ≤ 18446744073709551615 :=
      Nat.min_le_right _ _
    simp only [toU64]
    omega
  | inf => decide
  | negInf => decide
  | nan => decide

/-! Whole numbers. -/

theorem nearestEven_intCast (z : Int) : nearestEven (z : Rat) = z := by
  have hzero : (z : Rat) - (z : Rat) = 0 := Rat.sub_self
  unfold nearestEven
  dsimp only
  rw [Rat.floor_intCast, hzero, if_pos (by decide +kernel)]

theorem leadingExponent_natCast {n : Nat} (h : 0 < n) :
    leadingExponent (n : Rat) = n.log2 := by
  have hle : (2 : Rat) ^ (n.log2 : Int) ≤ n := by
    rw [zpow_natCast]
    exact_mod_cast Nat.log2_self_le (by omega)
  have hone : Nat.log2 1 = 0 := by decide
  unfold leadingExponent
  simp only [Rat.num_natCast, Rat.den_natCast, Int.natAbs_natCast, hone, Int.natCast_zero,
    Int.sub_zero]
  exact if_neg (not_lt.mpr hle)

/-- A whole number of at most 53 binary digits is a double. -/
theorem ofRat_natCast {n : Nat} (h : n < 2 ^ 53) : ofRat (n : Rat) = finite n := by
  rcases Nat.eq_zero_or_pos n with rfl | hpos
  · rfl
  have hlog : n.log2 ≤ 52 := Nat.lt_succ_iff.mp ((Nat.log2_lt (by omega)).mpr h)
  have hq : (0 : Rat) < n := by exact_mod_cast hpos
  -- the last binary digit is worth `2 ^ (log2 n - 52)`, and `n` is a multiple of it
  have hdigit : Max.max ((n.log2 : Int) - 52) (-1074) = -((52 - n.log2 : Nat) : Int) := by omega
  have hscaled : (n : Rat) / (2 : Rat) ^ (-((52 - n.log2 : Nat) : Int)) =
      ((n * 2 ^ (52 - n.log2) : Nat) : Int) := by
    rw [zpow_neg, div_inv_eq_mul, zpow_natCast]
    push_cast
    rfl
  have hback : ((n * 2 ^ (52 - n.log2) : Nat) : Int) * (2 : Rat) ^ (-((52 - n.log2 : Nat) : Int)) =
      n := by
    rw [← hscaled, div_mul_cancel₀]
    positivity
  have hsmall : (n : Rat) < 2 ^ 1024 := by
    calc (n : Rat) < 2 ^ 53 := by exact_mod_cast h
      _ ≤ 2 ^ 1024 := pow_le_pow_right₀ (by norm_num) (by norm_num)
  unfold ofRat
  dsimp only
  rw [if_neg (ne_of_gt hq), if_neg (not_lt.mpr hq.le), leadingExponent_natCast hpos, hdigit,
    hscaled, nearestEven_intCast, hback, if_neg (not_le.mpr hsmall), if_neg (not_lt.mpr hq.le)]

-- the double of 2^53 + 1, a third, and a product that overflows
example : ofNat 9007199254740993 = finite 9007199254740992 := by decide +kernel
example : (finite 1).div (finite 3) = finite (6004799503160661 / 18014398509481984) := by
  decide +kernel
example : (finite (2 ^ 600)).mul (finite (2 ^ 600)) = inf := by decide +kernel

end AgentShim.F64
