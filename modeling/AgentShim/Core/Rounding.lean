import AgentShim.Core.Doubles
import Mathlib.Tactic.Linarith

/-
  Rounding keeps the order

  A double is the nearest multiple of a power of two that its leading digit decides. So
  rounding never passes a multiple of that power, which places every double among the
  integers and among the powers of two, and keeps the order of what is rounded.

  What is proved:
    1. `nearestEven_le`, `le_nearestEven` — no integer is passed.
    2. `magnitude_le`, `le_magnitude` — no multiple of the last digit is passed.
    3. `ofRat_mono`, `toU64_round_mono` — rounding to a double and to a `u64` keeps the
       order.
    4. `ofRat_near` — below 2^48 a number is near its double, on the same side of the
       integers above it.
-/

namespace AgentShim.F64

/-! ## Nearest integers -/

theorem nearestEven_le {q : Rat} {z : Int} (h : q ≤ z) : nearestEven q ≤ z := by
  have hlo : (q.floor : Rat) ≤ q := Rat.floor_le q
  have hbelow : q.floor ≤ z := by exact_mod_cast hlo.trans h
  -- a number above its floor has the next integer above it
  have habove : (q.floor : Rat) < q → q.floor + 1 ≤ z := by
    intro hlt
    have hz : (q.floor : Rat) < z := lt_of_lt_of_le hlt h
    have hz' : q.floor < z := by exact_mod_cast hz
    omega
  unfold nearestEven
  dsimp only
  split
  · exact hbelow
  · split
    · apply habove
      grind
    · have hnext := habove (by grind)
      rcases Int.emod_two_eq q.floor with heven | hodd <;> omega

theorem le_nearestEven {q : Rat} {z : Int} (h : z ≤ q) : z ≤ nearestEven q := by
  have hfloor : z ≤ q.floor := Rat.le_floor_iff.mpr h
  unfold nearestEven
  dsimp only
  split
  · exact hfloor
  · split
    · omega
    · rcases Int.emod_two_eq q.floor with heven | hodd <;> omega

theorem nearestEven_mono {a b : Rat} (h : a ≤ b) : nearestEven a ≤ nearestEven b := by
  have hfloor : a.floor ≤ b.floor := Rat.le_floor_iff.mpr ((Rat.floor_le a).trans h)
  rcases lt_or_eq_of_le hfloor with hlt | heq
  · have habove : a ≤ ((a.floor + 1 : Int) : Rat) := (Rat.lt_floor_add_one a).le
    calc nearestEven a ≤ a.floor + 1 := nearestEven_le habove
      _ ≤ b.floor := hlt
      _ ≤ nearestEven b := le_nearestEven (Rat.floor_le b)
  · unfold nearestEven
    dsimp only
    rw [heq]
    have hfraction : a - (b.floor : Rat) ≤ b - (b.floor : Rat) := by linarith
    rcases Int.emod_two_eq b.floor with heven | hodd <;> split <;> split <;> (try split) <;>
      (try split) <;> first | omega | (exfalso; linarith)

/-! ## Leading digits -/

/-- The leading digit is worth at most the number. -/
theorem two_zpow_leadingExponent_le {q : Rat} (hq : 0 < q) : (2 : Rat) ^ leadingExponent q ≤ q := by
  unfold leadingExponent
  dsimp only
  split
  case isFalse h => exact not_lt.mp h
  case isTrue h =>
    have hnum : 0 < q.num := Rat.num_pos.mpr hq
    have hden : (0 : Rat) < q.den := by exact_mod_cast q.den_pos
    have hlow : (2 : Rat) ^ (Nat.log2 q.num.natAbs : Int) ≤ q.num := by
      rw [zpow_natCast]
      have habs : ((q.num.natAbs : Int) : Rat) = q.num :=
        congrArg Int.cast (Int.natAbs_of_nonneg hnum.le)
      have hle : 2 ^ Nat.log2 q.num.natAbs ≤ q.num.natAbs := Nat.log2_self_le (by omega)
      calc (2 : Rat) ^ Nat.log2 q.num.natAbs ≤ (q.num.natAbs : Rat) := by exact_mod_cast hle
        _ = q.num := habs
    have hhigh : (q.den : Rat) ≤ (2 : Rat) ^ ((Nat.log2 q.den : Int) + 1) := by
      have hlt : q.den < 2 ^ (Nat.log2 q.den + 1) := Nat.lt_log2_self
      calc (q.den : Rat) ≤ (2 : Rat) ^ (Nat.log2 q.den + 1) := by exact_mod_cast hlt.le
        _ = (2 : Rat) ^ ((Nat.log2 q.den : Int) + 1) := by
            rw [← zpow_natCast]
            push_cast
            rfl
    calc (2 : Rat) ^ ((Nat.log2 q.num.natAbs : Int) - (Nat.log2 q.den : Int) - 1)
        = (2 : Rat) ^ (Nat.log2 q.num.natAbs : Int) / (2 : Rat) ^ ((Nat.log2 q.den : Int) + 1) := by
          rw [← zpow_sub₀ (by norm_num)]
          congr 1
          omega
      _ ≤ (q.num : Rat) / q.den := by
          apply div_le_div₀ _ hlow hden hhigh
          exact_mod_cast hnum.le
      _ = q := Rat.num_div_den q

theorem lt_two_zpow_leadingExponent {q : Rat} (hq : 0 < q) :
    q < (2 : Rat) ^ (leadingExponent q + 1) := by
  have hnum : 0 < q.num := Rat.num_pos.mpr hq
  have hden : (0 : Rat) < q.den := by exact_mod_cast q.den_pos
  unfold leadingExponent
  dsimp only
  split
  case isTrue h => simpa using h
  case isFalse h =>
    have hhigh : (q.num : Rat) < (2 : Rat) ^ ((Nat.log2 q.num.natAbs : Int) + 1) := by
      have habs : ((q.num.natAbs : Int) : Rat) = q.num :=
        congrArg Int.cast (Int.natAbs_of_nonneg hnum.le)
      have hlt : q.num.natAbs < 2 ^ (Nat.log2 q.num.natAbs + 1) := Nat.lt_log2_self
      calc (q.num : Rat) = (q.num.natAbs : Rat) := habs.symm
        _ < (2 : Rat) ^ (Nat.log2 q.num.natAbs + 1) := by exact_mod_cast hlt
        _ = (2 : Rat) ^ ((Nat.log2 q.num.natAbs : Int) + 1) := by
            rw [← zpow_natCast]
            push_cast
            rfl
    have hlow : (2 : Rat) ^ (Nat.log2 q.den : Int) ≤ q.den := by
      rw [zpow_natCast]
      exact_mod_cast Nat.log2_self_le q.den_nz
    calc q = (q.num : Rat) / q.den := (Rat.num_div_den q).symm
      _ < (2 : Rat) ^ ((Nat.log2 q.num.natAbs : Int) + 1) / (2 : Rat) ^ (Nat.log2 q.den : Int) :=
          div_lt_div₀ hhigh hlow (by positivity) (by positivity)
      _ = (2 : Rat) ^ ((Nat.log2 q.num.natAbs : Int) - (Nat.log2 q.den : Int) + 1) := by
          rw [← zpow_sub₀ (by norm_num)]
          congr 1
          omega

theorem leadingExponent_mono {a b : Rat} (ha : 0 < a) (h : a ≤ b) :
    leadingExponent a ≤ leadingExponent b := by
  have hlt : (2 : Rat) ^ leadingExponent a < (2 : Rat) ^ (leadingExponent b + 1) :=
    calc (2 : Rat) ^ leadingExponent a ≤ a := two_zpow_leadingExponent_le ha
      _ ≤ b := h
      _ < (2 : Rat) ^ (leadingExponent b + 1) := lt_two_zpow_leadingExponent (ha.trans_le h)
  have hexp := (zpow_lt_zpow_iff_right₀ (by norm_num)).mp hlt
  omega

/-! ## Positive numbers -/

/-- The exponent of the last digit. -/
def lastExponent (q : Rat) : Int := Max.max (leadingExponent q - 52) (-1074)

/-- What the last digit is worth. -/
def lastDigit (q : Rat) : Rat := (2 : Rat) ^ lastExponent q

/-- A positive number rounded to its digits. -/
def magnitude (q : Rat) : Rat := nearestEven (q / lastDigit q) * lastDigit q

theorem lastDigit_pos (q : Rat) : 0 < lastDigit q := by
  unfold lastDigit
  positivity

theorem magnitude_le {q : Rat} {z : Int} (h : q ≤ z * lastDigit q) :
    magnitude q ≤ z * lastDigit q := by
  have hpos := lastDigit_pos q
  apply mul_le_mul_of_nonneg_right _ hpos.le
  exact_mod_cast nearestEven_le ((div_le_iff₀ hpos).mpr h)

theorem le_magnitude {q : Rat} {z : Int} (h : z * lastDigit q ≤ q) :
    z * lastDigit q ≤ magnitude q := by
  have hpos := lastDigit_pos q
  apply mul_le_mul_of_nonneg_right _ hpos.le
  exact_mod_cast le_nearestEven ((le_div_iff₀ hpos).mpr h)

theorem magnitude_nonneg {q : Rat} (hq : 0 < q) : 0 ≤ magnitude q := by
  have hzero : ((0 : Int) : Rat) * lastDigit q ≤ q := by simpa using hq.le
  simpa using le_magnitude hzero

/-- A power of two that the digits reach is a multiple of the last one. -/
theorem exists_multiple {q : Rat} {e : Int} (he : lastExponent q ≤ e) :
    ∃ z : Int, (2 : Rat) ^ e = z * lastDigit q := by
  obtain ⟨k, hk⟩ : ∃ k : Nat, e = lastExponent q + k := ⟨(e - lastExponent q).toNat, by omega⟩
  refine ⟨2 ^ k, ?_⟩
  rw [hk, zpow_add₀ (by norm_num), zpow_natCast, mul_comm, lastDigit]
  push_cast
  rfl

theorem magnitude_mono {a b : Rat} (ha : 0 < a) (h : a ≤ b) : magnitude a ≤ magnitude b := by
  have hlead := leadingExponent_mono ha h
  rcases lt_or_ge (lastExponent a) (lastExponent b) with hlt | hge
  · -- a power of two lies between them
    have hreach : lastExponent a ≤ leadingExponent b ∧ lastExponent b ≤ leadingExponent b := by
      unfold lastExponent at hlt ⊢
      omega
    have hexp : leadingExponent a + 1 ≤ leadingExponent b := by
      unfold lastExponent at hlt
      omega
    obtain ⟨y, hy⟩ := exists_multiple hreach.1
    obtain ⟨z, hz⟩ := exists_multiple hreach.2
    have hbelow : a ≤ y * lastDigit a := by
      rw [← hy]
      calc a ≤ (2 : Rat) ^ (leadingExponent a + 1) := (lt_two_zpow_leadingExponent ha).le
        _ ≤ (2 : Rat) ^ leadingExponent b := zpow_le_zpow_right₀ (by norm_num) hexp
    have habove : z * lastDigit b ≤ b := by
      rw [← hz]
      exact two_zpow_leadingExponent_le (ha.trans_le h)
    calc magnitude a ≤ y * lastDigit a := magnitude_le hbelow
      _ = z * lastDigit b := by rw [← hy, hz]
      _ ≤ magnitude b := le_magnitude habove
  · have hsame : lastExponent a = lastExponent b := by
      unfold lastExponent at hge ⊢
      omega
    have hpos := lastDigit_pos b
    have hdigit : lastDigit a = lastDigit b := congrArg ((2 : Rat) ^ ·) hsame
    rw [magnitude, magnitude, hdigit]
    apply mul_le_mul_of_nonneg_right _ hpos.le
    exact_mod_cast nearestEven_mono (div_le_div_of_nonneg_right h hpos.le)

/-! ## Doubles -/

theorem ofRat_of_pos {q : Rat} (hq : 0 < q) :
    ofRat q = if (2 : Rat) ^ 1024 ≤ magnitude q then inf else finite (magnitude q) := by
  unfold ofRat
  dsimp only
  rw [if_neg (ne_of_gt hq), if_neg (not_lt.mpr hq.le), if_neg (not_lt.mpr hq.le),
    if_neg (not_lt.mpr hq.le)]
  rfl

theorem ofRat_neg {q : Rat} (hq : 0 < q) : ofRat (-q) = (ofRat q).neg := by
  have hneg : -q < 0 := by linarith
  unfold ofRat
  dsimp only
  rw [if_neg (ne_of_lt hneg), if_neg (ne_of_gt hq), if_pos hneg, if_pos hneg, if_pos hneg,
    if_neg (not_lt.mpr hq.le), if_neg (not_lt.mpr hq.le), if_neg (not_lt.mpr hq.le), neg_neg]
  split <;> rfl

theorem finite_le {a b : Rat} : (finite a).le (finite b) = true ↔ a ≤ b := by
  simp [le, lt, le_iff_lt_or_eq]

theorem le_inf {a : F64} (h : a ≠ nan) : a.le inf = true := by
  cases a <;> first | rfl | exact absurd rfl h

theorem negInf_le {a : F64} (h : a ≠ nan) : negInf.le a = true := by
  cases a <;> first | rfl | exact absurd rfl h

theorem le_trans {a b c : F64} (hab : a.le b = true) (hbc : b.le c = true) : a.le c = true := by
  cases a <;> cases b <;> cases c <;>
    first
    | rfl
    | exact absurd hab Bool.false_ne_true
    | exact absurd hbc Bool.false_ne_true
    | exact finite_le.mpr ((finite_le.mp hab).trans (finite_le.mp hbc))

theorem le_refl {a : F64} (h : a ≠ nan) : a.le a = true := by
  cases a <;> first | exact absurd rfl h | simp [le]

theorem le_total {a b : F64} (ha : a ≠ nan) (hb : b ≠ nan) : a.le b = true ∨ b.le a = true := by
  cases a <;> cases b <;>
    first
    | exact absurd rfl ha
    | exact absurd rfl hb
    | exact .inl rfl
    | exact .inr rfl
    | exact (Rat.le_total).imp finite_le.mpr finite_le.mpr

theorem neg_le_neg {a b : F64} (h : a.le b = true) : b.neg.le a.neg = true := by
  cases a with
  | finite p =>
    cases b with
    | finite q =>
      have hle : -q ≤ -p := by
        have := finite_le.mp h
        linarith
      exact finite_le.mpr hle
    | _ => first | rfl | cases h
  | _ => cases b <;> first | rfl | cases h

theorem ofRat_mono_of_pos {a b : Rat} (ha : 0 < a) (h : a ≤ b) :
    (ofRat a).le (ofRat b) = true := by
  have hmono := magnitude_mono ha h
  rw [ofRat_of_pos ha, ofRat_of_pos (ha.trans_le h)]
  split
  case isTrue h =>
    rw [if_pos (h.trans hmono)]
    rfl
  case isFalse h =>
    split
    · rfl
    · exact finite_le.mpr hmono

theorem zero_le_ofRat {q : Rat} (hq : 0 ≤ q) : (finite 0).le (ofRat q) = true := by
  rcases eq_or_lt_of_le hq with rfl | hpos
  · rfl
  · rw [ofRat_of_pos hpos]
    split
    · rfl
    · exact finite_le.mpr (magnitude_nonneg hpos)

theorem ofRat_le_zero {q : Rat} (hq : q < 0) : (ofRat q).le (finite 0) = true := by
  have hpos : 0 < -q := by linarith
  have hneg := neg_le_neg (zero_le_ofRat hpos.le)
  rw [← ofRat_neg hpos, neg_neg] at hneg
  exact hneg

/-- Rounding keeps the order. -/
theorem ofRat_mono {a b : Rat} (h : a ≤ b) : (ofRat a).le (ofRat b) = true := by
  rcases lt_trichotomy a 0 with ha | rfl | ha
  · rcases lt_or_ge b 0 with hb | hb
    · have hpos : 0 < -b := by linarith
      have hmono := neg_le_neg (ofRat_mono_of_pos hpos (neg_le_neg_iff.mpr h))
      rw [← ofRat_neg hpos, ← ofRat_neg (by linarith : 0 < -a), neg_neg, neg_neg] at hmono
      exact hmono
    · exact le_trans (ofRat_le_zero ha) (zero_le_ofRat hb)
  · exact zero_le_ofRat h
  · exact ofRat_mono_of_pos ha h

theorem ofRat_ne_nan (q : Rat) : ofRat q ≠ nan := by
  intro h
  have hself := ofRat_mono (Rat.le_refl (a := q))
  rw [h] at hself
  exact Bool.false_ne_true hself

/-- So does the product with a positive number. -/
theorem mul_mono {a b : F64} {q : Rat} (hq : 0 < q) (h : a.le b = true) :
    (a.mul (finite q)).le (b.mul (finite q)) = true := by
  have hsign : sign (finite q) = 1 := if_pos hq
  have hinf : inf.mul (finite q) = inf := by
    show infinityOf (1 * sign (finite q)) = inf
    rw [hsign]
    rfl
  have hneg : negInf.mul (finite q) = negInf := by
    show infinityOf (-1 * sign (finite q)) = negInf
    rw [hsign]
    rfl
  cases a with
  | finite p =>
    cases b with
    | finite r =>
      exact ofRat_mono (mul_le_mul_of_nonneg_right (finite_le.mp h) hq.le)
    | inf =>
      rw [hinf]
      exact le_inf (ofRat_ne_nan _)
    | negInf => cases h
    | nan => cases h
  | inf => cases b <;> first | exact le_refl (by simp [hinf]) | cases h
  | negInf =>
    rw [hneg]
    cases b with
    | finite r => exact negInf_le (ofRat_ne_nan _)
    | inf => rw [hinf]; rfl
    | negInf => rw [hneg]; rfl
    | nan => cases h
  | nan => cases b <;> cases h

theorem toU64_round_finite (q : Rat) :
    (finite q).round.toU64 =
      if q < 0 then 0 else min (floorHalfUp q).toNat 18446744073709551615 := by
  unfold round toU64
  dsimp only
  split
  · have hpos : 0 ≤ floorHalfUp (-q) := Rat.le_floor_iff.mpr (by push_cast; linarith)
    have hfloor : (-(floorHalfUp (-q) : Rat)).floor = -floorHalfUp (-q) := by
      rw [← Rat.intCast_neg, Rat.floor_intCast]
    rw [hfloor]
    omega
  · rw [Rat.floor_intCast]

theorem toU64_round_mono {a b : F64} (h : a.le b = true) : a.round.toU64 ≤ b.round.toU64 := by
  cases b with
  | inf => exact Nat.lt_succ_iff.mp (toU64_lt _)
  | finite q =>
    cases a with
    | finite p =>
      have hle := finite_le.mp h
      rw [toU64_round_finite, toU64_round_finite]
      split
      · exact Nat.zero_le _
      · have hq : ¬q < 0 := by linarith
        have hfloor : floorHalfUp p ≤ floorHalfUp q :=
          Rat.le_floor_iff.mpr ((Rat.floor_le _).trans (by linarith))
        rw [if_neg hq]
        omega
    | negInf => exact Nat.zero_le _
    | inf => cases h
    | nan => cases h
  | negInf =>
    cases a with
    | negInf => exact Nat.le_refl _
    | _ => cases h
  | nan => cases a <;> cases h

/-! ## Near an integer -/

/-- The double of a number below 2^48 is near it, and on the same side of every integer
above it. -/
theorem ofRat_near {q : Rat} (hq : 0 < q) (hsmall : q < 2 ^ 48) :
    ∃ r, ofRat q = finite r ∧ q - 1 / 64 ≤ r ∧ ∀ z : Int, q ≤ z → r ≤ z := by
  have hlead : leadingExponent q < 48 := by
    have hlt : (2 : Rat) ^ leadingExponent q < (2 : Rat) ^ (48 : Int) :=
      (two_zpow_leadingExponent_le hq).trans_lt (by exact_mod_cast hsmall)
    exact (zpow_lt_zpow_iff_right₀ (by norm_num)).mp hlt
  have hlast : lastExponent q ≤ -5 := by
    unfold lastExponent
    omega
  have hpos := lastDigit_pos q
  have hsize : lastDigit q ≤ 1 / 32 := by
    calc lastDigit q ≤ (2 : Rat) ^ (-5 : Int) := zpow_le_zpow_right₀ (by norm_num) hlast
      _ = 1 / 32 := by norm_num
  have hbelow : ∀ z : Int, q ≤ z → magnitude q ≤ z := by
    intro z hz
    obtain ⟨y, hy⟩ : ∃ y : Int, (2 : Rat) ^ (0 : Int) = y * lastDigit q :=
      exists_multiple (by omega)
    have hmultiple : (z : Rat) = ((z * y : Int) : Rat) * lastDigit q := by
      rw [zpow_zero] at hy
      push_cast
      rw [mul_assoc, ← hy, mul_one]
    rw [hmultiple] at hz ⊢
    exact magnitude_le hz
  have hnear : q - 1 / 64 ≤ magnitude q := by
    have herror := (nearestEven_error (q / lastDigit q)).2
    have hback : q / lastDigit q * lastDigit q = q := div_mul_cancel₀ q hpos.ne'
    have hscaled : (q / lastDigit q - nearestEven (q / lastDigit q)) * lastDigit q ≤
        1 / 2 * lastDigit q := mul_le_mul_of_nonneg_right herror hpos.le
    rw [sub_mul, hback] at hscaled
    unfold magnitude
    linarith
  have hfinite : ¬(2 : Rat) ^ 1024 ≤ magnitude q := by
    have hbound : magnitude q ≤ ((2 ^ 48 : Int) : Rat) :=
      hbelow (2 ^ 48) (by exact_mod_cast hsmall.le)
    have hlarge : ((2 ^ 48 : Int) : Rat) < 2 ^ 1024 := by
      calc ((2 ^ 48 : Int) : Rat) = 2 ^ 48 := by norm_cast
        _ < 2 ^ 1024 := pow_lt_pow_right₀ (by norm_num) (by norm_num)
    exact not_le.mpr (hbound.trans_lt hlarge)
  refine ⟨magnitude q, ?_, hnear, hbelow⟩
  rw [ofRat_of_pos hq, if_neg hfinite]

end AgentShim.F64
