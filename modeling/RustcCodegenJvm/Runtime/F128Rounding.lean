import RustcCodegenJvm.Runtime.F128
import RustcCodegenJvm.Library.NearestEven

/-!
# Correct rounding of the soft binary128 operations

A finite pattern stands for a dyadic rational (`F128.value`). `RoundsTo` is the
round-to-nearest rule of IEEE 754: the nearest finite value, ties to an even
significand, infinity from half a unit beyond the largest finite value on, and a
sign that is kept when the result underflows to zero.
-/

namespace RustcCodegenJvm.Runtime

open Library Int

variable (numerator : Nat)

namespace F128

/-- The number encoded by an exponent and a fraction field: subnormals have no
hidden bit and share the unit of the smallest normals. -/
def magnitude (encodedExponent fraction : Nat) : ℚ :=
  if encodedExponent = 0 then fraction * 2 ^ (-16494 : ℤ)
  else (2 ^ 112 + fraction) * 2 ^ ((encodedExponent : ℤ) - 16495)

def value (this : F128) : ℚ :=
  if this.isNegative then -magnitude this.exponent this.fraction
  else magnitude this.exponent this.fraction

def isFinite (this : F128) : Prop := this.exponent ≠ maxExponent

/-- Half a unit in the last place beyond the largest finite value. -/
def overflowThreshold : ℚ := 2 ^ (16384 : ℤ) - 2 ^ (16270 : ℤ)

structure RoundsTo (exact : ℚ) (zeroSign : Bool) (result : F128) : Prop where
  sign : result.isNegative = if exact = 0 then zeroSign else decide (exact < 0)
  overflows : overflowThreshold ≤ |exact| → result.isInfinite = true
  finite : |exact| < overflowThreshold → result.isFinite
  nearest : |exact| < overflowThreshold → ∀ other : F128, other.isFinite →
    |exact - result.value| ≤ |exact - other.value|
  tiesToEven : |exact| < overflowThreshold → ∀ other : F128, other.isFinite →
    other.value ≠ result.value → |exact - other.value| = |exact - result.value| →
      Even result.toBits

theorem magnitude_nonneg (encodedExponent fraction : Nat) :
    0 ≤ magnitude encodedExponent fraction := by
  unfold magnitude
  split_ifs <;> positivity

theorem fraction_lt (this : F128) : this.fraction < 2 ^ 112 := by
  rw [fraction_eq]
  exact Nat.mod_lt _ (by decide)

variable {encodedExponent fraction denominator : Nat}

theorem magnitude_eq_zero_iff :
    magnitude encodedExponent fraction = 0 ↔ encodedExponent = 0 ∧ fraction = 0 := by
  have unit : ∀ power : ℤ, (2 : ℚ) ^ power ≠ 0 := fun power => zpow_ne_zero _ (by norm_num)
  unfold magnitude
  split_ifs with zero
  · simp [zero]
  · have hidden : (2 : ℚ) ^ 112 + fraction ≠ 0 := by positivity
    simp [zero, unit, hidden]

theorem value_eq_zero_iff (this : F128) : this.value = 0 ↔ this.isZero = true := by
  have fields : this.isZero = true ↔ this.exponent = 0 ∧ this.fraction = 0 := by
    simp [isZero]
  rw [fields, ← magnitude_eq_zero_iff, value]
  split_ifs
  · rw [neg_eq_zero]
  · rfl

theorem magnitude_on_lattice {power : ℤ} (fits : fraction < 2 ^ 112) (normal : -16382 ≤ power) :
    magnitude encodedExponent fraction < 2 ^ power ∨
      ∃ k : ℤ, magnitude encodedExponent fraction = k * 2 ^ (power - 112) := by
  have fractionFits : (fraction : ℚ) < 2 ^ (112 : ℤ) := by exact_mod_cast fits
  have base : (1 : ℚ) ≤ 2 := by norm_num
  unfold magnitude
  split_ifs with zero
  · left
    calc
      (fraction : ℚ) * 2 ^ (-16494 : ℤ) < 2 ^ (112 : ℤ) * 2 ^ (-16494 : ℤ) :=
        mul_lt_mul_of_pos_right fractionFits (by positivity)
      _ = 2 ^ (-16382 : ℤ) := by rw [← zpow_add₀ (by norm_num)]; norm_num
      _ ≤ 2 ^ power := zpow_le_zpow_right₀ base normal
  · by_cases lower : (encodedExponent : ℤ) - 16382 ≤ power
    · left
      calc
        ((2 : ℚ) ^ 112 + fraction) * 2 ^ ((encodedExponent : ℤ) - 16495)
            < 2 ^ (113 : ℤ) * 2 ^ ((encodedExponent : ℤ) - 16495) := by
              apply mul_lt_mul_of_pos_right _ (by positivity)
              linarith
        _ = 2 ^ ((encodedExponent : ℤ) - 16382) := by
              rw [← zpow_add₀ (by norm_num)]
              congr 1
              ring
        _ ≤ 2 ^ power := zpow_le_zpow_right₀ base lower
    · right
      obtain ⟨steps, above⟩ := eq_ofNat_of_zero_le
        (show 0 ≤ (encodedExponent : ℤ) - 16383 - power by omega)
      refine ⟨(2 ^ 112 + fraction) * 2 ^ steps, ?_⟩
      have exponents : (encodedExponent : ℤ) - 16495 = steps + (power - 112) := by omega
      rw [exponents, zpow_add₀ (by norm_num), zpow_natCast]
      push_cast
      ring

theorem magnitude_on_subnormal_lattice (fraction : Nat) :
    ∃ k : ℤ, magnitude encodedExponent fraction = k * 2 ^ (-16494 : ℤ) := by
  unfold magnitude
  split_ifs with zero
  · exact ⟨fraction, by rw [cast_natCast]⟩
  · obtain ⟨steps, above⟩ := eq_ofNat_of_zero_le (show 0 ≤ (encodedExponent : ℤ) - 1 by omega)
    refine ⟨(2 ^ 112 + fraction) * 2 ^ steps, ?_⟩
    have exponents : (encodedExponent : ℤ) - 16495 = steps + (-16494) := by omega
    rw [exponents, zpow_add₀ (by norm_num), zpow_natCast]
    generalize (2 : ℚ) ^ (-16494 : ℤ) = unit
    push_cast
    ring

theorem round_to_even_nearest (positive : 0 < denominator) :
    NearestEven ((numerator : ℚ) / denominator) (roundToEven numerator denominator) := by
  have divisor : (0 : ℚ) < denominator := by exact_mod_cast positive
  have decomposed : (numerator : ℚ) =
      (numerator / denominator : Nat) * denominator + (numerator % denominator : Nat) := by
    exact_mod_cast (Nat.div_add_mod' numerator denominator).symm
  have small : ((numerator % denominator : Nat) : ℚ) ≤ denominator := by
    exact_mod_cast (Nat.mod_lt _ positive).le
  have parity : (numerator / denominator).testBit 0 = true ↔
      numerator / denominator % 2 = 1 := by rw [Nat.testBit_zero, decide_eq_true_iff]
  have whole : ((numerator / denominator : Nat) : ℚ) = ((numerator / denominator : Nat) : ℤ) := by
    rw [cast_natCast]
  simp only [roundToEven, Nat.shiftLeft_eq, pow_one, parity]
  rw [decomposed]
  split_ifs with up
  · rw [Nat.cast_add, Nat.cast_one]
    apply nearest_even_up divisor whole small
    · have half : denominator ≤ 2 * (numerator % denominator) := by omega
      exact_mod_cast half
    · intro tie
      have equal : 2 * (numerator % denominator) = denominator := by exact_mod_cast tie
      rw [even_add_one, not_even_iff_odd, odd_iff]
      omega
  · apply nearest_even_down divisor whole (by positivity)
    · have half : 2 * (numerator % denominator) ≤ denominator := by omega
      exact_mod_cast half
    · intro tie
      have equal : 2 * (numerator % denominator) = denominator := by exact_mod_cast tie
      rw [even_iff]
      omega

/-- Scaling a quotient by a power of two on whichever side keeps it an integer. -/
theorem scaled_quotient (numerator denominator : Nat) (scale : ℤ) :
    (if 0 ≤ scale then ((numerator <<< scale.toNat : Nat) : ℚ) / denominator
      else (numerator : ℚ) / (denominator <<< (-scale).toNat : Nat)) =
      (numerator : ℚ) / denominator * 2 ^ scale := by
  split_ifs with upward
  · obtain ⟨steps, rfl⟩ := eq_ofNat_of_zero_le upward
    rw [Nat.shiftLeft_eq, toNat_natCast, zpow_natCast]
    push_cast
    ring
  · obtain ⟨steps, downward⟩ := eq_ofNat_of_zero_le (show 0 ≤ -scale by omega)
    rw [Nat.shiftLeft_eq, downward, toNat_natCast, show scale = -(steps : ℤ) by omega,
      zpow_neg, zpow_natCast]
    push_cast
    rw [div_mul_eq_div_div, div_eq_mul_inv]

theorem size_bounds {number : Nat} (positive : 0 < number) :
    (2 : ℚ) ^ ((number.size : ℤ) - 1) ≤ number ∧ (number : ℚ) < 2 ^ (number.size : ℤ) := by
  obtain ⟨size, shape⟩ := Nat.exists_eq_succ_of_ne_zero (Nat.size_pos.mpr positive).ne'
  rw [shape]
  constructor
  · rw [Nat.succ_eq_add_one, Nat.cast_add, Nat.cast_one, add_sub_cancel_right, zpow_natCast]
    exact_mod_cast Nat.lt_size.mp (show size < number.size by omega)
  · rw [zpow_natCast, ← shape]
    exact_mod_cast Nat.lt_size_self number

/-- The comparison `floorLog2` makes, with the shift on whichever side it puts it. -/
theorem shifted_less_iff (divisor : 0 < denominator) (power : ℤ) :
    (if 0 ≤ power then numerator < denominator <<< power.toNat
      else numerator <<< (-power).toNat < denominator) ↔
      (numerator : ℚ) / denominator < 2 ^ power := by
  have denominatorPositive : (0 : ℚ) < denominator := by exact_mod_cast divisor
  split_ifs with upward
  · obtain ⟨steps, rfl⟩ := eq_ofNat_of_zero_le upward
    rw [Nat.shiftLeft_eq, toNat_natCast, zpow_natCast, div_lt_iff₀ denominatorPositive,
      mul_comm ((2 : ℚ) ^ steps)]
    exact_mod_cast Iff.rfl
  · obtain ⟨steps, downward⟩ := eq_ofNat_of_zero_le (show 0 ≤ -power by omega)
    rw [Nat.shiftLeft_eq, downward, toNat_natCast, show power = -(steps : ℤ) by omega,
      zpow_neg, zpow_natCast, div_lt_iff₀ denominatorPositive, ← div_eq_inv_mul,
      lt_div_iff₀ (by positivity)]
    exact_mod_cast Iff.rfl

/-- `floorLog2` brackets the quotient between consecutive powers of two. -/
theorem floor_log2_spec {numerator : Nat} (positive : 0 < numerator) (divisor : 0 < denominator) :
    (2 : ℚ) ^ floorLog2 numerator denominator ≤ (numerator : ℚ) / denominator ∧
      (numerator : ℚ) / denominator < 2 ^ (floorLog2 numerator denominator + 1) := by
  obtain ⟨numeratorLower, numeratorUpper⟩ := size_bounds positive
  obtain ⟨denominatorLower, denominatorUpper⟩ := size_bounds divisor
  have denominatorPositive : (0 : ℚ) < denominator := by exact_mod_cast divisor
  have compared := shifted_less_iff numerator divisor
    ((numerator.size : ℤ) - denominator.size)
  have upper : (numerator : ℚ) / denominator < 2 ^ ((numerator.size : ℤ) - denominator.size + 1) := by
    rw [div_lt_iff₀ denominatorPositive]
    calc
      (numerator : ℚ) < 2 ^ (numerator.size : ℤ) := numeratorUpper
      _ = 2 ^ ((numerator.size : ℤ) - denominator.size + 1) * 2 ^ ((denominator.size : ℤ) - 1) := by
        rw [← zpow_add₀ (by norm_num)]
        congr 1
        ring
      _ ≤ 2 ^ ((numerator.size : ℤ) - denominator.size + 1) * denominator :=
        mul_le_mul_of_nonneg_left denominatorLower (by positivity)
  have lower : (2 : ℚ) ^ ((numerator.size : ℤ) - denominator.size - 1) ≤
      (numerator : ℚ) / denominator := by
    rw [le_div_iff₀ denominatorPositive]
    calc
      (2 : ℚ) ^ ((numerator.size : ℤ) - denominator.size - 1) * denominator
          ≤ 2 ^ ((numerator.size : ℤ) - denominator.size - 1) * 2 ^ (denominator.size : ℤ) :=
        mul_le_mul_of_nonneg_left denominatorUpper.le (by positivity)
      _ = 2 ^ ((numerator.size : ℤ) - 1) := by
        rw [← zpow_add₀ (by norm_num)]
        congr 1
        ring
      _ ≤ numerator := numeratorLower
  simp only [floorLog2]
  generalize (numerator.size : ℤ) - denominator.size = power at *
  have decided : (if 0 ≤ power then decide (numerator < denominator <<< power.toNat)
      else decide (numerator <<< (-power).toNat < denominator)) = true ↔
      (numerator : ℚ) / denominator < 2 ^ power := by
    rw [← compared]
    split_ifs <;> exact decide_eq_true_iff
  by_cases less : (numerator : ℚ) / denominator < 2 ^ power
  · rw [if_pos (decided.mpr less), sub_add_cancel]
    exact ⟨lower, less⟩
  · rw [if_neg (mt decided.mp less)]
    exact ⟨not_lt.mp less, upper⟩

/-- Rounding of a positive number, on the fields of the result. -/
structure MagnitudeRounds (x : ℚ) (encodedExponent fraction : Nat) : Prop where
  exponentFits : encodedExponent < maxExponent
  fractionFits : fraction < 2 ^ 112
  nearest : ∀ otherExponent otherFraction, otherFraction < 2 ^ 112 →
    |x - magnitude encodedExponent fraction| ≤ |x - magnitude otherExponent otherFraction|
  even : ∀ otherExponent otherFraction, otherFraction < 2 ^ 112 →
    magnitude otherExponent otherFraction ≠ magnitude encodedExponent fraction →
    |x - magnitude otherExponent otherFraction| = |x - magnitude encodedExponent fraction| →
      Even fraction

theorem magnitude_rounds_of_nearest {x unit base : ℚ} {s : Nat}
    (exponentFits : encodedExponent < maxExponent) (fractionFits : fraction < 2 ^ 112)
    (positive : 0 < unit) (nearest : NearestEven (x / unit) s)
    (onLattice : ∃ k : ℤ, base = k * unit) (below : base ≤ x)
    (members : ∀ otherExponent otherFraction, otherFraction < 2 ^ 112 →
      magnitude otherExponent otherFraction < base ∨
        ∃ k : ℤ, magnitude otherExponent otherFraction = k * unit)
    (encoded : magnitude encodedExponent fraction = s * unit) (parity : Even s → Even fraction) :
    MagnitudeRounds x encodedExponent fraction where
  exponentFits := exponentFits
  fractionFits := fractionFits
  nearest otherExponent otherFraction fits := by
    rw [encoded, ← cast_natCast]
    exact (nearest_from_base positive nearest onLattice below
      (members otherExponent otherFraction fits)).1
  even otherExponent otherFraction fits different tie := by
    rw [encoded, ← cast_natCast] at different tie
    exact parity ((even_coe_nat s).mp ((nearest_from_base positive nearest onLattice below
      (members otherExponent otherFraction fits)).2 different tie))

theorem even_bits_iff (this : F128) : Even this.toBits ↔ Even this.fraction := by
  rw [fraction_eq, Nat.even_iff, Nat.even_iff]
  omega

theorem overflow_threshold_pos : 0 < overflowThreshold :=
  sub_pos.mpr (zpow_lt_zpow_right₀ (by norm_num) (by norm_num))

section Signed

variable {x exact : ℚ} {negative : Bool} {result : F128} (positive : 0 < x)
  (signed : exact = if negative then -x else x)

include positive signed

theorem signed_size : |exact| = x := by
  rw [signed]
  split_ifs
  · rw [abs_neg, abs_of_pos positive]
  · rw [abs_of_pos positive]

variable (zeroSign : Bool)

theorem signed_sign :
    negative = if exact = 0 then zeroSign else decide (exact < 0) := by
  cases negative
  · simp only [Bool.false_eq_true, if_false] at signed
    rw [signed, if_neg positive.ne', eq_comm, decide_eq_false_iff_not]
    exact not_lt.mpr positive.le
  · simp only [if_true] at signed
    rw [signed, if_neg (neg_ne_zero.mpr positive.ne'), eq_comm, decide_eq_true_iff]
    exact neg_lt_zero.mpr positive

/-- The distance to a pattern of the same sign is a distance of magnitudes; to
one of the other sign it is the sum. -/
theorem signed_distance (other : F128) :
    |exact - other.value| =
      if other.isNegative = negative then |x - magnitude other.exponent other.fraction|
      else x + magnitude other.exponent other.fraction := by
  have nonneg := magnitude_nonneg other.exponent other.fraction
  rw [signed, value]
  generalize magnitude other.exponent other.fraction = size at nonneg ⊢
  have sum : |x + size| = x + size := abs_of_nonneg (by linarith)
  cases negative <;> cases other.isNegative <;>
    simp only [Bool.false_eq_true, Bool.true_eq_false, if_true, if_false]
  · rw [sub_neg_eq_add, sum]
  · rw [← abs_neg, neg_sub, sub_neg_eq_add, add_comm, sum]
  · rw [neg_sub_neg, abs_sub_comm]

theorem magnitude_distance_le (other : F128) :
    |x - magnitude other.exponent other.fraction| ≤ |exact - other.value| := by
  have nonneg := magnitude_nonneg other.exponent other.fraction
  rw [signed_distance positive signed other]
  split_ifs
  · exact le_refl _
  · exact abs_le.mpr ⟨by linarith, by linarith⟩

/-- Giving a rounded magnitude the sign of the exact number. -/
theorem MagnitudeRounds.rounds_to {encodedExponent fraction : Nat}
    (small : x < overflowThreshold) (rounds : MagnitudeRounds x encodedExponent fraction)
    (fields : result.HasFields negative encodedExponent fraction) :
    RoundsTo exact zeroSign result := by
  have size := signed_size positive signed
  have distance : |exact - result.value| = |x - magnitude encodedExponent fraction| := by
    rw [signed_distance positive signed result, fields.sign, fields.exponent, fields.fraction, if_pos rfl]
  constructor
  case sign => rw [fields.sign, ← signed_sign positive signed zeroSign]
  case overflows => exact fun large => absurd (size ▸ large) (not_le.mpr small)
  case finite =>
    intro _
    rw [isFinite, fields.exponent]
    exact rounds.exponentFits.ne
  case nearest =>
    intro _ other _
    rw [distance]
    exact (rounds.nearest _ _ other.fraction_lt).trans (magnitude_distance_le positive signed other)
  case tiesToEven =>
    intro _ other _ different tie
    rw [even_bits_iff, fields.fraction]
    by_cases same : magnitude other.exponent other.fraction = magnitude encodedExponent fraction
    · -- equal magnitudes of opposite sign are equally far only when both are zero
      have opposite : other.isNegative ≠ negative := by
        intro equal
        apply different
        rw [value, value, equal, fields.sign, same, fields.exponent, fields.fraction]
      rw [distance, signed_distance positive signed other, if_neg opposite, same] at tie
      have zero : magnitude encodedExponent fraction = 0 := by
        rcases abs_cases (x - magnitude encodedExponent fraction) with ⟨equal, _⟩ | ⟨equal, _⟩ <;>
          linarith
      rw [(magnitude_eq_zero_iff.mp zero).2]
      exact Even.zero
    · apply rounds.even _ _ other.fraction_lt same
      rw [distance] at tie
      apply le_antisymm
      · exact (magnitude_distance_le positive signed other).trans tie.le
      · exact rounds.nearest _ _ other.fraction_lt

theorem overflow_rounds_to (large : overflowThreshold ≤ x)
    (fields : result.HasFields negative maxExponent 0) : RoundsTo exact zeroSign result := by
  have size := signed_size positive signed
  have notSmall : ¬ |exact| < overflowThreshold := not_lt.mpr (size ▸ large)
  constructor
  case sign => rw [fields.sign, ← signed_sign positive signed zeroSign]
  case overflows =>
    intro _
    simp [isInfinite, fields.exponent, fields.fraction]
  case finite => exact fun small => absurd small notSmall
  case nearest => exact fun small => absurd small notSmall
  case tiesToEven => exact fun small => absurd small notSmall

end Signed

theorem zero_rounds_to (zeroSign : Bool) : RoundsTo 0 zeroSign (zero zeroSign) := by
  have fields := zero_fields zeroSign
  have resultValue : (zero zeroSign).value = 0 := by
    rw [value_eq_zero_iff, isZero, fields.exponent, fields.fraction]
    decide
  constructor
  case sign => rw [fields.sign, if_pos rfl]
  case overflows =>
    intro large
    exact absurd large (not_le.mpr overflow_threshold_pos)
  case finite =>
    intro _
    rw [isFinite, fields.exponent]
    decide
  case nearest =>
    intro _ other _
    rw [resultValue, sub_self, abs_zero]
    exact abs_nonneg _
  case tiesToEven =>
    intro _ other _ different tie
    rw [resultValue, sub_self, abs_zero, zero_sub, abs_neg, abs_eq_zero] at tie
    exact absurd (tie.trans resultValue.symm) different

section Normal

variable {x : ℚ} {exponent : ℤ} {s : Nat}

private theorem unit_scale (exponent : ℤ) :
    (2 : ℚ) ^ exponent = (((2 ^ 112 : Nat) : ℤ) : ℚ) * 2 ^ (exponent - 112) := by
  rw [cast_natCast, Nat.cast_pow, Nat.cast_ofNat, ← zpow_natCast, ← zpow_add₀ (by norm_num)]
  congr 1
  ring

/-- The rounded significand of a number with leading bit `2 ^ exponent` has 113
bits, or is the next power of two. -/
theorem significand_bounds (lower : 2 ^ exponent ≤ x) (upper : x < 2 ^ (exponent + 1))
    (nearest : NearestEven (x / 2 ^ (exponent - 112)) s) : 2 ^ 112 ≤ s ∧ s ≤ 2 ^ 113 := by
  have unit : (0 : ℚ) < 2 ^ (exponent - 112) := by positivity
  have floor : (((2 ^ 112 : Nat) : ℤ) : ℚ) ≤ x / 2 ^ (exponent - 112) := by
    rw [le_div_iff₀ unit, ← unit_scale]
    exact lower
  have ceiling : x / 2 ^ (exponent - 112) ≤ (((2 ^ 113 : Nat) : ℤ) : ℚ) := by
    rw [div_le_iff₀ unit]
    have doubled : (2 : ℚ) ^ (exponent + 1) = 2 * 2 ^ exponent := by
      rw [zpow_add₀ (by norm_num), zpow_one, mul_comm]
    have scale := unit_scale exponent
    push_cast at scale ⊢
    linarith
  exact ⟨ofNat_le.mp (nearest.le_of_le floor), ofNat_le.mp (nearest.le_of_ge ceiling)⟩

theorem normal_rounds (normal : -16382 ≤ exponent) (lower : 2 ^ exponent ≤ x)
    (nearest : NearestEven (x / 2 ^ (exponent - 112)) s) {encodedExponent fraction : Nat}
    (exponentFits : encodedExponent < maxExponent) (fractionFits : fraction < 2 ^ 112)
    (encoded : magnitude encodedExponent fraction = s * 2 ^ (exponent - 112))
    (parity : Even s → Even fraction) : MagnitudeRounds x encodedExponent fraction :=
  magnitude_rounds_of_nearest exponentFits fractionFits (by positivity) nearest ⟨_, unit_scale exponent⟩
    lower (fun _ _ fits => magnitude_on_lattice fits normal) encoded parity

theorem normal_magnitude (normal : -16382 ≤ exponent) (large : 2 ^ 112 ≤ s) :
    magnitude (exponent + 16383).toNat (s - 2 ^ 112) = s * 2 ^ (exponent - 112) := by
  have positive : (exponent + 16383).toNat ≠ 0 := by omega
  have power : (((exponent + 16383).toNat : Nat) : ℤ) - 16495 = exponent - 112 := by omega
  rw [magnitude, if_neg positive, power, Nat.cast_sub large]
  ring

/-- Rounding to a power of two carries into the exponent field. -/
theorem carried_magnitude (normal : -16382 ≤ exponent) :
    magnitude (exponent + 1 + 16383).toNat 0 = ((2 ^ 113 : Nat) : ℚ) * 2 ^ (exponent - 112) := by
  have positive : (exponent + 1 + 16383).toNat ≠ 0 := by omega
  have power : (((exponent + 1 + 16383).toNat : Nat) : ℤ) - 16495 = exponent - 112 + 1 := by omega
  rw [magnitude, if_neg positive, power, zpow_add₀ (by norm_num)]
  ring

theorem below_threshold_of_lt {power : ℤ} (upper : x < 2 ^ power) (small : power ≤ 16383) :
    x < overflowThreshold := by
  have monotone : (2 : ℚ) ^ power ≤ 2 ^ (16383 : ℤ) := zpow_le_zpow_right₀ (by norm_num) small
  have half : (2 : ℚ) ^ (16270 : ℤ) ≤ 2 ^ (16383 : ℤ) := zpow_le_zpow_right₀ (by norm_num) (by norm_num)
  have doubled : (2 : ℚ) ^ (16384 : ℤ) = 2 ^ (16383 : ℤ) * 2 := by
    rw [← zpow_add_one₀ (by norm_num)]
    norm_num
  calc
    x < 2 ^ (16383 : ℤ) := upper.trans_le monotone
    _ = 2 ^ (16384 : ℤ) - 2 ^ (16383 : ℤ) := by rw [doubled, mul_two, add_sub_cancel_right]
    _ ≤ overflowThreshold := sub_le_sub_left half _

/-- In the top binade the significand overflows exactly from the threshold on:
the largest significand is odd, so the tie goes up. -/
theorem top_binade (nearest : NearestEven (x / 2 ^ ((16383 : ℤ) - 112)) s) (bound : s ≤ 2 ^ 113) :
    s = 2 ^ 113 ↔ overflowThreshold ≤ x := by
  have unit : (0 : ℚ) < 2 ^ ((16383 : ℤ) - 112) := by positivity
  have scaled : overflowThreshold = (2 ^ 113 - 1 / 2) * 2 ^ ((16383 : ℤ) - 112) := by
    have top : (2 : ℚ) ^ (16384 : ℤ) = 2 ^ 113 * 2 ^ ((16383 : ℤ) - 112) := by
      rw [← zpow_natCast, ← zpow_add₀ (by norm_num)]
      norm_num
    have half : (2 : ℚ) ^ ((16383 : ℤ) - 112) = 2 ^ (16270 : ℤ) * 2 := by
      rw [← zpow_add_one₀ (by norm_num)]
      norm_num
    rw [overflowThreshold, top, half]
    ring
  rw [scaled, ← le_div_iff₀ unit]
  generalize x / 2 ^ ((16383 : ℤ) - 112) = quotient at nearest
  have close := abs_le.mp nearest.close
  constructor
  · rintro rfl
    linarith
  · intro large
    by_contra different
    have smaller : s + 1 ≤ 2 ^ 113 := by omega
    have cast : (s : ℚ) + 1 ≤ 2 ^ 113 := by exact_mod_cast smaller
    have above := close.2
    push_cast at above
    have odd : s = 2 ^ 113 - 1 := by
      have sum : ((s + 1 : Nat) : ℚ) = ((2 ^ 113 : Nat) : ℚ) := by
        push_cast
        linarith
      have integers : s + 1 = 2 ^ 113 := by exact_mod_cast sum
      omega
    have tie : |quotient - ((s : ℤ) : ℚ)| = 1 / 2 := by
      rw [cast_natCast, abs_of_nonneg (by linarith)]
      linarith
    have even := nearest.even tie
    rw [even_iff] at even
    omega

end Normal

section Subnormal

variable {x : ℚ} {s : Nat}

theorem subnormal_bound (upper : x < 2 ^ (-16382 : ℤ))
    (nearest : NearestEven (x / 2 ^ (-16494 : ℤ)) s) : s ≤ 2 ^ 112 := by
  have unit : (0 : ℚ) < 2 ^ (-16494 : ℤ) := by positivity
  have ceiling : x / 2 ^ (-16494 : ℤ) ≤ (((2 ^ 112 : Nat) : ℤ) : ℚ) := by
    rw [div_le_iff₀ unit]
    exact (unit_scale (-16382)) ▸ upper.le
  exact ofNat_le.mp (nearest.le_of_ge ceiling)

theorem subnormal_rounds (positive : 0 < x) (nearest : NearestEven (x / 2 ^ (-16494 : ℤ)) s)
    {encodedExponent fraction : Nat} (exponentFits : encodedExponent < maxExponent)
    (fractionFits : fraction < 2 ^ 112)
    (encoded : magnitude encodedExponent fraction = s * 2 ^ (-16494 : ℤ))
    (parity : Even s → Even fraction) : MagnitudeRounds x encodedExponent fraction :=
  magnitude_rounds_of_nearest exponentFits fractionFits (by positivity) nearest
    ⟨0, by rw [cast_zero, zero_mul]⟩ positive.le
    (fun _ otherFraction _ => .inr (magnitude_on_subnormal_lattice otherFraction)) encoded parity

theorem subnormal_magnitude (s : Nat) : magnitude 0 s = s * 2 ^ (-16494 : ℤ) := by
  rw [magnitude, if_pos rfl]

theorem smallest_normal_magnitude :
    magnitude 1 0 = ((2 ^ 112 : Nat) : ℚ) * 2 ^ (-16494 : ℤ) := by
  have power : ((1 : Nat) : ℤ) - 16495 = -16494 := by norm_num
  rw [magnitude, if_neg (by decide), power, Nat.cast_zero, add_zero, Nat.cast_pow, Nat.cast_two]

end Subnormal

section Packing

variable {x exact : ℚ} {negative : Bool} {s : Nat} (zeroSign : Bool) (positive : 0 < x)
  (signed : exact = if negative then -x else x)

include positive signed

theorem pack_normal_rounds_to {exponent : ℤ} (normal : -16382 ≤ exponent)
    (inRange : exponent ≤ 16383) (lower : 2 ^ exponent ≤ x) (upper : x < 2 ^ (exponent + 1))
    (nearest : NearestEven (x / 2 ^ (exponent - 112)) s) :
    RoundsTo exact zeroSign (packNormal negative exponent s) := by
  obtain ⟨large, bound⟩ := significand_bounds lower upper nearest
  have carries : fractionBits + 1 < s.size ↔ 2 ^ 113 ≤ s := Nat.lt_size
  have bias : exponentBias = 16383 := rfl
  have hidden : two112 = 2 ^ 112 := rfl
  have last : maxExponent = 32767 := rfl
  unfold packNormal
  split_ifs with carry overflow
  · have top : exponent = 16383 := by omega
    subst top
    have full : s = 2 ^ 113 := le_antisymm bound (carries.mp carry)
    exact overflow_rounds_to positive signed zeroSign ((top_binade nearest bound).mp full)
      (infinity_fields negative)
  · obtain rfl : s = 2 ^ 113 := le_antisymm bound (carries.mp carry)
    have rounds := normal_rounds normal lower nearest (by omega) (by decide)
      (carried_magnitude normal) (fun _ => Even.zero)
    exact rounds.rounds_to positive signed zeroSign
      (below_threshold_of_lt upper (by omega)) (pack_fields negative (by omega) (by decide))
  · have small : s < 2 ^ 113 := not_le.mp (mt carries.mpr carry)
    have belowThreshold : x < overflowThreshold := by
      rcases inRange.lt_or_eq with below | top
      · exact below_threshold_of_lt upper (by omega)
      · subst top
        exact not_le.mp (mt (top_binade nearest bound).mpr small.ne)
    have rounds := normal_rounds normal lower nearest (by omega) (by omega)
      (normal_magnitude normal large) (fun even => by rw [Nat.even_iff] at even ⊢; omega)
    exact rounds.rounds_to positive signed zeroSign belowThreshold
      (pack_fields negative (by omega) (by omega))

theorem pack_subnormal_rounds_to (upper : x < 2 ^ (-16382 : ℤ))
    (nearest : NearestEven (x / 2 ^ (-16494 : ℤ)) s) :
    RoundsTo exact zeroSign (packSubnormal negative s) := by
  have bound := subnormal_bound upper nearest
  have belowThreshold := below_threshold_of_lt upper (by norm_num)
  have hidden : two112 = 2 ^ 112 := rfl
  unfold packSubnormal
  split_ifs with zero smallest
  · subst zero
    have rounds := subnormal_rounds positive nearest (by decide) (by decide)
      (subnormal_magnitude 0) id
    exact rounds.rounds_to positive signed zeroSign belowThreshold (zero_fields negative)
  · obtain rfl : s = 2 ^ 112 := le_antisymm bound smallest
    have rounds := subnormal_rounds positive nearest (by decide) (by decide)
      smallest_normal_magnitude (fun _ => Even.zero)
    exact rounds.rounds_to positive signed zeroSign belowThreshold
      (pack_fields negative (by decide) (by decide))
  · have rounds := subnormal_rounds positive nearest (by decide) (by omega)
      (subnormal_magnitude s) id
    exact rounds.rounds_to positive signed zeroSign belowThreshold
      (pack_fields negative (by decide) (by omega))

end Packing

theorem scaled_round_nearest (positive : 0 < denominator) (scale : ℤ) :
    NearestEven ((numerator : ℚ) / denominator * 2 ^ scale)
      (if 0 ≤ scale then roundToEven (numerator <<< scale.toNat) denominator
        else roundToEven numerator (denominator <<< (-scale).toNat) : Nat) := by
  rw [← scaled_quotient]
  split_ifs
  · exact round_to_even_nearest _ positive
  · apply round_to_even_nearest
    rw [Nat.shiftLeft_eq]
    positivity

theorem signed_quotient {signedNumerator denominator : Int} (nonzero : signedNumerator ≠ 0)
    (divisor : denominator ≠ 0) : (signedNumerator : ℚ) / denominator =
      if decide (signedNumerator.sign ≠ denominator.sign) = true
      then -((signedNumerator.natAbs : ℚ) / denominator.natAbs)
      else (signedNumerator.natAbs : ℚ) / denominator.natAbs := by
  rcases lt_or_gt_of_ne nonzero with below | above <;> rcases lt_or_gt_of_ne divisor with negative | positive
  all_goals simp [sign_eq_neg_one_of_neg, sign_eq_one_of_pos, abs_of_neg, abs_of_pos, neg_div, div_neg, *]

theorem from_rational_rounds_to (signedNumerator : Int) {denominator : Int}
    (divisor : denominator ≠ 0) (negativeZero : Bool) :
    RoundsTo ((signedNumerator : ℚ) / denominator) negativeZero
      (fromRational signedNumerator denominator negativeZero) := by
  have bias : exponentBias = 16383 := rfl
  by_cases zero : signedNumerator = 0
  · subst zero
    rw [cast_zero, zero_div]
    exact zero_rounds_to negativeZero
  have signed := signed_quotient zero divisor
  have numeratorPositive : 0 < signedNumerator.natAbs := natAbs_pos.mpr zero
  have denominatorPositive : 0 < denominator.natAbs := natAbs_pos.mpr divisor
  have positive : (0 : ℚ) < (signedNumerator.natAbs : ℚ) / denominator.natAbs := by positivity
  obtain ⟨lower, upper⟩ := floor_log2_spec numeratorPositive denominatorPositive
  have scaled := scaled_round_nearest signedNumerator.natAbs denominatorPositive
  simp only [fromRational, sign_eq_zero_iff_zero, if_neg zero]
  by_cases huge : exponentBias < floorLog2 signedNumerator.natAbs denominator.natAbs
  · have large : overflowThreshold ≤ (signedNumerator.natAbs : ℚ) / denominator.natAbs :=
      calc
        overflowThreshold ≤ 2 ^ (16384 : ℤ) := sub_le_self _ (by positivity)
        _ ≤ 2 ^ floorLog2 signedNumerator.natAbs denominator.natAbs :=
          zpow_le_zpow_right₀ (by norm_num) (by omega)
        _ ≤ _ := lower
    rw [if_pos huge]
    exact overflow_rounds_to positive signed negativeZero large (infinity_fields _)
  rw [if_neg huge]
  by_cases normal : 1 - exponentBias ≤ floorLog2 signedNumerator.natAbs denominator.natAbs
  · rw [if_pos normal]
    apply pack_normal_rounds_to negativeZero positive signed (by omega) (by omega) lower upper
    rw [div_eq_mul_inv _ ((2 : ℚ) ^ (_ - 112 : ℤ)), ← zpow_neg, neg_sub]
    exact scaled ((fractionBits : ℤ) - floorLog2 signedNumerator.natAbs denominator.natAbs)
  · have tiny : floorLog2 signedNumerator.natAbs denominator.natAbs + 1 ≤ -16382 := by omega
    rw [if_neg normal]
    apply pack_subnormal_rounds_to negativeZero positive signed
      (upper.trans_le (zpow_le_zpow_right₀ (by norm_num) tiny))
    have nearest := scaled 16494
    rw [if_pos (by norm_num), ← div_inv_eq_mul, ← zpow_neg] at nearest
    exact nearest

end F128

end RustcCodegenJvm.Runtime
