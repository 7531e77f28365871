import RustcCodegenJvm.Runtime.F128Rounding

/-!
# The binary128 operations round once

Each operation on finite operands computes an exact rational from the operands'
rationals and rounds it with `fromRational`. The exceptional branches (NaN and
infinities) are not reached; zeros are, and decide the sign of an exact zero.
-/

namespace RustcCodegenJvm.Runtime.F128

/-- What a quotient of integers stands for; the denominator is kept positive. -/
structure Rational.Represents (rational : Rational) (value : ℚ) : Prop where
  positive : 0 < rational.denominator
  quotient : (rational.numerator : ℚ) / rational.denominator = value

theorem dyadic_represents (significand : Nat) (power : Int) :
    (dyadic significand power).Represents (significand * 2 ^ power) := by
  have scaled := scaled_quotient significand 1 power
  rw [Nat.cast_one, div_one (significand : ℚ)] at scaled
  rw [← scaled, dyadic]
  split_ifs
  · exact ⟨Int.one_pos, by rw [Int.cast_natCast, Int.cast_one]⟩
  · refine ⟨?_, by rw [Int.cast_natCast, Int.cast_natCast]⟩
    rw [Nat.shiftLeft_eq]
    positivity

theorem finite_rational_represents (this : F128) : this.finiteRational.Represents this.value := by
  have bias : exponentBias = 16383 := rfl
  have bits : (fractionBits : ℤ) = 112 := rfl
  have hidden : ((two112 : Nat) : ℚ) = 2 ^ 112 := by
    rfl
  have size : (if this.exponent = 0 then dyadic this.fraction (1 - exponentBias - fractionBits)
      else dyadic (this.fraction + two112) (this.exponent - exponentBias - fractionBits)).Represents
      (magnitude this.exponent this.fraction) := by
    unfold magnitude
    split_ifs
    · rw [show (-16494 : ℤ) = 1 - exponentBias - fractionBits by omega]
      exact dyadic_represents _ _
    · rw [show (this.exponent : ℤ) - 16495 = this.exponent - exponentBias - fractionBits by omega,
        add_comm, ← hidden, ← Nat.cast_add]
      exact dyadic_represents _ _
  simp only [finiteRational, value]
  generalize (if this.exponent = 0 then dyadic this.fraction (1 - exponentBias - fractionBits)
      else dyadic (this.fraction + two112) (this.exponent - exponentBias - fractionBits)) = rational
    at size ⊢
  split_ifs
  · exact ⟨size.positive, by rw [Int.cast_neg, neg_div, size.quotient]⟩
  · exact size

section Exact

variable {left right : Rational} {leftValue rightValue : ℚ} (represents : left.Represents leftValue)

include represents

theorem Rational.Represents.numerator_eq :
    (left.numerator : ℚ) = leftValue * left.denominator := by
  have positive : (0 : ℚ) < left.denominator := by exact_mod_cast represents.positive
  rw [← represents.quotient, div_mul_cancel₀ _ positive.ne']

theorem Rational.Represents.denominator_ne_zero :
    (left.denominator : ℚ) ≠ 0 := by
  exact_mod_cast represents.positive.ne'

theorem Rational.Represents.numerator_ne_zero
    (nonzero : leftValue ≠ 0) : left.numerator ≠ 0 := by
  intro zero
  apply nonzero
  rw [← represents.quotient, zero, Int.cast_zero, zero_div]

end Exact

theorem is_nan_of_finite {this : F128} (finite : this.isFinite) : this.isNaN = false := by
  simp [isNaN, show ¬ this.exponent = maxExponent from finite]

theorem is_infinite_of_finite {this : F128} (finite : this.isFinite) : this.isInfinite = false := by
  simp [isInfinite, show ¬ this.exponent = maxExponent from finite]

section Operations

variable {left right addend : F128}

/-- A sum of two values is zero only by cancellation or between two zeros. -/
theorem opposite_of_cancel {left right : F128} (nonzero : left.isZero = false)
    (cancel : left.value + right.value = 0) : (left.isNegative && right.isNegative) = false := by
  have leftValue : left.value ≠ 0 := by
    intro zero
    rw [value_eq_zero_iff, nonzero] at zero
    exact Bool.false_ne_true zero
  have leftSize := magnitude_nonneg left.exponent left.fraction
  have rightSize := magnitude_nonneg right.exponent right.fraction
  by_contra both
  obtain ⟨leftNegative, rightNegative⟩ : left.isNegative = true ∧ right.isNegative = true := by
    simpa using both
  rw [value, value, if_pos leftNegative, if_pos rightNegative] at cancel
  apply leftValue
  rw [value, if_pos leftNegative]
  linarith

/-- The zero sign only matters when the exact result is zero. -/
theorem RoundsTo.zero_sign {exact : ℚ} {zeroSign other : Bool} {result : F128}
    (rounds : RoundsTo exact zeroSign result) (agrees : exact = 0 → zeroSign = other) :
    RoundsTo exact other result where
  sign := by
    rw [rounds.sign]
    split_ifs with zero
    · exact agrees zero
    · rfl
  overflows := rounds.overflows
  finite := rounds.finite
  nearest := rounds.nearest
  tiesToEven := rounds.tiesToEven

theorem add_rounds_to (leftFinite : left.isFinite) (rightFinite : right.isFinite) :
    RoundsTo (left.value + right.value) (left.isNegative && right.isNegative) (left.add right) := by
  have leftRational := left.finite_rational_represents
  have rightRational := right.finite_rational_represents
  simp only [add, is_nan_of_finite leftFinite, is_nan_of_finite rightFinite,
    is_infinite_of_finite leftFinite, is_infinite_of_finite rightFinite, Bool.false_eq_true,
    or_self, if_false]
  by_cases zeros : left.isZero = true ∧ right.isZero = true
  · rw [if_pos zeros, (value_eq_zero_iff left).mpr zeros.1, (value_eq_zero_iff right).mpr zeros.2,
      add_zero]
    exact zero_rounds_to _
  · rw [if_neg zeros]
    have rounds := from_rational_rounds_to
      (left.finiteRational.numerator * right.finiteRational.denominator +
        right.finiteRational.numerator * left.finiteRational.denominator)
      (mul_ne_zero leftRational.positive.ne' rightRational.positive.ne') false
    have quotient : (((left.finiteRational.numerator * right.finiteRational.denominator +
        right.finiteRational.numerator * left.finiteRational.denominator : Int)) : ℚ) /
        ((left.finiteRational.denominator * right.finiteRational.denominator : Int) : ℚ) =
        left.value + right.value := by
      have leftDenominator := leftRational.denominator_ne_zero
      have rightDenominator := rightRational.denominator_ne_zero
      push_cast
      rw [leftRational.numerator_eq, rightRational.numerator_eq]
      field_simp
    rw [quotient] at rounds
    apply rounds.zero_sign
    intro cancel
    symm
    cases leftZero : left.isZero
    · exact opposite_of_cancel leftZero cancel
    · have rightNonzero : right.isZero = false := by
        rw [leftZero] at zeros
        simpa using zeros
      rw [Bool.and_comm]
      exact opposite_of_cancel rightNonzero (by rw [add_comm]; exact cancel)

theorem negate_value (this : F128) : this.negate.value = -this.value := by
  have fields := this.negate_fields
  rw [value, value, fields.sign, fields.exponent, fields.fraction]
  cases this.isNegative
  · rfl
  · exact (neg_neg _).symm

section

variable (leftFinite : left.isFinite)

include leftFinite

variable (rightFinite : right.isFinite)

include rightFinite

theorem subtract_rounds_to :
    RoundsTo (left.value - right.value) (left.isNegative && !right.isNegative)
      (left.subtract right) := by
  have fields := right.negate_fields
  have negateFinite : right.negate.isFinite := by
    rw [isFinite, fields.exponent]
    exact rightFinite
  rw [sub_eq_add_neg, ← negate_value, ← fields.sign]
  exact add_rounds_to leftFinite negateFinite

theorem multiply_of_zero (zeros : left.isZero = true ∨ right.isZero = true) :
    left.multiply right = zero (left.isNegative ^^ right.isNegative) := by
  simp only [multiply, is_nan_of_finite leftFinite, is_nan_of_finite rightFinite,
    is_infinite_of_finite leftFinite, is_infinite_of_finite rightFinite, Bool.false_eq_true,
    or_self, false_and, and_false, if_false]
  rw [if_pos zeros]

theorem multiply_rounds_to :
    RoundsTo (left.value * right.value) (left.isNegative ^^ right.isNegative)
      (left.multiply right) := by
  have leftRational := left.finite_rational_represents
  have rightRational := right.finite_rational_represents
  by_cases zeros : left.isZero = true ∨ right.isZero = true
  · have product : left.value * right.value = 0 := by
      rw [mul_eq_zero, value_eq_zero_iff, value_eq_zero_iff]
      exact zeros
    rw [multiply_of_zero leftFinite rightFinite zeros, product]
    exact zero_rounds_to _
  · simp only [multiply, is_nan_of_finite leftFinite, is_nan_of_finite rightFinite,
      is_infinite_of_finite leftFinite, is_infinite_of_finite rightFinite, Bool.false_eq_true,
      or_self, false_and, and_false, if_false]
    rw [if_neg zeros]
    have rounds := from_rational_rounds_to
      (left.finiteRational.numerator * right.finiteRational.numerator)
      (mul_ne_zero leftRational.positive.ne' rightRational.positive.ne')
      (left.isNegative ^^ right.isNegative)
    have quotient : ((left.finiteRational.numerator * right.finiteRational.numerator : Int) : ℚ) /
        ((left.finiteRational.denominator * right.finiteRational.denominator : Int) : ℚ) =
        left.value * right.value := by
      push_cast
      rw [mul_div_mul_comm, leftRational.quotient, rightRational.quotient]
    rw [quotient] at rounds
    exact rounds

theorem divide_rounds_to (nonzero : right.value ≠ 0) :
    RoundsTo (left.value / right.value) (left.isNegative ^^ right.isNegative)
      (left.divide right) := by
  have leftRational := left.finite_rational_represents
  have rightRational := right.finite_rational_represents
  have rightNonzero : right.isZero = false := by
    rw [← Bool.not_eq_true, ← value_eq_zero_iff]
    exact nonzero
  simp only [divide, is_nan_of_finite leftFinite, is_nan_of_finite rightFinite,
    is_infinite_of_finite leftFinite, is_infinite_of_finite rightFinite, rightNonzero,
    Bool.false_eq_true, or_self, and_false, or_false, if_false]
  by_cases zero : left.isZero = true
  · rw [if_pos zero, (value_eq_zero_iff left).mpr zero, zero_div]
    exact zero_rounds_to _
  · rw [if_neg zero]
    have rounds := from_rational_rounds_to
      (left.finiteRational.numerator * right.finiteRational.denominator)
      (mul_ne_zero leftRational.positive.ne' (rightRational.numerator_ne_zero nonzero))
      (left.isNegative ^^ right.isNegative)
    have quotient : ((left.finiteRational.numerator * right.finiteRational.denominator : Int) : ℚ) /
        ((left.finiteRational.denominator * right.finiteRational.numerator : Int) : ℚ) =
        left.value / right.value := by
      push_cast
      rw [← leftRational.quotient, ← rightRational.quotient, div_div_div_eq]
    rw [quotient] at rounds
    exact rounds

end

theorem value_sign {this : F128} (nonzero : this.value ≠ 0) : this.isNegative = decide (this.value < 0) := by
  have size := magnitude_nonneg this.exponent this.fraction
  rw [eq_comm, Bool.eq_iff_iff, decide_eq_true_iff]
  unfold value at nonzero ⊢
  split_ifs at nonzero ⊢ with negative
  · simp only [negative, iff_true]
    exact lt_of_le_of_ne (neg_nonpos.mpr size) nonzero
  · simp only [negative, iff_false, not_lt, Bool.false_eq_true]
    exact size

theorem product_sign (leftNonzero : left.value ≠ 0) (rightNonzero : right.value ≠ 0) :
    (left.isNegative ^^ right.isNegative) = decide (left.value * right.value < 0) := by
  rw [value_sign leftNonzero, value_sign rightNonzero]
  rcases lt_or_gt_of_ne leftNonzero with leftSign | leftSign <;>
    rcases lt_or_gt_of_ne rightNonzero with rightSign | rightSign <;>
    simp [leftSign, rightSign, leftSign.not_gt, rightSign.not_gt, mul_neg_iff]

/-- A product cancelled by the addend has the opposite sign. -/
theorem opposite_of_product_cancel
    (nonzero : ¬ ((left.isZero = true ∨ right.isZero = true) ∧ addend.isZero = true))
    (cancel : left.value * right.value + addend.value = 0) :
    ((left.isNegative ^^ right.isNegative) && addend.isNegative) = false := by
  have sum : addend.value = -(left.value * right.value) := by linarith
  have productNonzero : left.value * right.value ≠ 0 := by
    intro product
    apply nonzero
    rw [← value_eq_zero_iff, ← value_eq_zero_iff, ← value_eq_zero_iff, ← mul_eq_zero]
    exact ⟨product, by rw [sum, product, neg_zero]⟩
  have addendNonzero : addend.value ≠ 0 := by
    rw [sum]
    exact neg_ne_zero.mpr productNonzero
  rw [product_sign (left_ne_zero_of_mul productNonzero) (right_ne_zero_of_mul productNonzero),
    value_sign addendNonzero, sum, Bool.and_eq_false_iff, decide_eq_false_iff_not,
    decide_eq_false_iff_not, neg_lt_zero, not_lt, not_lt]
  exact le_total _ _

theorem fused_multiply_add_rounds_to (leftFinite : left.isFinite) (rightFinite : right.isFinite)
    (addendFinite : addend.isFinite) : RoundsTo (left.value * right.value + addend.value)
      ((left.isNegative ^^ right.isNegative) && addend.isNegative)
      (left.fusedMultiplyAdd right addend) := by
  have leftRational := left.finite_rational_represents
  have rightRational := right.finite_rational_represents
  have addendRational := addend.finite_rational_represents
  simp only [fusedMultiplyAdd, is_nan_of_finite leftFinite, is_nan_of_finite rightFinite,
    is_nan_of_finite addendFinite, is_infinite_of_finite leftFinite,
    is_infinite_of_finite rightFinite, is_infinite_of_finite addendFinite, Bool.false_eq_true,
    or_self, if_false]
  by_cases zeros : (left.isZero = true ∨ right.isZero = true) ∧ addend.isZero = true
  · have fields := zero_fields (left.isNegative ^^ right.isNegative)
    have productFinite : (zero (left.isNegative ^^ right.isNegative)).isFinite := by
      rw [isFinite, fields.exponent]
      decide
    have productValue : (zero (left.isNegative ^^ right.isNegative)).value = 0 := by
      rw [value_eq_zero_iff, isZero, fields.exponent, fields.fraction]
      decide
    have product : left.value * right.value = 0 := by
      rw [mul_eq_zero, value_eq_zero_iff, value_eq_zero_iff]
      exact zeros.1
    have rounds := add_rounds_to productFinite addendFinite
    rw [fields.sign, productValue] at rounds
    rw [if_pos zeros, multiply_of_zero leftFinite rightFinite zeros.1, product]
    exact rounds
  · rw [if_neg zeros]
    have denominators : left.finiteRational.denominator * right.finiteRational.denominator *
        addend.finiteRational.denominator ≠ 0 :=
      mul_ne_zero (mul_ne_zero leftRational.positive.ne' rightRational.positive.ne')
        addendRational.positive.ne'
    have rounds := from_rational_rounds_to
      (left.finiteRational.numerator * right.finiteRational.numerator *
          addend.finiteRational.denominator + addend.finiteRational.numerator *
            (left.finiteRational.denominator * right.finiteRational.denominator))
      denominators false
    have quotient : ((left.finiteRational.numerator * right.finiteRational.numerator *
          addend.finiteRational.denominator + addend.finiteRational.numerator *
            (left.finiteRational.denominator * right.finiteRational.denominator) : Int) : ℚ) /
        ((left.finiteRational.denominator * right.finiteRational.denominator *
          addend.finiteRational.denominator : Int) : ℚ) =
        left.value * right.value + addend.value := by
      have leftDenominator := leftRational.denominator_ne_zero
      have rightDenominator := rightRational.denominator_ne_zero
      have addendDenominator := addendRational.denominator_ne_zero
      push_cast
      rw [leftRational.numerator_eq, rightRational.numerator_eq, addendRational.numerator_eq]
      field_simp
    rw [quotient] at rounds
    exact rounds.zero_sign fun cancel => (opposite_of_product_cancel zeros cancel).symm

end Operations

theorem correctly_rounded (left right addend : F128) (leftFinite : left.isFinite)
    (rightFinite : right.isFinite) (addendFinite : addend.isFinite) :
    RoundsTo (left.value + right.value) (left.isNegative && right.isNegative) (left.add right) ∧
    RoundsTo (left.value - right.value) (left.isNegative && !right.isNegative)
      (left.subtract right) ∧
    RoundsTo (left.value * right.value) (left.isNegative ^^ right.isNegative)
      (left.multiply right) ∧
    (right.value ≠ 0 → RoundsTo (left.value / right.value) (left.isNegative ^^ right.isNegative)
      (left.divide right)) ∧ RoundsTo (left.value * right.value + addend.value)
      ((left.isNegative ^^ right.isNegative) && addend.isNegative)
      (left.fusedMultiplyAdd right addend) :=
  ⟨add_rounds_to leftFinite rightFinite, subtract_rounds_to leftFinite rightFinite,
    multiply_rounds_to leftFinite rightFinite, divide_rounds_to leftFinite rightFinite,
    fused_multiply_add_rounds_to leftFinite rightFinite addendFinite⟩

/-- The smallest subnormal, one, and the largest finite value are operands. -/
theorem correctly_rounded_extremes :
    RoundsTo ((⟨0#64, 1#64⟩ : F128).value + (⟨0x3fff000000000000#64, 0#64⟩ : F128).value) false
      ((⟨0#64, 1#64⟩ : F128).add ⟨0x3fff000000000000#64, 0#64⟩) :=
  (correctly_rounded ⟨0#64, 1#64⟩ ⟨0x3fff000000000000#64, 0#64⟩
    ⟨0x7ffeffffffffffff#64, 0xffffffffffffffff#64⟩ (by unfold isFinite; decide)
    (by unfold isFinite; decide) (by unfold isFinite; decide)).1

end RustcCodegenJvm.Runtime.F128
