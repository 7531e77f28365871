import Mathlib

/-!
# Detecting overflow in wrapped arithmetic

Bit vectors as signed or unsigned integers, the integers a width can hold, and
the tests on wrapped results that decide whether the exact result is one of
them: comparisons for unsigned sums and differences, sign bits for signed ones,
and dividing a product back.
-/

namespace RustcCodegenJvm.Library.Overflow

open Int

def number {width : Nat} (signed : Bool) (bits : BitVec width) : Int :=
  if signed then bits.toInt else bits.toNat

def Fits (width : Nat) (signed : Bool) (exact : Int) : Prop :=
  if signed then -2 ^ (width - 1) ≤ exact ∧ exact < 2 ^ (width - 1) else 0 ≤ exact ∧ exact < 2 ^ width

instance (width : Nat) (signed : Bool) (exact : Int) : Decidable (Fits width signed exact) := by
  unfold Fits
  infer_instance

variable {width : Nat}

theorem signed_number (bits : BitVec width) : number true bits = bits.toInt := rfl

theorem unsigned_number (bits : BitVec width) : number false bits = bits.toNat := rfl

theorem fits_signed (exact : Int) :
    Fits width true exact ↔ -2 ^ (width - 1) ≤ exact ∧ exact < 2 ^ (width - 1) := Iff.rfl

theorem fits_unsigned (exact : Int) :
    Fits width false exact ↔ 0 ≤ exact ∧ exact < 2 ^ width := Iff.rfl

theorem double_half (positive : 0 < width) : (2 : Int) ^ width = 2 * 2 ^ (width - 1) := by
  rw [← pow_succ', Nat.sub_add_cancel positive]

theorem half_wraps (positive : 0 < width) : ((2 : Int) ^ (width - 1)).bmod (2 ^ width) = -2 ^ (width - 1) := by
  have half := double_half positive
  have halfPositive : (0 : Int) < 2 ^ (width - 1) := by positivity
  have modulus : ((2 ^ width : Nat) : Int) = 2 * 2 ^ (width - 1) := by
    exact half
  rw [bmod_def, modulus, emod_eq_of_lt (by omega) (by omega), if_neg (by omega)]
  omega

theorem number_fits (signed : Bool) (bits : BitVec width) :
    Fits width signed (number signed bits) := by
  cases signed with
  | true =>
    have upper := @BitVec.toInt_lt width bits
    have lower := BitVec.le_toInt bits
    exact ⟨lower, upper⟩
  | false =>
    have bound : (bits.toNat : Int) < 2 ^ width := by exact_mod_cast bits.isLt
    exact ⟨natCast_nonneg _, bound⟩

/-! ### Sums and differences -/

variable (left right : BitVec width)

theorem unsigned_add_overflows : number false (left + right) < number false left ↔
      ¬Fits width false (number false left + number false right) := by
  have sum := BitVec.toNat_add left right
  have power : ((2 ^ width : Nat) : Int) = 2 ^ width := by push_cast; rfl
  rw [unsigned_number, unsigned_number, unsigned_number, fits_unsigned, sum, ← power]
  by_cases carry : left.toNat + right.toNat < 2 ^ width
  · rw [Nat.mod_eq_of_lt carry]
    omega
  · rw [Nat.mod_eq_sub_mod (not_lt.mp carry), Nat.mod_eq_of_lt (by omega)]
    omega

theorem unsigned_sub_overflows : number false left < number false right ↔
      ¬Fits width false (number false left - number false right) := by
  have leftBound : (left.toNat : Int) < 2 ^ width := by exact_mod_cast left.isLt
  rw [unsigned_number, unsigned_number, fits_unsigned]
  omega

/-- The sign bit of a conjunction of differences. -/
theorem sign_of_and (first second : BitVec width) :
    number true (first &&& second) < 0 ↔ first.msb = true ∧ second.msb = true := by
  rw [signed_number, ← decide_eq_true_iff (p := (first &&& second).toInt < 0), ← BitVec.msb_eq_toInt,
    BitVec.msb_and, Bool.and_eq_true]

theorem signed_add_overflows :
    number true ((left ^^^ (left + right)) &&& (right ^^^ (left + right))) < 0 ↔
      ¬Fits width true (number true left + number true right) := by
  have overflow : left.saddOverflow right = true ↔
      ¬Fits width true (number true left + number true right) := by
    simp only [BitVec.saddOverflow, Bool.or_eq_true, decide_eq_true_iff, fits_signed, signed_number]
    omega
  rw [sign_of_and, BitVec.msb_xor, BitVec.msb_xor, ← overflow, BitVec.saddOverflow_eq]
  cases left.msb <;> cases right.msb <;> cases (left + right).msb <;> simp

theorem signed_sub_overflows : number true ((left ^^^ right) &&& (left ^^^ (left - right))) < 0 ↔
      ¬Fits width true (number true left - number true right) := by
  have overflow : left.ssubOverflow right = true ↔
      ¬Fits width true (number true left - number true right) := by
    simp only [BitVec.ssubOverflow, Bool.or_eq_true, decide_eq_true_iff, fits_signed, signed_number]
    omega
  rw [sign_of_and, BitVec.msb_xor, BitVec.msb_xor, ← overflow, BitVec.ssubOverflow_eq]
  cases left.msb <;> cases right.msb <;> cases (left - right).msb <;> simp

/-! ### Products -/

theorem product_of_quotient (modulus : Int) {product wrapped factor divisor : Int} (nonzero : divisor ≠ 0)
    (congruent : modulus ∣ wrapped - product) (isProduct : product = factor * divisor)
    (small : |divisor| ≤ modulus) (quotient : wrapped.tdiv divisor = factor) : wrapped = product := by
  have split := mul_tdiv_add_tmod wrapped divisor
  have remainder : wrapped.tmod divisor = wrapped - product := by
    rw [isProduct, ← quotient, mul_comm]
    omega
  have bound : |wrapped.tmod divisor| < |divisor| := by
    have natural : (wrapped.tmod divisor).natAbs < divisor.natAbs := by
      rw [natAbs_tmod]
      exact Nat.mod_lt _ (natAbs_pos.mpr nonzero)
    rw [abs_eq_natAbs, abs_eq_natAbs]
    exact_mod_cast natural
  have vanishes := eq_zero_of_abs_lt_dvd congruent (by rw [← remainder]; omega)
  omega

/-- The quotient of the wrapped product by a factor, wrapped itself. -/
def wrappedQuotient (signed : Bool) (left right : BitVec width) : BitVec width :=
  BitVec.ofInt width ((number signed (left * right)).tdiv (number signed right))

theorem unsigned_quotient_eq_iff : wrappedQuotient false left right = left ↔
      (number false (left * right)).tdiv (number false right) = number false left := by
  have bound : ((left * right).toNat / right.toNat) < 2 ^ width :=
    lt_of_le_of_lt (Nat.div_le_self _ _) (left * right).isLt
  rw [wrappedQuotient, unsigned_number, unsigned_number, unsigned_number, ← ofNat_tdiv,
    BitVec.ofInt_natCast, ← BitVec.toNat_inj, BitVec.toNat_ofNat, Nat.mod_eq_of_lt bound, natCast_inj]

/-- A wrapped unsigned product divides back to its factor exactly when it did not wrap. -/
theorem unsigned_mul_overflows (nonzero : number false right ≠ 0) :
    wrappedQuotient false left right ≠ left ↔
      ¬Fits width false (number false left * number false right) := by
  have rightBound : (right.toNat : Int) < 2 ^ width := by exact_mod_cast right.isLt
  have wrapped : number false (left * right) =
      (number false left * number false right) % 2 ^ width := by
    rfl
  rw [not_iff_not, fits_unsigned, unsigned_quotient_eq_iff, wrapped]
  constructor
  · intro quotient
    have congruent : (2 : Int) ^ width ∣ (number false left * number false right) % 2 ^ width -
        number false left * number false right :=
      ⟨-(number false left * number false right / 2 ^ width), by rw [emod_def]; ring⟩
    have small : |number false right| ≤ 2 ^ width := by
      rw [unsigned_number, abs_of_nonneg (natCast_nonneg _)]
      exact rightBound.le
    have same := product_of_quotient _ nonzero congruent rfl small quotient
    rw [← same]
    exact ⟨emod_nonneg _ (by positivity), emod_lt_of_pos _ (by positivity)⟩
  · rintro ⟨lower, upper⟩
    rw [emod_eq_of_lt lower upper, mul_tdiv_cancel _ nonzero]

/-- The one signed product whose quotient wraps back as well. -/
def IsMinTimesMinusOne (width : Nat) (left right : Int) : Prop :=
  left = -2 ^ (width - 1) ∧ right = -1

theorem min_times_minus_one_overflows {left right : Int} (isMin : IsMinTimesMinusOne width left right) :
    ¬Fits width true (left * right) := by
  rw [isMin.1, isMin.2, fits_signed]
  intro fits
  omega

theorem divisor_of_wrapping_quotient {half dividend divisor : Int} (positive : 0 < half)
    (lower : -half ≤ dividend) (upper : dividend < half) (wraps : dividend.tdiv divisor = half) :
    divisor = -1 := by
  have absolute : dividend.natAbs / divisor.natAbs = half.natAbs := by
    rw [← wraps]
    exact (Int.natAbs_tdiv dividend divisor).symm
  have single : divisor.natAbs = 1 := by
    have notZero : divisor.natAbs ≠ 0 := by
      intro zero
      rw [zero, Nat.div_zero] at absolute
      omega
    by_contra larger
    have halves : dividend.natAbs / divisor.natAbs ≤ dividend.natAbs / 2 :=
      Nat.div_le_div_left (by omega) (by omega)
    omega
  rcases Int.natAbs_eq divisor with isOne | isMinusOne
  · rw [isOne, single] at wraps
    rw [show ((1 : Nat) : Int) = 1 from rfl, Int.tdiv_one] at wraps
    omega
  · rw [isMinusOne, single]
    rfl

/-- A wrapped signed product that divides back to its factor did not wrap, but for the one pair. -/
theorem signed_mul_fits (positive : 0 < width) (left right : BitVec width)
    (nonzero : number true right ≠ 0)
    (other : ¬IsMinTimesMinusOne width (number true left) (number true right))
    (quotient : wrappedQuotient true left right = left) :
    Fits width true (number true left * number true right) := by
  have half := double_half positive
  have leftFits := number_fits true left
  have rightFits := number_fits true right
  have productFits := number_fits true (left * right)
  rw [fits_signed] at leftFits rightFits productFits
  have modulus : ((2 ^ width : Nat) : Int) = 2 * 2 ^ (width - 1) := by
    exact half
  have wrapped : number true (left * right) =
      (number true left * number true right).bmod (2 ^ width) := BitVec.toInt_mul left right
  have quotientBound := natAbs_tdiv_le_natAbs (number true (left * right)) (number true right)
  have isQuotient : ((number true (left * right)).tdiv (number true right)).bmod (2 ^ width) =
      number true left := by
    rw [← BitVec.toInt_ofInt]
    exact congrArg BitVec.toInt quotient
  by_cases wraps : (number true (left * right)).tdiv (number true right) = 2 ^ (width - 1)
  · -- only `-2^(w-1) / -1` leaves the range, and then the factors are the pair
    have halfPositive : (0 : Int) < 2 ^ (width - 1) := by positivity
    have isMinusOne := divisor_of_wrapping_quotient halfPositive productFits.1 productFits.2 wraps
    have isMin : number true left = -2 ^ (width - 1) := by
      rw [← isQuotient, wraps, half_wraps positive]
    exact absurd ⟨isMin, isMinusOne⟩ other
  · have exactQuotient : (number true (left * right)).tdiv (number true right) = number true left := by
      rw [← isQuotient, bmod_eq_of_le (by rw [modulus]; omega) (by rw [modulus]; omega)]
    have congruent : (2 : Int) ^ width ∣
        number true (left * right) - number true left * number true right := by
      rw [wrapped]
      have dvd := dvd_bmod_sub_self (x := number true left * number true right) (m := 2 ^ width)
      exact_mod_cast dvd
    have small : |number true right| ≤ 2 ^ width := by
      rw [abs_le, half]
      omega
    have same := product_of_quotient _ nonzero congruent rfl small exactQuotient
    rw [← same, fits_signed]
    exact productFits

/-- The test by division and the test for the one pair decide together. -/
theorem signed_mul_overflows (positive : 0 < width) (left right : BitVec width)
    (nonzero : number true right ≠ 0) :
    (wrappedQuotient true left right ≠ left ∨ IsMinTimesMinusOne width (number true left) (number true right)) ↔
      ¬Fits width true (number true left * number true right) := by
  constructor
  · rintro (differs | isMin) fits
    · apply differs
      have wrapped : number true (left * right) = number true left * number true right := by
        have half := double_half positive
        have isBmod : number true (left * right) =
            (number true left * number true right).bmod (2 ^ width) := BitVec.toInt_mul left right
        rw [fits_signed] at fits
        rw [isBmod, bmod_eq_of_le]
        · push_cast
          omega
        · push_cast
          omega
      rw [wrappedQuotient, wrapped, mul_tdiv_cancel _ nonzero]
      exact BitVec.ofInt_toInt
    · exact min_times_minus_one_overflows isMin fits
  · intro overflows
    by_contra neither
    rw [not_or, not_not] at neither
    exact overflows (signed_mul_fits positive left right nonzero neither.2 neither.1)

/-- Dividing back alone decides every pair but one. -/
theorem signed_mul_quotient_decides (positive : 0 < width) (left right : BitVec width)
    (nonzero : number true right ≠ 0) :
    (wrappedQuotient true left right ≠ left ↔ ¬Fits width true (number true left * number true right)) ↔
      ¬IsMinTimesMinusOne width (number true left) (number true right) := by
  have both := signed_mul_overflows positive left right nonzero
  constructor
  · intro decides isMin
    apply decides.mpr (min_times_minus_one_overflows isMin)
    obtain ⟨isMin, isMinusOne⟩ := isMin
    have wrapped : number true (left * right) = -2 ^ (width - 1) := by
      rw [signed_number, BitVec.toInt_mul, ← signed_number, ← signed_number, isMin, isMinusOne,
        neg_mul_neg, mul_one, half_wraps positive]
    apply BitVec.eq_of_toInt_eq
    rw [wrappedQuotient, wrapped, isMinusOne, Int.neg_tdiv, Int.tdiv_neg, neg_neg, Int.tdiv_one,
      BitVec.toInt_ofInt, half_wraps positive, ← isMin, signed_number]
  · intro other
    rw [← both, or_iff_left other]

end RustcCodegenJvm.Library.Overflow
