import RustcCodegenJvm.Runtime.U128

/-!
# `org.rustlang.runtime.I128`

The signed class keeps the same two words. Addition, subtraction, negation and
the right shift have bodies of their own; multiplication, division and the left
shift go through `U128`.
-/

namespace RustcCodegenJvm.Runtime

open Jvm BitVec Int

structure I128 where
  high : JLong
  low : JLong
  deriving DecidableEq, Repr

variable {left right : I128}

namespace I128

def toU128 (this : I128) : U128 := ⟨this.high, this.low⟩

def ofU128 (bits : U128) : I128 := ⟨bits.high, bits.low⟩

def add (this other : I128) : I128 :=
  let resultLow := this.low + other.low
  let carry : JLong := if (compareUnsigned resultLow this.low).slt 0 then 1#64 else 0#64
  ⟨this.high + other.high + carry, resultLow⟩

def subtract (this other : I128) : I128 :=
  let borrow : JLong := if (compareUnsigned this.low other.low).slt 0 then 1#64 else 0#64
  ⟨this.high - other.high - borrow, this.low - other.low⟩

def minValue : I128 := ⟨0x8000000000000000#64, 0#64⟩

def maxValue : I128 := ⟨0x7fffffffffffffff#64, -1#64⟩

def saturatingAdd (this other : I128) : I128 :=
  let result := this.add other
  if ((this.high ^^^ result.high) &&& (other.high ^^^ result.high)).slt 0#64 then
    if this.high.slt 0#64 then minValue else maxValue
  else result

def saturatingSubtract (this other : I128) : I128 :=
  let result := this.subtract other
  if ((this.high ^^^ other.high) &&& (this.high ^^^ result.high)).slt 0#64 then
    if this.high.slt 0#64 then minValue else maxValue
  else result

def multiply (this other : I128) : I128 := ofU128 (this.toU128.multiply other.toU128)

def magnitude (this : I128) : U128 :=
  let bits := this.toU128
  if this.high.slt 0#64 then bits.negate else bits

def divide (this other : I128) : Except RuntimeError I128 := do
  if other.high ||| other.low = 0#64 then
    throw (.arithmeticException "division by zero")
  let quotient ← this.magnitude.divide other.magnitude
  if this.high.slt 0#64 ≠ other.high.slt 0#64 then
    return ofU128 quotient.negate
  return ofU128 quotient

def remainder (this other : I128) : Except RuntimeError I128 := do
  if other.high ||| other.low = 0#64 then
    throw (.arithmeticException "division by zero")
  let remainder ← this.magnitude.remainder other.magnitude
  if this.high.slt 0#64 then
    return ofU128 remainder.negate
  return ofU128 remainder

def and (this other : I128) : I128 := ⟨this.high &&& other.high, this.low &&& other.low⟩

def or (this other : I128) : I128 := ⟨this.high ||| other.high, this.low ||| other.low⟩

def xor (this other : I128) : I128 := ⟨this.high ^^^ other.high, this.low ^^^ other.low⟩

def not (this : I128) : I128 := ⟨~~~this.high, ~~~this.low⟩

def negate (this : I128) : I128 :=
  let resultLow := -this.low
  ⟨~~~this.high + (if resultLow = 0#64 then 1#64 else 0#64), resultLow⟩

def shiftLeft (this : I128) (distance : JInt) : I128 := ofU128 (this.toU128.shiftLeft distance)

def shiftRight (this : I128) (distance : JInt) : I128 :=
  let shift := distance &&& 127
  if shift = 0 then this
  else if shift.slt 64 then
    ⟨lshr this.high shift, lushr this.low shift ||| lshl this.high (64 - shift)⟩
  else ⟨if this.high.slt 0#64 then -1#64 else 0#64, lshr this.high (shift - 64)⟩

def compareTo (this other : I128) : JInt :=
  let highComparison := compareSigned this.high other.high
  if highComparison ≠ 0 then highComparison else compareUnsigned this.low other.low

def toInt (value : I128) : Int := value.high.toInt * 2 ^ 64 + value.low.toNat

variable (value : I128)

include value

theorem to_int_bounds : -2 ^ 127 ≤ value.toInt ∧ value.toInt < 2 ^ 127 := by
  have below := value.high.toInt_lt
  have above := value.high.le_toInt
  unfold toInt
  omega

theorem negative_iff : value.high.slt 0#64 = true ↔ value.toInt < 0 := by
  rw [slt_iff_toInt_lt, toInt_zero, toInt]
  omega

theorem to_nat_eq :
    (value.toU128.toNat : Int) = if value.toInt < 0 then value.toInt + 2 ^ 128 else value.toInt := by
  have high := value.high.toInt_eq_toNat_cond
  simp only [toInt, toU128, U128.toNat, high]
  split_ifs <;> omega

theorem to_nat_congr : (value.toU128.toNat : Int) ≡ value.toInt [ZMOD 2 ^ 128] := by
  rw [to_nat_eq]
  split_ifs
  · exact add_modEq_right
  · rfl

omit value

/-- A result computed on the words is the wrapped value of any number the words
are congruent to. -/
theorem to_int_of_congr (bits : U128) {value : Int}
    (congruent : (bits.toNat : Int) ≡ value [ZMOD 2 ^ 128]) :
    (ofU128 bits).toInt = value.bmod (2 ^ 128) := by
  have bounds := (ofU128 bits).to_int_bounds
  have words : (bits.toNat : Int) = _ := (ofU128 bits).to_nat_eq
  rw [bmod_def]
  unfold ModEq at congruent
  split_ifs at words <;> omega

variable (left right)

theorem add_value : (left.add right).toInt = (left.toInt + right.toInt).bmod (2 ^ 128) := by
  apply to_int_of_congr (left.toU128.add right.toU128)
  rw [U128.add_value, natCast_mod, Nat.cast_add]
  exact (mod_modEq _ _).trans (left.to_nat_congr.add right.to_nat_congr)

theorem subtract_value :
    (left.subtract right).toInt = (left.toInt - right.toInt).bmod (2 ^ 128) := by
  have bound := right.toU128.to_nat_lt
  have difference := left.to_nat_congr.sub right.to_nat_congr
  apply to_int_of_congr (left.toU128.subtract right.toU128)
  rw [U128.subtract_value]
  unfold ModEq at difference ⊢
  omega

theorem multiply_value :
    (left.multiply right).toInt = (left.toInt * right.toInt).bmod (2 ^ 128) := by
  apply to_int_of_congr (left.toU128.multiply right.toU128)
  rw [U128.multiply_value, natCast_mod, Nat.cast_mul]
  exact (mod_modEq _ _).trans (left.to_nat_congr.mul right.to_nat_congr)

include value

theorem negate_value : value.negate.toInt = (-value.toInt).bmod (2 ^ 128) := by
  have bound := value.toU128.to_nat_lt
  have congruent := value.to_nat_congr
  apply to_int_of_congr (value.toU128.negate)
  rw [U128.negate_value]
  unfold ModEq at congruent ⊢
  omega

theorem not_value : value.not.toInt = -value.toInt - 1 := by
  have bounds := value.to_int_bounds
  have words := value.to_nat_eq
  have flipped := U128.not_value value.toU128
  have wrapped : value.not.toInt = (-value.toInt - 1).bmod (2 ^ 128) := by
    apply to_int_of_congr (value.toU128.not)
    unfold ModEq
    split_ifs at words <;> omega
  rw [wrapped, bmod_def]
  omega

theorem bits_of_int : BitVec.ofInt 128 value.toInt = BitVec.ofNat 128 value.toU128.toNat := by
  apply eq_of_toInt_eq
  rw [← ofInt_natCast, toInt_ofInt, toInt_ofInt]
  have congruent := value.to_nat_congr
  unfold ModEq at congruent
  rw [← emod_bmod, ← emod_bmod (value.toU128.toNat : Int)]
  congr 1
  omega

omit value

theorem bitwise_value (word : BitVec 128 → BitVec 128 → BitVec 128)
    (result : U128) (agrees : BitVec.ofNat 128 result.toNat =
      word (BitVec.ofNat 128 left.toU128.toNat) (BitVec.ofNat 128 right.toU128.toNat)) :
    (ofU128 result).toInt =
      (word (BitVec.ofInt 128 left.toInt) (BitVec.ofInt 128 right.toInt)).toInt := by
  rw [bits_of_int, bits_of_int, ← agrees, ← ofInt_natCast, toInt_ofInt]
  exact to_int_of_congr _ rfl

theorem and_value :
    (left.and right).toInt = (BitVec.ofInt 128 left.toInt &&& BitVec.ofInt 128 right.toInt).toInt := by
  apply bitwise_value left right (· &&& ·) (left.toU128.and right.toU128)
  rw [U128.and_value, ofNat_and]

theorem or_value :
    (left.or right).toInt = (BitVec.ofInt 128 left.toInt ||| BitVec.ofInt 128 right.toInt).toInt := by
  apply bitwise_value left right (· ||| ·) (left.toU128.or right.toU128)
  rw [U128.or_value, ofNat_or]

theorem xor_value :
    (left.xor right).toInt = (BitVec.ofInt 128 left.toInt ^^^ BitVec.ofInt 128 right.toInt).toInt := by
  apply bitwise_value left right (· ^^^ ·) (left.toU128.xor right.toU128)
  rw [U128.xor_value, ofNat_xor]

include value

theorem shift_left_value (distance : JInt) : (value.shiftLeft distance).toInt =
      (value.toInt * 2 ^ (distance.toNat % 128)).bmod (2 ^ 128) := by
  apply to_int_of_congr (value.toU128.shiftLeft distance)
  rw [U128.shift_left_value, natCast_mod, Nat.cast_mul, Nat.cast_pow]
  exact (mod_modEq _ _).trans (value.to_nat_congr.mul_right _)

theorem high_emod {amount : Nat} (small : amount ≤ 64) :
    ((value.high.toNat % 2 ^ amount : Nat) : Int) = value.high.toInt % 2 ^ amount := by
  have divides : ((2 ^ amount : Nat) : Int) ∣ ((2 ^ 64 : Nat) : Int) :=
    natCast_dvd_natCast.mpr (pow_dvd_pow 2 small)
  have words : value.high.toInt % ((2 ^ 64 : Nat) : Int) = (value.high.toNat : Int) := by
    rw [toInt_eq_toNat_bmod, bmod_emod]
    exact emod_eq_of_lt (by omega) (by exact_mod_cast value.high.isLt)
  have cast : ((2 ^ amount : Nat) : Int) = 2 ^ amount := by push_cast; rfl
  rw [natCast_mod, ← words, emod_emod_of_dvd _ divides, cast]

theorem shift_right_value (distance : JInt) :
    (value.shiftRight distance).toInt = value.toInt / 2 ^ (distance.toNat % 128) := by
  unfold shiftRight
  rcases U128.shift_cases distance with
    ⟨zero, amount⟩ | ⟨nonzero, less, positive, small, amount, rest⟩ | ⟨nonzero, less, large, amount⟩
  · simp only [zero, if_pos, amount, pow_zero, ediv_one]
  · rw [← amount] at positive small rest ⊢
    simp only [if_neg nonzero, if_pos less, toInt, lshr_value _ small,
      funnel_right_value _ _ _ _ small positive rest]
    have split : (2 : Int) ^ 64 = 2 ^ (distance &&& 127).toNat * 2 ^ (64 - (distance &&& 127).toNat) := by
      exact_mod_cast word_split small.le
    have whole : value.high.toInt * 2 ^ (64 - (distance &&& 127).toNat) =
        (2 ^ (distance &&& 127).toNat * (value.high.toInt / 2 ^ (distance &&& 127).toNat) +
          value.high.toInt % 2 ^ (distance &&& 127).toNat) *
          2 ^ (64 - (distance &&& 127).toNat) := by rw [mul_ediv_add_emod]
    rw [Nat.cast_add, Nat.cast_mul, value.high_emod small.le, split, mul_left_comm value.high.toInt,
      mul_add_ediv_left _ _ (by positivity), whole]
    push_cast
    ring
  · have shifted := lshr_value value.high (show ((distance &&& 127) - 64).toNat < 64 by omega)
    have sign : value.high.toInt / 2 ^ (distance.toNat % 128 - 64) < 0 ↔ value.high.toInt < 0 :=
      ⟨fun below => by_contra fun above => absurd (ediv_nonneg (not_lt.mp above) (by positivity))
        (not_le.mpr below), fun below => ediv_neg_of_neg_of_pos below (by positivity)⟩
    have power : (2 : Int) ^ (distance.toNat % 128) = 2 ^ 64 * 2 ^ (distance.toNat % 128 - 64) := by
      rw [← pow_add, Nat.add_sub_cancel' large]
    have upper : (value.high.toInt * 2 ^ 64 + value.low.toNat) / 2 ^ 64 = value.high.toInt := by
      omega
    have negative : value.high.slt 0#64 = true ↔ value.high.toInt < 0 := by
      rw [slt_iff_toInt_lt, toInt_zero]
    rw [amount] at shifted
    have words := (lshr value.high ((distance &&& 127) - 64)).toInt_eq_toNat_cond
    simp only [if_neg nonzero, less, Bool.false_eq_true, if_false, toInt, negative, power,
      apply_ite BitVec.toInt]
    rw [← ediv_ediv_of_nonneg (by positivity), upper, ← shifted]
    simp only [show (-1#64).toInt = -1 by decide, toInt_zero]
    split_ifs at words ⊢ <;> omega

omit value

theorem compare_to_signs : ((left.compareTo right).slt 0 = true ↔ left.toInt < right.toInt) ∧
      (left.compareTo right = 0 ↔ left.toInt = right.toInt) ∧
      ((0 : JInt).slt (left.compareTo right) = true ↔ right.toInt < left.toInt) := by
  simp only [compareTo, ne_eq, compare_signed_zero, toInt]
  split_ifs
  · rw [compare_unsigned_negative, compare_unsigned_zero, compare_unsigned_positive]
    omega
  · rw [compare_signed_negative, compare_signed_zero, compare_signed_positive]
    omega

/-- The sign of `(a ^ b) & (c ^ d)` is the test both saturating operations use. -/
theorem sign_test (first second third fourth : JLong) :
    ((first ^^^ second) &&& (third ^^^ fourth)).slt 0#64 = true ↔
      ¬ (first.slt 0#64 = true ↔ second.slt 0#64 = true) ∧
        ¬ (third.slt 0#64 = true ↔ fourth.slt 0#64 = true) := by
  have sign : ∀ word : JLong, word.slt 0#64 = word.msb := fun word => by
    rw [msb_eq_toInt, slt_eq_decide, toInt_zero]
  simp only [sign, msb_and, msb_xor]
  cases first.msb <;> cases second.msb <;> cases third.msb <;> cases fourth.msb <;> decide

theorem min_value_value : minValue.toInt = -2 ^ 127 := by decide

theorem max_value_value : maxValue.toInt = 2 ^ 127 - 1 := by decide

theorem saturating_add_value : (left.saturatingAdd right).toInt =
      max (-2 ^ 127) (min (left.toInt + right.toInt) (2 ^ 127 - 1)) := by
  have leftBounds := left.to_int_bounds
  have rightBounds := right.to_int_bounds
  have sum := left.add_value right
  rw [bmod_def] at sum
  simp only [saturatingAdd, sign_test, negative_iff, apply_ite toInt, min_value_value, max_value_value]
  split_ifs <;> omega

theorem saturating_subtract_value : (left.saturatingSubtract right).toInt =
      max (-2 ^ 127) (min (left.toInt - right.toInt) (2 ^ 127 - 1)) := by
  have leftBounds := left.to_int_bounds
  have rightBounds := right.to_int_bounds
  have difference := left.subtract_value right
  rw [bmod_def] at difference
  simp only [saturatingSubtract, sign_test, negative_iff, apply_ite toInt, min_value_value, max_value_value]
  split_ifs <;> omega

variable {left right}

include value

theorem magnitude_value : value.magnitude.toNat = value.toInt.natAbs := by
  have words := value.to_nat_eq
  have bounds := value.to_int_bounds
  simp only [magnitude, negative_iff]
  split_ifs with negative
  · rw [U128.negate_value]
    omega
  · rw [if_neg negative] at words
    omega

theorem magnitude_zero_iff : value.high ||| value.low = 0#64 ↔ value.toInt = 0 := by
  have bounds := value.to_int_bounds
  rw [show value.high ||| value.low = 0#64 ↔ value.toU128.toNat = 0 from
    U128.is_zero_iff value.toU128]
  have words := value.to_nat_eq
  split_ifs at words <;> omega

omit value

/-- A magnitude below `2 ^ 128`, negated when the sign asks for it. -/
theorem signed_result (bits : U128) (negative : Prop) [Decidable negative] :
    (if negative then ofU128 bits.negate else ofU128 bits).toInt =
      (if negative then -(bits.toNat : Int) else bits.toNat).bmod (2 ^ 128) := by
  split_ifs
  · have bound := bits.to_nat_lt
    apply to_int_of_congr
    rw [U128.negate_value]
    unfold ModEq
    omega
  · exact to_int_of_congr _ rfl

theorem tdiv_by_magnitudes (left right : Int) :
    left.tdiv right = if ¬ (left < 0 ↔ right < 0) then -((left.natAbs / right.natAbs : Nat) : Int)
      else (left.natAbs / right.natAbs : Nat) := by
  have plain : ∀ size : Nat, ¬ ofNat size < 0 := fun size => by simp
  cases left with
  | ofNat dividend =>
      cases right with
      | ofNat divisor => simp only [plain, iff_self, not_true, if_false]; rfl
      | negSucc divisor => simp only [plain, negSucc_lt_zero, false_iff, not_true, not_false_iff, if_true]; rfl
  | negSucc dividend =>
      cases right with
      | ofNat divisor => simp only [plain, negSucc_lt_zero, iff_false, not_true, not_false_iff, if_true]; rfl
      | negSucc divisor => simp only [negSucc_lt_zero, iff_self, not_true, if_false]; rfl

theorem tmod_by_magnitudes (left right : Int) :
    left.tmod right = if left < 0 then -((left.natAbs % right.natAbs : Nat) : Int)
      else (left.natAbs % right.natAbs : Nat) := by
  have plain : ∀ size : Nat, ¬ ofNat size < 0 := fun size => by simp
  cases left with
  | ofNat dividend => cases right <;> simp only [plain, if_false] <;> rfl
  | negSucc dividend => cases right <;> simp only [negSucc_lt_zero, if_true] <;> rfl

theorem divide_of_nonzero (nonzero : right.toInt ≠ 0) :
    ∃ quotient, left.divide right = .ok quotient ∧
      quotient.toInt = (left.toInt.tdiv right.toInt).bmod (2 ^ 128) := by
  have words : ¬ right.high ||| right.low = 0#64 := mt (magnitude_zero_iff right).mp nonzero
  have magnitude : right.magnitude.toNat ≠ 0 := by
    rw [magnitude_value]
    omega
  obtain ⟨quotient, run, value⟩ :=
    U128.divide_or_remainder_of_nonzero left.magnitude true magnitude
  refine ⟨if left.high.slt 0#64 ≠ right.high.slt 0#64 then ofU128 quotient.negate
    else ofU128 quotient, ?_, ?_⟩
  · simp only [divide, U128.divide, run, if_neg words]
    split_ifs <;> rfl
  · rw [signed_result, value, magnitude_value, magnitude_value, tdiv_by_magnitudes]
    have signs : left.high.slt 0#64 ≠ right.high.slt 0#64 ↔ ¬ (left.toInt < 0 ↔ right.toInt < 0) := by
      rw [← negative_iff, ← negative_iff, ← Bool.eq_iff_iff]
    simp only [signs, if_true]

theorem remainder_of_nonzero (nonzero : right.toInt ≠ 0) :
    ∃ rest, left.remainder right = .ok rest ∧ rest.toInt = left.toInt.tmod right.toInt := by
  have words : ¬ right.high ||| right.low = 0#64 := mt (magnitude_zero_iff right).mp nonzero
  have magnitude : right.magnitude.toNat ≠ 0 := by
    rw [magnitude_value]
    omega
  have leftBounds := left.to_int_bounds
  obtain ⟨rest, run, value⟩ :=
    U128.divide_or_remainder_of_nonzero left.magnitude false magnitude
  refine ⟨if left.high.slt 0#64 then ofU128 rest.negate else ofU128 rest, ?_, ?_⟩
  · simp only [remainder, U128.remainder, run, if_neg words]
    split_ifs <;> rfl
  · rw [signed_result, value, magnitude_value, magnitude_value, tmod_by_magnitudes]
    have small := Nat.mod_le left.toInt.natAbs right.toInt.natAbs
    simp only [negative_iff, Bool.false_eq_true, if_false]
    split_ifs <;> rw [bmod_def] <;> omega

theorem divide_of_zero (zero : right.toInt = 0) :
    left.divide right = .error (.arithmeticException "division by zero") := by
  simp only [divide, if_pos ((magnitude_zero_iff right).mpr zero)]
  rfl

theorem remainder_of_zero (zero : right.toInt = 0) :
    left.remainder right = .error (.arithmeticException "division by zero") := by
  simp only [remainder, if_pos ((magnitude_zero_iff right).mpr zero)]
  rfl

end I128

end RustcCodegenJvm.Runtime
