import RustcCodegenJvm.Jvm.Word
import RustcCodegenJvm.Library.RestoringDivision

/-!
# `org.rustlang.runtime.U128`

A transcription of the Java class: two `long` fields and the arithmetic on
them. The value of a `U128` is `toNat`; every operation is related to it here.
Conversions through floats and strings are not part of this model.
-/

namespace RustcCodegenJvm.Runtime

open Jvm Library BitVec

inductive RuntimeError where
  | arithmeticException (message : String)
  deriving DecidableEq, Repr

structure U128 where
  high : JLong
  low : JLong
  deriving DecidableEq, Repr

variable {this divisor : U128} {bit : Nat} (left right : U128) (value : U128) (distance : JInt)

namespace U128

def add (this other : U128) : U128 :=
  let resultLow := this.low + other.low
  let carry : JLong := if (compareUnsigned resultLow this.low).slt 0 then 1#64 else 0#64
  ⟨this.high + other.high + carry, resultLow⟩

def subtract (this other : U128) : U128 :=
  let borrow : JLong := if (compareUnsigned this.low other.low).slt 0 then 1#64 else 0#64
  ⟨this.high - other.high - borrow, this.low - other.low⟩

def compareTo (this other : U128) : JInt :=
  let highComparison := compareUnsigned this.high other.high
  if highComparison ≠ 0 then highComparison else compareUnsigned this.low other.low

def saturatingAdd (this other : U128) : U128 :=
  let result := this.add other
  if (result.compareTo this).slt 0 then ⟨-1#64, -1#64⟩ else result

def saturatingSubtract (this other : U128) : U128 :=
  if (this.compareTo other).slt 0 then ⟨0#64, 0#64⟩ else this.subtract other

def unsignedMultiplyHigh (left right : JLong) : JLong :=
  let mask : JLong := 0xffffffff#64
  let leftLow := left &&& mask
  let leftHigh := lushr left 32
  let rightLow := right &&& mask
  let rightHigh := lushr right 32
  let lowProduct := leftLow * rightLow
  let crossLeft := leftHigh * rightLow
  let crossRight := leftLow * rightHigh
  let highProduct := leftHigh * rightHigh
  let middle := lushr lowProduct 32 + (crossLeft &&& mask) + (crossRight &&& mask)
  highProduct + lushr crossLeft 32 + lushr crossRight 32 + lushr middle 32

def multiply (this other : U128) : U128 :=
  let resultLow := this.low * other.low
  let resultHigh := unsignedMultiplyHigh this.low other.low + this.high * other.low +
    this.low * other.high
  ⟨resultHigh, resultLow⟩

structure DivideState where
  quotientHigh : JLong
  quotientLow : JLong
  remainderHigh : JLong
  remainderLow : JLong

def DivideState.quotient (state : DivideState) : U128 := ⟨state.quotientHigh, state.quotientLow⟩

def DivideState.remainder (state : DivideState) : U128 := ⟨state.remainderHigh, state.remainderLow⟩

/-- The first half of the loop body: shift the next input bit into the remainder. -/
def shiftInputBit (this : U128) (bit : Nat) (remainder : U128) : U128 :=
  let remainderHigh := lshl remainder.high 1 ||| lushr remainder.low 63
  let remainderLow := lshl remainder.low 1
  let inputBit :=
    if 64 ≤ bit then lushr this.high (BitVec.ofNat 32 (bit - 64)) &&& 1#64
    else lushr this.low (BitVec.ofNat 32 bit) &&& 1#64
  ⟨remainderHigh, remainderLow ||| inputBit⟩

def divideStep (this divisor : U128) (bit : Nat) (state : DivideState) : DivideState :=
  let shifted := shiftInputBit this bit state.remainder
  let highComparison := compareUnsigned shifted.high divisor.high
  if (0 : JInt).slt highComparison ∨
      (highComparison = 0 ∧ ¬ (compareUnsigned shifted.low divisor.low).slt 0) then
    let borrow : JLong := if (compareUnsigned shifted.low divisor.low).slt 0 then 1#64 else 0#64
    { quotientHigh :=
        if 64 ≤ bit then state.quotientHigh ||| lshl 1#64 (BitVec.ofNat 32 (bit - 64))
        else state.quotientHigh
      quotientLow :=
        if 64 ≤ bit then state.quotientLow
        else state.quotientLow ||| lshl 1#64 (BitVec.ofNat 32 bit)
      remainderHigh := shifted.high - divisor.high - borrow
      remainderLow := shifted.low - divisor.low }
  else
    { state with remainderHigh := shifted.high, remainderLow := shifted.low }

/-- `for (int bit = 127; bit >= 0; bit--)`, counted by the bits still to scan. -/
def divideLoop (this divisor : U128) : Nat → DivideState → DivideState
  | 0, state => state
  | bit + 1, state => divideLoop this divisor bit (divideStep this divisor bit state)

def divideOrRemainder (this divisor : U128) (quotientResult : Bool) :
    Except RuntimeError U128 :=
  if divisor.high ||| divisor.low = 0#64 then
    .error (.arithmeticException "division by zero")
  else
    let state := divideLoop this divisor 128 ⟨0#64, 0#64, 0#64, 0#64⟩
    .ok (if quotientResult then state.quotient else state.remainder)

def divide (this other : U128) : Except RuntimeError U128 := this.divideOrRemainder other true

def remainder (this other : U128) : Except RuntimeError U128 := this.divideOrRemainder other false

def and (this other : U128) : U128 := ⟨this.high &&& other.high, this.low &&& other.low⟩

def or (this other : U128) : U128 := ⟨this.high ||| other.high, this.low ||| other.low⟩

def xor (this other : U128) : U128 := ⟨this.high ^^^ other.high, this.low ^^^ other.low⟩

def not (this : U128) : U128 := ⟨~~~this.high, ~~~this.low⟩

def negate (this : U128) : U128 :=
  let resultLow := -this.low
  ⟨~~~this.high + (if resultLow = 0#64 then 1#64 else 0#64), resultLow⟩

def shiftLeft (this : U128) (distance : JInt) : U128 :=
  let shift := distance &&& 127
  if shift = 0 then this
  else if shift.slt 64 then
    ⟨lshl this.high shift ||| lushr this.low (64 - shift), lshl this.low shift⟩
  else ⟨lshl this.low (shift - 64), 0#64⟩

def shiftRight (this : U128) (distance : JInt) : U128 :=
  let shift := distance &&& 127
  if shift = 0 then this
  else if shift.slt 64 then
    ⟨lushr this.high shift, lushr this.low shift ||| lshl this.high (64 - shift)⟩
  else ⟨0#64, lushr this.high (shift - 64)⟩

def toNat (value : U128) : Nat := value.high.toNat * 2 ^ 64 + value.low.toNat

theorem to_nat_lt : value.toNat < 2 ^ 128 := by
  unfold toNat
  omega

theorem to_nat_inj {left right : U128} : left.toNat = right.toNat ↔ left = right := by
  constructor
  · intro same
    unfold toNat at same
    obtain ⟨leftHigh, leftLow⟩ := left
    obtain ⟨rightHigh, rightLow⟩ := right
    simp only [U128.mk.injEq, ← toNat_inj] at *
    omega
  · rintro rfl
    rfl

theorem add_value :
    (left.add right).toNat = (left.toNat + right.toNat) % 2 ^ 128 := by
  simp only [add, toNat, compare_unsigned_negative]
  split_ifs with carry <;> simp only [toNat_add, toNat_ofNat] at carry ⊢ <;> omega

theorem subtract_value :
    (left.subtract right).toNat = (left.toNat + (2 ^ 128 - right.toNat)) % 2 ^ 128 := by
  simp only [subtract, toNat, compare_unsigned_negative]
  split_ifs with borrow <;> simp only [toNat_sub, toNat_ofNat] <;> omega

theorem compare_to_signs : ((left.compareTo right).slt 0 = true ↔ left.toNat < right.toNat) ∧
      (left.compareTo right = 0 ↔ left.toNat = right.toNat) ∧
      ((0 : JInt).slt (left.compareTo right) = true ↔ right.toNat < left.toNat) := by
  simp only [compareTo, ne_eq, compare_unsigned_zero, toNat]
  split_ifs <;>
    rw [compare_unsigned_negative, compare_unsigned_zero, compare_unsigned_positive] <;> omega

theorem saturating_add_value :
    (left.saturatingAdd right).toNat = min (left.toNat + right.toNat) (2 ^ 128 - 1) := by
  have rightBound := right.to_nat_lt
  simp only [saturatingAdd, compare_to_signs, add_value]
  split_ifs with wrapped
  · have top : (⟨-1#64, -1#64⟩ : U128).toNat = 2 ^ 128 - 1 := by decide
    omega
  · rw [add_value]
    omega

theorem saturating_subtract_value :
    (left.saturatingSubtract right).toNat = left.toNat - right.toNat := by
  have leftBound := left.to_nat_lt
  simp only [saturatingSubtract, compare_to_signs]
  split_ifs with smaller
  · have bottom : (⟨0#64, 0#64⟩ : U128).toNat = 0 := by decide
    omega
  · rw [subtract_value]
    omega

theorem negate_value :
    value.negate.toNat = (2 ^ 128 - value.toNat) % 2 ^ 128 := by
  simp only [negate, toNat]
  split_ifs with zero <;>
    simp only [← toNat_inj, toNat_add, toNat_neg, toNat_not, toNat_ofNat] at zero ⊢ <;> omega

theorem not_value : value.not.toNat = 2 ^ 128 - 1 - value.toNat := by
  simp only [U128.not, toNat, toNat_not]
  omega

theorem low_mask_value (value : JLong) : (value &&& 0xffffffff#64).toNat = value.toNat % 2 ^ 32 := by
  exact Nat.and_two_pow_sub_one_eq_mod _ 32

/-- Four 32-bit partial products, none of which overflows its word. -/
theorem unsigned_multiply_high_value (left right : JLong) :
    (unsignedMultiplyHigh left right).toNat = left.toNat * right.toNat / 2 ^ 64 := by
  have product_le : ∀ first second : Nat, first < 2 ^ 32 → second < 2 ^ 32 →
      first * second ≤ (2 ^ 32 - 1) * (2 ^ 32 - 1) :=
    fun _ _ _ _ => Nat.mul_le_mul (by omega) (by omega)
  have lowLow := product_le (left.toNat % 2 ^ 32) (right.toNat % 2 ^ 32) (by omega) (by omega)
  have highLow := product_le (left.toNat / 2 ^ 32) (right.toNat % 2 ^ 32) (by omega) (by omega)
  have lowHigh := product_le (left.toNat % 2 ^ 32) (right.toNat / 2 ^ 32) (by omega) (by omega)
  have highHigh := product_le (left.toNat / 2 ^ 32) (right.toNat / 2 ^ 32) (by omega) (by omega)
  have expand : left.toNat * right.toNat =
      left.toNat / 2 ^ 32 * (right.toNat / 2 ^ 32) * 2 ^ 64 +
        (left.toNat / 2 ^ 32 * (right.toNat % 2 ^ 32) +
          left.toNat % 2 ^ 32 * (right.toNat / 2 ^ 32)) * 2 ^ 32 +
        left.toNat % 2 ^ 32 * (right.toNat % 2 ^ 32) := by
    conv_lhs => rw [← Nat.div_add_mod left.toNat (2 ^ 32), ← Nat.div_add_mod right.toNat (2 ^ 32)]
    ring
  have half : ∀ value : JLong, (lushr value 32).toNat = value.toNat / 2 ^ 32 :=
    fun value => lushr_value value (by decide)
  simp only [unsignedMultiplyHigh, toNat_add, toNat_mul, half, low_mask_value]
  omega

theorem multiply_value :
    (left.multiply right).toNat = left.toNat * right.toNat % 2 ^ 128 := by
  have expand : left.toNat * right.toNat =
      left.low.toNat * right.low.toNat +
        (left.high.toNat * right.low.toNat + left.low.toNat * right.high.toNat) * 2 ^ 64 +
        left.high.toNat * right.high.toNat * 2 ^ 128 := by
    unfold toNat
    ring
  rw [expand]
  simp only [multiply, toNat, toNat_add, toNat_mul, unsigned_multiply_high_value]
  omega

theorem to_nat_test_bit (index : Nat) : value.toNat.testBit index =
      if index < 64 then value.low.getLsbD index else value.high.getLsbD (index - 64) := by
  rw [toNat, Nat.mul_comm, Nat.testBit_two_pow_mul_add _ value.low.isLt]
  rfl

theorem and_value :
    (left.and right).toNat = left.toNat &&& right.toNat := by
  apply Nat.eq_of_testBit_eq
  intro index
  simp only [Nat.testBit_and, to_nat_test_bit, U128.and, getLsbD_and]
  split_ifs <;> rfl

theorem or_value :
    (left.or right).toNat = left.toNat ||| right.toNat := by
  apply Nat.eq_of_testBit_eq
  intro index
  simp only [Nat.testBit_or, to_nat_test_bit, U128.or, getLsbD_or]
  split_ifs <;> rfl

theorem xor_value :
    (left.xor right).toNat = left.toNat ^^^ right.toNat := by
  apply Nat.eq_of_testBit_eq
  intro index
  simp only [Nat.testBit_xor, to_nat_test_bit, U128.xor, getLsbD_xor]
  split_ifs <;> rfl

/-- The three ways `shiftLeft` and `shiftRight` go, with the distances they use. -/
theorem shift_cases : ((distance &&& 127) = 0 ∧ distance.toNat % 128 = 0) ∨
    ((distance &&& 127) ≠ 0 ∧ (distance &&& 127).slt 64 = true ∧
      0 < distance.toNat % 128 ∧ distance.toNat % 128 < 64 ∧
      (distance &&& 127).toNat = distance.toNat % 128 ∧
      (64 - (distance &&& 127)).toNat = 64 - distance.toNat % 128) ∨
    ((distance &&& 127) ≠ 0 ∧ (distance &&& 127).slt 64 = false ∧ 64 ≤ distance.toNat % 128 ∧
      ((distance &&& 127) - 64).toNat = distance.toNat % 128 - 64) := by
  have masked : (distance &&& 127).toNat = distance.toNat % 128 := by
    exact Nat.and_two_pow_sub_one_eq_mod _ 7
  have small : distance.toNat % 128 < 128 := Nat.mod_lt _ (by decide)
  generalize distance.toNat % 128 = amount at masked small ⊢
  generalize distance &&& 127 = shift at masked ⊢
  have less : shift.slt 64 = true ↔ amount < 64 := by
    rw [slt_iff_toInt_lt, toInt_eq_toNat_of_lt (by omega), masked]
    exact Int.ofNat_lt
  rcases Nat.eq_zero_or_pos amount with zero | positive
  · exact .inl ⟨by bv_omega, zero⟩
  · have nonzero : shift ≠ 0 := by bv_omega
    by_cases below : amount < 64
    · exact .inr (.inl ⟨nonzero, less.mpr below, positive, below, masked, by bv_omega⟩)
    · refine .inr (.inr ⟨nonzero, ?_, by omega, by bv_omega⟩)
      rw [← Bool.not_eq_true, less]
      exact below

theorem shift_left_value : (value.shiftLeft distance).toNat =
      value.toNat * 2 ^ (distance.toNat % 128) % 2 ^ 128 := by
  unfold shiftLeft
  rcases shift_cases distance with
    ⟨zero, amount⟩ | ⟨nonzero, less, positive, small, amount, rest⟩ | ⟨nonzero, less, large, amount⟩
  · simp only [zero, if_pos, amount, toNat, pow_zero, Nat.mul_one]
    omega
  · rw [← amount] at positive small rest ⊢
    have carried : value.low.toNat / 2 ^ (64 - (distance &&& 127).toNat) =
        value.low.toNat * 2 ^ (distance &&& 127).toNat / 2 ^ 64 := by
      rw [word_split small.le, Nat.mul_comm value.low.toNat, Nat.mul_div_mul_left _ _ (by positivity)]
    have funnel := funnel_value value.high value.low _ _ small positive rest
    simp only [if_neg nonzero, if_pos less, toNat, funnel, lshl_value _ small]
    rw [Nat.add_mul (value.high.toNat * 2 ^ 64), Nat.mul_right_comm]
    omega
  · have power : (2 : Nat) ^ (distance.toNat % 128) = 2 ^ (distance.toNat % 128 - 64) * 2 ^ 64 := by
      rw [← pow_add, Nat.sub_add_cancel large]
    simp only [if_neg nonzero, less, toNat, lshl_value _ (show ((distance &&& 127) - 64).toNat < 64 by omega),
      amount, power, Bool.false_eq_true, if_false, toNat_zero]
    rw [← Nat.mul_assoc, Nat.add_mul (value.high.toNat * 2 ^ 64), Nat.mul_right_comm value.high.toNat]
    omega

theorem shift_right_value :
    (value.shiftRight distance).toNat = value.toNat / 2 ^ (distance.toNat % 128) := by
  unfold shiftRight
  rcases shift_cases distance with
    ⟨zero, amount⟩ | ⟨nonzero, less, positive, small, amount, rest⟩ | ⟨nonzero, less, large, amount⟩
  · simp only [zero, if_pos, amount, pow_zero, Nat.div_one]
  · rw [← amount] at positive small rest ⊢
    have whole : value.high.toNat * 2 ^ (64 - (distance &&& 127).toNat) =
        (2 ^ (distance &&& 127).toNat * (value.high.toNat / 2 ^ (distance &&& 127).toNat) +
          value.high.toNat % 2 ^ (distance &&& 127).toNat) *
          2 ^ (64 - (distance &&& 127).toNat) := by rw [Nat.div_add_mod]
    simp only [if_neg nonzero, if_pos less, toNat, lushr_value _ small,
      funnel_right_value _ _ _ _ small positive rest]
    rw [word_split small.le, Nat.mul_left_comm value.high.toNat, Nat.mul_add_div (by positivity),
      whole]
    ring
  · have power : (2 : Nat) ^ (distance.toNat % 128) = 2 ^ 64 * 2 ^ (distance.toNat % 128 - 64) := by
      rw [← pow_add, Nat.add_sub_cancel' large]
    simp only [if_neg nonzero, less, toNat,
      lushr_value _ (show ((distance &&& 127) - 64).toNat < 64 by omega),
      amount, power, Bool.false_eq_true, if_false, toNat_zero]
    have upper : (value.high.toNat * 2 ^ 64 + value.low.toNat) / 2 ^ 64 = value.high.toNat := by
      omega
    rw [← Nat.div_div_eq_div_mul, upper]
    omega

theorem is_zero_iff : value.high ||| value.low = 0#64 ↔ value.toNat = 0 := by
  rw [or_eq_zero_iff, ← toNat_inj, ← toNat_inj, toNat]
  simp only [toNat_zero]
  omega

private theorem input_bit (word : JLong) (small : bit < 64) :
    (lushr word (BitVec.ofNat 32 bit) &&& 1#64).toNat = word.toNat / 2 ^ bit % 2 := by
  have distance : (BitVec.ofNat 32 bit).toNat = bit := by
    rw [toNat_ofNat, Nat.mod_eq_of_lt (by omega)]
  rw [toNat_and, lushr_value word (by omega), distance]
  exact Nat.and_one_is_mod _

private theorem place_bit (small : bit < 64) :
    (lshl 1#64 (BitVec.ofNat 32 bit)).toNat = 2 ^ bit := by
  have distance : (BitVec.ofNat 32 bit).toNat = bit := by
    rw [toNat_ofNat, Nat.mod_eq_of_lt (by omega)]
  rw [lshl_value _ (by omega), distance, toNat_one (by decide), Nat.one_mul]
  exact Nat.mod_eq_of_lt (Nat.pow_lt_pow_right (by decide) small)

theorem shift_input_bit_value (this remainder : U128) (inRange : bit < 128)
    (fits : RestoringDivision.shiftIn this.toNat bit remainder.toNat < 2 ^ 128) :
    (shiftInputBit this bit remainder).toNat =
      RestoringDivision.shiftIn this.toNat bit remainder.toNat := by
  have high : (lshl remainder.high 1 ||| lushr remainder.low 63).toNat =
      remainder.high.toNat * 2 % 2 ^ 64 + remainder.low.toNat / 2 ^ 63 :=
    funnel_value remainder.high remainder.low 1 63 (by decide) (by decide)
      (by decide)
  have doubled : (lshl remainder.low 1).toNat = remainder.low.toNat * 2 % 2 ^ 64 :=
    lshl_value remainder.low (by decide : (1 : JInt).toNat < 64)
  have bitOf : (if 64 ≤ bit then lushr this.high (BitVec.ofNat 32 (bit - 64)) &&& 1#64
      else lushr this.low (BitVec.ofNat 32 bit) &&& 1#64).toNat = this.toNat / 2 ^ bit % 2 := by
    rw [← Nat.toNat_testBit, to_nat_test_bit]
    split_ifs
    · omega
    · rw [input_bit _ (by omega), ← Nat.toNat_testBit]
      rfl
    · rw [input_bit _ (by omega), ← Nat.toNat_testBit]
      rfl
    · omega
  have bitSmall : this.toNat / 2 ^ bit % 2 < 2 := Nat.mod_lt _ (by decide)
  have lowWord : (shiftInputBit this bit remainder).low.toNat =
      remainder.low.toNat * 2 % 2 ^ 64 + this.toNat / 2 ^ bit % 2 := by
    simp only [shiftInputBit, toNat_or, doubled, bitOf]
    exact or_eq_add_of_dvd 1 (by omega) (by simpa using bitSmall)
  rw [toNat, lowWord]
  simp only [shiftInputBit, high]
  simp only [RestoringDivision.shiftIn] at fits ⊢
  simp only [toNat] at *
  omega

theorem set_quotient_bit (state : DivideState) (inRange : bit < 128)
    (aligned : 2 ^ (bit + 1) ∣ state.quotient.toNat) : (U128.mk
      (if 64 ≤ bit then state.quotientHigh ||| lshl 1#64 (BitVec.ofNat 32 (bit - 64))
        else state.quotientHigh)
      (if 64 ≤ bit then state.quotientLow
        else state.quotientLow ||| lshl 1#64 (BitVec.ofNat 32 bit))).toNat =
      state.quotient.toNat + 2 ^ bit := by
  change 2 ^ (bit + 1) ∣ state.quotientHigh.toNat * 2 ^ 64 + state.quotientLow.toNat at aligned
  simp only [DivideState.quotient, toNat]
  split_ifs with upper
  · have power : (2 : Nat) ^ bit = 2 ^ (bit - 64) * 2 ^ 64 := by
      rw [← pow_add, Nat.sub_add_cancel upper]
    have whole : 2 ^ 64 ∣ state.quotientHigh.toNat * 2 ^ 64 + state.quotientLow.toNat :=
      (Nat.pow_dvd_pow 2 (show 64 ≤ bit + 1 by omega)).trans aligned
    have lowZero : state.quotientLow.toNat = 0 := by omega
    have highAligned : 2 ^ (bit - 64 + 1) ∣ state.quotientHigh.toNat := by
      have product : 2 ^ (bit + 1) = 2 ^ (bit - 64 + 1) * 2 ^ 64 := by
        rw [← pow_add]
        congr 1
        omega
      rw [lowZero, add_zero, product] at aligned
      exact Nat.dvd_of_mul_dvd_mul_right (by positivity) aligned
    rw [toNat_or, place_bit (by omega), or_eq_add_of_dvd _ highAligned
      (Nat.pow_lt_pow_right (by decide) (by omega)), power]
    ring
  · have lowAligned : 2 ^ (bit + 1) ∣ state.quotientLow.toNat := by
      have upperAligned : 2 ^ (bit + 1) ∣ state.quotientHigh.toNat * 2 ^ 64 :=
        (pow_dvd_pow 2 (by omega)).trans (Nat.dvd_mul_left _ _)
      exact (Nat.dvd_add_right upperAligned).mp aligned
    rw [toNat_or, place_bit (by omega), or_eq_add_of_dvd _ lowAligned
      (Nat.pow_lt_pow_right (by decide) (by omega))]
    ring

/-- What one iteration does: the shifted remainder is kept, or the divisor is
subtracted from it and the quotient bit is set. -/
theorem divide_step_cases (this divisor : U128) (state : DivideState)
    (inRange : bit < 128) (aligned : 2 ^ (bit + 1) ∣ state.quotient.toNat) :
    let shifted := shiftInputBit this bit state.remainder
    let next := divideStep this divisor bit state
    (shifted.toNat < divisor.toNat ∧ next.quotient = state.quotient ∧ next.remainder = shifted) ∨
    (divisor.toNat ≤ shifted.toNat ∧ next.quotient.toNat = state.quotient.toNat + 2 ^ bit ∧
      next.remainder = shifted.subtract divisor) := by
  intro shifted next
  have fits : ((0 : JInt).slt (compareUnsigned shifted.high divisor.high) = true ∨
      (compareUnsigned shifted.high divisor.high = 0 ∧
        ¬ (compareUnsigned shifted.low divisor.low).slt 0 = true)) ↔
      divisor.toNat ≤ shifted.toNat := by
    rw [compare_unsigned_positive, compare_unsigned_zero, compare_unsigned_negative]
    unfold toNat
    omega
  by_cases large : divisor.toNat ≤ shifted.toNat
  · have taken : next = _ := if_pos (fits.mpr large)
    exact .inr ⟨large, taken ▸ set_quotient_bit state inRange aligned, taken ▸ rfl⟩
  · have skipped : next = _ := if_neg (mt fits.mp large)
    exact .inl ⟨by omega, skipped ▸ rfl, skipped ▸ rfl⟩

/-- The loop invariant is the schoolbook one on the numbers in the registers. -/
def DivideState.Lawful (this divisor : U128) (position : Nat) (state : DivideState) : Prop :=
  RestoringDivision.Invariant this.toNat divisor.toNat position state.quotient.toNat
    state.remainder.toNat

theorem divide_step_lawful {state : DivideState}
    (inRange : bit < 128) (lawful : state.Lawful this divisor (bit + 1)) :
    (divideStep this divisor bit state).Lawful this divisor bit := by
  have fits : RestoringDivision.shiftIn this.toNat bit state.remainder.toNat < 2 ^ 128 :=
    (lawful.shift_in_le.trans (Nat.div_le_self _ _)).trans_lt this.to_nat_lt
  have shifted := shift_input_bit_value this state.remainder inRange fits
  rcases divide_step_cases this divisor state inRange lawful.aligned with
    ⟨small, quotient, remainder⟩ | ⟨large, quotient, remainder⟩
  · rw [shifted] at small
    unfold DivideState.Lawful
    rw [quotient, remainder, shifted]
    exact lawful.keep small
  · rw [shifted] at large
    have difference : ((shiftInputBit this bit state.remainder).subtract divisor).toNat =
        RestoringDivision.shiftIn this.toNat bit state.remainder.toNat - divisor.toNat := by
      rw [subtract_value, shifted]
      omega
    unfold DivideState.Lawful
    rw [quotient, remainder, difference]
    exact lawful.subtract large

theorem divide_loop_lawful {position : Nat} {state : DivideState}
    (inRange : position ≤ 128) (lawful : state.Lawful this divisor position) :
    (divideLoop this divisor position state).Lawful this divisor 0 := by
  induction position generalizing state with
  | zero => exact lawful
  | succ bit induction => exact induction (by omega) (divide_step_lawful (by omega) lawful)

theorem divide_or_remainder_of_nonzero (this : U128) {divisor : U128} (quotientResult : Bool)
    (nonzero : divisor.toNat ≠ 0) :
    ∃ result, this.divideOrRemainder divisor quotientResult = .ok result ∧ result.toNat =
      if quotientResult then this.toNat / divisor.toNat else this.toNat % divisor.toNat := by
  have words : ¬ divisor.high ||| divisor.low = 0#64 := mt (is_zero_iff divisor).mp nonzero
  have start : DivideState.Lawful this divisor 128 ⟨0#64, 0#64, 0#64, 0#64⟩ :=
    RestoringDivision.Invariant.start this.to_nat_lt (Nat.pos_of_ne_zero nonzero)
  obtain ⟨quotient, remainder⟩ := (divide_loop_lawful (le_refl 128) start).finish
  refine ⟨_, if_neg words, ?_⟩
  rw [← quotient, ← remainder]
  exact apply_ite U128.toNat _ _ _

theorem divide_or_remainder_of_zero (this : U128) {divisor : U128} (quotientResult : Bool)
    (zero : divisor.toNat = 0) : this.divideOrRemainder divisor quotientResult =
      .error (.arithmeticException "division by zero") :=
  if_pos ((is_zero_iff divisor).mpr zero)

end U128

end RustcCodegenJvm.Runtime
