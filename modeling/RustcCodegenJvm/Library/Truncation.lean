import Mathlib

/-!
# Truncation of words

Truncating a word reduces the number it stands for modulo a smaller power of
two. Sums, differences, products and bitwise operators survive it, and a number
can be truncated before or after it is put into a word.
-/

namespace RustcCodegenJvm.Library.Truncation

open BitVec

variable {wide narrow : Nat}

theorem to_int_set_width (word : BitVec wide) (bound : narrow ≤ wide) :
    (word.setWidth narrow).toInt = word.toInt.bmod (2 ^ narrow) := by
  rw [toInt_setWidth, toInt_eq_toNat_bmod, Int.bmod_bmod_of_dvd (pow_dvd_pow 2 bound)]

theorem set_width_of_int (bound : narrow ≤ wide) (number : Int) :
    (BitVec.ofInt wide number).setWidth narrow = BitVec.ofInt narrow number := by
  apply eq_of_toInt_eq
  rw [to_int_set_width _ bound, toInt_ofInt, toInt_ofInt,
    Int.bmod_bmod_of_dvd (pow_dvd_pow 2 bound)]

theorem set_width_sub (left right : BitVec wide) (bound : narrow ≤ wide) :
    (left - right).setWidth narrow = left.setWidth narrow - right.setWidth narrow := by
  rw [sub_eq_add_neg, setWidth_add _ _ bound, setWidth_neg_of_le bound, ← sub_eq_add_neg]

theorem set_width_sign_extend (word : BitVec narrow) (bound : narrow ≤ wide) :
    (word.signExtend wide).setWidth narrow = word := by
  rw [BitVec.signExtend, set_width_of_int bound, ofInt_toInt]

theorem to_int_zero_extend (word : BitVec narrow) (bound : narrow < wide) :
    (word.setWidth wide).toInt = word.toNat := by
  have room : 2 * 2 ^ narrow ≤ 2 ^ wide := by
    rw [← Nat.pow_succ']
    exact Nat.pow_le_pow_right (by decide) bound
  have inside := word.isLt
  rw [toInt_eq_toNat_of_lt, toNat_setWidth_of_le bound.le]
  rw [toNat_setWidth_of_le bound.le]
  omega

section Bitwise

variable {width : Nat}

theorem of_nat_bit (number index : Nat) (inside : index < width) :
    (BitVec.ofNat width number)[index] = number.testBit index := by
  rw [← getLsbD_eq_getElem, getLsbD_ofNat]
  simp [inside]

theorem of_int_bit (number : Int) (index : Nat) (inside : index < width) :
    (BitVec.ofInt width number)[index] = number.testBit index := by
  cases number with
  | ofNat magnitude =>
    rw [Int.ofNat_eq_natCast, ofInt_natCast]
    exact of_nat_bit magnitude index inside
  | negSucc magnitude =>
    rw [ofInt_negSucc_eq_not_ofNat, getElem_not, of_nat_bit magnitude index inside]
    rfl

variable (left right : Int)

theorem of_int_land : BitVec.ofInt width (Int.land left right) =
    BitVec.ofInt width left &&& BitVec.ofInt width right := by
  ext index inside
  rw [getElem_and, of_int_bit, of_int_bit, of_int_bit, Int.testBit_land]

theorem of_int_lor : BitVec.ofInt width (Int.lor left right) =
    BitVec.ofInt width left ||| BitVec.ofInt width right := by
  ext index inside
  rw [getElem_or, of_int_bit, of_int_bit, of_int_bit, Int.testBit_lor]

theorem of_int_xor : BitVec.ofInt width (Int.xor left right) =
    BitVec.ofInt width left ^^^ BitVec.ofInt width right := by
  ext index inside
  rw [getElem_xor, of_int_bit, of_int_bit, of_int_bit, Int.testBit_lxor]

end Bitwise

end RustcCodegenJvm.Library.Truncation
