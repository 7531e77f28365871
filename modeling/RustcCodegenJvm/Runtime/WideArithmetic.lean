import RustcCodegenJvm.Runtime.I128

/-!
# The 128-bit runtime classes against integer arithmetic

`U128.Exact` and `I128.Exact` say what the two classes are for: arithmetic on
the numbers their words stand for, wrapped to 128 bits. Generated code for
`u128` and `i128` calls these methods and nothing else.
-/

namespace RustcCodegenJvm.Runtime

open Jvm

/-- What Java callers can observe of a comparison: only its sign. -/
structure ComparesAs (result : JInt) (less equal greater : Prop) : Prop where
  negative : result.slt 0 = true ↔ less
  zero : result = 0 ↔ equal
  positive : (0 : JInt).slt result = true ↔ greater

structure U128.Exact (left right : U128) (distance : JInt) : Prop where
  add : (left.add right).toNat = (left.toNat + right.toNat) % 2 ^ 128
  subtract : ((left.subtract right).toNat : Int) = ((left.toNat : Int) - right.toNat) % 2 ^ 128
  multiply : (left.multiply right).toNat = left.toNat * right.toNat % 2 ^ 128
  negate : (left.negate.toNat : Int) = -(left.toNat : Int) % 2 ^ 128
  not : (left.not.toNat : Int) = (-(left.toNat : Int) - 1) % 2 ^ 128
  and : (left.and right).toNat = left.toNat &&& right.toNat
  or : (left.or right).toNat = left.toNat ||| right.toNat
  xor : (left.xor right).toNat = left.toNat ^^^ right.toNat
  shiftLeft : (left.shiftLeft distance).toNat = left.toNat * 2 ^ (distance.toInt % 128).toNat % 2 ^ 128
  shiftRight : (left.shiftRight distance).toNat = left.toNat / 2 ^ (distance.toInt % 128).toNat
  divide : right.toNat ≠ 0 →
    ∃ result, left.divide right = .ok result ∧ result.toNat = left.toNat / right.toNat
  remainder : right.toNat ≠ 0 →
    ∃ result, left.remainder right = .ok result ∧ result.toNat = left.toNat % right.toNat
  divideThrows : right.toNat = 0 →
    left.divide right = .error (.arithmeticException "division by zero") ∧
      left.remainder right = .error (.arithmeticException "division by zero")
  compareTo : ComparesAs (left.compareTo right) (left.toNat < right.toNat)
    (left.toNat = right.toNat) (left.toNat > right.toNat)
  saturatingAdd : (left.saturatingAdd right).toNat = min (left.toNat + right.toNat) (2 ^ 128 - 1)
  saturatingSubtract : ((left.saturatingSubtract right).toNat : Int) =
    max 0 ((left.toNat : Int) - right.toNat)

structure I128.Exact (left right : I128) (distance : JInt) : Prop where
  add : (left.add right).toInt = (left.toInt + right.toInt).bmod (2 ^ 128)
  subtract : (left.subtract right).toInt = (left.toInt - right.toInt).bmod (2 ^ 128)
  multiply : (left.multiply right).toInt = (left.toInt * right.toInt).bmod (2 ^ 128)
  negate : left.negate.toInt = (-left.toInt).bmod (2 ^ 128)
  not : left.not.toInt = -left.toInt - 1
  and : (left.and right).toInt = (BitVec.ofInt 128 left.toInt &&& BitVec.ofInt 128 right.toInt).toInt
  or : (left.or right).toInt = (BitVec.ofInt 128 left.toInt ||| BitVec.ofInt 128 right.toInt).toInt
  xor : (left.xor right).toInt = (BitVec.ofInt 128 left.toInt ^^^ BitVec.ofInt 128 right.toInt).toInt
  shiftLeft : (left.shiftLeft distance).toInt =
    (left.toInt * 2 ^ (distance.toInt % 128).toNat).bmod (2 ^ 128)
  shiftRight : (left.shiftRight distance).toInt = left.toInt / 2 ^ (distance.toInt % 128).toNat
  divide : right.toInt ≠ 0 → ∃ result, left.divide right = .ok result ∧
    result.toInt = if left.toInt = -2 ^ 127 ∧ right.toInt = -1 then -2 ^ 127
      else left.toInt.tdiv right.toInt
  remainder : right.toInt ≠ 0 →
    ∃ result, left.remainder right = .ok result ∧ result.toInt = left.toInt.tmod right.toInt
  divideThrows : right.toInt = 0 →
    left.divide right = .error (.arithmeticException "division by zero") ∧
      left.remainder right = .error (.arithmeticException "division by zero")
  compareTo : ComparesAs (left.compareTo right) (left.toInt < right.toInt)
    (left.toInt = right.toInt) (left.toInt > right.toInt)
  saturatingAdd : (left.saturatingAdd right).toInt =
    max (-2 ^ 127) (min (left.toInt + right.toInt) (2 ^ 127 - 1))
  saturatingSubtract : (left.saturatingSubtract right).toInt =
    max (-2 ^ 127) (min (left.toInt - right.toInt) (2 ^ 127 - 1))

/-- Reading the `int` distance signed or unsigned leaves its value modulo 128. -/
theorem distance_mod (distance : JInt) : (distance.toInt % 128).toNat = distance.toNat % 128 := by
  rw [BitVec.toInt_eq_toNat_cond]
  split_ifs <;> omega

theorem U128.exact (left right : U128) (distance : JInt) : U128.Exact left right distance where
  add := left.add_value right
  subtract := by
    have bound := right.to_nat_lt
    rw [U128.subtract_value]
    omega
  multiply := left.multiply_value right
  negate := by
    have bound := left.to_nat_lt
    rw [U128.negate_value]
    omega
  not := by
    have bound := left.to_nat_lt
    rw [U128.not_value]
    omega
  and := left.and_value right
  or := left.or_value right
  xor := left.xor_value right
  shiftLeft := by
    rw [distance_mod]
    exact left.shift_left_value distance
  shiftRight := by
    rw [distance_mod]
    exact left.shift_right_value distance
  divide nonzero := by
    simpa only [U128.divide, if_true] using left.divide_or_remainder_of_nonzero true nonzero
  remainder nonzero := by
    simpa only [U128.remainder, Bool.false_eq_true, if_false] using
      left.divide_or_remainder_of_nonzero false nonzero
  divideThrows zero :=
    ⟨left.divide_or_remainder_of_zero true zero, left.divide_or_remainder_of_zero false zero⟩
  compareTo :=
    ⟨(left.compare_to_signs right).1, (left.compare_to_signs right).2.1, (left.compare_to_signs right).2.2⟩
  saturatingAdd := left.saturating_add_value right
  saturatingSubtract := by
    rw [U128.saturating_subtract_value]
    omega

/-- Truncated division overflows for one pair of operands only. -/
theorem I128.tdiv_bounds {left right : Int} (bounds : -2 ^ 127 ≤ left ∧ left < 2 ^ 127)
    (nonzero : right ≠ 0) (regular : ¬ (left = -2 ^ 127 ∧ right = -1)) :
    -2 ^ 127 ≤ left.tdiv right ∧ left.tdiv right < 2 ^ 127 := by
  have small : left.natAbs / right.natAbs ≤ left.natAbs := Nat.div_le_self _ _
  have halved : 2 ≤ right.natAbs → left.natAbs / right.natAbs ≤ left.natAbs / 2 :=
    fun large => Nat.div_le_div_left large (by decide)
  rw [I128.tdiv_by_magnitudes]
  generalize left.natAbs / right.natAbs = quotient at *
  by_cases large : 2 ≤ right.natAbs
  · have bound := halved large
    split_ifs <;> omega
  · have unit : right = 1 ∨ right = -1 := by omega
    rcases unit with rfl | rfl <;> split_ifs <;> omega

theorem I128.wrapped_tdiv {left right : I128} (nonzero : right.toInt ≠ 0) :
    (left.toInt.tdiv right.toInt).bmod (2 ^ 128) =
      if left.toInt = -2 ^ 127 ∧ right.toInt = -1 then -2 ^ 127
      else left.toInt.tdiv right.toInt := by
  split_ifs with overflow
  · rw [overflow.1, overflow.2]
    decide
  · have bounds := I128.tdiv_bounds left.to_int_bounds nonzero overflow
    exact Int.bmod_eq_of_le (by omega) (by omega)

theorem I128.exact (left right : I128) (distance : JInt) : I128.Exact left right distance where
  add := left.add_value right
  subtract := left.subtract_value right
  multiply := left.multiply_value right
  negate := left.negate_value
  not := left.not_value
  and := left.and_value right
  or := left.or_value right
  xor := left.xor_value right
  shiftLeft := by
    rw [distance_mod]
    exact left.shift_left_value distance
  shiftRight := by
    rw [distance_mod]
    exact left.shift_right_value distance
  divide nonzero := by
    rw [← I128.wrapped_tdiv nonzero]
    exact I128.divide_of_nonzero nonzero
  remainder := I128.remainder_of_nonzero
  divideThrows zero := ⟨I128.divide_of_zero zero, I128.remainder_of_zero zero⟩
  compareTo :=
    ⟨(left.compare_to_signs right).1, (left.compare_to_signs right).2.1, (left.compare_to_signs right).2.2⟩
  saturatingAdd := left.saturating_add_value right
  saturatingSubtract := left.saturating_subtract_value right

theorem wide_arithmetic_exact (left right : U128) (signedLeft signedRight : I128)
    (distance : JInt) :
    U128.Exact left right distance ∧ I128.Exact signedLeft signedRight distance :=
  ⟨left.exact right distance, signedLeft.exact signedRight distance⟩

end RustcCodegenJvm.Runtime
