import RustcCodegenJvm.Runtime.I128

/-!
# 128-bit integers from doubles

`fromF64` of `U128` and `I128`. `BigDecimal.valueOf` gives the decimal that `Double.toString` writes,
of at most 17 digits; here it is a parameter.
-/

namespace RustcCodegenJvm.Runtime

namespace Double

def exponent (bits : BitVec 64) : Nat := bits.toNat / 2 ^ 52 % 2 ^ 11

def fraction (bits : BitVec 64) : Nat := bits.toNat % 2 ^ 52

def isNaN (bits : BitVec 64) : Bool := exponent bits = 2047 && fraction bits ≠ 0

/-- The number that a bit pattern stands for. -/
def value (bits : BitVec 64) : ℚ :=
  (if bits.msb then -1 else 1) * if exponent bits = 0 then fraction bits * (2 : ℚ) ^ (-1074 : ℤ)
    else (2 ^ 52 + fraction bits) * (2 : ℚ) ^ ((exponent bits : ℤ) - 1075)

end Double

/-- `BigDecimal.toBigInteger` -/
def toBigInteger (number : ℚ) : Int := if 0 ≤ number then ⌊number⌋ else ⌈number⌉

def U128.fromBigInteger (number : Int) : U128 :=
  ⟨.ofInt 64 (number % 2 ^ 128 / 2 ^ 64), .ofInt 64 (number % 2 ^ 128)⟩

def I128.fromBigInteger (number : Int) : I128 := .ofU128 (.fromBigInteger number)

variable (valueOf : BitVec 64 → ℚ) (bits : BitVec 64)

def U128.fromF64 : U128 :=
  if Double.isNaN bits ∨ Double.value bits ≤ 0 then ⟨0, 0⟩
  else if 2 ^ 128 ≤ Double.value bits then ⟨-1, -1⟩
  else .fromBigInteger (toBigInteger (valueOf bits))

def I128.fromF64 : I128 :=
  if Double.isNaN bits then ⟨0, 0⟩
  else if Double.value bits ≤ -2 ^ 127 then .minValue
  else if 2 ^ 127 ≤ Double.value bits then .maxValue
  else .fromBigInteger (toBigInteger (valueOf bits))

theorem U128.from_big_integer_value (number : Int) :
    ((U128.fromBigInteger number).toNat : Int) = number % 2 ^ 128 := by
  simp only [fromBigInteger, toNat, BitVec.toNat_ofInt]
  omega

theorem I128.from_big_integer_value (number : Int) :
    (I128.fromBigInteger number).toInt = number.bmod (2 ^ 128) := by
  apply to_int_of_congr
  rw [U128.from_big_integer_value]
  exact Int.mod_modEq _ _

theorem to_big_integer_le {number : ℚ} {bound : Int} (below : number ≤ bound) :
    toBigInteger number ≤ bound := by
  unfold toBigInteger
  split
  · exact Int.cast_le.mp ((Int.floor_le number).trans below)
  · exact Int.ceil_le.mpr below

theorem to_big_integer_lt {number : ℚ} {bound : Int} (positive : 0 < bound) (below : number < bound) :
    toBigInteger number < bound := by
  unfold toBigInteger
  split
  · exact Int.floor_lt.mpr below
  · have negative : ⌈number⌉ ≤ 0 := Int.ceil_le.mpr (by push_cast; linarith)
    omega

theorem le_to_big_integer {number : ℚ} {bound : Int} (above : bound ≤ number) :
    bound ≤ toBigInteger number := by
  unfold toBigInteger
  split
  · exact Int.le_floor.mpr above
  · exact Int.cast_le.mp (above.trans (Int.le_ceil number))

/-- The two outer branches clamp; the inner one is right if it has the integer part. -/
theorem clamped_iff {low high wrapped : Int} (ordered : low < high) (positive : 0 < high) (number : ℚ) :
    (if number ≤ low then low else if high ≤ number then high - 1 else wrapped) =
        max low (min (high - 1) (toBigInteger number)) ↔
      (low < number → number < high → wrapped = toBigInteger number) := by
  split_ifs with below above
  · have small := to_big_integer_le below
    simp only [not_lt.mpr below, false_implies, iff_true]
    omega
  · have large := le_to_big_integer above
    simp only [not_lt.mpr above, false_implies, implies_true, iff_true]
    omega
  · have least := le_to_big_integer (not_le.mp below).le
    have most := to_big_integer_lt positive (not_le.mp above)
    simp only [not_le.mp below, not_le.mp above, true_implies]
    omega

end RustcCodegenJvm.Runtime
