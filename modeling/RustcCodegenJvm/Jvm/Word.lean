import Mathlib

/-!
# Java machine words

Java `int` and `long` are two's-complement words. Their addition, subtraction,
multiplication and bitwise operators are the `BitVec` ones; what differs from
`BitVec` is collected here: shift distances are masked to the word size, and
comparisons return an `int` of which the callers only look at the sign.
-/

namespace RustcCodegenJvm.Jvm

open BitVec

abbrev JInt := BitVec 32

abbrev JLong := BitVec 64

def ishl (value distance : JInt) : JInt := value <<< (distance.toNat % 32)

def ishr (value distance : JInt) : JInt := value.sshiftRight (distance.toNat % 32)

def iushr (value distance : JInt) : JInt := value >>> (distance.toNat % 32)

def lshl (value : JLong) (distance : JInt) : JLong := value <<< (distance.toNat % 64)

def lshr (value : JLong) (distance : JInt) : JLong := value.sshiftRight (distance.toNat % 64)

def lushr (value : JLong) (distance : JInt) : JLong := value >>> (distance.toNat % 64)

/-- The `int` every Java comparison method returns: its sign is the order. -/
def threeWay (less equal : Prop) [Decidable less] [Decidable equal] : JInt :=
  if less then -1 else if equal then 0 else 1

/-- `Long.compare` and `Integer.compare`, at any width. -/
def compareSigned {width : Nat} (left right : BitVec width) : JInt :=
  threeWay (left.toInt < right.toInt) (left = right)

/-- `Long.compareUnsigned` and `Integer.compareUnsigned`, at any width. -/
def compareUnsigned {width : Nat} (left right : BitVec width) : JInt :=
  threeWay (left.toNat < right.toNat) (left = right)

section Signs

variable {less equal : Prop} [Decidable less] [Decidable equal]

theorem three_way_negative : (threeWay less equal).slt 0 = true ↔ less := by
  by_cases isLess : less <;> by_cases isEqual : equal <;> simp +decide [threeWay, isLess, isEqual]

theorem three_way_zero : threeWay less equal = 0 ↔ ¬ less ∧ equal := by
  by_cases isLess : less <;> by_cases isEqual : equal <;> simp +decide [threeWay, isLess, isEqual]

theorem three_way_positive : (0 : JInt).slt (threeWay less equal) = true ↔ ¬ less ∧ ¬ equal := by
  by_cases isLess : less <;> by_cases isEqual : equal <;> simp +decide [threeWay, isLess, isEqual]

end Signs

section Comparisons

variable {width : Nat} (left right : BitVec width)

theorem compare_unsigned_negative :
    (compareUnsigned left right).slt 0 = true ↔ left.toNat < right.toNat :=
  three_way_negative

theorem compare_unsigned_zero : compareUnsigned left right = 0 ↔ left.toNat = right.toNat := by
  rw [compareUnsigned, three_way_zero, ← toNat_inj]
  omega

theorem compare_unsigned_positive :
    (0 : JInt).slt (compareUnsigned left right) = true ↔ right.toNat < left.toNat := by
  rw [compareUnsigned, three_way_positive, ← toNat_inj]
  omega

theorem compare_signed_negative :
    (compareSigned left right).slt 0 = true ↔ left.toInt < right.toInt :=
  three_way_negative

theorem compare_signed_zero : compareSigned left right = 0 ↔ left.toInt = right.toInt := by
  rw [compareSigned, three_way_zero, ← toInt_inj]
  omega

theorem compare_signed_positive :
    (0 : JInt).slt (compareSigned left right) = true ↔ right.toInt < left.toInt := by
  rw [compareSigned, three_way_positive, ← toInt_inj]
  omega

end Comparisons

variable {distance : JInt}

theorem lshl_value (value : JLong) (small : distance.toNat < 64) :
    (lshl value distance).toNat = value.toNat * 2 ^ distance.toNat % 2 ^ 64 := by
  rw [lshl, Nat.mod_eq_of_lt small, toNat_shiftLeft, Nat.shiftLeft_eq]

theorem lushr_value (value : JLong) (small : distance.toNat < 64) :
    (lushr value distance).toNat = value.toNat / 2 ^ distance.toNat := by
  rw [lushr, Nat.mod_eq_of_lt small, toNat_ushiftRight, Nat.shiftRight_eq_div_pow]

theorem lshr_value (value : JLong) (small : distance.toNat < 64) :
    (lshr value distance).toInt = value.toInt / 2 ^ distance.toNat := by
  rw [lshr, Nat.mod_eq_of_lt small, toInt_sshiftRight, Int.shiftRight_eq_div_pow]
  norm_cast

theorem or_eq_add_of_dvd {left right : Nat} (place : Nat) (aligned : 2 ^ place ∣ left)
    (small : right < 2 ^ place) : left ||| right = left + right := by
  obtain ⟨factor, rfl⟩ := aligned
  exact (Nat.two_pow_add_eq_or_of_lt small factor).symm

theorem word_split {amount : Nat} (small : amount ≤ 64) :
    (2 : Nat) ^ 64 = 2 ^ amount * 2 ^ (64 - amount) := by
  rw [← pow_add, Nat.add_sub_cancel' small]

theorem funnel_value (upper lower : JLong) (distance rest : JInt)
    (small : distance.toNat < 64) (positive : 0 < distance.toNat)
    (complement : rest.toNat = 64 - distance.toNat) :
    (lshl upper distance ||| lushr lower rest).toNat =
      upper.toNat * 2 ^ distance.toNat % 2 ^ 64 + lower.toNat / 2 ^ (64 - distance.toNat) := by
  rw [toNat_or, lshl_value upper small, lushr_value lower (by omega), complement]
  apply or_eq_add_of_dvd distance.toNat
  · rw [word_split small.le, Nat.mul_comm, Nat.mul_mod_mul_left]
    exact Nat.dvd_mul_right _ _
  · apply Nat.div_lt_of_lt_mul
    have bound := lower.isLt
    rw [word_split small.le, Nat.mul_comm] at bound
    exact bound

theorem funnel_right_value (upper lower : JLong) (distance rest : JInt)
    (small : distance.toNat < 64) (positive : 0 < distance.toNat)
    (complement : rest.toNat = 64 - distance.toNat) :
    (lushr lower distance ||| lshl upper rest).toNat =
      2 ^ (64 - distance.toNat) * (upper.toNat % 2 ^ distance.toNat) +
        lower.toNat / 2 ^ distance.toNat := by
  rw [BitVec.or_comm, funnel_value upper lower rest distance (by omega) (by omega) (by omega),
    complement, Nat.sub_sub_self small.le]
  congr 1
  rw [word_split small.le, Nat.mul_comm upper.toNat, Nat.mul_comm (2 ^ distance.toNat),
    Nat.mul_mod_mul_left]

end RustcCodegenJvm.Jvm
