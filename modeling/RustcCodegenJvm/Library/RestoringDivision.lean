import Mathlib

/-!
# Bit-serial division over the naturals

The schoolbook algorithm that scans a dividend from its top bit, keeps a
partial remainder, and subtracts the divisor whenever it fits. The machine
representation of the registers is left to the caller: the rules below only
speak of the numbers the registers hold.
-/

namespace RustcCodegenJvm.Library.RestoringDivision

/-- The registers while `position` low bits of the dividend are unscanned:
`quotient` already sits at its final place value. -/
structure Invariant (dividend divisor position quotient remainder : Nat) : Prop where
  aligned : 2 ^ position ∣ quotient
  split : dividend / 2 ^ position = quotient / 2 ^ position * divisor + remainder
  reduced : remainder < divisor

def shiftIn (dividend position remainder : Nat) : Nat :=
  2 * remainder + dividend / 2 ^ position % 2

variable {dividend divisor position quotient remainder : Nat}

theorem Invariant.start {size : Nat} (fits : dividend < 2 ^ size) (positive : 0 < divisor) :
    Invariant dividend divisor size 0 0 where
  aligned := Nat.dvd_zero _
  split := by simp [Nat.div_eq_of_lt fits]
  reduced := positive

theorem scanned_prefix_succ (dividend position : Nat) :
    dividend / 2 ^ position = 2 * (dividend / 2 ^ (position + 1)) + dividend / 2 ^ position % 2 := by
  rw [pow_succ, ← Nat.div_div_eq_div_mul]
  omega

variable (invariant : Invariant dividend divisor (position + 1) quotient remainder)

include invariant in
/-- The partial remainder never exceeds the scanned prefix, which is why a
register as wide as the dividend cannot lose its top bit. -/
theorem Invariant.shift_in_le :
    shiftIn dividend position remainder ≤ dividend / 2 ^ position := by
  have bound : remainder ≤ dividend / 2 ^ (position + 1) := by
    rw [invariant.split]
    exact Nat.le_add_left _ _
  rw [shiftIn, scanned_prefix_succ dividend position]
  omega

private theorem quotient_halves (aligned : 2 ^ (position + 1) ∣ quotient) :
    quotient / 2 ^ position = 2 * (quotient / 2 ^ (position + 1)) := by
  obtain ⟨factor, rfl⟩ := aligned
  rw [Nat.mul_div_cancel_left _ (by positivity), pow_succ, Nat.mul_assoc,
    Nat.mul_div_cancel_left _ (by positivity)]

include invariant

theorem Invariant.keep (small : shiftIn dividend position remainder < divisor) :
    Invariant dividend divisor position quotient (shiftIn dividend position remainder) where
  aligned := (pow_dvd_pow 2 (Nat.le_succ position)).trans invariant.aligned
  split := by
    rw [scanned_prefix_succ, invariant.split, quotient_halves invariant.aligned, shiftIn]
    ring
  reduced := small

theorem Invariant.subtract (large : divisor ≤ shiftIn dividend position remainder) :
    Invariant dividend divisor position (quotient + 2 ^ position)
      (shiftIn dividend position remainder - divisor) where
  aligned := Nat.dvd_add ((pow_dvd_pow 2 (Nat.le_succ position)).trans invariant.aligned) dvd_rfl
  split := by
    have place : (quotient + 2 ^ position) / 2 ^ position =
        2 * (quotient / 2 ^ (position + 1)) + 1 := by
      rw [Nat.add_div_right _ (by positivity), quotient_halves invariant.aligned]
    have restored : shiftIn dividend position remainder =
        divisor + (shiftIn dividend position remainder - divisor) := by omega
    rw [scanned_prefix_succ, invariant.split, place]
    calc
      2 * (quotient / 2 ^ (position + 1) * divisor + remainder) + dividend / 2 ^ position % 2
          = 2 * (quotient / 2 ^ (position + 1)) * divisor +
              shiftIn dividend position remainder := by rw [shiftIn]; ring
      _ = 2 * (quotient / 2 ^ (position + 1)) * divisor +
              (divisor + (shiftIn dividend position remainder - divisor)) := by rw [← restored]
      _ = _ := by ring
  reduced := by
    have reduced := invariant.reduced
    rw [shiftIn] at large ⊢
    omega

omit invariant

theorem Invariant.finish (invariant : Invariant dividend divisor 0 quotient remainder) :
    quotient = dividend / divisor ∧ remainder = dividend % divisor := by
  have split : remainder + divisor * quotient = dividend := by
    have whole := invariant.split
    simp only [pow_zero, Nat.div_one] at whole
    rw [whole]
    ring
  have unique := (Nat.div_mod_unique (Nat.zero_lt_of_lt invariant.reduced)).mpr
    ⟨split, invariant.reduced⟩
  exact ⟨unique.1.symm, unique.2.symm⟩

end RustcCodegenJvm.Library.RestoringDivision
