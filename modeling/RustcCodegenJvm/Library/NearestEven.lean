import Mathlib

/-!
# Rounding to the nearest integer, ties to even

`NearestEven x s` says that `s` is the integer nearest to `x`, the even one
when two are equally near. Scaled by a unit it is the nearest point of a
lattice, which is how a floating-point format sees a number between two powers
of its radix.
-/

namespace RustcCodegenJvm.Library

section Lattice

variable {K : Type*} [Field K] [LinearOrder K] [IsStrictOrderedRing K]

structure NearestEven (x : K) (s : ℤ) : Prop where
  close : |x - s| ≤ 1 / 2
  even : |x - s| = 1 / 2 → Even s

private theorem apart {x : K} {s k : ℤ} (different : k ≠ s) : 1 ≤ |x - s| + |x - k| := by
  have integers : 1 ≤ |s - k| := Int.one_le_abs (sub_ne_zero.mpr different.symm)
  calc
    (1 : K) ≤ |(s : K) - k| := by exact_mod_cast integers
    _ = |((s : K) - x) + (x - k)| := by rw [sub_add_sub_cancel]
    _ ≤ |(s : K) - x| + |x - k| := abs_add_le _ _
    _ = |x - s| + |x - k| := by rw [abs_sub_comm x (s : K)]

variable {x unit : K} {s k : ℤ}

theorem NearestEven.le_distance (nearest : NearestEven x s) (k : ℤ) :
    |x - s| ≤ |x - k| := by
  by_cases same : k = s
  · rw [same]
  · have sum := apart (x := x) same
    have close := nearest.close
    linarith

theorem NearestEven.even_of_tie (nearest : NearestEven x s) (different : k ≠ s)
    (tie : |x - k| = |x - s|) : Even s := by
  have sum := apart (x := x) different
  have close := nearest.close
  exact nearest.even (by linarith)

theorem distance_scaled (positive : 0 < unit) (k : ℤ) :
    |x - k * unit| = |x / unit - k| * unit := by
  rw [← abs_of_pos positive, ← abs_mul, abs_of_pos positive, sub_mul,
    div_mul_cancel₀ _ positive.ne']

theorem NearestEven.scaled_le_distance (positive : 0 < unit)
    (nearest : NearestEven (x / unit) s) (k : ℤ) :
    |x - s * unit| ≤ |x - k * unit| := by
  rw [distance_scaled positive, distance_scaled positive]
  exact mul_le_mul_of_nonneg_right (nearest.le_distance k) positive.le

theorem NearestEven.le_of_le (nearest : NearestEven x s) (below : (k : K) ≤ x) :
    k ≤ s := by
  by_contra outside
  have step : (s : K) + 1 ≤ k := by exact_mod_cast (not_le.mp outside)
  have close := (abs_le.mp nearest.close).2
  linarith

theorem NearestEven.le_of_ge (nearest : NearestEven x s) (above : x ≤ (k : K)) :
    s ≤ k := by
  by_contra outside
  have step : (k : K) + 1 ≤ s := by exact_mod_cast (not_le.mp outside)
  have close := (abs_le.mp nearest.close).1
  linarith

theorem nearest_even_down {whole rest divisor : K} (positive : 0 < divisor)
    (isWhole : whole = s) (nonnegative : 0 ≤ rest) (half : 2 * rest ≤ divisor)
    (tie : 2 * rest = divisor → Even s) : NearestEven ((whole * divisor + rest) / divisor) s := by
  have offset : (whole * divisor + rest) / divisor - s = rest / divisor := by
    rw [isWhole, add_div, mul_div_cancel_right₀ _ positive.ne', add_sub_cancel_left]
  have size : |(whole * divisor + rest) / divisor - s| = rest / divisor := by
    rw [offset, abs_of_nonneg (div_nonneg nonnegative positive.le)]
  constructor
  · rw [size, div_le_iff₀ positive]
    linarith
  · intro equal
    rw [size, div_eq_iff positive.ne'] at equal
    exact tie (by linarith)

theorem nearest_even_up {whole rest divisor : K} (positive : 0 < divisor)
    (isWhole : whole = s) (small : rest ≤ divisor) (half : divisor ≤ 2 * rest)
    (tie : 2 * rest = divisor → Even (s + 1)) :
    NearestEven ((whole * divisor + rest) / divisor) (s + 1) := by
  have offset : (whole * divisor + rest) / divisor - ((s + 1 : ℤ) : K) = -((divisor - rest) / divisor) := by
    rw [isWhole, Int.cast_add, Int.cast_one, sub_div, div_self positive.ne', add_div,
      mul_div_cancel_right₀ _ positive.ne']
    ring
  have size : |(whole * divisor + rest) / divisor - ((s + 1 : ℤ) : K)| = (divisor - rest) / divisor := by
    rw [offset, abs_neg, abs_of_nonneg (div_nonneg (by linarith) positive.le)]
  constructor
  · rw [size, div_le_iff₀ positive]
    linarith
  · intro equal
    rw [size, div_eq_iff positive.ne'] at equal
    exact tie (by linarith)

/-- A set of numbers that agrees with a lattice from `base` on and may be denser
below it: rounding a number above `base` on the lattice is rounding it in the set. -/
theorem nearest_from_base {base y : K} (positive : 0 < unit)
    (nearest : NearestEven (x / unit) s) (onLattice : ∃ k : ℤ, base = k * unit) (below : base ≤ x)
    (member : y < base ∨ ∃ k : ℤ, y = k * unit) :
    |x - s * unit| ≤ |x - y| ∧ (y ≠ s * unit → |x - y| = |x - s * unit| → Even s) := by
  rcases member with lower | ⟨k, rfl⟩
  · obtain ⟨k, rfl⟩ := onLattice
    have strict : |x - s * unit| < |x - y| :=
      calc
        |x - s * unit| ≤ |x - k * unit| := nearest.scaled_le_distance positive k
        _ = x - k * unit := abs_of_nonneg (sub_nonneg.mpr below)
        _ < x - y := by linarith
        _ ≤ |x - y| := le_abs_self _
    exact ⟨strict.le, fun _ tie => absurd tie strict.ne'⟩
  · refine ⟨nearest.scaled_le_distance positive k, fun different tie => ?_⟩
    rw [distance_scaled positive, distance_scaled positive] at tie
    apply nearest.even_of_tie _ (mul_right_cancel₀ positive.ne' tie)
    rintro rfl
    exact different rfl

end Lattice

end RustcCodegenJvm.Library
