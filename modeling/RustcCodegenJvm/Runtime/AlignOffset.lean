import RustcCodegenJvm.Runtime.AddressOrder

/-!
# Alignment of a pointer

`align_offset` of `Pointer.java` tries as many elements as the alignment says: then the addresses
repeat.
-/

namespace RustcCodegenJvm.Runtime.AddressOrder

/-- The test of the loop; sums and products of longs wrap around. -/
def isAligned (current viewSize alignment : Int) (elements : Nat) : Bool :=
  ((current + elements * viewSize).bmod (2 ^ 64)).tmod alignment == 0

/-- `none` where the code throws: for a refused alignment, or without a numeric address. -/
def Pointer.alignOffset {Allocation : Type} (base : Allocation → Int) (pointer : Pointer Allocation)
    (alignment : BitVec 64) : Option Int := do
  if alignment.toInt ≤ 0 ∨ alignment &&& (alignment - 1) ≠ 0 then none
  else
    let current ← pointer.numericAddress base
    let attempts := if pointer.place.viewSize = 0 then 1 else alignment.toNat
    let elements := (List.range attempts).find? (isAligned current pointer.place.viewSize alignment.toInt)
    return elements.elim (-1) Nat.cast

/-- The address `elements` further on is a multiple of the alignment. -/
def AlignedAfter (address size : Int) (power elements : Nat) : Prop :=
  (address + elements * size) % 2 ^ 64 % 2 ^ power = 0

section

variable {address size : Int} {power : Nat} (small : power < 63) (elements : Nat)

include small

theorem is_aligned_iff :
    isAligned address size (2 ^ power) elements = true ↔ AlignedAfter address size power elements := by
  have divides : (2 : Int) ^ power ∣ 2 ^ 64 := pow_dvd_pow 2 (by omega)
  rw [isAligned, beq_iff_eq, ← Int.dvd_iff_tmod_eq_zero, Int.dvd_iff_emod_eq_zero,
    ← Int.emod_emod_of_dvd _ divides, AlignedAfter]
  exact iff_of_eq (congrArg (· % 2 ^ power = 0) Int.bmod_emod)

theorem aligned_after_mod (aligned : AlignedAfter address size power elements) :
    AlignedAfter address size power (elements % 2 ^ power) := by
  have divides : (2 : Int) ^ power ∣ 2 ^ 64 := pow_dvd_pow 2 (by omega)
  rw [AlignedAfter, Int.emod_emod_of_dvd _ divides] at *
  rw [← aligned, Int.natCast_mod]
  push_cast
  exact ((Int.mod_modEq _ _).mul_right size).add_left address

end

variable {Allocation : Type} {base : Allocation → Int} {pointer : Pointer Allocation}
  {alignment : BitVec 64} {address : Int} {power : Nat}

theorem power_of_two_accepted (isPower : alignment.toInt = 2 ^ power) :
    power < 63 ∧ alignment.toNat = 2 ^ power ∧
      ¬(alignment.toInt ≤ 0 ∨ alignment &&& (alignment - 1) ≠ 0) := by
  have positive : (0 : Int) < 2 ^ power := by positivity
  have words := alignment.toInt_eq_toNat_cond
  have isInt : (alignment.toNat : Int) = 2 ^ power := by split_ifs at words <;> omega
  have isNat : alignment.toNat = 2 ^ power := by exact_mod_cast isInt
  have below : 2 ^ power < 2 ^ 63 := by
    have bound : (2 : Int) ^ power < 2 ^ 63 := isPower ▸ alignment.toInt_lt
    exact_mod_cast bound
  refine ⟨(Nat.pow_lt_pow_iff_right Nat.one_lt_two).mp below, isNat, ?_⟩
  have single : alignment &&& (alignment - 1) = 0 := by
    apply BitVec.eq_of_toNat_eq
    have one : 1 ≤ alignment := by
      rw [BitVec.le_def, isNat]
      exact Nat.one_le_two_pow
    rw [BitVec.toNat_and, BitVec.toNat_sub_of_le one, isNat]
    exact (Nat.and_two_pow_sub_one_eq_mod _ _).trans (Nat.mod_self _)
  rintro (negative | several)
  · omega
  · exact several single

/-- The least number of elements after which the address is aligned, or -1 if there is none. The
pattern of 2 ^ 63 is a negative long, not a power of two. -/
theorem align_offset_least (numeric : pointer.numericAddress base = some address)
    (isPower : alignment.toInt = 2 ^ power) :
    ∃ result : Int, pointer.alignOffset base alignment = some result ∧
      ((∃ elements : Nat, result = elements ∧
        IsLeast {n | AlignedAfter address pointer.place.viewSize power n} elements) ∨
      result = -1 ∧ ∀ n, ¬AlignedAfter address pointer.place.viewSize power n) := by
  obtain ⟨small, isNat, accepted⟩ := power_of_two_accepted isPower
  have tested := @is_aligned_iff address pointer.place.viewSize power small
  rw [Pointer.alignOffset, if_neg accepted, numeric, isPower, isNat]
  refine ⟨_, rfl, ?_⟩
  cases found : (List.range (if pointer.place.viewSize = 0 then 1 else 2 ^ power)).find?
      (isAligned address pointer.place.viewSize (2 ^ power)) with
  | some elements =>
    obtain ⟨aligned, -, before⟩ := List.find?_range_eq_some.mp found
    refine .inl ⟨elements, rfl, (tested elements).mp aligned, fun other otherAligned => ?_⟩
    by_contra below
    simpa [(tested other).mpr otherAligned] using before other (by omega)
  | none =>
    refine .inr ⟨rfl, fun n aligned => ?_⟩
    have never := List.find?_range_eq_none.mp found
    by_cases zero : pointer.place.viewSize = 0
    · have first : AlignedAfter address pointer.place.viewSize power 0 := by
        simpa [AlignedAfter, zero] using aligned
      simpa [(tested 0).mpr first] using never 0 (by simp [zero])
    · have bound : n % 2 ^ power < 2 ^ power := Nat.mod_lt _ (Nat.two_pow_pos power)
      have early := (tested _).mpr (aligned_after_mod small n aligned)
      simpa [early] using never (n % 2 ^ power) (by rwa [if_neg zero])

/-- From address 12 in steps of 4 bytes, the next multiple of 8 is one element on. -/
theorem align_offset_least_at_twelve :
    ∃ result : Int, Pointer.alignOffset cellBase ⟨⟨none, 0, 4, 12⟩, none⟩ 8 = some result ∧
      ((∃ elements : Nat, result = elements ∧ IsLeast {n | AlignedAfter 12 4 3 n} elements) ∨
      result = -1 ∧ ∀ n, ¬AlignedAfter 12 4 3 n) :=
  align_offset_least rfl (by decide)

end RustcCodegenJvm.Runtime.AddressOrder
