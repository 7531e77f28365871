import Mathlib

/-!
# Equality and order of pointers

`sameAddress`, `compareAddress` and `numericAddress` of `Pointer.java`. A pointer to a field is a
pointer into the cell of the field with an address origin, the pointer to the aggregate; its numeric
address is that of the origin with an offset. `sameAddress` does not look at origins.
-/

namespace RustcCodegenJvm.Runtime.AddressOrder

/-- `allocation`, `byteOffset`, `viewSize` and `exposedAddress` of a pointer. -/
structure Place (Allocation : Type) where
  allocation : Option Allocation
  byteOffset : Int
  viewSize : Int
  exposedAddress : Int

/-- An origin has no origin itself: `inheritAddressOrigin` takes over the source's. -/
structure Pointer (Allocation : Type) where
  place : Place Allocation
  origin : Option (Place Allocation × Int)

def exact (number : Int) : Option Int :=
  if -2 ^ 63 ≤ number ∧ number < 2 ^ 63 then some number else none

/-- `Long.compareUnsigned`: negative longs are the large ones. -/
def compareUnsigned (left right : Int) : Ordering :=
  if left < 0 ↔ right < 0 then compare left right else if left < 0 then .gt else .lt

variable {Allocation : Type} (base : Allocation → Int)

def Place.numericAddress (place : Place Allocation) : Option Int :=
  match place.allocation with
  | none => some place.exposedAddress
  | some allocation => exact (base allocation + place.byteOffset)

namespace Pointer

def numericAddress (pointer : Pointer Allocation) : Option Int :=
  match pointer.origin with
  | none => pointer.place.numericAddress base
  | some (origin, offset) => do exact ((← origin.numericAddress base) + offset)

def inheritAddressOrigin (place : Place Allocation) (source : Pointer Allocation)
    (additionalOffset : Int) : Option (Pointer Allocation) :=
  match source.origin with
  | none => some ⟨place, some (source.place, additionalOffset)⟩
  | some (origin, offset) => do return ⟨place, some (origin, ← exact (offset + additionalOffset))⟩

def copyAddressOrigin (place : Place Allocation) (source : Pointer Allocation)
    (additionalOffset : Int) : Option (Pointer Allocation) :=
  match source.origin with
  | none => some ⟨place, none⟩
  | some (origin, offset) => do return ⟨place, some (origin, ← exact (offset + additionalOffset))⟩

/-- `byte_offset`; `offset` and `retype` move a pointer by other distances. -/
def byteOffset (pointer : Pointer Allocation) (byteCount : Int) : Option (Pointer Allocation) := do
  let moved ← exact (pointer.place.byteOffset + byteCount)
  let exposed ← match pointer.place.allocation with
    | none => exact (pointer.place.exposedAddress + byteCount)
    | some _ => some (-1)
  copyAddressOrigin { pointer.place with byteOffset := moved, exposedAddress := exposed } pointer byteCount

/-- A pointer to the start of an allocation, as `cell` and `field` make it. -/
def start (allocation : Allocation) (size : Int) : Pointer Allocation :=
  ⟨⟨some allocation, 0, size, -1⟩, none⟩

/-- `projectStructField` of a managed field, `cell` being the one cell of the field. -/
def projectStructField (pointer : Pointer Allocation) (cell : Allocation) (fieldOffset fieldSize : Int) :
    Option (Pointer Allocation) :=
  inheritAddressOrigin (start cell fieldSize).place pointer fieldOffset

/-- Where the pointer is without its origin. -/
def localAddress (pointer : Pointer Allocation) : Int :=
  match pointer.place.allocation with
  | none => pointer.place.exposedAddress
  | some allocation => base allocation + pointer.place.byteOffset

variable [DecidableEq Allocation]

def sameAddress (left right : Pointer Allocation) : Option Bool :=
  if left.place.allocation ≠ none ∧ left.place.allocation = right.place.allocation then
    some (left.place.byteOffset == right.place.byteOffset)
  else if left.place.allocation = none ∧ right.place.allocation = none then
    some (left.place.exposedAddress == right.place.exposedAddress)
  else do return (← left.numericAddress base) == (← right.numericAddress base)

/-- Whether `compareAddress` compares the byte offsets. -/
def comparesOffsets (left right : Pointer Allocation) : Bool :=
  left.place.allocation ≠ none ∧ left.place.allocation = right.place.allocation ∧
    left.origin.isNone ∧ right.origin.isNone ∧ 0 ≤ left.place.byteOffset ∧
    0 ≤ right.place.byteOffset

def compareAddress (left right : Pointer Allocation) : Option Ordering :=
  if comparesOffsets left right then
    some (compareUnsigned left.place.byteOffset right.place.byteOffset)
  else do return compareUnsigned (← left.numericAddress base) (← right.numericAddress base)

/-- Equality and order of two pointers agree with each other and with their numeric addresses. -/
structure Agree (left right : Pointer Allocation) (first second : Int) : Prop where
  equal : left.sameAddress base right = some true ↔ first = second
  zero : left.sameAddress base right = some true ↔ left.compareAddress base right = some .eq
  order : left.compareAddress base right = some (compareUnsigned first second)

/-- Pointers into one allocation are displaced by their origins by the same distance, or neither
their offsets nor their addresses coincide; and where offsets are compared, no pointer has a
negative address and the other one has not. -/
structure Linked (left right : Pointer Allocation) (first second : Int) : Prop where
  displaced : left.place.allocation = right.place.allocation →
    first - left.localAddress base = second - right.localAddress base ∨
      (left.localAddress base ≠ right.localAddress base ∧ first ≠ second)
  signs : comparesOffsets left right → (first < 0 ↔ second < 0)

theorem compare_unsigned_eq_iff (left right : Int) : compareUnsigned left right = .eq ↔ left = right := by
  unfold compareUnsigned
  split
  · exact Int.compare_eq_eq
  · split <;> simp <;> omega

variable {base} {left right : Pointer Allocation} {first second : Int}
  (isFirst : left.numericAddress base = some first)
  (isSecond : right.numericAddress base = some second)

include isFirst isSecond

theorem same_address_iff : left.sameAddress base right = some true ↔
    if left.place.allocation = right.place.allocation then
      left.localAddress base = right.localAddress base
    else first = second := by
  simp only [sameAddress, localAddress, isFirst, isSecond]
  cases isLeft : left.place.allocation <;> cases isRight : right.place.allocation <;> simp
  split <;> simp_all

theorem compared_offsets (compared : comparesOffsets left right) :
    ∃ start, first = start + left.place.byteOffset ∧ second = start + right.place.byteOffset ∧
      0 ≤ left.place.byteOffset ∧ 0 ≤ right.place.byteOffset := by
  simp only [comparesOffsets, decide_eq_true_eq, Option.isNone_iff_eq_none] at compared
  obtain ⟨allocated, same, leftPlain, rightPlain, leftPositive, rightPositive⟩ := compared
  obtain ⟨allocation, isAllocation⟩ := Option.ne_none_iff_exists'.mp allocated
  have isRight := same.symm.trans isAllocation
  simp only [numericAddress, leftPlain, rightPlain, Place.numericAddress, isAllocation, isRight, exact,
    Option.ite_none_right_eq_some, Option.some.injEq] at isFirst isSecond
  exact ⟨base allocation, isFirst.2.symm, isSecond.2.symm, leftPositive, rightPositive⟩

theorem compare_address_iff : left.compareAddress base right = some (compareUnsigned first second) ↔
    (comparesOffsets left right → (first < 0 ↔ second < 0)) := by
  unfold compareAddress
  split
  · rename_i compared
    obtain ⟨start, rfl, rfl, leftPositive, rightPositive⟩ := compared_offsets isFirst isSecond compared
    have offsets : compareUnsigned left.place.byteOffset right.place.byteOffset =
        compare (start + left.place.byteOffset) (start + right.place.byteOffset) := by
      simp [compareUnsigned, Int.not_lt.mpr leftPositive, Int.not_lt.mpr rightPositive, compare,
        compareOfLessAndEq]
    rw [offsets, Option.some.injEq, compareUnsigned]
    split
    · simp_all
    · simp only [compare, compareOfLessAndEq]
      grind
  · simp_all

end Pointer

/-- Where the cells of the examples start. -/
def cellBase (cell : Nat) : Int := 64 * cell

end RustcCodegenJvm.Runtime.AddressOrder
