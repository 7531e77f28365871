import Mathlib

/-!
# Flat byte memory

The bytes of a word, what the bitwise operators do to them, and little-endian
reads and writes of a memory of bytes. A history of accesses determines the
memory: each address holds the byte that was stored to it last.
-/

namespace RustcCodegenJvm.Library.ByteMemory

open BitVec

/-! ### The bytes of a word -/

def byteOf {width : Nat} (bits : BitVec width) (index : Nat) : BitVec 8 :=
  bits.extractLsb' (8 * index) 8

variable {index other : Nat}

section Bytes

variable {width : Nat}

@[simp] theorem get_byte_of (bits : BitVec width) (index position : Nat) (small : position < 8) :
    (byteOf bits index)[position] = bits.getLsbD (8 * index + position) := by
  simp [byteOf]

theorem byte_of_eq {bits : BitVec width} {byte : BitVec 8}
    (same : ∀ position (small : position < 8), bits.getLsbD (8 * index + position) = byte[position]) :
    byteOf bits index = byte := by
  apply eq_of_getElem_eq
  intro position small
  rw [get_byte_of, same position small]

theorem eq_of_bytes {count : Nat} {first second : BitVec width} (whole : width ≤ 8 * count)
    (same : ∀ index, index < count → byteOf first index = byteOf second index) : first = second := by
  apply eq_of_getLsbD_eq
  intro position inside
  have bytes := congrArg (fun byte => byte[position % 8]) (same (position / 8) (by omega))
  have split : 8 * (position / 8) + position % 8 = position := Nat.div_add_mod position 8
  simpa [split] using bytes

@[simp] theorem byte_of_zero (index : Nat) : byteOf (BitVec.ofNat width 0) index = 0 := by
  apply byte_of_eq
  simp

@[simp] theorem and_ones (byte : BitVec 8) : byte &&& 255#8 = byte :=
  and_allOnes

@[simp] theorem byte_of_or (first second : BitVec width) (index : Nat) :
    byteOf (first ||| second) index = byteOf first index ||| byteOf second index := by
  apply byte_of_eq
  intro position small
  simp

@[simp] theorem byte_of_and (first second : BitVec width) (index : Nat) :
    byteOf (first &&& second) index = byteOf first index &&& byteOf second index := by
  apply byte_of_eq
  intro position small
  simp

section

variable (bits : BitVec width)

include bits

theorem byte_of_not (inside : 8 * (index + 1) ≤ width) :
    byteOf (~~~bits) index = ~~~byteOf bits index := by
  apply byte_of_eq
  intro position small
  have below : 8 * index + position < width := by omega
  simp [below]

theorem byte_of_shift_right (places index : Nat) :
    byteOf (bits >>> (8 * places)) index = byteOf bits (index + places) := by
  apply byte_of_eq
  intro position small
  have place : 8 * places + (8 * index + position) = 8 * (index + places) + position := by ring
  simp [place]

theorem byte_of_shift_left (places : Nat) (inside : 8 * (index + 1) ≤ width) :
    byteOf (bits <<< (8 * places)) index = if index < places then 0 else byteOf bits (index - places) := by
  apply byte_of_eq
  intro position small
  have below : 8 * index + position < width := by omega
  split
  · have shifted : 8 * index + position < 8 * places := by omega
    simp [shifted]
  · have kept : ¬8 * index + position < 8 * places := by omega
    have place : 8 * index + position - 8 * places = 8 * (index - places) + position := by omega
    rw [getLsbD_shiftLeft, place, get_byte_of]
    simp [below, kept]

theorem byte_of_above (above : width ≤ 8 * index) :
    byteOf bits index = 0 := by
  apply byte_of_eq
  intro position small
  have outside : bits.getLsbD (8 * index + position) = false := getLsbD_of_ge _ _ (by omega)
  simp [outside]

theorem byte_of_set_width (inside : 8 * (index + 1) ≤ other) :
    byteOf (bits.setWidth other) index = byteOf bits index := by
  apply byte_of_eq
  intro position small
  have below : 8 * index + position < other := by omega
  simp [below]

theorem byte_of_sign_extend (narrower : width ≤ other)
    (inside : 8 * (index + 1) ≤ width) : byteOf (bits.signExtend other) index = byteOf bits index := by
  apply byte_of_eq
  intro position small
  have below : 8 * index + position < width := by omega
  have wider : 8 * index + position < other := by omega
  rw [getLsbD_signExtend, get_byte_of]
  simp [below, wider]

end

theorem byte_of_byte (byte : BitVec 8) (inside : 8 * (index + 1) ≤ width) :
    byteOf (byte.setWidth width) index = if index = 0 then byte else 0 := by
  rw [byte_of_set_width byte inside]
  split
  · next isFirst =>
    rw [isFirst]
    simp [byteOf]
  · exact byte_of_above byte (by omega)

end Bytes

/-! ### Masks -/

def Covers {width : Nat} (mask : BitVec width) (count : Nat) : Prop :=
  ∀ index, 8 * (index + 1) ≤ width → byteOf mask index = if index < count then BitVec.allOnes 8 else 0

section Masks

variable {width count : Nat} {mask : BitVec width}

/-- The bytes of a word from a place on, cut off after a number of them. -/
theorem byte_of_slice (covers : Covers mask count) (bits : BitVec width) (places : Nat)
    (inside : 8 * (index + 1) ≤ width) : byteOf (bits >>> (8 * places) &&& mask) index =
      if index < count then byteOf bits (index + places) else 0 := by
  rw [byte_of_and, byte_of_shift_right, covers index inside]
  split <;> simp

/-- Some bytes of a word are replaced by the first ones of another. -/
theorem byte_of_splice (covers : Covers mask count) (current incoming : BitVec width) (places : Nat)
    (inside : 8 * (index + 1) ≤ width) :
    byteOf (current &&& ~~~(mask <<< (8 * places)) ||| (incoming &&& mask) <<< (8 * places)) index =
      if places ≤ index ∧ index < places + count then byteOf incoming (index - places)
      else byteOf current index := by
  have maskByte : byteOf mask (index - places) = if index - places < count then allOnes 8 else 0 :=
    covers _ (by omega)
  rw [byte_of_or, byte_of_and, byte_of_not _ inside, byte_of_shift_left _ _ inside,
    byte_of_shift_left _ _ inside, byte_of_and, maskByte]
  by_cases before : index < places
  · have outside : ¬places ≤ index := by omega
    simp [before, outside]
  · by_cases covered : index - places < count
    · have within : places ≤ index ∧ index < places + count := by omega
      simp [before, covered, within]
    · have outside : ¬(places ≤ index ∧ index < places + count) := by omega
      simp [before, covered, outside]

end Masks

/-! ### Memory -/

abbrev Memory := Nat → BitVec 8

def read (memory : Memory) (offset : Nat) : Nat → BitVec 64
  | 0 => 0
  | count + 1 => read memory offset count ||| ((memory (offset + count)).setWidth 64) <<< (8 * count)

def write (memory : Memory) (offset count : Nat) (bits : BitVec 64) : Memory := fun address =>
  if offset ≤ address ∧ address < offset + count then byteOf bits (address - offset) else memory address

variable (memory : Memory) (offset : Nat)

theorem byte_of_read {count : Nat} (inside : index < 8) :
    byteOf (read memory offset count) index = if index < count then memory (offset + index) else 0 := by
  have whole : 8 * (index + 1) ≤ 64 := by omega
  induction count with
  | zero => simp [read]
  | succ count ih =>
    have rest : 8 * (index - count + 1) ≤ 64 := by omega
    rw [read, byte_of_or, ih, byte_of_shift_left _ _ whole, byte_of_byte _ rest]
    rcases Nat.lt_trichotomy index count with below | isLast | above
    · have wider : index < count + 1 := by omega
      simp [below, wider]
    · simp [isLast]
    · have before : ¬index < count := by omega
      have outside : ¬index < count + 1 := by omega
      have other : index - count ≠ 0 := by omega
      simp [before, outside, other]

theorem eq_read {memory : Memory} {offset count : Nat} {bits : BitVec 64}
    (bytes : ∀ index, index < 8 →
      byteOf bits index = if index < count then memory (offset + index) else 0) :
    bits = read memory offset count := by
  apply eq_of_bytes (show 64 ≤ 8 * 8 by decide)
  intro index inside
  rw [bytes index inside, byte_of_read memory offset inside]

theorem write_succ (offset count : Nat) (bits value : BitVec 64)
    (isByte : byteOf value 0 = byteOf bits count) :
    write (write memory offset count bits) (offset + count) 1 value = write memory offset (count + 1) bits := by
  funext address
  simp only [write]
  by_cases isLast : address = offset + count
  · have last : offset + count ≤ address ∧ address < offset + count + 1 := by omega
    have covered : offset ≤ address ∧ address < offset + (count + 1) := by omega
    have first : address - (offset + count) = 0 := by omega
    have place : address - offset = count := by omega
    rw [if_pos last, if_pos covered, first, place, isByte]
  · have other : ¬(offset + count ≤ address ∧ address < offset + count + 1) := by omega
    have same : (offset ≤ address ∧ address < offset + (count + 1)) ↔
        (offset ≤ address ∧ address < offset + count) := by omega
    simp only [if_neg other, same]

theorem write_zero (bits : BitVec 64) : write memory offset 0 bits = memory := by
  funext address
  have outside : ¬(offset ≤ address ∧ address < offset + 0) := by omega
  rw [write, if_neg outside]

theorem write_read {count : Nat} (small : count ≤ 8) :
    write memory offset count (read memory offset count) = memory := by
  funext address
  rw [write]
  split
  · next inside =>
    rw [byte_of_read _ _ (by omega), if_pos (by omega), Nat.add_sub_cancel' inside.1]
  · rfl

theorem write_word {count : Nat} (small : count ≤ 8) (bits : BitVec 64) :
    write memory offset count ((bits.setWidth (8 * count)).setWidth 64) =
      write memory offset count bits := by
  funext address
  rw [write, write]
  split
  · rw [byte_of_set_width _ (by omega), byte_of_set_width _ (by omega)]
  · rfl

/-! ### Histories -/

inductive Access
  | load (offset count : Nat)
  | store (offset count : Nat) (bits : BitVec 64)
deriving DecidableEq

/-- The byte stored last at an address, in a history with the last access first. -/
def latest (initial : Memory) : List Access → Memory
  | [] => initial
  | .load _ _ :: past => latest initial past
  | .store offset count bits :: past => write (latest initial past) offset count bits

/-- What the loads of a sequence of accesses return when each sees the bytes stored last. -/
def loadedValues (initial : Memory) : (past accesses : List Access) → List (BitVec 64)
  | _, [] => []
  | past, .load offset count :: rest =>
    read (latest initial past) offset count :: loadedValues initial (.load offset count :: past) rest
  | past, .store offset count bits :: rest =>
    loadedValues initial (.store offset count bits :: past) rest

def Access.InBounds (size : Nat) : Access → Prop
  | .load offset count => 1 ≤ count ∧ count ≤ 8 ∧ offset + count ≤ size
  | .store offset count _ => 1 ≤ count ∧ count ≤ 8 ∧ offset + count ≤ size

end RustcCodegenJvm.Library.ByteMemory
