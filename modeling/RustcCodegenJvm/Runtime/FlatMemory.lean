import RustcCodegenJvm.Runtime.PrimitiveMemory

/-!
# Primitive arrays are flat byte memory

The bytes of an array are those of its elements, each in little-endian order.
Every path of a load reads them and every path of a store replaces them, so a
sequence of accesses behaves as one on a memory of bytes.
-/

namespace RustcCodegenJvm.Runtime

open Jvm Library ByteMemory

namespace PrimitiveKind

variable (kind : PrimitiveKind)

theorem element_size_pos : 0 < kind.elementSize := by
  cases kind <;> decide

theorem element_size_le : kind.elementSize ≤ 8 := by
  cases kind <;> decide

theorem byte_of_value_bits (value : kind.Carrier) {index : Nat} (inside : index < kind.elementSize) :
    byteOf (kind.valueBits value) index = byteOf value index := by
  have whole : 8 * (index + 1) ≤ 8 * kind.elementSize := by omega
  have fits : 8 * kind.elementSize ≤ 64 := by
    have small := kind.element_size_le
    omega
  cases kind with
  | byte | short | int | long => exact byte_of_sign_extend value fits whole
  | char | double => exact byte_of_set_width value (whole.trans fits)
  | float =>
    have table : ∀ index : Fin 4, byteOf (0xffffffff#64) index = 255#8 := by decide
    have ones := table ⟨index, inside⟩
    rw [valueBits, byte_of_and, byte_of_sign_extend value fits whole, ones, and_ones]

theorem byte_of_carrier (bits : JLong) {index : Nat} (inside : index < kind.elementSize) :
    byteOf (kind.carrierFromBits bits) index = byteOf bits index :=
  byte_of_set_width bits (by omega)

end PrimitiveKind

theorem atomic_mask_covers {count : Nat} (small : count ≤ 8) : Covers (atomicMask count) count := by
  have table : ∀ count : Fin 9, ∀ index : Fin 8, byteOf (atomicMask count) index =
      if index.val < count.val then BitVec.allOnes 8 else 0 := by
    decide
  intro index inside
  exact table ⟨count, by omega⟩ ⟨index, by omega⟩

theorem low_byte_covers : Covers (0xff#64) 1 := by
  have isMask : atomicMask 1 = 0xff#64 := by decide
  rw [← isMask]
  exact atomic_mask_covers (by decide)

theorem to_int_exact_ok {value : Nat} (small : value < 2 ^ 31) : toIntExact value = .ok (value : Int) := by
  have inside : -2 ^ 31 ≤ (value : Int) ∧ (value : Int) < 2 ^ 31 := by omega
  rw [toIntExact, if_pos inside]

variable {memory initial : Memory}

namespace PrimitiveArray

variable (array : PrimitiveArray)

def elementAt (index : Nat) : array.kind.Carrier := array.elements.getD index 0

def byteAt : Memory := fun address =>
  byteOf (array.elementAt (address / array.kind.elementSize)) (address % array.kind.elementSize)

variable {array}

variable {address index offset count : Nat}

theorem index_lt (inside : address < array.size) :
    address / array.kind.elementSize < array.length :=
  (Nat.div_lt_iff_lt_mul array.kind.element_size_pos).mpr inside

variable (inside : index < array.length)

include inside

theorem get_ok :
    array.get index = .ok (array.elementAt index) := by
  have found : array.elements[index]? = some (array.elementAt index) := by
    rw [elementAt, List.getD_eq_getElem?_getD, List.getElem?_eq_getElem inside, Option.getD_some]
  simp [get, found]

theorem read_element_ok :
    array.readElement index = .ok (array.elementAt index) := by
  have bounds : ¬((index : Int) < 0 ∨ (index : Int) ≥ array.length) := by omega
  rw [readElement, if_neg bounds, get_ok inside]

omit inside

theorem to_element_index (inside : address < array.size) :
    toIntExact ((address : Int).fdiv array.kind.elementSize) =
      .ok ((address / array.kind.elementSize : Nat) : Int) := by
  have fits := array.length_fits
  have below : address / array.kind.elementSize < array.elements.length := index_lt inside
  rw [Int.fdiv_eq_ediv_of_nonneg _ (Int.natCast_nonneg _), ← Int.natCast_ediv]
  exact to_int_exact_ok (by omega)

theorem within_element (address : Nat) :
    ((address : Int).fmod array.kind.elementSize).toNat = address % array.kind.elementSize := by
  rw [Int.fmod_eq_emod_of_nonneg _ (Int.natCast_nonneg _), ← Int.natCast_emod, Int.toNat_natCast]

theorem same_element (inside : address % array.kind.elementSize + index < array.kind.elementSize) :
    (address + index) / array.kind.elementSize = address / array.kind.elementSize ∧
      (address + index) % array.kind.elementSize = address % array.kind.elementSize + index := by
  have split := Nat.div_add_mod address array.kind.elementSize
  have isSum : address + index = (address % array.kind.elementSize + index) +
      array.kind.elementSize * (address / array.kind.elementSize) := by omega
  constructor
  · rw [isSum, Nat.add_mul_div_left _ _ array.kind.element_size_pos, Nat.div_eq_of_lt inside, Nat.zero_add]
  · rw [isSum, Nat.add_mul_mod_self_left, Nat.mod_eq_of_lt inside]

/-! ### Loads -/

theorem load_loop_reads {next : Nat → Except AccessError JLong}
    (count : Nat)
    (each : ∀ index, index < count → next index = .ok ((memory (offset + index)).setWidth 64)) :
    loadLoop next count = .ok (read memory offset count) := by
  induction count with
  | zero => rfl
  | succ count ih =>
    have before := ih fun index below => each index (by omega)
    have last := each count (by omega)
    rw [loadLoop, before, last, ByteMemory.read, Nat.mul_comm count 8]
    rfl

theorem low_byte_of (bits : JLong) (index : Nat) :
    bits >>> (index * 8) &&& 0xff#64 = (byteOf bits index).setWidth 64 := by
  apply eq_of_bytes (show 64 ≤ 8 * 8 by decide)
  intro place small
  have inside : 8 * (place + 1) ≤ 64 := by omega
  rw [Nat.mul_comm index 8, byte_of_slice low_byte_covers _ _ inside, byte_of_byte _ inside]
  by_cases isFirst : place = 0
  · simp [isFirst]
  · have above : ¬place < 1 := by omega
    simp [isFirst, above]

theorem load_byte_ok (inside : address < array.size) :
    array.loadByte address = .ok ((array.byteAt address).setWidth 64) := by
  have small := Nat.mod_lt address array.kind.element_size_pos
  simp only [loadByte, to_element_index inside, within_element, bind, Except.bind,
    read_element_ok (index_lt inside), low_byte_of, array.kind.byte_of_value_bits _ small]
  rfl

theorem load_bytes_ok (isByte : array.kind = .byte)
    (inside : offset + count ≤ array.size) (some : 1 ≤ count) :
    array.loadBytes offset count = .ok (read array.byteAt offset count) := by
  have isSize : array.kind.elementSize = 1 := by rw [isByte]; rfl
  have isLength : array.size = array.length := by rw [size, isSize, Nat.mul_one]
  have fits : array.length < 2 ^ 31 := array.length_fits
  have bounds : ¬((offset : Int) < 0 ∨ (offset : Int) > array.length - count) := by omega
  rw [loadBytes, to_int_exact_ok (by omega)]
  simp only [bind, Except.bind, if_neg bounds]
  apply load_loop_reads
  intro index below
  have held : array.get ((offset : Int) + index) = .ok (array.elementAt (offset + index)) := by
    exact get_ok (by omega)
  have isIndex : (offset + index) / array.kind.elementSize = offset + index := by
    rw [isSize, Nat.div_one]
  have isWithin : (offset + index) % array.kind.elementSize = 0 := by
    rw [isSize, Nat.mod_one]
  have first : byteOf (array.kind.valueBits (array.elementAt (offset + index))) 0 =
      array.byteAt (offset + index) := by
    rw [array.kind.byte_of_value_bits _ array.kind.element_size_pos, byteAt, isIndex, isWithin]
  have low := low_byte_of (array.kind.valueBits (array.elementAt (offset + index))) 0
  simp only [held, ← first, ← low]
  simp [pure, Except.pure]

/-- Whatever path it takes, a load returns the bytes at its addresses. -/
theorem load_unsigned_at_reads (some : 1 ≤ count) (small : count ≤ 8)
    (inside : offset + count ≤ array.size) :
    array.loadUnsignedAt offset count = .ok (read array.byteAt offset count) := by
  have accepted : ¬((count : Int) < 0 ∨ (count : Int) > 8) := by omega
  have nonempty : ¬(count : Int) = 0 := by omega
  simp only [loadUnsignedAt, if_neg accepted, if_neg nonempty, within_element, Int.toNat_natCast]
  split
  · next isByte => exact load_bytes_ok isByte inside some
  split
  · next within =>
    have start : offset < array.size := by omega
    simp only [to_element_index start, bind, Except.bind, read_element_ok (index_lt start)]
    congr 1
    apply eq_read
    intro index below
    rw [Nat.mul_comm _ 8, byte_of_slice (atomic_mask_covers small) _ _ (by omega)]
    split
    · next covered =>
      obtain ⟨sameIndex, rest⟩ := @same_element array offset index (by omega)
      rw [byteAt, sameIndex, rest, Nat.add_comm index, array.kind.byte_of_value_bits _ (by omega)]
    · rfl
  · apply load_loop_reads
    intro index below
    exact load_byte_ok (by omega)

/-! ### Stores -/

/-- The later array has the type and length of the first, and the given bytes. -/
structure HasBytes (array later : PrimitiveArray) (memory : Memory) : Prop where
  kind : later.kind = array.kind
  length : later.length = array.length
  bytes : later.byteAt = memory

theorem HasBytes.size {later : PrimitiveArray} (has : HasBytes array later memory) :
    later.size = array.size := by
  rw [PrimitiveArray.size, PrimitiveArray.size, has.kind, has.length]

include inside

variable (value : array.kind.Carrier)

theorem set_element_at
    (other : Nat) :
    (array.set index value).elementAt other = if other = index then value else array.elementAt other := by
  change (array.elements.set index value).getD other 0 = _
  rw [List.getD_eq_getElem?_getD, List.getElem?_set]
  by_cases same : index = other
  · rw [if_pos same, if_pos (same ▸ inside), if_pos same.symm, Option.getD_some]
  · rw [if_neg same, if_neg (Ne.symm same), elementAt, List.getD_eq_getElem?_getD]

theorem set_byte_at
    (address : Nat) :
    (array.set index value).byteAt address =
      if address / array.kind.elementSize = index then byteOf value (address % array.kind.elementSize)
      else array.byteAt address := by
  change byteOf ((array.set index value).elementAt (address / array.kind.elementSize)) _ = _
  rw [set_element_at inside]
  split <;> rfl

omit inside

theorem set_has_length (index : Int) (value : array.kind.Carrier) :
    (array.set index value).length = array.length := List.length_set

include inside in
theorem write_element_ok :
    array.writeElement index value = .ok (array.set index value) := by
  rw [writeElement, read_element_ok inside]
  rfl

theorem splice_has_bytes {mask bits : JLong} (covers : Covers mask count)
    (within : offset % array.kind.elementSize + count ≤ array.kind.elementSize)
    (inside : offset < array.size) :
    HasBytes array (array.set (offset / array.kind.elementSize : Nat) (array.kind.carrierFromBits
      (array.kind.valueBits (array.elementAt (offset / array.kind.elementSize)) &&&
          ~~~(mask <<< (offset % array.kind.elementSize * 8)) |||
        (bits &&& mask) <<< (offset % array.kind.elementSize * 8))))
      (write array.byteAt offset count bits) := by
  refine ⟨rfl, set_has_length _ _, ?_⟩
  funext address
  have small := Nat.mod_lt address array.kind.element_size_pos
  have fits := array.kind.element_size_le
  rw [set_byte_at (index_lt inside), write]
  split
  · next sameElement =>
    have splitAddress := Nat.div_add_mod address array.kind.elementSize
    have splitOffset := Nat.div_add_mod offset array.kind.elementSize
    rw [sameElement] at splitAddress
    rw [Nat.mul_comm _ 8, array.kind.byte_of_carrier _ small, byte_of_splice covers _ _ _ (by omega)]
    by_cases covered : offset ≤ address ∧ address < offset + count
    · have place : address % array.kind.elementSize - offset % array.kind.elementSize =
          address - offset := by omega
      rw [if_pos (by omega), if_pos covered, place]
    · rw [if_neg (by omega), if_neg covered, array.kind.byte_of_value_bits _ small, byteAt, sameElement]
  · next otherElement =>
    rw [if_neg]
    rintro ⟨above, below⟩
    have further : offset % array.kind.elementSize + (address - offset) < array.kind.elementSize := by
      omega
    have sameElement := (same_element further).1
    rw [Nat.add_sub_cancel' above] at sameElement
    exact otherElement sameElement

variable (pointer : PointerFields)

theorem store_byte_ok (inside : address < array.size)
    (value : JLong) : ∃ later, array.storeByte pointer address value = .ok later ∧
      HasBytes array later (write array.byteAt address 1 value) := by
  have small := Nat.mod_lt address array.kind.element_size_pos
  refine ⟨_, ?_, splice_has_bytes low_byte_covers small inside⟩
  have held : array.readForStore pointer address (address / array.kind.elementSize : Nat) =
      .ok (array.elementAt (address / array.kind.elementSize)) := by
    rw [readForStore, read_element_ok (index_lt inside)]
  simp only [storeByte, to_element_index inside, within_element, bind, Except.bind, held]
  exact write_element_ok (index_lt inside) _

theorem store_loop_writes {store : PrimitiveArray → Nat → Except AccessError PrimitiveArray}
    {bits : JLong} (count : Nat)
    (each : ∀ (now : PrimitiveArray) index, index < count → now.kind = array.kind →
      now.length = array.length → ∃ later value, store now index = .ok later ∧
        byteOf value 0 = byteOf bits index ∧ HasBytes now later (write now.byteAt (offset + index) 1 value)) :
    ∃ later, storeLoop store count array = .ok later ∧
      HasBytes array later (write array.byteAt offset count bits) := by
  induction count with
  | zero => exact ⟨array, rfl, rfl, rfl, (write_zero _ _ _).symm⟩
  | succ count ih =>
    obtain ⟨before, ran, has⟩ := ih fun now index below => each now index (by omega)
    obtain ⟨later, value, stored, isByte, after⟩ := each before count (by omega) has.kind has.length
    refine ⟨later, ?_, after.kind.trans has.kind, after.length.trans has.length, ?_⟩
    · rw [storeLoop, ran]
      exact stored
    · rw [after.bytes, has.bytes, write_succ _ _ _ _ _ isByte]

theorem store_bytes_ok (isByte : array.kind = .byte)
    (inside : offset + count ≤ array.size) (some : 1 ≤ count) (bits : JLong) :
    ∃ later, array.storeBytes offset bits count = .ok later ∧
      HasBytes array later (write array.byteAt offset count bits) := by
  have isSize : array.kind.elementSize = 1 := by rw [isByte]; rfl
  have isLength : array.size = array.length := by rw [size, isSize, Nat.mul_one]
  have fits : array.length < 2 ^ 31 := array.length_fits
  have bounds : ¬((offset : Int) < 0 ∨ (offset : Int) > array.length - count) := by omega
  rw [storeBytes, to_int_exact_ok (by omega)]
  simp only [bind, Except.bind, if_neg bounds]
  apply store_loop_writes
  intro now index below sameKind sameLength
  have nowSize : now.kind.elementSize = 1 := by rw [sameKind, isSize]
  have nowInside : offset + index < now.length := by omega
  refine ⟨now.set (offset + index : Nat) (now.kind.carrierFromBits (bits >>> (index * 8))),
    bits >>> (index * 8), ?_, ?_, rfl, set_has_length _ _, ?_⟩
  · rw [← Int.natCast_add, get_ok nowInside]
    rfl
  · rw [Nat.mul_comm index 8, byte_of_shift_right, Nat.zero_add]
  · funext address
    have isIndex : address / now.kind.elementSize = address := by rw [nowSize, Nat.div_one]
    have isWithin : address % now.kind.elementSize = 0 := by rw [nowSize, Nat.mod_one]
    rw [set_byte_at nowInside, isIndex, isWithin, now.kind.byte_of_carrier _ now.kind.element_size_pos, write]
    split_ifs with isAddress covered covered
    · rw [isAddress, Nat.sub_self]
    · omega
    · omega
    · rfl

/-- Whatever path it takes, a store replaces the bytes at its addresses and no other. -/
theorem store_bytes_at_writes (some : 1 ≤ count)
    (small : count ≤ 8) (inside : offset + count ≤ array.size) (bits : JLong) :
    ∃ later, array.storeBytesAt pointer offset bits count = .ok later ∧
      HasBytes array later (write array.byteAt offset count bits) := by
  have accepted : ¬((count : Int) < 0 ∨ (count : Int) > 8) := by omega
  have nonempty : ¬(count : Int) = 0 := by omega
  simp only [storeBytesAt, if_neg accepted, if_neg nonempty, within_element, Int.toNat_natCast]
  split
  · next isByte => exact store_bytes_ok isByte inside some bits
  split
  · next within =>
    have start : offset < array.size := by omega
    refine ⟨_, ?_, splice_has_bytes (atomic_mask_covers small) within start⟩
    simp only [to_element_index start, bind, Except.bind, read_element_ok (index_lt start)]
    exact write_element_ok (index_lt start) _
  · apply store_loop_writes
    intro now index below sameKind sameLength
    have nowSize : now.size = array.size := by rw [size, size, sameKind, sameLength]
    have nowInside : offset + index < now.size := by omega
    obtain ⟨later, stored, has⟩ := store_byte_ok pointer nowInside (bits >>> (index * 8) &&& 0xff#64)
    refine ⟨later, _, stored, ?_, has⟩
    rw [Nat.mul_comm index 8, byte_of_slice low_byte_covers _ _ (by decide), if_pos (by decide), Nat.zero_add]

/-! ### Runs -/

/-- One access: the array after it, and the value of a load. -/
def access (pointer : PointerFields) (array : PrimitiveArray) :
    Access → Except AccessError (PrimitiveArray × List JLong)
  | .load offset count => do
    let value ← array.loadUnsignedAt offset count
    return (array, [value])
  | .store offset count bits => do
    let later ← array.storeBytesAt pointer offset bits count
    return (later, [])

def run (pointer : PointerFields) : PrimitiveArray → List Access →
    Except AccessError (PrimitiveArray × List JLong)
  | array, [] => .ok (array, [])
  | array, first :: rest => do
    let (now, value) ← array.access pointer first
    let (later, values) ← run pointer now rest
    return (later, value ++ values)

theorem access_latest {past : List Access} {next : Access}
    (holds : array.byteAt = latest initial past) (inBounds : next.InBounds array.size) :
    ∃ later values, array.access pointer next = .ok (later, values) ∧
      HasBytes array later (latest initial (next :: past)) ∧
      ∀ rest, values ++ loadedValues initial (next :: past) rest = loadedValues initial past (next :: rest) := by
  cases next with
  | load offset count =>
    obtain ⟨some, small, inside⟩ := inBounds
    refine ⟨array, [read array.byteAt offset count], ?_, ⟨rfl, rfl, holds⟩, fun rest => ?_⟩
    · rw [access, load_unsigned_at_reads some small inside]
      rfl
    · rw [holds]
      rfl
  | store offset count bits =>
    obtain ⟨some, small, inside⟩ := inBounds
    obtain ⟨later, stored, has⟩ := store_bytes_at_writes pointer some small inside bits
    refine ⟨later, [], ?_, ?_, fun _ => rfl⟩
    · rw [access, stored]
      rfl
    · rw [latest, ← holds]
      exact has

theorem run_latest {past accesses : List Access}
    (holds : array.byteAt = latest initial past)
    (inBounds : ∀ next ∈ accesses, next.InBounds array.size) :
    ∃ later, array.run pointer accesses = .ok (later, loadedValues initial past accesses) ∧
      HasBytes array later (latest initial (accesses.reverse ++ past)) := by
  induction accesses generalizing array past with
  | nil => exact ⟨array, rfl, rfl, rfl, holds⟩
  | cons next rest ih =>
    obtain ⟨now, values, accessed, has, isLoaded⟩ :=
      access_latest pointer holds (inBounds next List.mem_cons_self)
    have restBounds : ∀ other ∈ rest, other.InBounds now.size := by
      intro other member
      rw [has.size]
      exact inBounds other (List.mem_cons_of_mem _ member)
    obtain ⟨later, ran, after⟩ := ih has.bytes restBounds
    refine ⟨later, ?_, after.kind.trans has.kind, after.length.trans has.length, ?_⟩
    · simp only [run, accessed, bind, Except.bind, ran, ← isLoaded]
      rfl
    · rw [after.bytes, List.reverse_cons, List.append_assoc]
      rfl

/-- Every run of accesses in bounds returns, each load returns the bytes stored last at its
addresses, and in the end each address holds the byte stored last. -/
theorem virtual_memory_is_flat (array : PrimitiveArray)
    (accesses : List Access) (inBounds : ∀ next ∈ accesses, next.InBounds array.size) :
    ∃ later, array.run pointer accesses = .ok (later, loadedValues array.byteAt [] accesses) ∧
      later.kind = array.kind ∧ later.length = array.length ∧
      later.byteAt = latest array.byteAt accesses.reverse := by
  have start : array.byteAt = latest array.byteAt [] := rfl
  obtain ⟨later, ran, has⟩ := run_latest pointer start inBounds
  rw [List.append_nil] at has
  exact ⟨later, ran, has.kind, has.length, has.bytes⟩

/-- A store across the elements of a `short[]`, seen by an unaligned load. -/
theorem virtual_memory_is_flat_on_shorts :
    ∃ later, run ⟨0, 2, none, none⟩ ⟨.short, [0x1122#16, 0x3344#16, 0x5566#16], by decide⟩
        [.store 1 4 0xdeadbeef#64, .load 0 3, .load 3 2] =
      .ok (later, [0xbeef22#64, 0xdead#64]) := by
  have inBounds : ∀ next ∈ [Access.store 1 4 0xdeadbeef#64, .load 0 3, .load 3 2],
      next.InBounds 6 := by
    simp [Access.InBounds]
  obtain ⟨later, ran, -⟩ := virtual_memory_is_flat ⟨0, 2, none, none⟩
    ⟨.short, [0x1122#16, 0x3344#16, 0x5566#16], by decide⟩ _ inBounds
  exact ⟨later, ran⟩

end PrimitiveArray

end RustcCodegenJvm.Runtime
