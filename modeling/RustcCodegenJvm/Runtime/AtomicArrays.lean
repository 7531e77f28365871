import RustcCodegenJvm.Runtime.Atomics

/-!
# Atomics in primitive arrays

The loads and stores of `Pointer.java` on a primitive array, access by access: a
store to a part of an element reads the element and writes all of it. Run at once
they are the accesses of `PrimitiveMemory`. The stripe of a pointer depends on
its own offset, so two atomics that lie in one element may be stored to in two
monitors.
-/

namespace RustcCodegenJvm.Runtime

open Jvm
open Library.CriticalSections

namespace AtomicArray

/-! ### Accesses -/

section Programs

variable (kind : PrimitiveKind)

abbrev ElementProgram (Result : Type) : Type := Program Nat kind.Carrier Result

variable {kind} in
def loadLoop (next : Nat → ElementProgram kind JLong) : Nat → ElementProgram kind JLong
  | 0 => .done 0
  | index + 1 => do
    let result ← loadLoop next index
    let value ← next index
    return result ||| value <<< (index * 8)

variable {kind} in
def storeLoop (store : Nat → ElementProgram kind Unit) : Nat → ElementProgram kind Unit
  | 0 => .done ()
  | index + 1 => do
    storeLoop store index
    store index

/-- `writeElementPreservingIdentity` reads the element again before it replaces it. -/
def writeElement (elementIndex : Nat) (value : kind.Carrier) : ElementProgram kind Unit :=
  .read elementIndex fun _ => .write elementIndex value (.done ())

def loadByte (absoluteByteOffset : Nat) : ElementProgram kind JLong :=
  .read (absoluteByteOffset / kind.elementSize) fun value =>
    .done (kind.valueBits value >>> (absoluteByteOffset % kind.elementSize * 8) &&& 0xff#64)

def loadUnsignedAt (absoluteByteOffset byteCount : Nat) : ElementProgram kind JLong :=
  let withinElement := absoluteByteOffset % kind.elementSize
  if byteCount = 0 then .done 0
  else if kind = .byte then
    loadLoop (fun index => .read (absoluteByteOffset + index) fun value =>
      .done (kind.valueBits value &&& 0xff#64)) byteCount
  else if withinElement + byteCount ≤ kind.elementSize then
    .read (absoluteByteOffset / kind.elementSize) fun value =>
      .done (kind.valueBits value >>> (withinElement * 8) &&& atomicMask byteCount)
  else loadLoop (fun index => loadByte kind (absoluteByteOffset + index)) byteCount

def storeByte (absoluteByteOffset : Nat) (value : JLong) : ElementProgram kind Unit :=
  let withinElement := absoluteByteOffset % kind.elementSize
  .read (absoluteByteOffset / kind.elementSize) fun current =>
    let mask := 0xff#64 <<< (withinElement * 8)
    let bits := kind.valueBits current &&& ~~~mask ||| (value &&& 0xff#64) <<< (withinElement * 8)
    writeElement kind (absoluteByteOffset / kind.elementSize) (kind.carrierFromBits bits)

def storeBytesAt (absoluteByteOffset : Nat) (bits : JLong) (byteCount : Nat) : ElementProgram kind Unit :=
  let withinElement := absoluteByteOffset % kind.elementSize
  if byteCount = 0 then .done ()
  else if kind = .byte then
    storeLoop (fun index =>
      .write (absoluteByteOffset + index) (kind.carrierFromBits (bits >>> (index * 8))) (.done ())) byteCount
  else if withinElement + byteCount ≤ kind.elementSize then
    .read (absoluteByteOffset / kind.elementSize) fun current =>
      let valueMask := atomicMask byteCount
      let mask := valueMask <<< (withinElement * 8)
      let updated := kind.valueBits current &&& ~~~mask ||| (bits &&& valueMask) <<< (withinElement * 8)
      writeElement kind (absoluteByteOffset / kind.elementSize) (kind.carrierFromBits updated)
  else
    storeLoop (fun index => storeByte kind (absoluteByteOffset + index) (bits >>> (index * 8) &&& 0xff#64))
      byteCount

/-- The elements that a range of bytes has a part in. -/
def touchesElement (absoluteByteOffset byteCount elementIndex : Nat) : Prop :=
  ∃ index, index < byteCount ∧ elementIndex = (absoluteByteOffset + index) / kind.elementSize

variable {kind} {touches writes : Nat → Prop}

theorem load_loop_within {next : Nat → ElementProgram kind JLong} (count : Nat)
    (each : ∀ index, index < count → (next index).Within touches writes) :
    (loadLoop next count).Within touches writes := by
  induction count with
  | zero => exact trivial
  | succ count ih =>
    apply (ih fun index below => each index (by omega)).bind
    intro result
    exact (each count (by omega)).bind fun _ => trivial

theorem store_loop_within {store : Nat → ElementProgram kind Unit} (count : Nat)
    (each : ∀ index, index < count → (store index).Within touches writes) :
    (storeLoop store count).Within touches writes := by
  induction count with
  | zero => exact trivial
  | succ count ih =>
    apply (ih fun index below => each index (by omega)).bind
    intro result
    exact each count (by omega)

theorem byte_index (isByte : kind = .byte) (address : Nat) : address / kind.elementSize = address := by
  rw [isByte]
  exact Nat.div_one address

theorem load_unsigned_at_within (offset count : Nat) :
    (loadUnsignedAt kind offset count).Within (touchesElement kind offset count) fun _ => False := by
  simp only [loadUnsignedAt]
  split
  · exact trivial
  split
  · next isByte =>
    apply load_loop_within
    intro index below
    exact ⟨⟨index, below, (byte_index isByte _).symm⟩, fun _ => trivial⟩
  split
  · next nonempty _ _ => exact ⟨⟨0, Nat.pos_of_ne_zero nonempty, rfl⟩, fun _ => trivial⟩
  · apply load_loop_within
    intro index below
    exact ⟨⟨index, below, rfl⟩, fun _ => trivial⟩

theorem store_bytes_at_within (offset : Nat) (bits : JLong) (count : Nat) :
    (storeBytesAt kind offset bits count).Within (touchesElement kind offset count)
      (touchesElement kind offset count) := by
  simp only [storeBytesAt]
  split
  · exact trivial
  next nonempty =>
  have first : touchesElement kind offset count (offset / kind.elementSize) :=
    ⟨0, Nat.pos_of_ne_zero nonempty, rfl⟩
  split
  · next isByte =>
    apply store_loop_within
    intro index below
    have touched : touchesElement kind offset count (offset + index) :=
      ⟨index, below, (byte_index isByte _).symm⟩
    exact ⟨touched, touched, trivial⟩
  split
  · exact ⟨first, fun _ => ⟨first, fun _ => ⟨first, first, trivial⟩⟩⟩
  · apply store_loop_within
    intro index below
    have touched : touchesElement kind offset count ((offset + index) / kind.elementSize) :=
      ⟨index, below, rfl⟩
    exact ⟨touched, fun _ => ⟨touched, fun _ => ⟨touched, touched, trivial⟩⟩⟩

end Programs

/-! ### All accesses at once -/

section Arrays

variable {kind : PrimitiveKind} {length : Nat} (fits : length < 2 ^ 31)

abbrev arrayOf (elements : Nat → kind.Carrier) : PrimitiveArray where
  kind := kind
  elements := (List.range length).map elements
  length_fits := by simpa using fits

variable {elements : Nat → kind.Carrier}

theorem array_of_length : (arrayOf fits elements).length = length := by
  simp [PrimitiveArray.length, arrayOf]

theorem array_of_size : (arrayOf fits elements).size = length * kind.elementSize := by
  rw [PrimitiveArray.size, array_of_length]

variable {index address offset count : Nat}

theorem array_of_element (inside : index < length) :
    (arrayOf fits elements).elementAt index = elements index := by
  simp [PrimitiveArray.elementAt, arrayOf, inside]

theorem array_of_set (value : kind.Carrier) :
    (arrayOf fits elements).set index value = arrayOf fits (Function.update elements index value) := by
  have same : ((List.range length).map elements).set index value =
      (List.range length).map (Function.update elements index value) := by
    apply List.ext_getElem
    · simp
    · intro place before after
      simp only [List.getElem_set, List.getElem_map, List.getElem_range, Function.update_apply, eq_comm]
  simp only [PrimitiveArray.set, arrayOf, Int.toNat_natCast, same]

theorem load_loop_ok {next : Nat → ElementProgram kind JLong} {outcome : Nat → Except AccessError JLong}
    (count : Nat) (each : ∀ index, index < count → ∃ value, outcome index = .ok value ∧
      (next index).eval elements = (elements, value)) :
    ∃ value, PrimitiveArray.loadLoop outcome count = .ok value ∧
      (loadLoop next count).eval elements = (elements, value) := by
  induction count with
  | zero => exact ⟨0, rfl, rfl⟩
  | succ count ih =>
    obtain ⟨result, before, ran⟩ := ih fun index below => each index (by omega)
    obtain ⟨value, last, loaded⟩ := each count (by omega)
    refine ⟨result ||| value <<< (count * 8), ?_, ?_⟩
    · rw [PrimitiveArray.loadLoop, before, last]
      rfl
    · rw [loadLoop, Program.eval_bind, ran, Program.eval_bind, loaded]
      rfl

theorem read_element_of (inside : index < length) :
    (arrayOf fits elements).readElement index = .ok (elements index) := by
  have found := PrimitiveArray.read_element_ok (show index < (arrayOf fits elements).length by
    rwa [array_of_length])
  rwa [array_of_element fits inside] at found

theorem array_of_kind : (arrayOf fits elements).kind = kind := rfl

theorem get_of (inside : index < length) :
    (arrayOf fits elements).get index = .ok (elements index) := by
  have found := PrimitiveArray.get_ok (show index < (arrayOf fits elements).length by
    rwa [array_of_length])
  rwa [array_of_element fits inside] at found

include fits in
theorem element_index_of (inside : address < length * kind.elementSize) :
    toIntExact ((address : Int).fdiv kind.elementSize) = .ok ((address / kind.elementSize : Nat) : Int) ∧
      address / kind.elementSize < length := by
  have bound : address < (arrayOf fits fun _ => (0 : kind.Carrier)).size := by rwa [array_of_size]
  have below := PrimitiveArray.index_lt bound
  rw [array_of_length] at below
  exact ⟨PrimitiveArray.to_element_index bound, below⟩

theorem load_byte_of (inside : address < length * kind.elementSize) :
    ∃ value, (arrayOf fits elements).loadByte address = .ok value ∧
      (loadByte kind address).eval elements = (elements, value) := by
  obtain ⟨isIndex, below⟩ := element_index_of fits inside
  have isWithin := (arrayOf fits elements).within_element address
  refine ⟨_, ?_, rfl⟩
  simp only [PrimitiveArray.loadByte, isIndex, isWithin, bind, Except.bind, read_element_of fits below]
  rfl

theorem load_bytes_of (isByte : kind = .byte) (some : 1 ≤ count)
    (inside : offset + count ≤ length * kind.elementSize) :
    ∃ value, (arrayOf fits elements).loadBytes offset count = .ok value ∧
      (loadLoop (fun index => .read (offset + index) fun value =>
        .done (kind.valueBits value &&& 0xff#64)) count).eval elements = (elements, value) := by
  have isSize : kind.elementSize = 1 := by rw [isByte]; rfl
  rw [isSize, Nat.mul_one] at inside
  have bounds : ¬((offset : Int) < 0 ∨ (offset : Int) > (arrayOf fits elements).length - count) := by
    rw [array_of_length]
    omega
  rw [PrimitiveArray.loadBytes, to_int_exact_ok (by omega)]
  simp only [bind, Except.bind, if_neg bounds]
  apply load_loop_ok
  intro index below
  refine ⟨_, ?_, rfl⟩
  rw [← Int.natCast_add, get_of fits (by omega)]
  rfl

/-- Run at once, the accesses of a load are those of the array. -/
theorem load_unsigned_at_of (some : 1 ≤ count) (small : count ≤ 8)
    (inside : offset + count ≤ length * kind.elementSize) :
    ∃ value, (arrayOf fits elements).loadUnsignedAt offset count = .ok value ∧
      (loadUnsignedAt kind offset count).eval elements = (elements, value) := by
  have accepted : ¬((count : Int) < 0 ∨ (count : Int) > 8) := by omega
  have nonempty : ¬(count : Int) = 0 := by omega
  have isCount : ¬count = 0 := by omega
  have isWithin := (arrayOf fits elements).within_element offset
  obtain ⟨isIndex, below⟩ := element_index_of fits (show offset < length * kind.elementSize by omega)
  simp only [PrimitiveArray.loadUnsignedAt, if_neg accepted, if_neg nonempty, if_neg isCount, isWithin,
    Int.toNat_natCast, loadUnsignedAt, array_of_kind]
  split_ifs with isByte within
  · exact load_bytes_of fits isByte some inside
  · refine ⟨_, ?_, rfl⟩
    simp only [isIndex, bind, Except.bind, read_element_of fits below]
    rfl
  · apply load_loop_ok
    intro index below
    exact load_byte_of fits (by omega)

theorem store_loop_ok {store : Nat → ElementProgram kind Unit}
    {outcome : PrimitiveArray → Nat → Except AccessError PrimitiveArray} (count : Nat)
    (each : ∀ index now, index < count →
      outcome (arrayOf fits now) index = .ok (arrayOf fits ((store index).eval now).1)) :
    PrimitiveArray.storeLoop outcome count (arrayOf fits elements) =
      .ok (arrayOf fits ((storeLoop store count).eval elements).1) := by
  induction count with
  | zero => rfl
  | succ count ih =>
    have before := ih fun index now below => each index now (by omega)
    rw [PrimitiveArray.storeLoop, before, storeLoop, Program.eval_bind]
    exact each count _ (by omega)

theorem write_element_of (inside : index < length) (value : kind.Carrier) :
    (arrayOf fits elements).writeElement index value =
      .ok (arrayOf fits ((writeElement kind index value).eval elements).1) := by
  have bound : index < (arrayOf fits elements).length := by rwa [array_of_length]
  rw [PrimitiveArray.write_element_ok bound, array_of_set]
  rfl

variable (pointer : PrimitiveArray.PointerFields)

theorem store_byte_of (inside : address < length * kind.elementSize) (value : JLong) :
    (arrayOf fits elements).storeByte pointer address value =
      .ok (arrayOf fits ((storeByte kind address value).eval elements).1) := by
  obtain ⟨isIndex, below⟩ := element_index_of fits inside
  have isWithin := (arrayOf fits elements).within_element address
  have held : (arrayOf fits elements).readForStore pointer address (address / kind.elementSize : Nat) =
      .ok (elements (address / kind.elementSize)) := by
    rw [PrimitiveArray.readForStore, read_element_of fits below]
  simp only [PrimitiveArray.storeByte, isIndex, isWithin, bind, Except.bind, held]
  rw [write_element_of fits below]
  rfl

theorem store_bytes_of (isByte : kind = .byte) (some : 1 ≤ count)
    (inside : offset + count ≤ length * kind.elementSize) (bits : JLong) :
    (arrayOf fits elements).storeBytes offset bits count =
      .ok (arrayOf fits ((storeLoop (fun index => .write (offset + index)
        (kind.carrierFromBits (bits >>> (index * 8))) (.done ())) count).eval elements).1) := by
  have isSize : kind.elementSize = 1 := by rw [isByte]; rfl
  rw [isSize, Nat.mul_one] at inside
  have bounds : ¬((offset : Int) < 0 ∨ (offset : Int) > (arrayOf fits elements).length - count) := by
    rw [array_of_length]
    omega
  rw [PrimitiveArray.storeBytes, to_int_exact_ok (by omega)]
  simp only [bind, Except.bind, if_neg bounds]
  apply store_loop_ok
  intro index now below
  rw [← Int.natCast_add, get_of fits (by omega)]
  rw [array_of_set]
  rfl

/-- Run at once, the accesses of a store are those of the array. -/
theorem store_bytes_at_of (some : 1 ≤ count)
    (small : count ≤ 8) (inside : offset + count ≤ length * kind.elementSize) (bits : JLong) :
    (arrayOf fits elements).storeBytesAt pointer offset bits count =
      .ok (arrayOf fits ((storeBytesAt kind offset bits count).eval elements).1) := by
  have accepted : ¬((count : Int) < 0 ∨ (count : Int) > 8) := by omega
  have nonempty : ¬(count : Int) = 0 := by omega
  have isCount : ¬count = 0 := by omega
  have isWithin := (arrayOf fits elements).within_element offset
  obtain ⟨isIndex, below⟩ := element_index_of fits (show offset < length * kind.elementSize by omega)
  simp only [PrimitiveArray.storeBytesAt, if_neg accepted, if_neg nonempty, if_neg isCount, isWithin,
    Int.toNat_natCast, storeBytesAt, array_of_kind]
  split_ifs with isByte within
  · exact store_bytes_of fits isByte some inside bits
  · simp only [isIndex, bind, Except.bind, read_element_of fits below]
    rw [write_element_of fits below]
    rfl
  · apply store_loop_ok
    intro index now below
    exact store_byte_of fits pointer (by omega) _

/-! ### Storage -/

variable (kind) in
/-- An array as the storage of the pointers at its byte offsets. The fields of a pointer that only
the messages of failed stores name do not matter. -/
def storage (identityHashCode : JInt) : AtomicStorage Nat Nat kind.Carrier where
  pointer byteOffset := ⟨.object identityHashCode, BitVec.ofNat 64 byteOffset, 0⟩
  Denotes byteOffset byteCount :=
    1 ≤ byteCount ∧ byteCount ≤ 8 ∧ byteOffset + byteCount ≤ length * kind.elementSize
  address byteOffset := byteOffset
  bytes elements := (arrayOf fits elements).byteAt
  loadUnsigned := loadUnsignedAt kind
  storeBytes := storeBytesAt kind
  touches := touchesElement kind
  load_within := load_unsigned_at_within
  store_within := store_bytes_at_within
  load_reads := by
    rintro offset count elements ⟨some, small, inside⟩
    obtain ⟨value, loaded, ran⟩ := load_unsigned_at_of fits some small inside
    have reads := PrimitiveArray.load_unsigned_at_reads some small
      (show offset + count ≤ (arrayOf fits elements).size by rwa [array_of_size])
    rw [ran, Except.ok.inj (loaded.symm.trans reads)]
  store_writes := by
    rintro offset bits count elements ⟨some, small, inside⟩
    obtain ⟨later, stored, has⟩ := PrimitiveArray.store_bytes_at_writes ⟨offset, count, none, none⟩ some small
      (show offset + count ≤ (arrayOf fits elements).size by rwa [array_of_size]) bits
    rw [store_bytes_at_of fits _ some small inside] at stored
    rw [Except.ok.inj stored, has.bytes]

end Arrays

end AtomicArray

end RustcCodegenJvm.Runtime
