import RustcCodegenJvm.Jvm.Word
import RustcCodegenJvm.Library.ByteMemory
import RustcCodegenJvm.Library.StateExcept

/-!
# Virtual memory over primitive arrays

The scalar loads and stores of `Pointer.java` on an allocation that is a
primitive array with the element width of its type: the path for `byte[]`, the
path for an access inside one element, and the path byte by byte. Floats are
their raw bits. There are no decoded views, so flushing them does nothing; the
table of encoded pointers beside the array is not part of the model.
-/

namespace RustcCodegenJvm.Runtime

open Jvm

/-! ### Carriers -/

inductive PrimitiveKind
  | byte
  | short
  | char
  | int
  | long
  | float
  | double
deriving DecidableEq

namespace PrimitiveKind

/-- `inferredArrayElementSize` -/
def elementSize : PrimitiveKind → Nat
  | byte => 1
  | short | char => 2
  | int | float => 4
  | long | double => 8

def arrayClassName : PrimitiveKind → String
  | byte => "[B"
  | short => "[S"
  | char => "[C"
  | int => "[I"
  | long => "[J"
  | float => "[F"
  | double => "[D"

abbrev Carrier (kind : PrimitiveKind) : Type := BitVec (8 * kind.elementSize)

/-- `Number.longValue`, `Character.charValue` and the raw bits of a float, as a `long`. -/
def valueBits : (kind : PrimitiveKind) → kind.Carrier → JLong
  | byte, value | short, value | int, value | long, value => value.signExtend 64
  | char, value | double, value => value.setWidth 64
  | float, value => value.signExtend 64 &&& 0xffffffff#64

/-- The casts of `carrierFromBits`. -/
def carrierFromBits (kind : PrimitiveKind) (bits : JLong) : kind.Carrier := bits.setWidth _

end PrimitiveKind

inductive AccessError
  | illegalArgument (message : String)
  | indexOutOfBounds (message : String)
  | arrayIndexOutOfBounds (message : String)
  | arithmetic (message : String)
deriving DecidableEq

/-- `Math.toIntExact` -/
def toIntExact (value : Int) : Except AccessError Int :=
  if -2 ^ 31 ≤ value ∧ value < 2 ^ 31 then .ok value else .error (.arithmetic "integer overflow")

/-- `byteCount == 8 ? -1L : (1L << (byteCount * 8)) - 1L` -/
def atomicMask (byteCount : Nat) : JLong :=
  if byteCount = 8 then -1 else (1#64 <<< (byteCount * 8)) - 1

/-- A JVM array of primitives; its length is an `int`. -/
structure PrimitiveArray where
  kind : PrimitiveKind
  elements : List kind.Carrier
  length_fits : elements.length < 2 ^ 31

namespace PrimitiveArray

variable (array : PrimitiveArray)

def length : Nat := array.elements.length

def size : Nat := array.length * array.kind.elementSize

def get (index : Int) : Except AccessError array.kind.Carrier :=
  match array.elements[index.toNat]? with
  | some value =>
    if 0 ≤ index then .ok value
    else .error (.arrayIndexOutOfBounds ("Index " ++ toString index ++ " out of bounds for length " ++
      toString array.length))
  | none => .error (.arrayIndexOutOfBounds ("Index " ++ toString index ++ " out of bounds for length " ++
      toString array.length))

def set (index : Int) (value : array.kind.Carrier) : PrimitiveArray where
  kind := array.kind
  elements := array.elements.set index.toNat value
  length_fits := by
    rw [List.length_set]
    exact array.length_fits

/-- `readElement`, by way of `independentRepeatedArrayElement`. -/
def readElement (elementIndex : Int) : Except AccessError array.kind.Carrier :=
  if elementIndex < 0 ∨ elementIndex ≥ array.length then
    .error (.arrayIndexOutOfBounds ("Rust pointer selected element " ++ toString elementIndex ++ " of " ++
      toString array.length ++ " in " ++ array.kind.arrayClassName))
  else array.get elementIndex

/-- `writeElementPreservingIdentity`: a boxed primitive has no projected fields, so the element is
replaced. -/
def writeElement (elementIndex : Int) (value : array.kind.Carrier) : Except AccessError PrimitiveArray := do
  let _ ← array.readElement elementIndex
  return array.set elementIndex value

/-! ### Loads -/

/-- `result |= next(index) << (index * 8)`, for each index in turn. -/
def loadLoop (next : Nat → Except AccessError JLong) : Nat → Except AccessError JLong
  | 0 => .ok 0
  | index + 1 => do
    let result ← loadLoop next index
    let value ← next index
    return result ||| value <<< (index * 8)

def loadByte (absoluteByteOffset : Int) : Except AccessError JLong := do
  let elementIndex ← toIntExact (absoluteByteOffset.fdiv array.kind.elementSize)
  let withinElement := (absoluteByteOffset.fmod array.kind.elementSize).toNat
  let value ← array.readElement elementIndex
  return array.kind.valueBits value >>> (withinElement * 8) &&& 0xff#64

def loadBytes (absoluteByteOffset : Int) (byteCount : Nat) : Except AccessError JLong := do
  let offset ← toIntExact absoluteByteOffset
  if offset < 0 ∨ offset > array.length - byteCount then
    .error (.indexOutOfBounds "scalar load exceeds byte-addressable Rust storage")
  else
    loadLoop (fun index => do
      let value ← array.get (offset + index)
      return array.kind.valueBits value &&& 0xff#64) byteCount

def loadUnsignedAt (absoluteByteOffset byteCount : Int) : Except AccessError JLong :=
  let count := byteCount.toNat
  let withinElement := (absoluteByteOffset.fmod array.kind.elementSize).toNat
  if byteCount < 0 ∨ byteCount > 8 then
    .error (.illegalArgument "scalar loads support at most eight bytes")
  else if byteCount = 0 then .ok 0
  else if array.kind = .byte then array.loadBytes absoluteByteOffset count
  else if withinElement + count ≤ array.kind.elementSize then do
    let elementIndex ← toIntExact (absoluteByteOffset.fdiv array.kind.elementSize)
    let value ← array.readElement elementIndex
    return array.kind.valueBits value >>> (withinElement * 8) &&& atomicMask count
  else loadLoop (fun index => array.loadByte (absoluteByteOffset + index)) count

/-! ### Stores -/

/-- The pointer fields that the message of a failed store names. -/
structure PointerFields where
  byteOffset : Int
  viewSize : Int
  allocationCodecClassName : Option String
  viewCodecClassName : Option String

/-- `storeByte` reads the element first, and adds its own fields to the message of a failure. -/
def readForStore (pointer : PointerFields) (absoluteByteOffset elementIndex : Int) :
    Except AccessError array.kind.Carrier :=
  match array.readElement elementIndex with
  | .error (.arrayIndexOutOfBounds message) =>
    .error (.arrayIndexOutOfBounds (message ++ ": absolute_byte_offset=" ++ toString absoluteByteOffset ++
      ", pointer_byte_offset=" ++ toString pointer.byteOffset ++
      ", allocation_element_size=" ++ toString array.kind.elementSize ++
      ", view_size=" ++ toString pointer.viewSize ++
      ", allocation_codec=" ++ pointer.allocationCodecClassName.getD "null" ++
      ", view_codec=" ++ pointer.viewCodecClassName.getD "null"))
  | outcome => outcome

def storeByte (pointer : PointerFields) (absoluteByteOffset : Int) (value : JLong) :
    Except AccessError PrimitiveArray := do
  let elementIndex ← toIntExact (absoluteByteOffset.fdiv array.kind.elementSize)
  let withinElement := (absoluteByteOffset.fmod array.kind.elementSize).toNat
  let current ← array.readForStore pointer absoluteByteOffset elementIndex
  let mask := 0xff#64 <<< (withinElement * 8)
  let bits := array.kind.valueBits current &&& ~~~mask ||| (value &&& 0xff#64) <<< (withinElement * 8)
  array.writeElement elementIndex (array.kind.carrierFromBits bits)

/-- A store for each index in turn. -/
def storeLoop (store : PrimitiveArray → Nat → Except AccessError PrimitiveArray) :
    Nat → PrimitiveArray → Except AccessError PrimitiveArray
  | 0, array => .ok array
  | index + 1, array => do
    let before ← storeLoop store index array
    store before index

def storeBytes (absoluteByteOffset : Int) (bits : JLong) (byteCount : Nat) :
    Except AccessError PrimitiveArray := do
  let offset ← toIntExact absoluteByteOffset
  if offset < 0 ∨ offset > array.length - byteCount then
    .error (.indexOutOfBounds "scalar store exceeds byte-addressable Rust storage")
  else
    storeLoop (fun now index => do
      let _ ← now.get (offset + index)
      return now.set (offset + index) (now.kind.carrierFromBits (bits >>> (index * 8)))) byteCount array

def storeBytesAt (pointer : PointerFields) (absoluteByteOffset : Int) (bits : JLong) (byteCount : Int) :
    Except AccessError PrimitiveArray :=
  let count := byteCount.toNat
  let withinElement := (absoluteByteOffset.fmod array.kind.elementSize).toNat
  if byteCount < 0 ∨ byteCount > 8 then
    .error (.illegalArgument "scalar stores support at most eight bytes")
  else if byteCount = 0 then .ok array
  else if array.kind = .byte then array.storeBytes absoluteByteOffset bits count
  else if withinElement + count ≤ array.kind.elementSize then do
    let elementIndex ← toIntExact (absoluteByteOffset.fdiv array.kind.elementSize)
    let current ← array.readElement elementIndex
    let valueMask := atomicMask count
    let mask := valueMask <<< (withinElement * 8)
    let updated := array.kind.valueBits current &&& ~~~mask ||| (bits &&& valueMask) <<< (withinElement * 8)
    array.writeElement elementIndex (array.kind.carrierFromBits updated)
  else
    storeLoop (fun now index => now.storeByte pointer (absoluteByteOffset + index)
      (bits >>> (index * 8) &&& 0xff#64)) count array

end PrimitiveArray

end RustcCodegenJvm.Runtime
