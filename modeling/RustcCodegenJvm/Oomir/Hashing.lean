import RustcCodegenJvm.Oomir.InstructionEquality

/-!
# Hashes of instructions

What the `Hash` implementations of `oomir.rs` feed to a hasher: numbers as words,
strings through the hash of their bytes. `Constant` has its own implementation,
which feeds floats as bits; all others are derived and feed the discriminant of a
variant and then its fields. `fxHash` is the hasher of the maps, which adds and
multiplies. A map with this hasher keeps the upper seven bits of a hash beside
each entry and finds the place of an entry from the lower bits.
-/

namespace RustcCodegenJvm.Oomir

section Feeds

-- `hashBytes` is the hash the hasher makes of a byte string.
variable (hashBytes : List UInt8 → BitVec 64)

abbrev Word := BitVec 64

/-- `write_str`: the bytes, then a byte that occurs in no string. -/
def feedString (text : String) : List Word := [hashBytes text.toUTF8.toList, 0xff]

def feedBool (value : Bool) : Word := BitVec.ofNat 64 value.toNat

def feedList {Element : Type} (feed : Element → List Word) (elements : List Element) : List Word :=
  BitVec.ofNat 64 elements.length :: elements.flatMap feed

def feedOption {Element : Type} (feed : Element → List Word) : Option Element → List Word
  | none => [0]
  | some element => 1 :: feed element

def IntTy.position : IntTy → Nat
  | .i8 => 0
  | .u8 => 1
  | .i16 => 2
  | .u16 => 3
  | .i32 => 4
  | .u32 => 5
  | .i64 => 6
  | .u64 => 7

def Ty.feed : Ty → List Word
  | .void => [0]
  | .unit => [1]
  | .boolean => [2]
  | .char => [3]
  | .int kind => [BitVec.ofNat 64 (4 + kind.position)]
  | .f16 => [12]
  | .f32 => [13]
  | .f64 => [14]
  | .pointer pointee => 15 :: pointee.feed
  | .mutableReference inner => 16 :: inner.feed
  | .reference inner => 17 :: inner.feed
  | .array element => 18 :: element.feed
  | .slice element => 19 :: element.feed
  | .str => [20]
  | .class name => 21 :: feedString hashBytes name
  | .interface name => 22 :: feedString hashBytes name

mutual

def Constant.feed : Constant → List Word
  | .unit => [0, 0]
  | .staticRef ownerClass fieldName ty =>
    [1, 1] ++ feedString hashBytes ownerClass ++ feedString hashBytes fieldName ++ ty.feed hashBytes
  | .functionPointer adapterClass interfaceName =>
    2 :: (feedString hashBytes adapterClass ++ feedString hashBytes interfaceName)
  | .factoryCall ownerClass methodName ty =>
    3 :: (feedString hashBytes ownerClass ++ feedString hashBytes methodName ++ ty.feed hashBytes)
  | .staticCall ownerClass methodName args paramTypes ty =>
    4 :: (feedString hashBytes ownerClass ++ feedString hashBytes methodName ++
      BitVec.ofNat 64 args.length :: feedElements args ++ feedList (Ty.feed hashBytes) paramTypes ++
      ty.feed hashBytes)
  | .pointerAddress address viewSize pointee =>
    [5, 2, address, viewSize] ++ pointee.feed hashBytes
  | .repeatedBytePointer identity byte length offset viewSize alignment viewCodec pointee =>
    6 :: (feedString hashBytes identity ++
      [byte.setWidth 64, length, offset, viewSize, alignment] ++
      feedOption (feedString hashBytes) viewCodec ++ pointee.feed hashBytes)
  | .byteArrayPointer identity bytes offset viewSize alignment viewCodec pointee =>
    7 :: (feedString hashBytes identity ++
      [BitVec.ofNat 64 bytes.length, hashBytes (bytes.map fun byte => .ofBitVec byte), offset,
        viewSize, alignment] ++
      feedOption (feedString hashBytes) viewCodec ++ pointee.feed hashBytes)
  | .internedPointer identity value arrayBacked allocationSize offset viewSize alignment viewCodec
      pointee =>
    8 :: (feedString hashBytes identity ++ value.feed ++
      [feedBool arrayBacked, allocationSize, offset, viewSize, alignment] ++
      viewCodec.feed ++ pointee.feed hashBytes)
  | .null ty => [9, 3] ++ ty.feed hashBytes
  | .int kind bits => [BitVec.ofNat 64 (10 + kind.position), bits.setWidth 64]
  | .f16 bits => [18, bits.setWidth 64]
  | .f32 bits => [19, bits.setWidth 64]
  | .f64 bits => [20, bits]
  | .boolean value => [21, feedBool value]
  | .char value => [22, BitVec.ofNat 64 value.toNat]
  | .str value => 23 :: feedString hashBytes value
  | .string value => 24 :: feedString hashBytes value
  | .array element elements =>
    25 :: (element.feed hashBytes ++ BitVec.ofNat 64 elements.length :: feedElements elements)
  | .slice element elements =>
    26 :: (element.feed hashBytes ++ BitVec.ofNat 64 elements.length :: feedElements elements)
  | .sliceRef backing elementType offset length =>
    27 :: (backing.feed ++ elementType.feed hashBytes ++ [offset, length])
  | .instance className fields params paramTypes =>
    28 :: (feedString hashBytes className ++ feedFields fields ++
      BitVec.ofNat 64 params.length :: feedElements params ++
      feedList (Ty.feed hashBytes) paramTypes)

def feedElements : List Constant → List Word
  | [] => []
  | element :: rest => element.feed ++ feedElements rest

/-- The fields of an instance, in the order of their names. -/
def feedFields : List (String × Constant) → List Word
  | [] => []
  | (name, value) :: rest => feedString hashBytes name ++ value.feed ++ feedFields rest

end

def Operand.feed : Operand → List Word
  | .constant value => 0 :: value.feed hashBytes
  | .variable name ty => 1 :: (feedString hashBytes name ++ ty.feed hashBytes)

def Signature.feed (signature : Signature) : List Word :=
  feedList (fun param => feedString hashBytes param.1 ++ param.2.feed hashBytes) signature.params ++
    signature.ret.feed hashBytes ++ [feedBool signature.isStatic]

/-- Add, Sub, Mul, Div and Rem are the variants from the sixth on. -/
def ArithmeticOp.discriminant : ArithmeticOp → Word
  | .add => 5
  | .sub => 6
  | .mul => 7
  | .div => 8
  | .rem => 9

def ComparisonOp.discriminant : ComparisonOp → Word
  | .eq => 10
  | .ne => 11
  | .lt => 12
  | .le => 13
  | .gt => 14
  | .ge => 15

def BitwiseOp.discriminant : BitwiseOp → Word
  | .and => 16
  | .or => 17
  | .xor => 18

def ShiftOp.discriminant : ShiftOp → Word
  | .shl => 19
  | .shr => 20

def feedBinary (discriminant : Word) (dest : String) (op1 op2 : Operand) : List Word :=
  discriminant :: (feedString hashBytes dest ++ op1.feed hashBytes ++ op2.feed hashBytes)

def Instruction.feed : Instruction → List Word
  | .arithmetic op dest op1 op2 => feedBinary hashBytes op.discriminant dest op1 op2
  | .comparison op dest op1 op2 => feedBinary hashBytes op.discriminant dest op1 op2
  | .bitwise op dest op1 op2 => feedBinary hashBytes op.discriminant dest op1 op2
  | .shift op dest op1 op2 => feedBinary hashBytes op.discriminant dest op1 op2
  | .not dest src => 21 :: (feedString hashBytes dest ++ src.feed hashBytes)
  | .neg dest src => 22 :: (feedString hashBytes dest ++ src.feed hashBytes)
  | .jump target => 23 :: feedString hashBytes target
  | .branch condition trueBlock falseBlock =>
    24 :: (condition.feed hashBytes ++ feedString hashBytes trueBlock ++
      feedString hashBytes falseBlock)
  | .return operand => 25 :: feedOption (Operand.feed hashBytes) operand
  | .move dest src => 29 :: (feedString hashBytes dest ++ src.feed hashBytes)
  | .switch discr targets otherwise =>
    31 :: (discr.feed hashBytes ++
      feedList (fun target => target.1.feed hashBytes ++ feedString hashBytes target.2) targets ++
      feedString hashBytes otherwise)
  | .constructObject dest className args =>
    37 :: (feedString hashBytes dest ++ feedString hashBytes className ++
      feedList (fun arg => arg.1.feed hashBytes ++ arg.2.feed hashBytes) args)
  | .label name => 40 :: feedString hashBytes name

end Feeds

end RustcCodegenJvm.Oomir

namespace RustcCodegenJvm.Program

open Oomir

section Feeds

variable (hashBytes : List UInt8 → BitVec 64)

/-- The little-endian bytes of some words. -/
def wordBytes (words : List Nat) : List UInt8 :=
  words.flatMap fun word => (List.range 8).map fun position => .ofNat (word / 256 ^ position % 256)

def feedCall (discriminant : Word) (dest : Option String) (className methodName : String)
    (methodTy : Signature) (args : List Operand) : List Word :=
  discriminant :: (feedOption (feedString hashBytes) dest ++ feedString hashBytes className ++
    feedString hashBytes methodName ++ methodTy.feed hashBytes ++
    feedList (Operand.feed hashBytes) args)

def Instruction.feed : Instruction → List Word
  | .scalar instruction => instruction.feed hashBytes
  | .sourceLocation location =>
    0 :: (feedString hashBytes location.fileName ++ [BitVec.ofNat 64 location.line])
  | .localVariableScope active =>
    [1, BitVec.ofNat 64 active.length, hashBytes (wordBytes active)]
  | .unwindStart target => 2 :: feedString hashBytes target
  | .unwindEnd => [3]
  | .rethrow => [4]
  | .callIndirect dest functionPtr args signature =>
    26 :: (feedOption (feedString hashBytes) dest ++ functionPtr.feed hashBytes ++
      feedList (Operand.feed hashBytes) args ++ signature.feed hashBytes)
  | .createFunctionPointer dest interfaceName signature targetClassName targetMethodName =>
    27 :: (feedString hashBytes dest ++ feedString hashBytes interfaceName ++
      signature.feed hashBytes ++ feedString hashBytes targetClassName ++
      feedString hashBytes targetMethodName)
  | .invokeInterface className methodName methodTy args dest operand =>
    28 :: (feedString hashBytes className ++ feedString hashBytes methodName ++
      methodTy.feed hashBytes ++ feedList (Operand.feed hashBytes) args ++
      feedOption (feedString hashBytes) dest ++ operand.feed hashBytes)
  | .throwNewWithMessage exceptionClass message =>
    30 :: (feedString hashBytes exceptionClass ++ feedString hashBytes message)
  | .newArray dest elementType size =>
    32 :: (feedString hashBytes dest ++ elementType.feed hashBytes ++ size.feed hashBytes)
  | .arrayStore array index value copyValue =>
    33 :: (feedString hashBytes array ++ index.feed hashBytes ++ value.feed hashBytes ++
      [feedBool copyValue])
  | .arrayFill array value copyValue =>
    34 :: (feedString hashBytes array ++ value.feed hashBytes ++ [feedBool copyValue])
  | .arrayGet dest array index =>
    35 :: (feedString hashBytes dest ++ array.feed hashBytes ++ index.feed hashBytes)
  | .length dest array => 36 :: (feedString hashBytes dest ++ array.feed hashBytes)
  | .setField object fieldName value fieldTy ownerClass =>
    38 :: (feedString hashBytes object ++ feedString hashBytes fieldName ++ value.feed hashBytes ++
      fieldTy.feed hashBytes ++ feedString hashBytes ownerClass)
  | .getField dest object fieldName fieldTy ownerClass =>
    39 :: (feedString hashBytes dest ++ object.feed hashBytes ++ feedString hashBytes fieldName ++
      fieldTy.feed hashBytes ++ feedString hashBytes ownerClass)
  | .cast op ty dest => 41 :: (op.feed hashBytes ++ ty.feed hashBytes ++ feedString hashBytes dest)
  | .invokeVirtual dest className methodName methodTy args operand =>
    feedCall hashBytes 42 dest className methodName methodTy args ++ operand.feed hashBytes
  | .invokeStatic dest className methodName methodTy args =>
    feedCall hashBytes 43 dest className methodName methodTy args
  | .invokeRustStatic dest className methodName methodTy args =>
    feedCall hashBytes 44 dest className methodName methodTy args

/-- `FxHasher`: every word is added and multiplied in, and the result is rotated. -/
def fxHash (words : List Word) : Word :=
  (words.foldl (fun state word => (state + word) * 0xf1357aea2e62a9c5) 0).rotateLeft 26

def hashInstructions (instructions : List Instruction) : Word :=
  fxHash (feedList (Instruction.feed hashBytes) instructions)

/-- Whether an entry of the first key is compared with the second in every table of up to
`2 ^ 25` places: the places they are looked for and their tags are the same. -/
def fxCompares (first second : List Instruction) : Bool :=
  let hash := hashInstructions hashBytes first
  let hash' := hashInstructions hashBytes second
  hash.toNat % 2 ^ 25 == hash'.toNat % 2 ^ 25 && hash.toNat / 2 ^ 57 == hash'.toNat / 2 ^ 57

end Feeds

end RustcCodegenJvm.Program
