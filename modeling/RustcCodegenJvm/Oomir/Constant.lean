import Mathlib

/-!
# OOMIR types, constants and operands

The eight integer variants of `Type` and of `Constant` are one constructor
indexed by `IntTy`, with a payload of that width. Floats are their bits, since
the passes modelled here only move them; operations on them are parameters
where they are used.
-/

namespace RustcCodegenJvm.Oomir

inductive IntTy
  | i8 | u8 | i16 | u16 | i32 | u32 | i64 | u64
deriving DecidableEq

namespace IntTy

@[reducible] def width : IntTy → Nat
  | i8 | u8 => 8
  | i16 | u16 => 16
  | i32 | u32 => 32
  | i64 | u64 => 64

def signed : IntTy → Bool
  | i8 | i16 | i32 | i64 => true
  | u8 | u16 | u32 | u64 => false

def value (kind : IntTy) (bits : BitVec kind.width) : Int :=
  if kind.signed then bits.toInt else bits.toNat

theorem width_pos (kind : IntTy) : 0 < kind.width := by
  cases kind <;> decide

end IntTy

inductive Ty
  | void
  | unit
  | boolean
  | char
  | int (kind : IntTy)
  | f16
  | f32
  | f64
  | pointer (pointee : Ty)
  | mutableReference (inner : Ty)
  | reference (inner : Ty)
  | array (element : Ty)
  | slice (element : Ty)
  | str
  | class (name : String)
  | interface (name : String)
deriving DecidableEq

def javaStringClass : String := "java/lang/String"

def pointerClass : String := "org/rustlang/runtime/Pointer"

def sliceViewClass : String := "org/rustlang/runtime/SliceView"

def utf8ViewClass : String := "org/rustlang/runtime/Utf8View"

def i128Class : String := "org/rustlang/runtime/I128"

def u128Class : String := "org/rustlang/runtime/U128"

def f128Class : String := "org/rustlang/runtime/F128"

inductive Constant
  | unit
  | staticRef (ownerClass fieldName : String) (ty : Ty)
  | functionPointer (adapterClass interfaceName : String)
  | factoryCall (ownerClass methodName : String) (ty : Ty)
  | staticCall (ownerClass methodName : String) (args : List Constant) (paramTypes : List Ty)
      (ty : Ty)
  | pointerAddress (address viewSize : BitVec 64) (pointee : Ty)
  | repeatedBytePointer (identity : String) (byte : BitVec 8)
      (length offset viewSize alignment : BitVec 64) (viewCodec : Option String) (pointee : Ty)
  | byteArrayPointer (identity : String) (bytes : List (BitVec 8))
      (offset viewSize alignment : BitVec 64) (viewCodec : Option String) (pointee : Ty)
  | internedPointer (identity : String) (value : Constant) (arrayBacked : Bool)
      (allocationSize offset viewSize alignment : BitVec 64) (viewCodec : Constant) (pointee : Ty)
  | null (ty : Ty)
  | int (kind : IntTy) (bits : BitVec kind.width)
  | f16 (bits : BitVec 16)
  | f32 (bits : BitVec 32)
  | f64 (bits : BitVec 64)
  | boolean (value : Bool)
  | char (value : Char)
  | str (value : String)
  | string (value : String)
  | array (element : Ty) (elements : List Constant)
  | slice (element : Ty) (elements : List Constant)
  | sliceRef (backing : Constant) (elementType : Ty) (offset length : BitVec 64)
  | instance (className : String) (fields : List (String × Constant)) (params : List Constant)
      (paramTypes : List Ty)

inductive Operand
  | constant (value : Constant)
  | variable (name : String) (ty : Ty)

namespace Ty

def javaString : Ty := .class javaStringClass

def hasJvmValue : Ty → Bool
  | unit | void => false
  | _ => true

def isJvmReferenceType : Ty → Bool
  | reference _ | pointer _ | mutableReference _ | array _ | slice _ | str | .class _
  | interface _ => true
  | _ => false

def isJvmPrimitiveLike : Ty → Bool
  | boolean | char | int _ | f16 | f32 | f64 => true
  | _ => false

def objectDescriptor : String := "Ljava/lang/Object;"

def classDescriptor (name : String) : String := "L" ++ name ++ ";"

def toJvmDescriptor : Ty → String
  | void | unit => "V"
  | boolean => "Z"
  | char => "C"
  | int .i8 | int .u8 => "B"
  | int .i16 => "S"
  | int .u16 => "C"
  | int .i32 | int .u32 => "I"
  | int .i64 | int .u64 => "J"
  | f16 => "S"
  | f32 => "F"
  | f64 => "D"
  | pointer _ => classDescriptor pointerClass
  | str => classDescriptor utf8ViewClass
  | .class name | interface name => classDescriptor (name.replace "." "/")
  | reference inner => inner.toJvmDescriptor
  | mutableReference inner =>
    if inner.hasJvmValue then "[" ++ inner.toJvmDescriptor else objectDescriptor
  | array element =>
    if element.hasJvmValue then "[" ++ element.toJvmDescriptor else "[" ++ objectDescriptor
  | slice _ => classDescriptor sliceViewClass

/-- What `checkcast` and `anewarray` name the type by. -/
def toJvmDescriptorOrInternalName : Ty → Option String
  | .class name | interface name => some name
  | pointer _ => some pointerClass
  | array element => some (array element).toJvmDescriptor
  | slice _ => some sliceViewClass
  | str => some utf8ViewClass
  | reference inner => inner.toJvmDescriptorOrInternalName
  | mutableReference inner => some (array inner).toJvmDescriptor
  | _ => none

def debug : Ty → String
  | void => "Void"
  | unit => "Unit"
  | boolean => "Boolean"
  | char => "Char"
  | int .i8 => "I8"
  | int .u8 => "U8"
  | int .i16 => "I16"
  | int .u16 => "U16"
  | int .i32 => "I32"
  | int .u32 => "U32"
  | int .i64 => "I64"
  | int .u64 => "U64"
  | f16 => "F16"
  | f32 => "F32"
  | f64 => "F64"
  | pointer pointee => "Pointer(" ++ pointee.debug ++ ")"
  | mutableReference inner => "MutableReference(" ++ inner.debug ++ ")"
  | reference inner => "Reference(" ++ inner.debug ++ ")"
  | array element => "Array(" ++ element.debug ++ ")"
  | slice element => "Slice(" ++ element.debug ++ ")"
  | str => "Str"
  | .class name => "Class(\"" ++ name ++ "\")"
  | interface name => "Interface(\"" ++ name ++ "\")"

/-- JVM slots of a value: `get_type_size`. -/
def size : Ty → Nat
  | unit | void => 0
  | int .i64 | int .u64 | f64 => 2
  | _ => 1

/-- The type of a constant. A `Pointer` instance built from a value takes its
pointee from that value, an address-only one has none to take it from. -/
def fromConstant : Constant → Ty
  | .unit => unit
  | .staticRef _ _ ty => ty
  | .functionPointer _ interfaceName => interface interfaceName
  | .factoryCall _ _ ty => ty
  | .staticCall _ _ _ _ ty => ty
  | .pointerAddress _ _ pointee => pointer pointee
  | .repeatedBytePointer _ _ _ _ _ _ _ pointee => pointer pointee
  | .byteArrayPointer _ _ _ _ _ _ pointee => pointer pointee
  | .internedPointer _ _ _ _ _ _ _ _ pointee => pointer pointee
  | .null ty => ty
  | .int kind _ => int kind
  | .f16 _ => f16
  | .f32 _ => f32
  | .f64 _ => f64
  | .array element _ => array element
  | .slice element _ => slice element
  | .sliceRef _ elementType _ _ => slice elementType
  | .boolean _ => boolean
  | .char _ => char
  | .str _ => str
  | .string _ => javaString
  | .instance className _ params _ =>
    if className = pointerClass then
      match params with
      | [value, _, _] => pointer (fromConstant value)
      | _ => pointer unit
    else .class className

end Ty

namespace Operand

def getName : Operand → Option String
  | .variable name _ => some name
  | .constant _ => none

def getType : Operand → Ty
  | .variable _ ty => ty
  | .constant value => Ty.fromConstant value

end Operand

end RustcCodegenJvm.Oomir
