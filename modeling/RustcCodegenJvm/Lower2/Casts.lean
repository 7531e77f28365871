import RustcCodegenJvm.Lower2.Consts

/-!
# Emitted casts

`get_cast_instructions` of `lower2/helpers.rs`: the instructions that turn a
value of one OOMIR type on the operand stack into one of another type. The JVM
descriptor does not say enough for this, since `u32` is carried in an `int`,
`u64` in a `long` and `f16` in a `short`.
-/

namespace RustcCodegenJvm.Lower2

open Jvm Oomir InternedConstantPool

def numbersClass : String := "org/rustlang/runtime/Numbers"

/-- The bits an integer cast looks at; a `char` counts as sixteen. -/
def intWidth : Ty → Option Nat
  | .boolean => some 1
  | .char => some 16
  | .int kind => some kind.width
  | _ => none

def narrow : Ty → Option Instruction
  | .int .i8 | .int .u8 => some (.convert .i2b)
  | .int .i16 => some (.convert .i2s)
  | .int .u16 | .char => some (.convert .i2c)
  | _ => none

def methodCall (kind : InvokeKind) (owner name descriptor : String) : Emit Instruction := do
  let classIndex ← addClass owner
  return .invoke kind (← addMethodRef classIndex name descriptor)

def numbersCall (name descriptor : String) : Emit Instruction :=
  methodCall .static numbersClass name descriptor

def maskByte : Emit (List Instruction) := do
  return [← getIntConstInstr 0xff, .bitwise .and .int]

def integerToInteger (src dest : Ty) (srcWidth destWidth : Nat) : Emit (List Instruction) := do
  if destWidth ≤ 32 then
    let low := if srcWidth = 64 then [Instruction.convert .l2i] else []
    let masked ← if src = .int .u8 ∧ destWidth > 8 then maskByte else pure []
    return low ++ masked ++ (narrow dest).toList
  else if srcWidth < 64 then
    match src with
    | .int .u8 => return (← maskByte) ++ [.convert .i2l]
    | .int .u32 =>
      return [.convert .i2l, ← getLongConstInstr 0xffffffff, .bitwise .and .long]
    | _ => return [.convert .i2l]
  else return []

def integerToFloat (src : Ty) (toSingle : Bool) : Emit (List Instruction) := do
  let fromInt := Instruction.convert (if toSingle then .i2f else .i2d)
  match src with
  | .int .u32 =>
    return [← numbersCall (if toSingle then "u32ToF32" else "u32ToF64")
      (if toSingle then "(I)F" else "(I)D")]
  | .int .u64 =>
    return [← numbersCall (if toSingle then "u64ToF32" else "u64ToF64")
      (if toSingle then "(J)F" else "(J)D")]
  | .int .i64 => return [.convert (if toSingle then .l2f else .l2d)]
  | .int .u8 => return (← maskByte) ++ [fromInt]
  | _ => return [fromInt]

def floatToInteger (fromSingle : Bool) (dest : Ty) : Emit (List Instruction) := do
  let call (suffix result : String) : Emit (List Instruction) := do
    return [← numbersCall ((if fromSingle then "f32" else "f64") ++ suffix)
      ("(" ++ (if fromSingle then "F" else "D") ++ ")" ++ result)]
  match dest with
  | .int .i8 => call "ToI8" "B"
  | .int .i16 => call "ToI16" "S"
  | .int .i32 => return [.convert (if fromSingle then .f2i else .d2i)]
  | .int .i64 => return [.convert (if fromSingle then .f2l else .d2l)]
  | .int .u8 | .boolean => call "ToU8" "B"
  | .int .u16 | .char => call "ToU16" "C"
  | .int .u32 => call "ToU32" "I"
  | _ => call "ToU64" "J"

def noPath (src dest : Ty) : Emit (List Instruction) :=
  throw (.verificationError "primitive_to_primitive" ("No path " ++ src.debug ++ "→" ++ dest.debug))

def wordToWord (src dest : Ty) : Emit (List Instruction) :=
  match src, dest with
  | .f32, .f64 => pure [.convert .f2d]
  | .f64, .f32 => pure [.convert .d2f]
  | .f32, .f32 | .f64, .f64 => pure []
  | .f32, dest => if (intWidth dest).isSome then floatToInteger true dest else noPath .f32 dest
  | .f64, dest => if (intWidth dest).isSome then floatToInteger false dest else noPath .f64 dest
  | src, .f32 => if (intWidth src).isSome then integerToFloat src true else noPath src .f32
  | src, .f64 => if (intWidth src).isSome then integerToFloat src false else noPath src .f64
  | src, dest =>
    match intWidth src, intWidth dest with
    | some srcWidth, some destWidth => integerToInteger src dest srcWidth destWidth
    | _, _ => noPath src dest

/-- A cast into `f16` rounds once, so an integer goes through `f64`. -/
def intoHalf (src dest : Ty) : Emit (List Instruction) :=
  if dest = .f16 then
    match src with
    | .f32 => do return [← numbersCall "f32ToF16" "(F)S"]
    | .f64 => do return [← numbersCall "f64ToF16" "(D)S"]
    | src =>
      if (intWidth src).isSome then do
        return (← wordToWord src .f64) ++ [← numbersCall "f64ToF16" "(D)S"]
      else noPath src .f16
  else wordToWord src dest

/-- `f16` is stored as raw bits, which a cast out of it decodes first. -/
def primitiveToPrimitive (src dest : Ty) : Emit (List Instruction) :=
  if src = .f16 then do
    return (← numbersCall "f16ToF32" "(S)F") :: (← intoHalf .f32 dest)
  else intoHalf src dest

/-- The types whose 64-bit carrier is unsigned. -/
def isUnsigned : Ty → Bool
  | .boolean | .char => true
  | .int kind => !kind.signed
  | _ => false

/-- `prim_to_int128` and `prim_to_f128`, which differ only in the class. -/
def primToWide (src : Ty) (destClass : String) : Emit (List Instruction) := do
  let classIndex ← addClass destClass
  let result := Ty.classDescriptor destClass
  match src with
  | .f16 =>
    let decode ← numbersCall "f16ToF32" "(S)F"
    return [decode, .invoke .static (← addMethodRef classIndex "fromF32" ("(F)" ++ result))]
  | .f32 => return [.invoke .static (← addMethodRef classIndex "fromF32" ("(F)" ++ result))]
  | .f64 => return [.invoke .static (← addMethodRef classIndex "fromF64" ("(D)" ++ result))]
  | src =>
    let carried ← primitiveToPrimitive src (.int (if isUnsigned src then .u64 else .i64))
    let name := if isUnsigned src then "fromU64" else "fromI64"
    return carried ++ [.invoke .static (← addMethodRef classIndex name ("(J)" ++ result))]

def f128ToPrim (dest : Ty) : Emit (List Instruction) :=
  match dest with
  | .int .i8 => call "castToI8" "()B"
  | .int .u8 | .boolean => call "castToU8" "()B"
  | .int .i16 => call "castToI16" "()S"
  | .int .u16 | .char => call "castToU16" "()C"
  | .int .i32 => call "castToI32" "()I"
  | .int .u32 => call "castToU32" "()I"
  | .int .i64 => call "castToI64" "()J"
  | .int .u64 => call "castToU64" "()J"
  | .f32 => call "castToF32" "()F"
  | .f64 => call "castToF64" "()D"
  | .f16 => call "castToF16" "()S"
  | dest => throw (.verificationError "f128_to_prim" ("Cannot cast F128 to " ++ dest.debug))
where
  call (name descriptor : String) : Emit (List Instruction) := do
    return [← methodCall .virtual f128Class name descriptor]

def int128ToPrim (srcClass : String) (dest : Ty) : Emit (List Instruction) := do
  let classIndex ← addClass srcClass
  match dest with
  | .f16 =>
    let toDouble ← addMethodRef classIndex "doubleValue" "()D"
    return [.invoke .virtual toDouble, ← numbersCall "f64ToF16" "(D)S"]
  | .f32 => return [.invoke .virtual (← addMethodRef classIndex "floatValue" "()F")]
  | .f64 => return [.invoke .virtual (← addMethodRef classIndex "doubleValue" "()D")]
  | dest =>
    let longValue ← addMethodRef classIndex "longValue" "()J"
    return .invoke .virtual longValue :: (← primitiveToPrimitive (.int .i64) dest)

def boxing : Ty → Option (String × String)
  | .boolean => some ("java/lang/Boolean", "(Z)Ljava/lang/Boolean;")
  | .char | .int .u16 => some ("java/lang/Character", "(C)Ljava/lang/Character;")
  | .int .i8 | .int .u8 => some ("java/lang/Byte", "(B)Ljava/lang/Byte;")
  | .int .i16 | .f16 => some ("java/lang/Short", "(S)Ljava/lang/Short;")
  | .int .i32 | .int .u32 => some ("java/lang/Integer", "(I)Ljava/lang/Integer;")
  | .int .i64 | .int .u64 => some ("java/lang/Long", "(J)Ljava/lang/Long;")
  | .f32 => some ("java/lang/Float", "(F)Ljava/lang/Float;")
  | .f64 => some ("java/lang/Double", "(D)Ljava/lang/Double;")
  | _ => none

/-- Unboxing an `Object`; a `Boolean` has its own accessor. -/
def unbox (dest : Ty) : Emit (List Instruction) :=
  match dest with
  | .boolean => do
    let classIndex ← addClass "java/lang/Boolean"
    let accessor ← addMethodRef classIndex "booleanValue" "()Z"
    return [.checkcast classIndex, .invoke .virtual accessor]
  | .int .i8 | .int .u8 => call "objectToI8" "B"
  | .int .i16 | .f16 => call "objectToI16" "S"
  | .int .u16 | .char => call "objectToU16" "C"
  | .int .i32 | .int .u32 => call "objectToI32" "I"
  | .int .i64 | .int .u64 => call "objectToI64" "J"
  | .f32 => call "objectToF32" "F"
  | _ => call "objectToF64" "D"
where
  call (name result : String) : Emit (List Instruction) := do
    return [← numbersCall name ("(Ljava/lang/Object;)" ++ result)]

def wideToWide (srcClass destClass : String) : Option (Emit (List Instruction)) :=
  if isWide srcClass ∧ destClass = f128Class then
    some do return [← methodCall .static f128Class
      (if srcClass = i128Class then "fromI128Value" else "fromU128Value")
      ("(" ++ Ty.classDescriptor srcClass ++ ")" ++ Ty.classDescriptor f128Class)]
  else if srcClass = f128Class ∧ isWide destClass then
    some do return [← methodCall .virtual f128Class
      (if destClass = i128Class then "castToI128" else "castToU128")
      ("()" ++ Ty.classDescriptor destClass)]
  else if isWide srcClass ∧ isWide destClass then
    some do return [← methodCall .virtual srcClass
      (if destClass = i128Class then "toI128" else "toU128")
      ("()" ++ Ty.classDescriptor destClass)]
  else none
where
  isWide (name : String) : Bool := name == i128Class || name == u128Class

/-- `checkcast`, when both types have a name; a one-element reference array is
read first. -/
def referenceToReference (src dest : Ty) : Option (Emit (List Instruction)) :=
  match src with
  | .mutableReference inner => some do
    let read := [Instruction.iconst .zero, .arrayLoad .reference]
    match dest.toJvmDescriptorOrInternalName with
    | some name => if dest ≠ inner then return read ++ [.checkcast (← addClass name)] else return read
    | none => return read
  | src =>
    match src.toJvmDescriptorOrInternalName, dest.toJvmDescriptorOrInternalName with
    | some _, some name => some do return [.checkcast (← addClass name)]
    | _, _ => none

/-- The default value of a type, after the source has been dropped. -/
def replaceByDefault (src dest : Ty) : List Instruction :=
  let drop := match src.size with
    | 0 => []
    | 2 => [Instruction.pop2]
    | _ => [Instruction.pop]
  drop ++ match dest with
    | .unit | .void => []
    | .int .i64 | .int .u64 => [.lconst 0]
    | .f32 => [.fconst 0]
    | .f64 => [.dconst 0]
    | .int _ | .f16 | .boolean | .char => [.iconst .zero]
    | _ => [.aconstNull]

/-- The casts that involve a class type and a primitive. -/
def boxedCast (src dest : Ty) : Option (Emit (List Instruction)) :=
  match src, dest with
  | src, .class name =>
    if src.isJvmPrimitiveLike then
      if name = f128Class ∨ name = i128Class ∨ name = u128Class then some (primToWide src name)
      else if name = objectClass then
        (boxing src).map fun (wrapper, descriptor) => do
          return [← methodCall .static wrapper "valueOf" descriptor]
      else none
    else none
  | .class name, dest =>
    if dest.isJvmPrimitiveLike then
      if name = f128Class then some (f128ToPrim dest)
      else if name = i128Class ∨ name = u128Class then some (int128ToPrim name dest)
      else if name = objectClass then some (unbox dest)
      else none
    else none
  | _, _ => none

def getCastInstructions (src dest : Ty) : Emit (List Instruction) :=
  if src = dest then pure []
  else if !src.hasJvmValue && dest.isJvmReferenceType then pure [.aconstNull]
  else if src.isJvmPrimitiveLike && dest.isJvmPrimitiveLike then primitiveToPrimitive src dest
  else
    match boxedCast src dest with
    | some emitted => emitted
    | none =>
      if src.isJvmReferenceType && dest.isJvmReferenceType then
        match src, dest with
        | .class srcClass, .class destClass =>
          ((wideToWide srcClass destClass).orElse fun _ => referenceToReference src dest).getD
            (pure (replaceByDefault src dest))
        | src, dest => (referenceToReference src dest).getD (pure (replaceByDefault src dest))
      else pure (replaceByDefault src dest)

end RustcCodegenJvm.Lower2
