import RustcCodegenJvm.Lower2.FrameBlocks

/-!
# The frame after an instruction

`transfer_instruction` of `lower2/stackmaps.rs`: what an instruction does to a
verifier frame and where it goes next. Every successor gets the same frame, so
the effect on the frame and the list of successors are two functions here.
Descriptors are parsed by the class-file library, which is a parameter.
-/

namespace RustcCodegenJvm.Lower2

open Jvm FrameState

inductive BaseType
  | byte | char | double | float | int | long | short | boolean
deriving DecidableEq

inductive FieldType
  | base (ty : BaseType)
  | object (className : String)
  | array (component : FieldType)

/-- The parts of the class-file library the analysis calls. -/
structure ClassFileLibrary where
  parseFieldType : String → Except JvmError FieldType
  parseMethodDescriptor : String → Except JvmError (List FieldType × Option FieldType)
  className : FieldType → String
  debugInstruction : Instruction → String
  debugError : JvmError → String

/-! ### Reading the constant pool -/

section Pool

variable (pool : ConstantPool)

def tryGet (index : Nat) : Except JvmError ConstantKey :=
  match pool.get index with
  | some key => .ok key
  | none => .error (.invalidConstantPoolIndex index)

def tryGetUtf8 (index : Nat) : Except JvmError String := do
  match ← tryGet pool index with
  | .utf8 value => return value
  | _ => .error (.invalidConstantPoolIndexType index)

def tryGetClass (index : Nat) : Except JvmError String := do
  match ← tryGet pool index with
  | .class nameIndex => tryGetUtf8 pool nameIndex
  | _ => .error (.invalidConstantPoolIndexType index)

def tryGetNameAndType (index : Nat) : Except JvmError (Nat × Nat) := do
  match ← tryGet pool index with
  | .nameAndType nameIndex descriptorIndex => return (nameIndex, descriptorIndex)
  | _ => .error (.invalidConstantPoolIndexType index)

def tryGetFieldRef (index : Nat) : Except JvmError (Nat × Nat) := do
  match ← tryGet pool index with
  | .fieldRef classIndex nameAndTypeIndex => return (classIndex, nameAndTypeIndex)
  | _ => .error (.invalidConstantPoolIndexType index)

def tryGetMethodRef (index : Nat) : Except JvmError (Nat × Nat) := do
  match ← tryGet pool index with
  | .methodRef classIndex nameAndTypeIndex => return (classIndex, nameAndTypeIndex)
  | _ => .error (.invalidConstantPoolIndexType index)

def tryGetInterfaceMethodRef (index : Nat) : Except JvmError (Nat × Nat) := do
  match ← tryGet pool index with
  | .interfaceMethodRef classIndex nameAndTypeIndex => return (classIndex, nameAndTypeIndex)
  | _ => .error (.invalidConstantPoolIndexType index)

def frameValueFromLdc (index : Nat) : Except JvmError FrameValue := do
  match ← tryGet pool index with
  | .integer _ => return .integer
  | .float _ => return .float
  | .string _ => return .object "java/lang/String"
  | .class _ => return .object "java/lang/Class"
  | .methodType _ => return .object "java/lang/invoke/MethodType"
  | .methodHandle _ _ => return .object "java/lang/invoke/MethodHandle"
  | .dynamic _ _ => return .object objectClass
  | _ => return .top

def frameValueFromLdc2 (index : Nat) : Except JvmError FrameValue := do
  match ← tryGet pool index with
  | .long _ => return .long
  | .double _ => return .double
  | _ => return .top

def methodRefInfo (methodRef : Nat) (isInterface : Bool) : Except JvmError ConstantPool.Member := do
  let (classIndex, nameAndTypeIndex) ←
    if isInterface then tryGetInterfaceMethodRef pool methodRef else tryGetMethodRef pool methodRef
  let className ← tryGetClass pool classIndex
  let (nameIndex, descriptorIndex) ← tryGetNameAndType pool nameAndTypeIndex
  return ⟨className, ← tryGetUtf8 pool nameIndex, ← tryGetUtf8 pool descriptorIndex⟩

def staticMethodRefInfo (methodRef : Nat) : Except JvmError ConstantPool.Member := do
  match ← tryGet pool methodRef with
  | .interfaceMethodRef _ _ => methodRefInfo pool methodRef true
  | _ => methodRefInfo pool methodRef false

def invokeDynamicInfo (invokeDynamicRef : Nat) : Except JvmError ConstantPool.Member := do
  match ← tryGet pool invokeDynamicRef with
  | .invokeDynamic _ nameAndTypeIndex =>
    let (nameIndex, descriptorIndex) ← tryGetNameAndType pool nameAndTypeIndex
    return ⟨objectClass, ← tryGetUtf8 pool nameIndex, ← tryGetUtf8 pool descriptorIndex⟩
  | _ => .error (.verificationError "invokedynamic stack-map transfer"
      ("constant-pool entry #" ++ toString invokeDynamicRef ++ " is not an InvokeDynamic constant"))

end Pool

/-! ### Types of fields, arrays and loads -/

variable (library : ClassFileLibrary)

def frameValueFromFieldType : FieldType → FrameValue
  | .base .long => .long
  | .base .float => .float
  | .base .double => .double
  | .base _ => .integer
  | .object className => .object (normalizeClassName className)
  | .array component => .object (library.className (.array component))

def fieldTypeForRef (pool : ConstantPool) (fieldRef : Nat) : Except JvmError FieldType := do
  let (_, nameAndTypeIndex) ← tryGetFieldRef pool fieldRef
  let (_, descriptorIndex) ← tryGetNameAndType pool nameAndTypeIndex
  library.parseFieldType (← tryGetUtf8 pool descriptorIndex)

def arrayComponentValue (array : FrameValue) : FrameValue :=
  match array with
  | .object className => ofDescriptor className.toList
  | _ => .object objectClass
where
  ofDescriptor : List Char → FrameValue
    | '[' :: '[' :: rest => .object (String.ofList ('[' :: rest))
    | '[' :: component =>
      if component.head? = some 'L' ∧ component.getLast? = some ';' then
        .object (String.ofList component.tail.dropLast) else
        match component.head? with
        | some 'J' => .long
        | some 'F' => .float
        | some 'D' => .double
        | some 'Z' | some 'B' | some 'C' | some 'S' | some 'I' => .integer
        | _ => .object objectClass
    | _ => .object objectClass

def arrayDescriptorFromType : ArrayType → String
  | .boolean => "[Z"
  | .char => "[C"
  | .float => "[F"
  | .double => "[D"
  | .byte => "[B"
  | .short => "[S"
  | .int => "[I"
  | .long => "[J"

/-- The name of the array class with the elements `anewarray` names. -/
def arrayClassName (className : String) : String :=
  if className.toList.head? = some '[' then "[" ++ className
  else "[L" ++ normalizeClassName className ++ ";"

/-- The type a load, store, return or array access of the kind works on. -/
def loadHint : LocalKind → FrameValue
  | .int => .integer
  | .long => .long
  | .float => .float
  | .double => .double
  | .reference => .object objectClass

def numericValue : NumericKind → FrameValue
  | .int => .integer
  | .long => .long
  | .float => .float
  | .double => .double

def wordFrameValue : WordKind → FrameValue
  | .int => .integer
  | .long => .long

def convertedValue : Conversion → FrameValue
  | .i2l | .f2l | .d2l => .long
  | .i2f | .l2f | .d2f => .float
  | .i2d | .l2d | .f2d => .double
  | .l2i | .f2i | .d2i | .i2b | .i2c | .i2s => .integer

/-! ### Effects -/

section Effects

variable (context : String) (instructionIndex : Nat)

/-- Pops a number of values and pushes one: `unary`, `binary`, `shift`, `convert` and
the comparisons. -/
def replaceTop (count : Nat) (value : FrameValue) : FrameStep Unit :=
  match count with
  | 0 => push value
  | count + 1 => do
    let _ ← pop context instructionIndex
    replaceTop count value

def popMany : Nat → FrameStep Unit
  | 0 => return ()
  | count + 1 => do
    let _ ← pop context instructionIndex
    popMany count

/-- `store_fixed` and `store_reference_fixed`. -/
def storeEffect (kind : LocalKind) (index : Nat) : FrameStep Unit := do
  match kind with
  | .reference => storeLocal index (← popReference context instructionIndex)
  | kind =>
    let _ ← pop context instructionIndex
    storeLocal index (loadHint kind)

def arrayLoadEffect (kind : ArrayKind) : FrameStep Unit := do
  let _ ← pop context instructionIndex
  let array ← popReference context instructionIndex
  match kind with
  | .int | .byte | .char | .short => push .integer
  | .long => push .long
  | .float => push .float
  | .double => push .double
  | .reference => push (arrayComponentValue array)

def arrayStoreEffect : FrameStep Unit := do
  let _ ← pop context instructionIndex
  let _ ← pop context instructionIndex
  let _ ← popReference context instructionIndex

def pop2Effect : FrameStep Unit := do
  let value ← pop context instructionIndex
  if value.isCategory2 then return ()
  else
    let _ ← pop context instructionIndex

def dupEffect : FrameStep Unit := do
  let value ← popCategory1 context instructionIndex
  push value
  push value

def swapEffect : FrameStep Unit := do
  let first ← popCategory1 context instructionIndex
  let second ← popCategory1 context instructionIndex
  push first
  push second

def dupX1Effect : FrameStep Unit := do
  let value1 ← popCategory1 context instructionIndex
  let value2 ← popCategory1 context instructionIndex
  push value1
  push value2
  push value1

def dup2Effect : FrameStep Unit := do
  let value1 ← pop context instructionIndex
  if value1.isCategory2 then
    push value1
    push value1
  else
    let value2 ← popCategory1 context instructionIndex
    push value2
    push value1
    push value2
    push value1

/-- A read of the pool or of a descriptor, in the middle of a step. -/
def lookUp {Result : Type} (result : Except JvmError Result) : FrameStep Result := StateT.lift result

def popReceiver (isStatic : Bool) : FrameStep (Option FrameValue) :=
  if isStatic then return none else some <$> popReference context instructionIndex

/-- A constructor call initialises its receiver. -/
def initializeReceiver (method : ConstantPool.Member) (isSpecial : Bool)
    (receiver : Option FrameValue) : FrameStep Unit :=
  if isSpecial ∧ method.name = "<init>" then
    match receiver with
    | some (.uninitialized offset) => initializeObject (.uninitialized offset) method.owner
    | some .uninitializedThis => initializeObject .uninitializedThis method.owner
    | _ => return ()
  else return ()

def pushReturn (returnType : Option FieldType) : FrameStep Unit :=
  match returnType with
  | some returnType => push (frameValueFromFieldType library returnType)
  | none => return ()

def applyInvoke (method : ConstantPool.Member) (isStatic isSpecial : Bool) : FrameStep Unit := do
  let (params, returnType) ← lookUp (library.parseMethodDescriptor method.descriptor)
  popMany context instructionIndex params.length
  let receiver ← popReceiver context instructionIndex isStatic
  initializeReceiver method isSpecial receiver
  pushReturn library returnType

variable (pool : ConstantPool)

def fieldEffect (access : FieldAccess) (fieldRef : Nat) : FrameStep Unit := do
  match access with
  | .getstatic =>
    push (frameValueFromFieldType library (← lookUp (fieldTypeForRef library pool fieldRef)))
  | .putstatic =>
    let _ ← pop context instructionIndex
  | .getfield =>
    let _ ← popReference context instructionIndex
    push (frameValueFromFieldType library (← lookUp (fieldTypeForRef library pool fieldRef)))
  | .putfield =>
    let _ ← pop context instructionIndex
    let _ ← popReference context instructionIndex

def invokeEffect (kind : InvokeKind) (methodRef : Nat) : FrameStep Unit := do
  match kind with
  | .virtual =>
    applyInvoke library context instructionIndex (← lookUp (methodRefInfo pool methodRef false))
      false false
  | .special =>
    applyInvoke library context instructionIndex (← lookUp (methodRefInfo pool methodRef false))
      false true
  | .static =>
    applyInvoke library context instructionIndex (← lookUp (staticMethodRefInfo pool methodRef))
      true false

/-- The operands a conditional branch takes: one, or two for a comparison of two values; a
null check takes a reference. -/
def branchEffect (condition : Condition) : FrameStep Unit := do
  match condition with
  | .ifnull | .ifnonnull =>
    let _ ← popReference context instructionIndex
  | .ifeq | .ifne | .iflt | .ifge | .ifgt | .ifle => popMany context instructionIndex 1
  | _ => popMany context instructionIndex 2

def classValueEffect (classIndex : Nat) (value : String → FrameValue) : FrameStep Unit := do
  push (value (← lookUp (tryGetClass pool classIndex)))

def transferEffect (localHints : List FrameValue) (instruction : Instruction) : FrameStep Unit := do
  match instruction with
  | .nop => return ()
  | .aconstNull => push .null
  | .iconst _ | .bipush _ | .sipush _ => push .integer
  | .lconst _ => push .long
  | .fconst _ => push .float
  | .dconst _ => push .double
  | .ldc index | .ldcW index => push (← lookUp (frameValueFromLdc pool index))
  | .ldc2W index => push (← lookUp (frameValueFromLdc2 pool index))
  | .load kind form => loadLocal context instructionIndex form.slot localHints (loadHint kind)
  | .store kind form => storeEffect context instructionIndex kind form.slot
  | .arrayLoad kind => arrayLoadEffect context instructionIndex kind
  | .arrayStore _ => arrayStoreEffect context instructionIndex
  | .pop => popMany context instructionIndex 1
  | .pop2 => pop2Effect context instructionIndex
  | .dup => dupEffect context instructionIndex
  | .swap => swapEffect context instructionIndex
  | .dupX1 => dupX1Effect context instructionIndex
  | .dup2 => dup2Effect context instructionIndex
  | .dupX2 | .dup2X1 | .dup2X2 =>
    fail context ("Stack-map builder does not yet support " ++
      library.debugInstruction instruction ++ " at instruction " ++ toString instructionIndex)
  | .arithmetic _ kind => replaceTop context instructionIndex 2 (numericValue kind)
  | .bitwise _ kind => replaceTop context instructionIndex 2 (wordFrameValue kind)
  | .negate kind => replaceTop context instructionIndex 1 (numericValue kind)
  | .shift _ kind => replaceTop context instructionIndex 2 (wordFrameValue kind)
  | .iinc slot _ | .iincW slot _ => storeLocal slot .integer
  | .convert conversion => replaceTop context instructionIndex 1 (convertedValue conversion)
  | .lcmp | .fcmpl | .fcmpg | .dcmpl | .dcmpg => replaceTop context instructionIndex 2 .integer
  | .branch condition _ => branchEffect context instructionIndex condition
  | .goto _ | .gotoW _ => return ()
  | .tableswitch _ _ _ _ | .lookupswitch _ _ => popMany context instructionIndex 1
  | .jsr _ | .ret _ | .jsrW _ | .retW _ =>
    fail context ("Legacy subroutine instruction unsupported at " ++ toString instructionIndex)
  | .valueReturn _ => popMany context instructionIndex 1
  | .voidReturn => return ()
  | .field access fieldRef => fieldEffect library context instructionIndex pool access fieldRef
  | .invoke kind methodRef => invokeEffect library context instructionIndex pool kind methodRef
  | .invokedynamic invokeDynamicRef =>
    applyInvoke library context instructionIndex
      (← lookUp (invokeDynamicInfo pool invokeDynamicRef)) true false
  | .invokeinterface methodRef _ =>
    applyInvoke library context instructionIndex (← lookUp (methodRefInfo pool methodRef true))
      false false
  | .new classIndex => classValueEffect pool classIndex fun _ => .uninitialized (asU16 instructionIndex)
  | .newarray elements =>
    replaceTop context instructionIndex 1 (.object (arrayDescriptorFromType elements))
  | .anewarray classIndex =>
    popMany context instructionIndex 1
    classValueEffect pool classIndex fun name => .object (arrayClassName name)
  | .arraylength | .instanceof _ =>
    let _ ← popReference context instructionIndex
    push .integer
  | .athrow | .monitorenter | .monitorexit =>
    let _ ← popReference context instructionIndex
  | .checkcast classIndex =>
    let _ ← popReference context instructionIndex
    classValueEffect pool classIndex fun name => .object (normalizeClassName name)
  | .multianewarray classIndex dimensions =>
    popMany context instructionIndex dimensions
    classValueEffect pool classIndex fun name => .object (normalizeClassName name)
  | .reserved _ => return ()

def successorTargets (instruction : Instruction) : Except JvmError (List Nat) :=
  match instruction with
  | .branch _ target => .ok [target, instructionIndex + 1]
  | .goto target => .ok [target]
  -- `*target as usize` of a negative number is past every instruction
  | .gotoW target => .ok [if 0 ≤ target then target.toNat else (2 ^ 64 + target).toNat]
  | .tableswitch default _ _ offsets =>
    (default :: offsets).mapM (relativeSwitchTarget context instructionIndex)
  | .lookupswitch default pairs =>
    (default :: pairs.map Prod.snd).mapM (relativeSwitchTarget context instructionIndex)
  | .valueReturn _ | .voidReturn | .athrow => .ok []
  | _ => .ok [instructionIndex + 1]

/-- `transfer_instruction`: the successors, each with the frame it is entered with. -/
def transferInstruction (localHints : List FrameValue) (instruction : Instruction)
    (state : FrameState) : Except JvmError (List (Nat × FrameState)) := do
  let ((), after) ←
    (transferEffect library context instructionIndex pool localHints instruction).run state
  let targets ← successorTargets context instructionIndex instruction
  return targets.map fun target => (target, after)

end Effects

end RustcCodegenJvm.Lower2
