import RustcCodegenJvm.Lower2.Casts
import RustcCodegenJvm.Oomir.Interpret

/-!
# Emitting integer operators

The part of `lower2/translator.rs` that turns an OOMIR operator on integers,
booleans or characters into JVM instructions: operand loads, the operator with
its masks and its normalisation, and the store of the result. Labels are
resolved as they are placed, since both sit inside the emitted sequence.
-/

namespace RustcCodegenJvm.Lower2

open Jvm Oomir InternedConstantPool

structure LocalTable where
  localVarMap : List (String × Nat)
  localVarTypes : List (String × Ty)
  typedLocalVarMap : List ((String × Ty) × Nat)
  nextLocalIndex : Nat
  maxLocalsUsed : Nat

namespace LocalTable

def getTypedLocalIndex (table : LocalTable) (name : String) (ty : Ty) : Option Nat :=
  table.typedLocalVarMap.lookup (name, ty)

def note (table : LocalTable) (name : String) (ty : Ty) (index : Nat) : LocalTable :=
  { table with
    localVarMap := (name, index) :: table.localVarMap
    localVarTypes := (name, ty) :: table.localVarTypes }

def assignLocal (table : LocalTable) (name : String) (ty : Ty) : Nat × LocalTable :=
  match table.getTypedLocalIndex name ty with
  | some index => (index, table.note name ty index)
  | none =>
    let index := table.nextLocalIndex
    (index, { table.note name ty index with
      typedLocalVarMap := ((name, ty), index) :: table.typedLocalVarMap
      nextLocalIndex := table.nextLocalIndex + ty.size
      maxLocalsUsed := max table.maxLocalsUsed (index + ty.size) })

/-- The types carried in an `int` slot. -/
def isIntSlot : Ty → Bool
  | .int kind => kind.width ≤ 32
  | .f16 | .boolean | .char => true
  | _ => false

def canShareJvmLocal (existing new : Ty) : Bool :=
  existing = new || (existing.isJvmReferenceType && new.isJvmReferenceType) ||
    (isIntSlot existing && isIntSlot new)

def getOrAssignLocal (table : LocalTable) (name : String) (ty : Ty) : Nat × LocalTable :=
  match table.getTypedLocalIndex name ty with
  | some index => (index, table.note name ty index)
  | none =>
    match table.localVarMap.lookup name, table.localVarTypes.lookup name with
    | some index, some current =>
      if canShareJvmLocal current ty then
        (index, { table with
          typedLocalVarMap := ((name, ty), index) :: table.typedLocalVarMap
          localVarTypes := (name, ty) :: table.localVarTypes })
      else table.assignLocal name ty
    | _, _ => table.assignLocal name ty

theorem assign_local_typed (table : LocalTable) (name : String) (ty : Ty) :
    (table.assignLocal name ty).2.getTypedLocalIndex name ty =
      some (table.assignLocal name ty).1 := by
  unfold assignLocal
  split
  · assumption
  · simp [getTypedLocalIndex]

theorem get_or_assign_local_typed (table : LocalTable) (name : String) (ty : Ty) :
    (table.getOrAssignLocal name ty).2.getTypedLocalIndex name ty =
      some (table.getOrAssignLocal name ty).1 := by
  unfold getOrAssignLocal
  split
  · assumption
  · split
    · split
      · simp [getTypedLocalIndex]
      · exact assign_local_typed table name ty
    · exact assign_local_typed table name ty

end LocalTable

structure Translator where
  constantPool : InternedConstantPool
  jvmInstructions : List Instruction
  locals : LocalTable

abbrev Translate := StateT Translator (Except JvmError)

namespace Translate

def push (instruction : Instruction) : Translate Unit :=
  modify fun state => { state with jvmInstructions := state.jvmInstructions ++ [instruction] }

def pooled {Result : Type} (step : Emit Result) : Translate Result := fun state =>
  match step.run state.constantPool with
  | .ok (result, pool) => .ok (result, { state with constantPool := pool })
  | .error error => .error error

def pushPooled (step : Emit Instruction) : Translate Unit := do
  push (← pooled step)

def pushAll (instructions : List Instruction) : Translate Unit :=
  modify fun state => { state with jvmInstructions := state.jvmInstructions ++ instructions }

end Translate

open Translate

def localKind : Ty → Option LocalKind
  | .unit | .void => none
  | .int kind => some (if kind.width = 64 then .long else .int)
  | .boolean | .char | .f16 => some .int
  | .f32 => some .float
  | .f64 => some .double
  | _ => some .reference

def getLoadInstruction (ty : Ty) (index : Nat) : Except JvmError Instruction :=
  match localKind ty with
  | some kind => .ok (.load kind (.ofSlot index))
  | none => .error (.verificationError "get_load_instruction" "Cannot load void type")

def getStoreInstruction (ty : Ty) (index : Nat) : Except JvmError Instruction :=
  match localKind ty with
  | some kind => .ok (.store kind (.ofSlot index))
  | none => .error (.verificationError "get_store_instructions" "Cannot store void type")

def pushLoad (ty : Ty) (index : Nat) : Translate Unit :=
  match getLoadInstruction ty index with
  | .ok instruction => push instruction
  | .error error => throw error

def pushStore (ty : Ty) (index : Nat) : Translate Unit :=
  match getStoreInstruction ty index with
  | .ok instruction => push instruction
  | .error error => throw error

def assignSlot (name : String) (ty : Ty) : Translate Nat := fun state =>
  let (index, locals) := state.locals.getOrAssignLocal name ty
  .ok (index, { state with locals := locals })

/-- A variable without a slot of its type is read at the type it was last used at,
and cast. -/
def loadRetyped (name : String) (ty : Ty) (last : Option Ty) : Translate Unit := do
  let actual := last.getD ty
  let actual := if !actual.hasJvmValue && ty.hasJvmValue then ty else actual
  pushLoad actual (← assignSlot name actual)
  if actual ≠ ty ∧ actual.toJvmDescriptor ≠ ty.toJvmDescriptor then
    pushAll (← pooled (getCastInstructions actual ty))

def loadOperand (operand : Operand) : Translate Unit :=
  match operand with
  | .constant constant =>
    match loadConstant constant with
    | some step => pushPooled step
    | none => throw (.verificationError "load_operand" "not a scalar constant")
  | .variable name ty => do
    let state ← get
    match state.locals.getTypedLocalIndex name ty with
    | some index => pushLoad ty index
    | none => loadRetyped name ty (state.locals.localVarTypes.lookup name)

/-- `load_operand_as` between scalar types: the operand is cast when its JVM type
differs. -/
def loadOperandAs (operand : Operand) (expected : Ty) : Translate Unit := do
  loadOperand operand
  if operand.getType ≠ expected ∧
      operand.getType.toJvmDescriptor ≠ expected.toJvmDescriptor then
    pushAll (← pooled (getCastInstructions operand.getType expected))

def storeResult (dest : String) (ty : Ty) : Translate Unit :=
  if ty.hasJvmValue then do pushStore ty (← assignSlot dest ty)
  else pure ()

/-! ### Operators -/

/-- JVM arithmetic on the small types produces an `int`; this wraps it again. -/
def normalizeIntegerResult (ty : Ty) : Translate Unit :=
  match ty with
  | .int .i8 | .int .u8 => push (.convert .i2b)
  | .int .i16 | .f16 => push (.convert .i2s)
  | .int .u16 | .char => push (.convert .i2c)
  | _ => pure ()

def translateBinaryOp (dest : String) (op1 op2 : Operand) (jvmOp : Instruction) :
    Translate Unit := do
  loadOperandAs op1 op1.getType
  loadOperandAs op2 op1.getType
  push jvmOp
  normalizeIntegerResult op1.getType
  storeResult dest op1.getType

/-- A `u8` sits sign-extended on the stack; its unsigned value is recovered first. -/
def maskUnsignedByte (ty : Ty) : Translate Unit :=
  if ty = .int .u8 then do
    pushPooled (getIntConstInstr 0xff)
    push (.bitwise .and .int)
  else pure ()

def unsignedDivRemMethod (isRemainder : Bool) : String :=
  if isRemainder then "remainderUnsigned" else "divideUnsigned"

def translateUnsignedDivRem (dest : String) (op1 op2 : Operand) (ty : Ty) (isRemainder : Bool) :
    Translate Unit := do
  match ty with
  | .int .u8 | .int .u16 =>
    loadOperandAs op1 ty
    maskUnsignedByte ty
    loadOperandAs op2 ty
    maskUnsignedByte ty
    push (.arithmetic (if isRemainder then .rem else .div) .int)
    normalizeIntegerResult ty
  | .int .u32 =>
    loadOperandAs op1 ty
    loadOperandAs op2 ty
    pushPooled (methodCall .static "java/lang/Integer" (unsignedDivRemMethod isRemainder) "(II)I")
  | .int .u64 =>
    loadOperandAs op1 ty
    loadOperandAs op2 ty
    pushPooled (methodCall .static "java/lang/Long" (unsignedDivRemMethod isRemainder) "(JJ)J")
  | ty => throw (.verificationError "translate_unsigned_div_rem"
      ("not an unsigned integer type: " ++ ty.debug))
  storeResult dest ty

def shiftWidth : Ty → Nat
  | .int kind => kind.width
  | _ => 32

def shiftInstruction (ty : Ty) (left : Bool) : Instruction :=
  match ty, left with
  | .int .i64, true | .int .u64, true => .shift .shl .long
  | .int .i64, false => .shift .shr .long
  | .int .u64, false => .shift .ushr .long
  | _, true => .shift .shl .int
  | .int .u8, false | .int .u16, false | .int .u32, false => .shift .ushr .int
  | _, false => .shift .shr .int

/-- Loads a shift distance as an `int`; a 128-bit one is an object. -/
def loadJvmIntOperand (operand : Operand) : Translate Unit := do
  loadOperand operand
  match operand.getType with
  | .int .i64 | .int .u64 => push (.convert .l2i)
  | .class name =>
    if name = i128Class ∨ name = u128Class then
      pushPooled (methodCall .virtual name "intValue" "()I")
  | _ => pure ()

def translatePrimitiveShift (dest : String) (op1 op2 : Operand) (left : Bool) :
    Translate Unit := do
  loadOperand op1
  if !left then maskUnsignedByte op1.getType
  loadJvmIntOperand op2
  pushPooled (getIntConstInstr (BitVec.ofNat 32 (shiftWidth op1.getType - 1)))
  push (.bitwise .and .int)
  push (shiftInstruction op1.getType left)
  normalizeIntegerResult op1.getType
  storeResult dest op1.getType

def compareInts : ComparisonOp → Condition
  | .eq => .ifIcmpeq
  | .ne => .ifIcmpne
  | .lt => .ifIcmplt
  | .le => .ifIcmple
  | .gt => .ifIcmpgt
  | .ge => .ifIcmpge

def compareSign : ComparisonOp → Condition
  | .eq => .ifeq
  | .ne => .ifne
  | .lt => .iflt
  | .le => .ifle
  | .gt => .ifgt
  | .ge => .ifge

/-- Pushes `true` or `false` by branching, at the given instruction index. The two
labels follow the branch, and their indices must fit sixteen bits. -/
def materializeAt (index : Nat) (dest : String) (condition : Condition) : Translate Unit :=
  if index + 4 < 65536 then do
    pushAll [.branch condition (index + 3), .iconst .zero, .goto (index + 4), .iconst .one]
    storeResult dest .boolean
  else throw (.verificationError "materialize_boolean_from_branch" "instruction index overflow")

def materializeBooleanFromBranch (dest : String) (condition : Condition) : Translate Unit := do
  let state ← get
  materializeAt state.jvmInstructions.length dest condition

def comparisonType (left right : Ty) : Ty :=
  if left = right then left
  else ([Ty.f64, .f32, .int .u64, .int .i64, .int .u32].find? fun target =>
    left = target ∨ right = target).getD (.int .i32)

def loadForComparison (operand : Operand) (ty : Ty) : Translate Unit := do
  loadOperand operand
  if operand.getType ≠ ty then pushAll (← pooled (getCastInstructions operand.getType ty))

/-- Comparisons of integers, booleans and characters. -/
def translateComparisonOp (dest : String) (op1 op2 : Operand) (op : ComparisonOp) :
    Translate Unit := do
  let ty := comparisonType op1.getType op2.getType
  loadForComparison op1 ty
  maskUnsignedByte ty
  loadForComparison op2 ty
  maskUnsignedByte ty
  match ty with
  | .int .u32 =>
    pushPooled (methodCall .static "java/lang/Integer" "compareUnsigned" "(II)I")
    materializeBooleanFromBranch dest (compareSign op)
  | .int .u64 =>
    pushPooled (methodCall .static "java/lang/Long" "compareUnsigned" "(JJ)I")
    materializeBooleanFromBranch dest (compareSign op)
  | .int .i64 =>
    push .lcmp
    materializeBooleanFromBranch dest (compareSign op)
  | .int _ | .boolean | .char => materializeBooleanFromBranch dest (compareInts op)
  | ty => throw (.verificationError "translate_comparison_op"
      ("Unsupported type for comparison: " ++ ty.debug))

/-! ### Increments -/

def iincAmount (operand : Operand) (sign : Int) : Option Int :=
  match operand with
  | .constant (.int .i8 bits) => fits (bits.toInt * sign)
  | .constant (.int .i16 bits) => fits (bits.toInt * sign)
  | .constant (.int .i32 bits) => fits (bits.toInt * sign)
  | _ => none
where
  fits (amount : Int) : Option Int :=
    if -2 ^ 15 ≤ amount ∧ amount < 2 ^ 15 then some amount else none

def makeIincInstruction (index : Nat) (amount : Int) : Instruction :=
  if index ≤ 255 ∧ -2 ^ 7 ≤ amount ∧ amount < 2 ^ 7 then .iinc index (BitVec.ofInt 8 amount)
  else .iincW index (BitVec.ofInt 16 amount)

/-- The update in place; a zero amount needs no instruction. -/
def incrementLocal (dest : String) (index : Nat) (amount : Int) : Translate Bool := do
  pushAll (if amount ≠ 0 then [makeIincInstruction index amount] else [])
  modify fun state => { state with locals := { state.locals with
    maxLocalsUsed := max state.locals.maxLocalsUsed (index + 1)
    localVarTypes := (dest, .int .i32) :: state.locals.localVarTypes } }
  return true

/-- `x = x + c` and `x = x - c` on an `i32` variable become an `iinc`; returns
whether it was emitted. -/
def emitIincUpdate (dest : String) (localOperand amountOperand : Operand) (sign : Int) :
    Translate Bool := do
  match localOperand with
  | .variable name (.int .i32) =>
    if name = dest then
      let state ← get
      match iincAmount amountOperand sign, state.locals.getTypedLocalIndex dest (.int .i32) with
      | some amount, some index => incrementLocal dest index amount
      | _, _ => return false
    else return false
  | _ => return false

def emitIincAdd (dest : String) (op1 op2 : Operand) : Translate Bool := do
  if ← emitIincUpdate dest op1 op2 1 then return true
  emitIincUpdate dest op2 op1 1

def emitIincSub (dest : String) (op1 op2 : Operand) : Translate Bool :=
  emitIincUpdate dest op1 op2 (-1)

/-! ### Instructions -/

def numericKind (ty : Ty) : NumericKind :=
  match ty with
  | .int .i64 | .int .u64 => .long
  | _ => .int

def wordKind (ty : Ty) : WordKind :=
  match ty with
  | .int .i64 | .int .u64 => .long
  | _ => .int

def jvmArithmetic : Oomir.ArithmeticOp → Jvm.ArithmeticOp
  | .add => .add
  | .sub => .sub
  | .mul => .mul
  | .div => .div
  | .rem => .rem

def jvmBitwise : Oomir.BitwiseOp → Jvm.BitwiseOp
  | .and => .and
  | .or => .or
  | .xor => .xor

def translateArithmetic (op : Oomir.ArithmeticOp) (dest : String) (op1 op2 : Operand) :
    Translate Unit := do
  let ty := op1.getType
  let plain := translateBinaryOp dest op1 op2 (.arithmetic (jvmArithmetic op) (numericKind ty))
  match op with
  | .add => if ← emitIincAdd dest op1 op2 then pure () else plain
  | .sub => if ← emitIincSub dest op1 op2 then pure () else plain
  | .mul => plain
  | .div =>
    if isUnsignedInteger ty then translateUnsignedDivRem dest op1 op2 ty false else plain
  | .rem =>
    if isUnsignedInteger ty then translateUnsignedDivRem dest op1 op2 ty true else plain
where
  isUnsignedInteger : Ty → Bool
    | .int kind => !kind.signed
    | _ => false

def translateNot (dest : String) (src : Operand) : Translate Unit := do
  let ty := src.getType
  loadOperand src
  match ty with
  | .boolean =>
    push (.iconst .one)
    push (.bitwise .xor .int)
  | .int .i64 | .int .u64 =>
    pushPooled (do return .ldc2W (← addLong (-1)))
    push (.bitwise .xor .long)
  | ty =>
    push (.iconst .m1)
    push (.bitwise .xor .int)
    normalizeIntegerResult ty
  storeResult dest ty

def translateNeg (dest : String) (src : Operand) : Translate Unit := do
  let ty := src.getType
  loadOperand src
  push (.negate (numericKind ty))
  normalizeIntegerResult ty
  storeResult dest ty

end RustcCodegenJvm.Lower2
