import RustcCodegenJvm.Lower2.WideOps
import RustcCodegenJvm.Library.Patching

/-!
# Jumps, branches and switches of a method

The part of `lower2/translator.rs` that transfers control. A jump is emitted with
a placeholder and a fixup that names its label; when every block is translated
the labels are known and the fixups are applied. A switch on a small type with
three or more cases is a JVM switch, every other switch a chain of comparisons.
-/

namespace RustcCodegenJvm.Lower2

open Jvm Oomir Library Translate

inductive SwitchFixupKind
  | table (targetLabels : List String)
  | lookup (targetLabels : List (Int × String))

structure SwitchFixup where
  instructionIndex : Nat
  defaultLabel : String
  kind : SwitchFixupKind

structure MethodTranslator extends Translator where
  functionName : String
  currentOomirBlockLabel : String
  currentFallthroughBlockLabel : Option String
  labelToInstrIndex : List (String × Nat)
  branchFixups : List (Nat × String)
  switchFixups : List SwitchFixup

abbrev TranslateMethod := StateT MethodTranslator (Except JvmError)

namespace TranslateMethod

def lift {Result : Type} (action : Translate Result) : TranslateMethod Result := fun state =>
  match action.run state.toTranslator with
  | .ok (result, later) => .ok (result, { state with toTranslator := later })
  | .error error => .error error

def pushBranch (instruction : Jvm.Instruction) (label : String) : TranslateMethod Unit :=
  modify fun state => { state with
    jvmInstructions := state.jvmInstructions ++ [instruction]
    branchFixups := state.branchFixups ++ [(state.jvmInstructions.length, label)] }

def pushSwitch (instruction : Jvm.Instruction) (defaultLabel : String) (kind : SwitchFixupKind) :
    TranslateMethod Unit :=
  modify fun state => { state with
    jvmInstructions := state.jvmInstructions ++ [instruction]
    switchFixups := state.switchFixups ++ [⟨state.jvmInstructions.length, defaultLabel, kind⟩] }

end TranslateMethod

open TranslateMethod

def functionContext (functionName : String) : String := "Function " ++ functionName

/-! ### Jumps and labels -/

def translateJump (target : String) : TranslateMethod Unit := do
  if (← get).currentFallthroughBlockLabel = some target then pure ()
  else pushBranch (.goto 0) target

def translateBranch (condition : Operand) (trueBlock falseBlock : String) : TranslateMethod Unit := do
  lift (loadOperand condition)
  let fallthrough := (← get).currentFallthroughBlockLabel
  if fallthrough = some falseBlock then pushBranch (.branch .ifne 0) trueBlock
  else if fallthrough = some trueBlock then pushBranch (.branch .ifeq 0) falseBlock
  else do
    pushBranch (.branch .ifne 0) trueBlock
    pushBranch (.goto 0) falseBlock

/-- A label stands for the instruction emitted next. -/
def translateLabel (name : String) : TranslateMethod Unit := do
  let index := (← get).jvmInstructions.length
  if index ≤ 65535 then
    modify fun state => { state with labelToInstrIndex := (name, index) :: state.labelToInstrIndex }
  else throw (.verificationError "Function too large" "Instruction index exceeds u16::MAX")

/-! ### Switches -/

def isJvmSwitchType : Ty → Bool
  | .int kind => kind.width ≤ 32
  | .boolean | .char => true
  | _ => false

/-- The `i32` of a case constant: a `u8` is read as a signed byte, a `u32` as an `i32`. -/
def caseKey : Constant → Option Int
  | .int .i8 bits => some bits.toInt
  | .int .u8 bits => some bits.toInt
  | .int .i16 bits => some bits.toInt
  | .int .u16 bits => some bits.toNat
  | .int .i32 bits => some bits.toInt
  | .int .u32 bits => some bits.toInt
  | .boolean value => some (if value then 1 else 0)
  | .char value => some value.toNat
  | _ => none

section Switches

variable (parser : WideParser)

def switchTypeMismatch (context : String) (discrType : Ty) (constantKey : Constant) : JvmError :=
  .verificationError context ("Type mismatch in OOMIR Switch: Discriminant type is " ++
    discrType.debug ++ ", but case key is " ++ parser.debugConstant constantKey)

/-- The key of a case of the discriminant's own type. -/
def jvmSwitchKey (discrType : Ty) (constantKey : Constant) (context : String) :
    Except JvmError Int :=
  if isJvmSwitchType discrType ∧ Ty.fromConstant constantKey = discrType then
    match caseKey constantKey with
    | some key => .ok key
    | none => .error (switchTypeMismatch parser context discrType constantKey)
  else .error (switchTypeMismatch parser context discrType constantKey)

/-- The cases in the order of their keys. -/
def collectCases (discrType : Ty) (context : String) :
    List (Int × String) → List (Constant × String) → Except JvmError (List (Int × String))
  | cases, [] => .ok cases
  | cases, (constantKey, targetLabel) :: rest => do
    let key ← jvmSwitchKey parser discrType constantKey context
    match cases.lookup key with
    | some existingTarget =>
      if existingTarget ≠ targetLabel then
        .error (.verificationError context ("Switch has duplicate key " ++ toString key ++
          " with targets " ++ existingTarget ++ " and " ++ targetLabel))
      else collectCases discrType context (SortedMap.insert key targetLabel cases) rest
    | none => collectCases discrType context (SortedMap.insert key targetLabel cases) rest

def tableLabels (low : Int) (span : Nat) (cases : List (Int × String)) (otherwise : String) :
    List String :=
  (List.range span).map fun (offset : Nat) => (cases.lookup (low + (offset : Int))).getD otherwise

/-- The JVM switch for sorted cases: a table when it is not larger than the pairs. -/
def pushIntegerSwitch (cases : List (Int × String)) (low high : Int) (otherwise : String) :
    TranslateMethod Unit :=
  let span := (high - low + 1).toNat
  if 12 + span * 4 ≤ 8 + cases.length * 8 then
    pushSwitch (.tableswitch 0 low high (List.replicate span 0)) otherwise
      (.table (tableLabels low span cases otherwise))
  else
    pushSwitch (.lookupswitch 0 (cases.map fun entry => (entry.1, 0))) otherwise (.lookup cases)

/-- Whether a JVM switch was emitted. -/
def emitIntegerSwitch (discr : Operand) (discrType : Ty) (targets : List (Constant × String))
    (otherwise : String) : TranslateMethod Bool :=
  if !isJvmSwitchType discrType || targets.length < 3 then pure false
  else do
    let state ← get
    match collectCases parser discrType (functionContext state.functionName) [] targets with
    | .error error => throw error
    | .ok cases =>
      if cases.length < 3 then pure false
      else
        match cases.head?, cases.getLast? with
        | some (low, _), some (high, _) => do
          lift (loadWideOperand parser discr)
          pushIntegerSwitch cases low high otherwise
          pure true
        | _, _ => pure false

def isValidSwitchType : Ty → Bool
  | .int _ | .boolean | .char | .f32 | .f64 => true
  | .class className => isWideClass className
  | _ => false

/-- A constant of the discriminant's type and the comparison that leaves zero for equal values. -/
def pushComparedCase (context : String) (discrType : Ty) (constantKey : Constant) : Translate Unit :=
  match discrType, constantKey with
  | .int .i64, .int .i64 bits | .int .u64, .int .i64 bits => do
    pushPooled (loadInt .i64 bits)
    push .lcmp
  | .int .i64, .int .u64 bits | .int .u64, .int .u64 bits => do
    pushPooled (loadInt .u64 bits)
    push .lcmp
  | .f32, .f32 bits => do
    pushPooled (getFloatConstInstr bits)
    push .fcmpl
  | .f64, .f64 bits => do
    pushPooled (getDoubleConstInstr bits)
    push .dcmpl
  | .class className, constantKey => do
    loadWideOperand parser (.constant constantKey)
    pushPooled (methodCall .virtual className "compareTo" ("(" ++ Ty.classDescriptor className ++ ")I"))
  | discrType, constantKey => throw (switchTypeMismatch parser context discrType constantKey)

def emitCaseCheck (discrType : Ty) (slot : Nat) (constantKey : Constant) (targetLabel : String) :
    TranslateMethod Unit := do
  lift (pushLoad discrType slot)
  let context := functionContext (← get).functionName
  if isJvmSwitchType discrType then
    match caseKey constantKey with
    | some key => do
      lift (pushPooled (getIntConstInstr (BitVec.ofInt 32 key)))
      pushBranch (.branch .ifIcmpeq 0) targetLabel
    | none => throw (switchTypeMismatch parser context discrType constantKey)
  else do
    lift (pushComparedCase parser context discrType constantKey)
    pushBranch (.branch .ifeq 0) targetLabel

def emitCaseChecks (discrType : Ty) (slot : Nat) : List (Constant × String) → TranslateMethod Unit
  | [] => pure ()
  | (constantKey, targetLabel) :: rest => do
    emitCaseCheck parser discrType slot constantKey targetLabel
    emitCaseChecks discrType slot rest

/-- The comparison chain: the discriminant is kept in a variable of its own. -/
def emitComparisonChain (discr : Operand) (targets : List (Constant × String)) (otherwise : String) :
    TranslateMethod Unit := do
  lift (loadWideOperand parser discr)
  let state ← get
  let slot ← lift (assignSlot ("_switch_discr_temp_" ++ state.functionName ++ "_" ++
    state.currentOomirBlockLabel) discr.getType)
  lift (pushStore discr.getType slot)
  emitCaseChecks parser discr.getType slot targets
  pushBranch (.goto 0) otherwise

def translateSwitch (discr : Operand) (targets : List (Constant × String)) (otherwise : String) :
    TranslateMethod Unit := do
  if isValidSwitchType discr.getType then
    if ← emitIntegerSwitch parser discr discr.getType targets otherwise then pure ()
    else emitComparisonChain parser discr targets otherwise
  else throw (.verificationError (functionContext (← get).functionName)
    ("Unsupported discriminant type " ++ discr.getType.debug ++ " for OOMIR Switch instruction"))

end Switches

/-! ### Fixups -/

def retarget (target : Nat) : Jvm.Instruction → Option Jvm.Instruction
  | .goto _ => some (.goto target)
  | .branch condition _ => some (.branch condition target)
  | _ => none

def applyBranchFixup (functionName : String) (labels : List (String × Nat)) (index : Nat)
    (label : String) (instruction : Option Jvm.Instruction) : Except JvmError Jvm.Instruction :=
  match labels.lookup label with
  | none => .error (.verificationError (functionContext functionName)
      ("Branch target label not found: " ++ label))
  | some target =>
    match instruction.bind (retarget target) with
    | some resolved => .ok resolved
    | none => .error (.verificationError (functionContext functionName)
        ("Branch fixup expected a branch instruction at index " ++ toString index))

def labelInstructionDelta (functionName : String) (labels : List (String × Nat)) (sourceIndex : Nat)
    (targetLabel : String) : Except JvmError Int :=
  match labels.lookup targetLabel with
  | none => .error (.verificationError (functionContext functionName)
      ("Switch target label not found: " ++ targetLabel))
  | some target =>
    let delta := (target : Int) - sourceIndex
    if -2 ^ 31 ≤ delta ∧ delta < 2 ^ 31 then .ok delta
    else .error (.verificationError (functionContext functionName)
      ("Switch target delta from instruction " ++ toString sourceIndex ++ " to label " ++
        targetLabel ++ " overflowed"))

def switchFixupError (functionName : String) (index : Nat) (expected : String)
    (instruction : Option Jvm.Instruction) : JvmError :=
  .verificationError (functionContext functionName)
    (match instruction with
    | some _ => "Switch fixup expected a " ++ expected ++ " instruction at index " ++ toString index
    | none => "Switch fixup index " ++ toString index ++ " is out of bounds")

def applySwitchFixup (functionName : String) (labels : List (String × Nat)) (index : Nat)
    (fixup : SwitchFixup) (instruction : Option Jvm.Instruction) : Except JvmError Jvm.Instruction := do
  let default ← labelInstructionDelta functionName labels index fixup.defaultLabel
  match fixup.kind with
  | .table targetLabels =>
    let offsets ← targetLabels.mapM (labelInstructionDelta functionName labels index)
    match instruction with
    | some (.tableswitch _ low high old) =>
      if old.length = offsets.length then .ok (.tableswitch default low high offsets)
      else .error (switchFixupError functionName index "tableswitch" instruction)
    | _ => .error (switchFixupError functionName index "tableswitch" instruction)
  | .lookup targetLabels =>
    let pairs ← targetLabels.mapM fun entry => do
      return (entry.1, ← labelInstructionDelta functionName labels index entry.2)
    match instruction with
    | some (.lookupswitch _ _) => .ok (.lookupswitch default pairs)
    | _ => .error (switchFixupError functionName index "lookupswitch" instruction)

namespace MethodTranslator

def applyFixups (method : MethodTranslator) : Except JvmError (List Jvm.Instruction) := do
  let branched ← Patching.patchAll (applyBranchFixup method.functionName method.labelToInstrIndex)
    method.jvmInstructions method.branchFixups
  Patching.patchAll (applySwitchFixup method.functionName method.labelToInstrIndex) branched
    (method.switchFixups.map fun fixup => (fixup.instructionIndex, fixup))

end MethodTranslator

def dropFallthroughJumps (instructions : List Jvm.Instruction) : List Jvm.Instruction :=
  instructions.mapIdx fun index instruction =>
    if instruction = .goto (index + 1) then .nop else instruction

end RustcCodegenJvm.Lower2
