import RustcCodegenJvm.Lower2.MethodTranslator
import RustcCodegenJvm.Lower2.WideFoldAgreement
import RustcCodegenJvm.Oomir.Function

/-!
# Translating a function

`FunctionTranslator::new`, the dispatch of `translate_instruction` and the loop
over the blocks of `lower2/translator.rs`, for functions without pointers and
unwind regions. The code is then resolved by `MethodTranslator.applyFixups` and
`dropFallthroughJumps`.
-/

namespace RustcCodegenJvm.Lower2

open Jvm Oomir InternedConstantPool Translate TranslateMethod

/-! ### The slots of the parameters -/

namespace LocalTable

def share (table : LocalTable) (name : String) (ty : Ty) (index : Nat) : LocalTable :=
  { table.note name ty index with
    typedLocalVarMap := ((name, ty), index) :: table.typedLocalVarMap }

end LocalTable

def parameterPrefix : String := "$oomir$"

/-- The OOMIR name of the parameter at the index: `_{index + 1}`, unless it carries its own. -/
def parameterOomirName (index : Nat) (paramName : String) : String :=
  if parameterPrefix.toList.isPrefixOf paramName.toList then
    String.ofList (paramName.toList.drop parameterPrefix.toList.length)
  else if paramName = callerLocationParamName then paramName
  else "_" ++ toString (index + 1)

/-- `String[] args` of a synthetic JVM `main`. -/
def isSyntheticJvmMainArg (functionName : String) (isStatic : Bool) (index : Nat) (ty : Ty) : Bool :=
  isStatic && functionName = "main" && index = 0 && ty = .array Ty.javaString

/-- Each parameter gets a slot of its own under `param_{index}`, and its OOMIR name shares it. -/
def assignParameters (functionName : String) (isStatic : Bool) :
    Nat → List (String × Ty) → LocalTable → LocalTable
  | _, [], table => table
  | index, (paramName, ty) :: rest, table =>
    let (slot, assigned) := table.assignLocal ("param_" ++ toString index) ty
    let named :=
      if isSyntheticJvmMainArg functionName isStatic index ty then assigned
      else assigned.share (parameterOomirName index paramName) ty slot
    assignParameters functionName isStatic (index + 1) rest named

/-- The receiver of an instance method is `_1` in slot 0. -/
def initialTable (function : Function) (isStatic : Bool) (ownerClassName : Option String) :
    LocalTable :=
  if isStatic then
    assignParameters function.name true 0 function.signature.params ⟨[], [], [], 0, 0⟩
  else
    let receiver : LocalTable :=
      match ownerClassName with
      | some className =>
        ⟨[("_1", 0)], [("_1", .class className)], [(("_1", .class className), 0)], 1, 1⟩
      | none => ⟨[], [], [], 1, 0⟩
    assignParameters function.name false 1 (function.signature.params.drop 1) receiver

def MethodTranslator.new (function : Function) (constantPool : InternedConstantPool) (isStatic : Bool)
    (ownerClassName : Option String) : MethodTranslator where
  constantPool := constantPool
  jvmInstructions := []
  locals := initialTable function isStatic ownerClassName
  functionName := function.name
  currentOomirBlockLabel := ""
  currentFallthroughBlockLabel := none
  labelToInstrIndex := []
  branchFixups := []
  switchFixups := []

/-! ### Instructions -/

section Translation

variable (parser : WideParser) (dataTypes : String → Option (List Ty))

def isPointerType : Ty → Bool
  | .pointer _ => true
  | _ => false

/-- The types a constructor is declared with, when the class is known and its number of fields
is the number of arguments. -/
def declaredArgTypes (className : String) (visibleArgs : List (Operand × Ty)) : Option (List Ty) :=
  ((dataTypes className).map (List.filter Ty.hasJvmValue)).filter
    fun fieldTypes => fieldTypes.length = visibleArgs.length

def constructorParameter (relative : Bool) (ty : Ty) : String :=
  if relative && isPointerType ty then ty.toJvmDescriptor ++ "JJ" else ty.toJvmDescriptor

def constructorDescriptor (relative : Bool) (types : List Ty) : String :=
  "(" ++ String.join (types.map (constructorParameter relative)) ++ ")V"

def loadConstructorArg (relative : Bool) (arg : Operand) (expected : Ty) : Translate Unit := do
  loadWideOperandAs parser arg expected
  if relative && isPointerType expected then pushAll [.lconst 0, .lconst 0] else pure ()

def loadConstructorArgs (relative : Bool) : List (Operand × Ty) → Translate Unit
  | [] => pure ()
  | (arg, expected) :: rest => do
    loadConstructorArg parser relative arg expected
    loadConstructorArgs relative rest

def constructorReference (className descriptor : String) : Emit (Nat × Nat) := do
  let classIndex ← addClass className
  let constructor ← addMethodRef classIndex "<init>" descriptor
  return (classIndex, constructor)

def translateConstructObject (dest className : String) (args : List (Operand × Ty)) :
    Translate Unit := do
  let visibleArgs := args.filter fun arg => arg.2.hasJvmValue
  let declared := declaredArgTypes dataTypes className visibleArgs
  let relative := (declared.getD []).any isPointerType
  let expected := declared.getD (visibleArgs.map Prod.snd)
  let reference ← pooled (constructorReference className (constructorDescriptor relative expected))
  push (.new reference.1)
  push .dup
  loadConstructorArgs parser relative ((visibleArgs.map Prod.fst).zip expected)
  push (.invoke .special reference.2)
  storeResult dest (.class className)

def returnInstruction (ty : Ty) : Jvm.Instruction :=
  match localKind ty with
  | some kind => .valueReturn kind
  | none => .voidReturn

def translateReturn (ret : Ty) (operand : Option Operand) : Translate Unit :=
  match operand with
  | some operand => do
    loadWideOperandAs parser operand ret
    push (returnInstruction ret)
  | none => push .voidReturn

def translateMove (dest : String) (src : Operand) : Translate Unit := do
  loadWideOperand parser src
  storeResult dest src.getType

def translateInstruction (ret : Ty) (instruction : Oomir.Instruction) : TranslateMethod Unit :=
  match instruction with
  | .arithmetic op dest op1 op2 => lift (Operation.emit parser dest (.arithmetic op op1 op2))
  | .bitwise op dest op1 op2 => lift (Operation.emit parser dest (.bitwise op op1 op2))
  | .comparison op dest op1 op2 => lift (Operation.emit parser dest (.comparison op op1 op2))
  | .shift op dest op1 op2 => lift (Operation.emit parser dest (.shift op op1 op2))
  | .not dest src => lift (Operation.emit parser dest (.not src))
  | .neg dest src => lift (Operation.emit parser dest (.neg src))
  | .move dest src => lift (translateMove parser dest src)
  | .jump target => translateJump target
  | .branch condition trueBlock falseBlock => translateBranch condition trueBlock falseBlock
  | .switch discr targets otherwise => translateSwitch parser discr targets otherwise
  | .label name => translateLabel name
  | .constructObject dest className args =>
    lift (translateConstructObject parser dataTypes dest className args)
  | .return operand => lift (translateReturn parser ret operand)

/-! ### Blocks -/

def instructionLimit (functionName : String) : JvmError :=
  .verificationError (functionContext functionName)
    "Function exceeds the JVM's 65,535-instruction limit"

/-- Instructions of a block, each followed by the check of the method's length. -/
def translateInstructions (ret : Ty) : List Oomir.Instruction → TranslateMethod Unit
  | [] => pure ()
  | instruction :: rest => do
    translateInstruction parser dataTypes ret instruction
    let state ← get
    if state.jvmInstructions.length > 65535 then throw (instructionLimit state.functionName)
    else translateInstructions ret rest

/-- The entry block first, then depth first along the successors. Each round takes one block off
the stack, and a block is expanded once. -/
def layoutBlocks (blocks : List (String × BasicBlock)) :
    (fuel : Nat) → (stack visited : List String) → List String
  | 0, _, visited => visited.reverse
  | _, [], visited => visited.reverse
  | fuel + 1, label :: stack, visited =>
    if label ∈ visited then layoutBlocks blocks fuel stack visited
    else
      let successors := (blocks.lookup label).elim [] layoutSuccessors
      layoutBlocks blocks fuel
        (successors.filter (fun successor => successor ∉ label :: visited) ++ stack) (label :: visited)

def layoutBlockOrder (body : CodeBlock) : List String :=
  let rounds := 1 + (body.basicBlocks.map fun block => (layoutSuccessors block.2).length).sum
  layoutBlocks body.basicBlocks rounds [body.entry] []

def translateBlock (ret : Ty) (isOnly : Bool) (block : BasicBlock) (fallthrough : Option String) :
    TranslateMethod Unit := do
  modify fun state => { state with
    currentOomirBlockLabel := block.label, currentFallthroughBlockLabel := fallthrough }
  let state ← get
  if state.jvmInstructions.length > 65535 then throw (instructionLimit state.functionName)
  else
    modify fun state => { state with
      labelToInstrIndex := (block.label, state.jvmInstructions.length) :: state.labelToInstrIndex }
    translateInstructions parser dataTypes ret block.instructions
    if block.instructions.isEmpty && !isOnly then
      throw (.verificationError (functionContext state.functionName)
        ("Non-terminal empty basic block '" ++ block.label ++ "' found"))
    else pure ()

def translateBlocks (function : Function) : List String → TranslateMethod Unit
  | [] => pure ()
  | label :: rest =>
    match function.body.basicBlocks.lookup label with
    | some block => do
      translateBlock parser dataTypes function.signature.ret (function.body.basicBlocks.length = 1)
        block rest.head?
      translateBlocks function rest
    | none => throw (.verificationError (functionContext function.name)
        ("Basic block label not found: " ++ label))

/-- The blocks in their layout order; what is left are the fixups. -/
def translateFunction (function : Function) : TranslateMethod Unit := do
  translateBlocks parser dataTypes function (layoutBlockOrder function.body)
  modify fun state => { state with currentFallthroughBlockLabel := none }

end Translation

end RustcCodegenJvm.Lower2
