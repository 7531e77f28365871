import RustcCodegenJvm.Library.FiniteMap
import RustcCodegenJvm.Library.ForwardFlow
import RustcCodegenJvm.Oomir.ConstantEquality
import RustcCodegenJvm.Optimise1.Reachability

/-!
# Constant propagation

`optimise1/dataflow.rs`: which variables hold which constants at the start of
each block, and how a block is rewritten with them. The maps from names and
labels have no order in the source; here their entries stand in the order of the
names, and the sets of neighbours of a block in any order.
-/

namespace RustcCodegenJvm.Optimise1

open Library
open Oomir hiding Instruction BasicBlock CodeBlock Function
open Program (Instruction BasicBlock CodeBlock Function)

abbrev ConstantMap := FiniteMap String Constant

/-- `==` of maps: as many entries, and those of the left in the right. -/
def ConstantMap.same (left right : ConstantMap) : Bool :=
  left.size == right.size &&
    left.entries.all fun entry => (right.get entry.1).any fun other => entry.2.same other

/-- A variable is constant after a join if it is equal on both ways. -/
def meetConstants (first second : ConstantMap) : ConstantMap :=
  first.retain fun name constant => (second.get name).any fun other => constant.same other

/-! ### One instruction -/

/-- What folding takes from outside the repository. -/
structure FoldLibrary extends Numerics where
  roundSingle : BitVec 32 → BitVec 64
  roundDouble : BitVec 64 → BitVec 64

def lookupConst (operand : Operand) (state : ConstantMap) : Option Constant :=
  (match operand with
    | .constant constant => some constant
    | .variable name ty => (state.get name).filter fun constant => Ty.fromConstant constant = ty).filter
      Constant.isPropagatable

/-- The operand, or the constant it is known to be. -/
def propagated (state : ConstantMap) (operand : Operand) : Operand :=
  (lookupConst operand state).elim operand .constant

def isZero : Operand → Bool
  | .constant constant => constant.isZero
  | .variable _ _ => false

def isOne : Operand → Bool
  | .constant constant => constant.isOne
  | .variable _ _ => false

/-- The destination takes the constant, or is no longer constant. -/
def assignConstant (state : ConstantMap) (dest : String) : Option Constant → ConstantMap
  | some constant => state.insert dest constant
  | none => state.remove dest

/-- The destination of an instruction that became a move. A variable is looked up in the
state at the start of the block. -/
def updateStateBasedOnOperand (state : ConstantMap) (dest : String) (src : Operand)
    (initial : ConstantMap) : ConstantMap :=
  match src with
  | .constant constant => assignConstant state dest (if constant.isPropagatable then some constant else none)
  | .variable name _ => assignConstant state dest (initial.get name)

/-- What becomes of an instruction: it is kept in some form, with others before it, or its
constant result takes its place. -/
inductive Rewriting
  | keep (before : List Instruction) (instruction : Instruction)
  | folded

section Instructions

variable (library : FoldLibrary) (initial state : ConstantMap)

/-- The algebraic identities; `none` when no one applies. -/
def simplifyArithmetic (op : ArithmeticOp) (dest : String) (op1 op2 : Operand) :
    Option (ConstantMap × Instruction) :=
  let becomes (operand : Operand) : ConstantMap × Instruction :=
    (updateStateBasedOnOperand state dest operand initial, .move dest operand)
  let constant (result : Constant) : ConstantMap × Instruction :=
    (state.insert dest result, .move dest (.constant result))
  match op with
  | .add => if isZero op2 then some (becomes op1) else if isZero op1 then some (becomes op2) else none
  | .sub =>
    if isZero op2 then some (becomes op1)
    else if op1.same op2 then (Constant.zeroForOperand op1).map constant
    else if isZero op1 then
      some (match (lookupConst op2 state).bind (negConstant library.toNumerics) with
        | some negated => constant negated
        | none => (state.remove dest, .scalar (.neg dest op2)))
    else none
  | .mul =>
    if isZero op1 || isZero op2 then (Constant.zeroForOperand op1).map constant
    else if isOne op2 then some (becomes op1)
    else if isOne op1 then some (becomes op2)
    else none
  | .div =>
    if isZero op2 then none
    else if isZero op1 then (Constant.zeroForOperand op1).map constant
    else if isOne op2 then some (becomes op1)
    else if op1.same op2 then (Constant.oneForOperand op1).map constant
    else none
  | .rem => none

/-- The destination takes a folded result; without one the instruction is kept. -/
def foldInto (dest : String) (result : Option Constant) (instruction : Instruction) :
    ConstantMap × Rewriting :=
  match result with
  | some constant => (state.insert dest constant, .folded)
  | none => (state.remove dest, .keep [] instruction)

/-- The fold of two operands, when both are constant. -/
def foldOperands (fold : Constant → Constant → Option Constant) (op1 op2 : Operand) : Option Constant := do
  fold (← lookupConst op1 state) (← lookupConst op2 state)

def processArithmetic (op : ArithmeticOp) (dest : String) (op1 op2 : Operand) : ConstantMap × Rewriting :=
  match simplifyArithmetic library initial state op dest (propagated state op1) (propagated state op2) with
  | some (simplified, instruction) => (simplified, .keep [] instruction)
  | none =>
    foldInto state dest (foldOperands state (arithmeticConstants library.toNumerics op) op1 op2)
      (.scalar (.arithmetic op dest (propagated state op1) (propagated state op2)))

/-- The constants a call cannot change through a reference. -/
def isImmutable : Constant → Bool
  | .int kind _ => kind.signed
  | .f32 _ | .f64 _ | .boolean _ | .char _ | .string _ => true
  | _ => false

def mayMutateIndirectly : Ty → Bool
  | .array _ | .class _ => true
  | _ => false

def mayMutateReferencedState : Ty → Bool
  | .array _ | .slice _ | .mutableReference _ | .class _ | .interface _ => true
  | _ => false

/-- A call assigns its destination, and drops mutable constants if an argument may be changed. -/
def afterCall (mayMutate : Ty → Bool) (dest : Option String) (args : List Operand) : ConstantMap :=
  let assigned := dest.elim state state.remove
  if (args.map (propagated state)).any fun arg => mayMutate arg.getType then
    assigned.retain fun _ constant => isImmutable constant
  else assigned

/-- A store into a variable: a constant is materialised before it and then no longer known. -/
def beforeStore (object : String) : ConstantMap × List Instruction :=
  match state.get object with
  | some constant => (state.remove object, [.move object (.constant constant)])
  | none => (state, [])

def extractNumber : Constant → Option Int
  | .int kind bits =>
    if kind.value bits < 2 ^ 63 then some (kind.value bits) else none
  | .boolean value => some (if value then 1 else 0)
  | .char value => some value.toNat
  | .f32 bits => some (library.roundSingle bits).toInt
  | .f64 bits => some (library.roundDouble bits).toInt
  | _ => none

def isScalarElement : Constant → Bool
  | .unit | .int _ _ | .f16 _ | .f32 _ | .f64 _ | .boolean _ | .char _ => true
  | _ => false

/-- The element of a constant array, if it is a scalar. -/
def elementConstant (elements : List Constant) (index : Constant) : Option Constant := do
  let position ← extractNumber library index
  guard (0 ≤ position)
  let element ← elements[position.toNat]?
  guard (isScalarElement element)
  return element

def lengthConstant : Constant → Option Constant
  | .array _ elements =>
    some (.int .i32 (if elements.length < 2 ^ 31 then BitVec.ofNat 32 elements.length
      else BitVec.ofNat 32 (2 ^ 31 - 1)))
  | _ => none

def getFieldConstant (object : Constant) (fieldName : String) : Option Constant :=
  match object with
  | .instance _ fields _ _ => fields.lookup fieldName
  | _ => none

/-- A field of a constant object, if it has the type the field is declared with. -/
def typedField (object : Constant) (fieldName : String) (fieldTy : Ty) : Option Constant :=
  (getFieldConstant object fieldName).filter fun constant => Ty.fromConstant constant = fieldTy

def processScalar (instruction : Oomir.Instruction) (transform : Bool) : ConstantMap × Rewriting :=
  let operand := propagated state
  match instruction with
  | .arithmetic op dest op1 op2 => processArithmetic library initial state op dest op1 op2
  | .bitwise op dest op1 op2 =>
    foldInto state dest (foldOperands state (bitwiseConstants library.toNumerics op) op1 op2)
      (.scalar (.bitwise op dest (operand op1) (operand op2)))
  | .shift op dest op1 op2 =>
    foldInto state dest (foldOperands state (shiftConstants library.toNumerics op) op1 op2)
      (.scalar (.shift op dest (operand op1) (operand op2)))
  | .comparison op dest op1 op2 =>
    foldInto state dest
      (foldOperands state (fun left right =>
        (comparisonConstants library.toNumerics op left right).map .boolean) op1 op2)
      (.scalar (.comparison op dest (operand op1) (operand op2)))
  | .not dest src =>
    foldInto state dest ((lookupConst src state).bind (notConstant library.toNumerics))
      (.scalar (.not dest (operand src)))
  | .neg dest src =>
    foldInto state dest ((lookupConst src state).bind (negConstant library.toNumerics))
      (.scalar (.neg dest (operand src)))
  | .move dest src => (assignConstant state dest (lookupConst src state), .keep [] (.move dest (operand src)))
  | .branch condition trueBlock falseBlock =>
    (state, .keep []
      (match transform, lookupConst condition state with
        | true, some (.boolean true) => .jump trueBlock
        | true, some (.boolean false) => .jump falseBlock
        | _, _ => .scalar (.branch (operand condition) trueBlock falseBlock)))
  | .switch discr targets otherwise =>
    (state, .keep []
      (match transform, lookupConst discr state with
        | true, some value => .jump ((switchConstants library.toNumerics value targets).getD otherwise)
        | _, _ => .scalar (.switch (operand discr) targets otherwise)))
  | .constructObject dest className args =>
    (state.remove dest,
      .keep [] (.scalar (.constructObject dest className (args.map fun arg => (operand arg.1, arg.2)))))
  | .return value => (state, .keep [] (.return (value.map operand)))
  | .jump target => (state, .keep [] (.jump target))
  | .label name => (state, .keep [] (.scalar (.label name)))

/-- Loading from a constant that is not an array is an error of the compiler. -/
def processArrayGet (dest : String) (array index : Operand) : Option (ConstantMap × Rewriting) :=
  let kept : Instruction := .arrayGet dest array (propagated state index)
  match lookupConst array state, lookupConst index state with
  | some (.array _ elements), some position =>
    some (foldInto state dest (elementConstant library elements position) kept)
  | some _, some _ => none
  | _, _ => some (state.remove dest, .keep [] kept)

/-- One turn of the loop of `process_block_instructions`: the state after the instruction
and what becomes of it. `none` is a panic. -/
def processInstruction (transform : Bool) (instruction : Instruction) : Option (ConstantMap × Rewriting) :=
  let operand := propagated state
  match instruction with
  | .scalar scalar => some (processScalar library initial state scalar transform)
  | .callIndirect dest functionPtr args signature =>
    some (afterCall state mayMutateIndirectly dest args,
      .keep [] (.callIndirect dest (operand functionPtr) (args.map operand) signature))
  | .arrayStore array index value copyValue =>
    let (removed, before) := beforeStore state array
    some (removed, .keep before (.arrayStore array (operand index) (operand value) copyValue))
  | .arrayFill array value copyValue =>
    let (removed, before) := beforeStore state array
    some (removed, .keep before (.arrayFill array (operand value) copyValue))
  | .setField object fieldName value fieldTy ownerClass =>
    let (removed, before) := beforeStore state object
    some (removed, .keep before (.setField object fieldName (operand value) fieldTy ownerClass))
  | .getField dest object fieldName fieldTy ownerClass =>
    some (foldInto state dest
      ((lookupConst object state).bind fun constant => typedField constant fieldName fieldTy)
      (.getField dest (operand object) fieldName fieldTy ownerClass))
  | .arrayGet dest array index => processArrayGet library state dest array index
  | .length dest array =>
    some (foldInto state dest ((lookupConst array state).bind lengthConstant)
      (.length dest (operand array)))
  | .newArray dest elementType size =>
    some (state.remove dest, .keep [] (.newArray dest elementType (operand size)))
  -- the two virtual calls leave what is known of their destination
  | .invokeVirtual dest className methodName methodTy args receiver =>
    some (state, .keep [] (.invokeVirtual dest className methodName methodTy (args.map operand)
      (operand receiver)))
  | .invokeInterface className methodName methodTy args dest receiver =>
    some (state, .keep [] (.invokeInterface className methodName methodTy (args.map operand) dest
      (operand receiver)))
  | .invokeStatic dest className methodName methodTy args =>
    some (afterCall state mayMutateReferencedState dest args,
      .keep [] (.invokeStatic dest className methodName methodTy (args.map operand)))
  | .invokeRustStatic dest className methodName methodTy args =>
    some (afterCall state mayMutateReferencedState dest args,
      .keep [] (.invokeRustStatic dest className methodName methodTy (args.map operand)))
  | .cast op ty dest =>
    some (foldInto state dest
      ((lookupConst op state).bind fun constant => castConstant library.toNumerics constant ty)
      (.cast (operand op) ty dest))
  | .createFunctionPointer dest interfaceName signature targetClassName targetMethodName =>
    some (state.remove dest,
      .keep [] (.createFunctionPointer dest interfaceName signature targetClassName targetMethodName))
  | .sourceLocation _ | .localVariableScope _ | .unwindStart _ | .unwindEnd | .rethrow
  | .throwNewWithMessage _ _ => some (state, .keep [] instruction)

end Instructions

/-! ### One block -/

def emitted (instruction : Instruction) (state : ConstantMap) : Rewriting → List Instruction
  | .keep before kept => before ++ [kept]
  | .folded =>
    match instruction.dest.bind fun dest => (state.get dest).map fun value => (dest, value) with
    | some (dest, value) => [.move dest (.constant value)]
    | none => []

section Blocks

variable (library : FoldLibrary)

def processFrom (initial : ConstantMap) (transform : Bool) :
    ConstantMap → List Instruction → Option (ConstantMap × List Instruction)
  | state, [] => some (state, [])
  | state, instruction :: rest => do
    let (next, rewriting) ← processInstruction library initial state transform instruction
    let (final, later) ← processFrom initial transform next rest
    return (final, if transform then emitted instruction next rewriting ++ later else later)

def processBlockInstructions (instructions : List Instruction) (initial : ConstantMap) (transform : Bool) :
    Option (ConstantMap × List Instruction) :=
  processFrom library initial transform initial instructions

def calculateBlockOutputState (instructions : List Instruction) (inState : ConstantMap) : Option ConstantMap :=
  (processBlockInstructions library instructions inState false).map Prod.fst

end Blocks

/-! ### The control-flow graph -/

structure BasicBlockInfo where
  originalBlock : BasicBlock
  predecessors : List String
  successors : List String

section Neighbours

variable (blocks : List (String × BasicBlockInfo)) (label : String)

def successorsOf : List String := (blocks.lookup label).elim [] BasicBlockInfo.successors

def predecessorsOf : List String := (blocks.lookup label).elim [] BasicBlockInfo.predecessors

end Neighbours

/-- Blocks with their neighbours; every edge is known at both ends. -/
structure Cfg where
  blocks : List (String × BasicBlockInfo)
  edges : ∀ label successor,
    successor ∈ successorsOf blocks label ↔ label ∈ predecessorsOf blocks successor

namespace Cfg

def labels (cfg : Cfg) : List String := cfg.blocks.map Prod.fst

def instructionsOf (cfg : Cfg) (label : String) : Option (List Instruction) :=
  (cfg.blocks.lookup label).map fun info => info.originalBlock.instructions

end Cfg

section Build

variable (code : CodeBlock)

def validSuccessors (label : String) : List String :=
  (code.instructionsOf label).elim [] fun instructions =>
    (getBlockSuccessors instructions).filter fun successor => (code.basicBlocks.lookup successor).isSome

def blockInfo (label : String) (block : BasicBlock) : BasicBlockInfo where
  originalBlock := block
  predecessors := (code.basicBlocks.map Prod.fst).filter fun other => label ∈ validSuccessors code other
  successors := validSuccessors code label

theorem lookup_block_info (label : String) :
    (code.basicBlocks.map fun block => (block.1, blockInfo code block.1 block.2)).lookup label =
      (code.basicBlocks.lookup label).map (blockInfo code label) :=
  SortedMap.lookup_map_values (blockInfo code) label code.basicBlocks

theorem valid_successor {label successor : String} (member : successor ∈ validSuccessors code label) :
    (code.basicBlocks.lookup label).isSome ∧ (code.basicBlocks.lookup successor).isSome := by
  unfold validSuccessors CodeBlock.instructionsOf at member
  cases found : code.basicBlocks.lookup label with
  | none => simp [found] at member
  | some block =>
    rw [found] at member
    exact ⟨rfl, by simpa using (List.mem_filter.mp member).2⟩

def buildCfg : Cfg where
  blocks := code.basicBlocks.map fun block => (block.1, blockInfo code block.1 block.2)
  edges := by
    intro label successor
    unfold successorsOf predecessorsOf
    rw [lookup_block_info, lookup_block_info]
    constructor
    · intro member
      have isValid : successor ∈ validSuccessors code label := by
        cases found : code.basicBlocks.lookup label with
        | none => simp [found] at member
        | some block => simpa [found, blockInfo] using member
      have ⟨isBlock, isTarget⟩ := valid_successor code isValid
      obtain ⟨block, found⟩ := Option.isSome_iff_exists.mp isBlock
      obtain ⟨target, targetFound⟩ := Option.isSome_iff_exists.mp isTarget
      have isLabel := List.mem_map_of_mem (f := Prod.fst) (SortedMap.mem_of_lookup found)
      simpa [targetFound, blockInfo, isValid] using isLabel
    · intro member
      cases found : code.basicBlocks.lookup successor with
      | none => simp [found] at member
      | some target =>
        rw [found] at member
        have isValid : successor ∈ validSuccessors code label := by
          simpa using (List.mem_filter.mp member).2
        obtain ⟨block, isBlock⟩ := Option.isSome_iff_exists.mp (valid_successor code isValid).1
        simpa [isBlock, blockInfo] using isValid

end Build

/-! ### The analysis -/

section Analysis

variable (library : FoldLibrary) (entry : String) (cfg : Cfg)

def constantProblem : ForwardFlow.Problem String ConstantMap where
  entry := entry
  predecessors := predecessorsOf cfg.blocks
  successors := successorsOf cfg.blocks
  transfer label inState := (cfg.instructionsOf label).bind fun instructions =>
    calculateBlockOutputState library instructions inState
  meet := meetConstants
  same := ConstantMap.same

def nothingKnown : ForwardFlow.Progress String ConstantMap where
  input _ := none
  output _ := none
  pending := []

/-- The worklist loop, on an entry that exists. -/
def propagateConstants (fuel : Nat) : ForwardFlow.Outcome (ForwardFlow.Progress String ConstantMap) :=
  (constantProblem library entry cfg).run fuel
    (if (cfg.blocks.lookup entry).isSome then (constantProblem library entry cfg).start .empty
    else nothingKnown)

def entryStates (progress : ForwardFlow.Progress String ConstantMap) (label : String) : ConstantMap :=
  (progress.input label).getD .empty

def analyzeConstantPropagation (fuel : Nat) : ForwardFlow.Outcome (String → ConstantMap) :=
  match propagateConstants library entry cfg fuel with
  | .outOfFuel => .outOfFuel
  | .failed => .failed
  | .finished progress => .finished (entryStates progress)

end Analysis

end RustcCodegenJvm.Optimise1
