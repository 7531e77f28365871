import RustcCodegenJvm.Oomir.Function

/-!
# Whole OOMIR functions

All instructions of `oomir.rs`. `Oomir.Instruction` has the ones on scalars;
here come calls, arrays, fields, the regions in which an exception is caught,
and the instructions that only carry debug information.
-/

namespace RustcCodegenJvm.Program

open Oomir (Ty Constant Operand Signature)

structure SourceLocation where
  fileName : String
  line : Nat
deriving DecidableEq

inductive Instruction
  | scalar (instruction : Oomir.Instruction)
  | sourceLocation (location : SourceLocation)
  | localVariableScope (active : List Nat)
  | unwindStart (target : String)
  | unwindEnd
  | rethrow
  | callIndirect (dest : Option String) (functionPtr : Operand) (args : List Operand)
      (signature : Signature)
  | createFunctionPointer (dest interfaceName : String) (signature : Signature)
      (targetClassName targetMethodName : String)
  | invokeInterface (className methodName : String) (methodTy : Signature) (args : List Operand)
      (dest : Option String) (operand : Operand)
  | throwNewWithMessage (exceptionClass message : String)
  | newArray (dest : String) (elementType : Ty) (size : Operand)
  | arrayStore (array : String) (index value : Operand) (copyValue : Bool)
  | arrayFill (array : String) (value : Operand) (copyValue : Bool)
  | arrayGet (dest : String) (array index : Operand)
  | length (dest : String) (array : Operand)
  | setField (object fieldName : String) (value : Operand) (fieldTy : Ty) (ownerClass : String)
  | getField (dest : String) (object : Operand) (fieldName : String) (fieldTy : Ty)
      (ownerClass : String)
  | cast (op : Operand) (ty : Ty) (dest : String)
  | invokeVirtual (dest : Option String) (className methodName : String) (methodTy : Signature)
      (args : List Operand) (operand : Operand)
  | invokeStatic (dest : Option String) (className methodName : String) (methodTy : Signature)
      (args : List Operand)
  | invokeRustStatic (dest : Option String) (className methodName : String) (methodTy : Signature)
      (args : List Operand)

structure BasicBlock where
  label : String
  instructions : List Instruction

structure CodeBlock where
  entry : String
  basicBlocks : List (String × BasicBlock)

structure DebugVariable where
  name : String
  oomirName : String
  ty : Ty

structure Function where
  name : String
  ownerClass : Option String
  signature : Signature
  debugVariables : List DebugVariable
  body : CodeBlock

def plainFunction (name : String) (basicBlocks : List (String × BasicBlock)) : Function where
  name := name
  ownerClass := none
  signature := ⟨[], .void, true⟩
  debugVariables := []
  body := ⟨"entry", basicBlocks⟩

/-- `UNWIND_EXCEPTION_LOCAL`, where a caught exception is kept. -/
def unwindExceptionLocal : String := "__rust_unwind_exception"

namespace Instruction

@[match_pattern] abbrev move (dest : String) (src : Operand) : Instruction := scalar (.move dest src)

@[match_pattern] abbrev jump (target : String) : Instruction := scalar (.jump target)

@[match_pattern] abbrev «return» (operand : Option Operand) : Instruction := scalar (.return operand)

def dest : Instruction → Option String
  | scalar (.arithmetic _ dest _ _) | scalar (.bitwise _ dest _ _) | scalar (.comparison _ dest _ _)
  | scalar (.shift _ dest _ _) | scalar (.not dest _) | scalar (.neg dest _) | scalar (.move dest _)
  | scalar (.constructObject dest _ _) => some dest
  | newArray dest _ _ | arrayGet dest _ _ | length dest _ | createFunctionPointer dest _ _ _ _
  | getField dest _ _ _ _ | cast _ _ dest => some dest
  | callIndirect dest _ _ _ | invokeInterface _ _ _ _ dest _ | invokeVirtual dest _ _ _ _ _
  | invokeStatic dest _ _ _ _ | invokeRustStatic dest _ _ _ _ => dest
  | _ => none

/-- The operands of an instruction, in the order they are loaded. -/
def operands : Instruction → List Operand
  | scalar (.arithmetic _ _ op1 op2) | scalar (.bitwise _ _ op1 op2) | scalar (.comparison _ _ op1 op2)
  | scalar (.shift _ _ op1 op2) => [op1, op2]
  | scalar (.not _ src) | scalar (.neg _ src) | scalar (.move _ src) => [src]
  | scalar (.branch condition _ _) => [condition]
  | scalar (.switch discr _ _) => [discr]
  | scalar (.constructObject _ _ args) => args.map Prod.fst
  | scalar (.return operand) => operand.toList
  | callIndirect _ functionPtr args _ => functionPtr :: args
  | invokeInterface _ _ _ args _ operand | invokeVirtual _ _ _ _ args operand => operand :: args
  | invokeStatic _ _ _ _ args | invokeRustStatic _ _ _ _ args => args
  | newArray _ _ size => [size]
  | arrayStore _ index value _ => [index, value]
  | arrayFill _ value _ => [value]
  | arrayGet _ array index => [array, index]
  | length _ array => [array]
  | setField _ _ value _ _ => [value]
  | getField _ object _ _ _ => [object]
  | cast op _ _ => [op]
  | _ => []

/-- The array or object an instruction changes, which it names directly. -/
def object : Instruction → Option String
  | arrayStore array _ _ _ | arrayFill array _ _ => some array
  | setField object _ _ _ _ => some object
  | rethrow => some unwindExceptionLocal
  | _ => none

def reads (instruction : Instruction) : List String :=
  instruction.object.toList ++ instruction.operands.filterMap Operand.getName

def mapReads (operand : Operand → Operand) (name : String → String) : Instruction → Instruction
  | scalar (.arithmetic op dest op1 op2) => scalar (.arithmetic op dest (operand op1) (operand op2))
  | scalar (.bitwise op dest op1 op2) => scalar (.bitwise op dest (operand op1) (operand op2))
  | scalar (.comparison op dest op1 op2) => scalar (.comparison op dest (operand op1) (operand op2))
  | scalar (.shift op dest op1 op2) => scalar (.shift op dest (operand op1) (operand op2))
  | scalar (.not dest src) => scalar (.not dest (operand src))
  | scalar (.neg dest src) => scalar (.neg dest (operand src))
  | scalar (.move dest src) => scalar (.move dest (operand src))
  | scalar (.branch condition trueBlock falseBlock) =>
    scalar (.branch (operand condition) trueBlock falseBlock)
  | scalar (.switch discr targets otherwise) => scalar (.switch (operand discr) targets otherwise)
  | scalar (.constructObject dest className args) =>
    scalar (.constructObject dest className (args.map fun arg => (operand arg.1, arg.2)))
  | scalar (.return value) => scalar (.return (value.map operand))
  | scalar (.jump target) => scalar (.jump target)
  | scalar (.label labelName) => scalar (.label labelName)
  | callIndirect dest functionPtr args signature =>
    callIndirect dest (operand functionPtr) (args.map operand) signature
  | invokeInterface className methodName methodTy args dest receiver =>
    invokeInterface className methodName methodTy (args.map operand) dest (operand receiver)
  | invokeVirtual dest className methodName methodTy args receiver =>
    invokeVirtual dest className methodName methodTy (args.map operand) (operand receiver)
  | invokeStatic dest className methodName methodTy args =>
    invokeStatic dest className methodName methodTy (args.map operand)
  | invokeRustStatic dest className methodName methodTy args =>
    invokeRustStatic dest className methodName methodTy (args.map operand)
  | newArray dest elementType size => newArray dest elementType (operand size)
  | arrayStore array index value copyValue =>
    arrayStore (name array) (operand index) (operand value) copyValue
  | arrayFill array value copyValue => arrayFill (name array) (operand value) copyValue
  | arrayGet dest array index => arrayGet dest (operand array) (operand index)
  | length dest array => length dest (operand array)
  | setField object fieldName value fieldTy ownerClass =>
    setField (name object) fieldName (operand value) fieldTy ownerClass
  | getField dest object fieldName fieldTy ownerClass =>
    getField dest (operand object) fieldName fieldTy ownerClass
  | cast op ty dest => cast (operand op) ty dest
  | sourceLocation location => sourceLocation location
  | localVariableScope active => localVariableScope active
  | unwindStart target => unwindStart target
  | unwindEnd => unwindEnd
  | rethrow => rethrow
  | createFunctionPointer dest interfaceName signature targetClassName targetMethodName =>
    createFunctionPointer dest interfaceName signature targetClassName targetMethodName
  | throwNewWithMessage exceptionClass message => throwNewWithMessage exceptionClass message

section MapReads

variable {operand : Operand → Operand} {name : String → String} {instruction : Instruction}

@[simp] theorem operands_map_reads :
    (instruction.mapReads operand name).operands = instruction.operands.map operand := by
  cases instruction with
  | scalar instruction =>
    cases instruction with
    | «return» value => cases value <;> rfl
    | _ => simp [mapReads, operands]
  | _ => simp [mapReads, operands]

@[simp] theorem dest_map_reads : (instruction.mapReads operand name).dest = instruction.dest := by
  cases instruction with
  | scalar instruction => cases instruction <;> rfl
  | _ => rfl

theorem map_reads_map_reads (operand' : Operand → Operand) (name' : String → String) :
    (instruction.mapReads operand name).mapReads operand' name' =
      instruction.mapReads (operand' ∘ operand) (name' ∘ name) := by
  cases instruction with
  | scalar instruction => cases instruction <;> simp [mapReads]
  | _ => simp [mapReads]

end MapReads

end Instruction

end RustcCodegenJvm.Program
