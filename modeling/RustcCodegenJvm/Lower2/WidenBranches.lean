import RustcCodegenJvm.Jvm.Relocation
import RustcCodegenJvm.Lower2.MethodBody
import RustcCodegenJvm.Lower2.MethodTranslator

/-!
# Widening branches

`widen_branches` of `lower2/translator.rs`. A conditional branch or a jump whose
target is out of the reach of 16 bits becomes a wide jump, a conditional one
behind the inverted condition. Each round widens the first such instruction, for
the inserted jump moves all code after it. The length of an instruction that
neither branches nor switches is taken from the library that encodes it.
-/

namespace RustcCodegenJvm.Lower2

open Jvm Library.StateExcept

/-! ### Byte offsets -/

abbrev EncodedLength := Instruction → Except JvmError Nat

section Offsets

variable (encoded : EncodedLength)

def switchPadding (byteOffset : Nat) : Nat := (4 - (byteOffset + 1) % 4) % 4

def instructionSizeAt (instruction : Instruction) (byteOffset : Nat) : Except JvmError Nat :=
  match instruction with
  | .branch _ _ | .goto _ | .jsr _ => .ok 3
  | .gotoW _ | .jsrW _ => .ok 5
  | .tableswitch _ _ _ offsets => .ok (1 + switchPadding byteOffset + 12 + offsets.length * 4)
  | .lookupswitch _ pairs => .ok (1 + switchPadding byteOffset + 8 + pairs.length * 8)
  | instruction => encoded instruction

def offsetsFrom (byteOffset : Nat) : List Instruction → Except JvmError (List Nat)
  | [] => .ok [byteOffset]
  | instruction :: rest => do
    let size ← instructionSizeAt encoded instruction byteOffset
    return byteOffset :: (← offsetsFrom (byteOffset + size) rest)

def instructionByteOffsets (instructions : List Instruction) : Except JvmError (List Nat) :=
  offsetsFrom encoded 0 instructions

end Offsets

def branchOffsetFitsI16 (byteOffsets : List Nat) (index target : Nat) : Bool :=
  match byteOffsets[index]?, byteOffsets[target]? with
  | some origin, some destination =>
    decide (-2 ^ 15 ≤ (destination : Int) - origin ∧ (destination : Int) - origin < 2 ^ 15)
  | _, _ => false

/-! ### Inserting an instruction -/

def afterInsert (insertAt index : Nat) : Nat := if insertAt ≤ index then index + 1 else index

section Retarget

variable (context : String) (insertAt : Nat)

/-- A `u16` index that moves must stay one. -/
def bumpChecked (bound : Nat) (overflow : JvmError) (moves : Bool) (value : Nat) : Except JvmError Nat :=
  if moves then if value < bound then .ok (value + 1) else .error overflow else .ok value

def tableOverflow : JvmError :=
  .verificationError "JVM exception-table rewrite" "exception-table instruction index overflowed u16"

/-- The end of a range that ends at the insertion stays, so the inserted instruction is outside. -/
def shiftEntry (entry : ExceptionTableEntry) : Except JvmError ExceptionTableEntry := do
  let bump := bumpChecked u16Max tableOverflow
  let rangeStart ← bump (insertAt ≤ entry.rangeStart) entry.rangeStart
  let rangeEnd ← bump (insertAt < entry.rangeEnd) entry.rangeEnd
  let handlerPc ← bump (insertAt ≤ entry.handlerPc) entry.handlerPc
  return ⟨rangeStart, rangeEnd, handlerPc, entry.catchType⟩

def shiftExceptionTableAfterInsert (entries : List ExceptionTableEntry) :
    Except JvmError (List ExceptionTableEntry) :=
  entries.mapM (shiftEntry insertAt)

def bumpU16BranchTarget (target : Nat) : Except JvmError Nat :=
  bumpChecked u16Max (.verificationError context "Branch target overflow while widening branches")
    (insertAt ≤ target) target

/-- A wide target beyond `i32` is an arithmetic overflow. -/
def bumpWideTarget (target : Int) : Except JvmError Int :=
  if (insertAt : Int) ≤ target then
    if target < i32Max then .ok (target + 1)
    else .error (.verificationError context "attempt to add with overflow")
  else .ok target

def bumpI32RelativeSwitchTarget (sourceIndex : Nat) (target : Int) : Except JvmError Int :=
  let absolute : Int := sourceIndex + target
  if absolute < 0 then
    .error (.verificationError context ("Invalid relative switch target " ++ toString target ++
      " from instruction " ++ toString sourceIndex))
  else
    let adjustedSource : Int := if insertAt ≤ sourceIndex then sourceIndex + 1 else sourceIndex
    let adjustedTarget := if (insertAt : Int) ≤ absolute then absolute + 1 else absolute
    let relative := adjustedTarget - adjustedSource
    if -i32Max - 1 ≤ relative ∧ relative ≤ i32Max then .ok relative
    else .error (.verificationError context "Switch target overflow while widening branches")

def retargetInstruction (index : Nat) : Instruction → Except JvmError Instruction
  | .branch condition target => return .branch condition (← bumpU16BranchTarget context insertAt target)
  | .goto target => return .goto (← bumpU16BranchTarget context insertAt target)
  | .gotoW target => return .gotoW (← bumpWideTarget context insertAt target)
  | .tableswitch default low high offsets => do
    let bump := bumpI32RelativeSwitchTarget context insertAt index
    return .tableswitch (← bump default) low high (← offsets.mapM bump)
  | .lookupswitch default pairs => do
    let bump := bumpI32RelativeSwitchTarget context insertAt index
    return .lookupswitch (← bump default) (← pairs.mapM fun pair => return (pair.1, ← bump pair.2))
  | instruction => return instruction

def retargetInstructions (instructions : List Instruction) : Except JvmError (List Instruction) :=
  instructions.zipIdx.mapM fun entry => retargetInstruction context insertAt entry.2 entry.1

end Retarget

/-! ### The loop -/

inductive LongJump
  | conditional (index : Nat) (condition : Condition) (target : Nat)
  | unconditional (index target : Nat)

def longJumpAt (byteOffsets : List Nat) (index : Nat) : Instruction → Option LongJump
  | .branch condition target =>
    if branchOffsetFitsI16 byteOffsets index target then none else some (.conditional index condition target)
  | .goto target =>
    if branchOffsetFitsI16 byteOffsets index target then none else some (.unconditional index target)
  | _ => none

def firstLongJump (byteOffsets : List Nat) (instructions : List Instruction) : Option LongJump :=
  instructions.zipIdx.findSome? fun entry => longJumpAt byteOffsets entry.2 entry.1

section Loop

variable {Metadata : Type} (encoded : EncodedLength) (functionName : String)

theorem retarget_instructions_length {context : String} {insertAt : Nat}
    {instructions retargeted : List Instruction}
    (ran : retargetInstructions context insertAt instructions = .ok retargeted) :
    retargeted.length = instructions.length := by
  rw [← (except_map_ok ran).length_eq, List.length_zipIdx]

def retargetAfterInsert (body : MethodBody Metadata) (insertAt : Nat) :
    Except JvmError (MethodBody Metadata) := do
  let exceptionTable ← shiftExceptionTableAfterInsert insertAt body.exceptionTable
  match ran : retargetInstructions (functionContext functionName) insertAt body.instructions with
  | .ok instructions =>
    return ⟨instructions, body.metadata, exceptionTable, by rw [retarget_instructions_length ran, body.matched]⟩
  | .error error => .error error

def widenConditional (body : MethodBody Metadata) (index : Nat) (condition : Condition) (target : Nat) :
    Except JvmError (MethodBody Metadata) := do
  let insertAt := index + 1
  let context := functionContext functionName
  let body ← retargetAfterInsert functionName body insertAt
  let adjustedTarget ← bumpChecked u16Max
    (.verificationError context "Conditional branch target overflow during widening")
    (insertAt ≤ target) target
  if index + 2 ≤ u16Max then
    let inverted := body.replace index (.branch (invertConditionalBranch condition) (index + 2))
    return inverted.insertAfter index (.gotoW adjustedTarget)
  else
    .error (.verificationError context "Conditional branch skip target overflow during widening")

def widenRound (body : MethodBody Metadata) : Except JvmError (Option (MethodBody Metadata)) := do
  let byteOffsets ← instructionByteOffsets encoded body.instructions
  match firstLongJump byteOffsets body.instructions with
  | some (.conditional index condition target) =>
    return some (← widenConditional functionName body index condition target)
  | some (.unconditional index target) => return some (body.replace index (.gotoW target))
  | none => return none

/-- The loop, for as many rounds as there is fuel. -/
def widenBranches : Nat → MethodBody Metadata → Option (Except JvmError (MethodBody Metadata))
  | 0, _ => none
  | fuel + 1, body =>
    match widenRound encoded functionName body with
    | .error error => some (.error error)
    | .ok none => some (.ok body)
    | .ok (some widened) => widenBranches fuel widened

end Loop

end RustcCodegenJvm.Lower2
