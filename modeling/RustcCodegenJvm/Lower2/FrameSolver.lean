import RustcCodegenJvm.Library.Worklist
import RustcCodegenJvm.Lower2.FrameTransfer

/-!
# The frame analysis

`solve_frame_states` of `lower2/stackmaps.rs`: a worklist over blocks that merges
the frame of every edge into the frame recorded at its target. An instruction
with handlers merges the frame before it into each of them, with the exception
as the only value on the stack.
-/

namespace RustcCodegenJvm.Lower2

open Jvm Library FrameState

/-! ### Merging -/

/-- The class a nested class belongs to: what stands before the last `$`. -/
def nestedParentClass (className : String) : Option String :=
  if className.toList.head? = some '[' then none
  else
    match className.toList.reverse.dropWhile (· ≠ '$') with
    | [] => none
    | _ :: parent => if parent = [] then none else some (String.ofList parent.reverse)

def commonObjectClass (left right : String) : String :=
  if left = right then left
  else if left = objectClass ∨ right = objectClass then objectClass
  else if nestedParentClass left = some right then right
  else if nestedParentClass right = some left then left
  else
    match nestedParentClass left, nestedParentClass right with
    | some leftParent, some rightParent =>
      if leftParent = rightParent then leftParent else objectClass
    | _, _ => objectClass

def mergeValue (left right : FrameValue) : FrameValue :=
  if left = right then left
  else
    match left, right with
    | .null, .object className | .object className, .null => .object className
    | .object leftClass, .object rightClass => .object (commonObjectClass leftClass rightClass)
    | _, _ => .top

def mergeLocals (existing incoming : List FrameValue) : List FrameValue :=
  (List.range (max existing.length incoming.length)).map fun index =>
    mergeValue (localAt existing index) (localAt incoming index)

def resizeLocals (locals : List FrameValue) (length : Nat) : List FrameValue :=
  locals ++ List.replicate (length - locals.length) .top

def mergeStack (existing incoming : List FrameValue) : List FrameValue :=
  List.zipWith mergeValue existing incoming

/-- The merged frame, and whether it differs from the existing one. A stack of another
length always counts as a change. -/
def mergeState (existing incoming : FrameState) : FrameState × Bool :=
  let locals := mergeLocals existing.locals incoming.locals
  let stack := mergeStack existing.stack incoming.stack
  (⟨locals, stack⟩,
    locals ≠ resizeLocals existing.locals (max existing.locals.length incoming.locals.length) ||
      existing.stack.length ≠ incoming.stack.length || stack ≠ existing.stack)

/-! ### Blocks -/

structure FrameProblem where
  library : ClassFileLibrary
  instructions : List Instruction
  initialLocals : List FrameValue
  localHints : List FrameValue
  maxLocals : Nat
  constantPool : ConstantPool
  context : String
  exceptionTable : List ExceptionTableEntry

namespace FrameProblem

variable (problem : FrameProblem)

def starts : List Nat := blockStarts problem.instructions problem.exceptionTable

def ends : List Nat := blockEnds problem.instructions problem.exceptionTable

/-- `block_by_instruction`: the last block that starts at or before the instruction. -/
def blockByInstruction (index : Nat) : Nat := (problem.starts.filter (· ≤ index)).length - 1

def failure (message : String) : JvmError := .verificationError problem.context message

def mergeBlockEntry (target : Nat) (incoming : FrameState) (work : Worklist FrameState) :
    Except JvmError (Worklist FrameState) :=
  if problem.instructions.length ≤ target then .ok work
  else if problem.starts[problem.blockByInstruction target]? ≠ some target then
    .error (problem.failure
      ("Control flow targets the middle of bytecode block at " ++ toString target))
  else .ok (work.contribute mergeState (problem.blockByInstruction target) incoming)

/-- The frame a handler is entered with. -/
def handlerState (locals : List FrameValue) : FrameState where
  locals := locals
  stack := [.object "java/lang/Throwable"]

/-- Merges the frame before an instruction into its handlers, unless the block already
merged the same locals there. -/
def mergeHandlers (locals : List FrameValue) :
    List Nat → List (Nat × List FrameValue) → Worklist FrameState →
      Except JvmError (List (Nat × List FrameValue) × Worklist FrameState)
  | [], lastHandlerLocals, work => .ok (lastHandlerLocals, work)
  | target :: rest, lastHandlerLocals, work =>
    if lastHandlerLocals.lookup target = some locals ∨ problem.instructions.length ≤ target then
      mergeHandlers locals rest lastHandlerLocals work
    else do
      let work ← problem.mergeBlockEntry target (handlerState locals) work
      mergeHandlers locals rest ((target, locals) :: lastHandlerLocals) work

def describeInstruction (instruction : Instruction) : String :=
  let described := problem.library.debugInstruction instruction
  match method with
  | some member => described ++ " => " ++ member.owner ++ "." ++ member.name ++ member.descriptor
  | none => described
where
  method : Option ConstantPool.Member :=
    match instruction with
    | .invoke .static index => (staticMethodRefInfo problem.constantPool index).toOption
    | .invoke _ index => (methodRefInfo problem.constantPool index false).toOption
    | .invokeinterface index _ => (methodRefInfo problem.constantPool index true).toOption
    | _ => none

def instructionWindow (center : Nat) : String :=
  let first := center - 8
  let last := min (center + 4) (problem.instructions.length - 1)
  "\n".intercalate ((List.range' first (last + 1 - first)).map fun index =>
    (if index = center then ">" else " ") ++ " " ++ toString index ++ ": " ++
      ((problem.instructions[index]?).map problem.describeInstruction).getD "")

def transferAt (index : Nat) (instruction : Instruction) (state : FrameState) :
    Except JvmError (List (Nat × FrameState)) :=
  match transferInstruction problem.library problem.context index problem.constantPool
      problem.localHints instruction state with
  | .ok successors => .ok successors
  | .error error => .error (problem.failure
      ("Stack-map transfer failed at instruction " ++ toString index ++ " (" ++
        problem.describeInstruction instruction ++ "): " ++ problem.library.debugError error ++
        "\nInstruction window:\n" ++ problem.instructionWindow index))

/-- The frame of the next instruction of the same block, which must be the only successor. -/
def continueBlock (index : Nat) (successors : List (Nat × FrameState)) :
    Except JvmError FrameState :=
  match successors.find? fun successor => successor.1 = index + 1 with
  | none => .error (problem.failure
      ("Bytecode block ended unexpectedly after instruction " ++ toString index))
  | some successor =>
    if 1 < successors.length then .error (problem.failure
      ("Bytecode block contains an internal branch at instruction " ++ toString index))
    else .ok successor.2

def mergeSuccessors : List (Nat × FrameState) → Worklist FrameState →
    Except JvmError (Worklist FrameState)
  | [], work => .ok work
  | (target, state) :: rest, work =>
    if problem.instructions.length ≤ target then mergeSuccessors rest work
    else do mergeSuccessors rest (← problem.mergeBlockEntry target state work)

/-- One pass over the rest of a block, `remaining` instructions from `index` on. -/
def runBlock (index : Nat) : (remaining : Nat) → FrameState → List (Nat × List FrameValue) →
    Worklist FrameState → Except JvmError (Worklist FrameState)
  | 0, _, _, work => .ok work
  | remaining + 1, state, lastHandlerLocals, work =>
    match problem.instructions[index]? with
    | none => .ok work
    | some instruction => do
      let (lastHandlerLocals, work) ← problem.mergeHandlers state.locals
        (handlersOf problem.exceptionTable index) lastHandlerLocals work
      let successors ← problem.transferAt index instruction state
      if remaining = 0 then problem.mergeSuccessors successors work
      else
        let next ← problem.continueBlock index successors
        runBlock (index + 1) remaining next lastHandlerLocals work

def processBlock (block : Nat) (state : FrameState) (work : Worklist FrameState) :
    Except JvmError (Worklist FrameState) :=
  match problem.starts[block]?, problem.ends[block]? with
  | some start, some finish => problem.runBlock start (finish - start) state [] work
  | _, _ => .ok work

def initialWork : Worklist FrameState :=
  .start problem.starts.length (FrameState.new problem.initialLocals problem.maxLocals)

/-- `solve_frame_states`; the loop need not end, so it gets fuel. -/
def solveFrameStates (fuel : Nat) : Option (Except JvmError FrameAnalysis) :=
  if problem.instructions = [] then some (.ok ⟨[], []⟩)
  else (Worklist.run problem.processBlock fuel problem.initialWork).map fun result =>
    result.map fun work => ⟨problem.starts, work.entries⟩

end FrameProblem

end RustcCodegenJvm.Lower2
