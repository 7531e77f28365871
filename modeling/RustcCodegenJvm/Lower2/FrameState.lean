import RustcCodegenJvm.Jvm.ConstantPool

/-!
# Verifier frames

`FrameValue` and `FrameState` of `lower2/stackmaps.rs`: the types the verifier
sees in the local slots and on the operand stack. Both are vectors with the top
of the stack at the end.
-/

namespace RustcCodegenJvm.Lower2

open Jvm

inductive FrameValue
  | top | integer | float | long | double | null
  | object (className : String)
  | uninitializedThis
  | uninitialized (offset : Nat)
deriving DecidableEq

namespace FrameValue

def isCategory2 : FrameValue → Bool
  | long | double => true
  | _ => false

def isReferenceLike : FrameValue → Bool
  | null | object _ | uninitializedThis | uninitialized _ => true
  | _ => false

def width (value : FrameValue) : Nat := if value.isCategory2 then 2 else 1

def debug : FrameValue → String
  | top => "Top"
  | integer => "Integer"
  | float => "Float"
  | long => "Long"
  | double => "Double"
  | null => "Null"
  | object className => "Object(" ++ className.quote ++ ")"
  | uninitializedThis => "UninitializedThis"
  | uninitialized offset => "Uninitialized(" ++ toString offset ++ ")"

end FrameValue

structure FrameState where
  locals : List FrameValue
  stack : List FrameValue
deriving DecidableEq

/-- The recorded state at the start of each block; a block that was never reached has none. -/
structure FrameAnalysis where
  blockStarts : List Nat
  entryStates : List (Option FrameState)

def FrameAnalysis.stateAt (analysis : FrameAnalysis) (instruction : Nat) : Option FrameState := do
  let block ← analysis.blockStarts.idxOf? instruction
  (analysis.entryStates[block]?).join

def normalizeClassName (className : String) : String := className.replace "." "/"

abbrev FrameStep := StateT FrameState (Except JvmError)

namespace FrameState

/-- `FrameState::new`: the initial locals cut or filled up to `max_locals`. -/
def new (initialLocals : List FrameValue) (maxLocals : Nat) : FrameState where
  locals := initialLocals.take maxLocals ++
    List.replicate (maxLocals - initialLocals.length) .top
  stack := []

def localAt (locals : List FrameValue) (index : Nat) : FrameValue := locals.getD index .top

/-- `store_local`: the slots are extended to hold the value, and a wide value that reached
into its first slot is lost. -/
def storeSlot (locals : List FrameValue) (index : Nat) (value : FrameValue) : List FrameValue :=
  let sized := locals ++ List.replicate (index + value.width - locals.length) .top
  let split :=
    if 0 < index ∧ (localAt sized (index - 1)).isCategory2 then sized.set (index - 1) .top else sized
  let stored := split.set index value
  if value.isCategory2 then stored.set (index + 1) .top else stored

def push (value : FrameValue) : FrameStep Unit :=
  modify fun state => { state with stack := state.stack ++ [value] }

def storeLocal (index : Nat) (value : FrameValue) : FrameStep Unit :=
  modify fun state => { state with locals := storeSlot state.locals index value }

def initializeObject (uninitialized : FrameValue) (className : String) : FrameStep Unit :=
  modify fun state =>
    { locals := state.locals.map initialized, stack := state.stack.map initialized }
where
  initialized (value : FrameValue) : FrameValue :=
    if value = uninitialized then .object (normalizeClassName className) else value

section Checked

variable (context : String) (instructionIndex : Nat)

def fail {Result : Type} (message : String) : FrameStep Result :=
  throw (.verificationError context message)

def pop : FrameStep FrameValue := fun state =>
  match state.stack.getLast? with
  | some value => .ok (value, { state with stack := state.stack.dropLast })
  | none => .error (.verificationError context
      ("Stack underflow at instruction " ++ toString instructionIndex))

def popCategory1 : FrameStep FrameValue := do
  let value ← pop context instructionIndex
  if value.isCategory2 then
    fail context ("Expected category-1 value at instruction " ++ toString instructionIndex ++
      ", found " ++ value.debug)
  else return value

def popReference : FrameStep FrameValue := do
  let value ← popCategory1 context instructionIndex
  if !value.isReferenceLike && value ≠ .top then
    fail context ("Expected reference value at instruction " ++ toString instructionIndex ++
      ", found " ++ value.debug)
  else return value

/-- The type of a slot without one: the hint of the slot, or the one of the load. -/
def guessLocal (index : Nat) (localHints : List FrameValue) (loadHint : FrameValue) : FrameValue :=
  if localAt localHints index = .top then loadHint else localAt localHints index

/-- Pushes what the slot holds; an empty slot gets the guessed type first. -/
def loadSlot (index : Nat) (guess value : FrameValue) : FrameStep Unit := do
  if value = .top then
    if guess = .top then
      fail context ("Loaded uninitialized local " ++ toString index ++ " at instruction " ++
        toString instructionIndex)
    else
      storeLocal index guess
      push guess
  else push value

def loadLocal (index : Nat) (localHints : List FrameValue) (loadHint : FrameValue) :
    FrameStep Unit := do
  let state ← get
  loadSlot context instructionIndex index (guessLocal index localHints loadHint)
    (localAt state.locals index)

end Checked

end FrameState

end RustcCodegenJvm.Lower2
