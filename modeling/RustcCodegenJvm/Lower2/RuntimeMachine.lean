import RustcCodegenJvm.Lower2.WideOps

/-!
# A machine with the runtime classes

The results on emitted code hold for every machine whose library does what
`WideLibrary` says. This is one such machine: its world is a heap of 128-bit
objects, where an object that is not constructed yet has no content.
-/

namespace RustcCodegenJvm.Lower2

open Jvm Oomir RustcCodegenJvm.Runtime

structure Heap where
  next : Nat
  wideAt : Nat → Option WideObject
  fresh : ∀ object, next ≤ object → wideAt object = none

namespace Heap

def empty : Heap := ⟨0, fun _ => none, fun _ _ => rfl⟩

def reserve (heap : Heap) : Heap :=
  ⟨heap.next + 1, heap.wideAt, fun object above => heap.fresh object (by omega)⟩

def set (heap : Heap) (object : Nat) (content : WideObject) : Heap where
  next := max heap.next (object + 1)
  wideAt other := if other = object then some content else heap.wideAt other
  fresh other above := by
    rw [if_neg (by omega)]
    exact heap.fresh other (by omega)

def allocate (heap : Heap) (content : WideObject) (rest : List Value) : External Heap :=
  .completes (.reference (some heap.next) :: rest) (heap.set heap.next content)

theorem set_new (heap : Heap) (object : Nat) (content : WideObject) :
    (heap.set object content).wideAt object = some content := if_pos rfl

theorem set_old {heap : Heap} {object other : Nat} (content : WideObject) {found : WideObject}
    (free : heap.wideAt object = none) (isAt : heap.wideAt other = some found) :
    (heap.set object content).wideAt other = some found := by
  have apart : other ≠ object := by
    rintro rfl
    rw [free] at isAt
    cases isAt
  exact (if_neg apart).trans isAt

theorem allocate_old {heap : Heap} {other : Nat} (content : WideObject) {found : WideObject}
    (isAt : heap.wideAt other = some found) :
    (heap.set heap.next content).wideAt other = some found :=
  set_old content (heap.fresh _ le_rfl) isAt

end Heap

def binaryOfName (name : String) : Option Wide.BinaryMethod :=
  [Wide.BinaryMethod.add, .subtract, .multiply, .divide, .remainder, .and, .or, .xor].find?
    fun method => method.name = name

def unaryOfName (name : String) : Option Wide.UnaryMethod :=
  [Wide.UnaryMethod.not, .negate].find? fun method => method.name = name

def shiftOfName (name : String) : Option Oomir.ShiftOp :=
  [Oomir.ShiftOp.shl, .shr].find? fun op => Wide.shiftName op = name

/-- A method of two objects; an arithmetic failure is a new exception object. -/
def callBinary (signed : Bool) (method : Wide.BinaryMethod) (heap : Heap) :
    List Value → External Heap
  | .reference (some right) :: .reference (some left) :: rest =>
    match heap.wideAt left, heap.wideAt right with
    | some leftObject, some rightObject =>
      match method.apply signed leftObject.bits rightObject.bits with
      | .ok bits => heap.allocate ⟨signed, bits⟩ rest
      | .error _ => .throws heap.next heap.reserve
    | _, _ => .stuck
  | _ => .stuck

def callUnary (signed : Bool) (method : Wide.UnaryMethod) (heap : Heap) : List Value → External Heap
  | .reference (some operand) :: rest =>
    match heap.wideAt operand with
    | some object => heap.allocate ⟨signed, method.apply signed object.bits⟩ rest
    | none => .stuck
  | _ => .stuck

def callShift (signed : Bool) (op : Oomir.ShiftOp) (heap : Heap) : List Value → External Heap
  | .int distance :: .reference (some operand) :: rest =>
    match heap.wideAt operand with
    | some object => heap.allocate ⟨signed, Wide.shift op signed object.bits distance⟩ rest
    | none => .stuck
  | _ => .stuck

def callCompare (signed : Bool) (heap : Heap) : List Value → External Heap
  | .reference (some right) :: .reference (some left) :: rest =>
    match heap.wideAt left, heap.wideAt right with
    | some leftObject, some rightObject =>
      .completes (.int (Wide.compareTo signed leftObject.bits rightObject.bits) :: rest) heap
    | _, _ => .stuck
  | _ => .stuck

def callVirtual (signed : Bool) (name : String) (heap : Heap) (stack : List Value) : External Heap :=
  match binaryOfName name with
  | some method => callBinary signed method heap stack
  | none =>
    match unaryOfName name with
    | some method => callUnary signed method heap stack
    | none =>
      match shiftOfName name with
      | some op => callShift signed op heap stack
      | none => callCompare signed heap stack

def callConstructor (signed : Bool) (heap : Heap) : List Value → External Heap
  | .long low :: .long high :: .reference (some object) :: rest =>
    .completes rest (heap.set object ⟨signed, ⟨high, low⟩⟩)
  | _ => .stuck

/-- The static methods of `Integer` and `Long` on unsigned values. -/
def callStatic (name : String) (heap : Heap) : List Value → External Heap
  | .int right :: .int left :: rest =>
    if name = "compareUnsigned" then .completes (.int (compareUnsigned left right) :: rest) heap
    else if right = 0 then .throws heap.next heap.reserve
    else .completes (.int (if name = unsignedDivRemMethod true then left % right
      else left / right) :: rest) heap
  | .long right :: .long left :: rest =>
    if name = "compareUnsigned" then .completes (.int (compareUnsigned left right) :: rest) heap
    else if right = 0 then .throws heap.next heap.reserve
    else .completes (.long (if name = unsignedDivRemMethod true then left % right
      else left / right) :: rest) heap
  | _ => .stuck

def runtimeEnvironment (constants : ConstantPool) : Environment Heap where
  constants := constants
  catches _ _ _ := false
  perform instruction stack heap :=
    match instruction with
    | .new index =>
      match constants.classAt index with
      | some _ => .completes (.reference (some heap.next) :: stack) heap.reserve
      | none => .stuck
    | .invoke kind index =>
      match constants.memberAt index, kind with
      | some member, .static => callStatic member.name heap stack
      | some member, .special => callConstructor (member.owner = i128Class) heap stack
      | some member, .virtual => callVirtual (member.owner = i128Class) member.name heap stack
      | _, _ => .stuck
    | _ => .stuck

variable (constants : ConstantPool)

theorem is_signed_class (signed : Bool) : decide (wideClass signed = i128Class) = signed := by
  cases signed <;> decide

theorem runtime_java : JavaLibrary (runtimeEnvironment constants) where
  integerDivRem index left right rest heap isRemainder nonzero found := by
    have found : constants.memberAt index = _ := found
    have nonzero : ¬right = 0#32 := nonzero
    cases isRemainder <;> simp [runtimeEnvironment, found, callStatic, unsignedDivRemMethod, nonzero]
  longDivRem index left right rest heap isRemainder nonzero found := by
    have found : constants.memberAt index = _ := found
    have nonzero : ¬right = 0#64 := nonzero
    cases isRemainder <;> simp [runtimeEnvironment, found, callStatic, unsignedDivRemMethod, nonzero]
  integerCompare index left right rest heap found := by
    have found : constants.memberAt index = _ := found
    simp [runtimeEnvironment, found, callStatic]
  longCompare index left right rest heap found := by
    have found : constants.memberAt index = _ := found
    simp [runtimeEnvironment, found, callStatic]

def runtimeLibrary : WideLibrary (runtimeEnvironment constants) where
  java := runtime_java constants
  wideAt := Heap.wideAt
  allocate index signed stack heap found := by
    have found : constants.classAt index = _ := found
    refine ⟨heap.next, heap.reserve, ?_, heap.fresh _ le_rfl, fun _ _ isAt => isAt⟩
    simp [runtimeEnvironment, found]
  construct index signed object high low rest heap found free := by
    have found : constants.memberAt index = _ := found
    refine ⟨heap.set object ⟨signed, ⟨high, low⟩⟩, ?_, heap.set_new _ _, fun _ _ isAt =>
      Heap.set_old _ free isAt⟩
    simp [runtimeEnvironment, found, callConstructor, is_signed_class]
  binary index signed method left right leftBits rightBits result rest heap found isLeft isRight applied := by
    have found : constants.memberAt index = _ := found
    refine ⟨heap.next, heap.set heap.next ⟨signed, result⟩, ?_, heap.set_new _ _, fun _ _ isAt =>
      Heap.allocate_old _ isAt⟩
    have named : binaryOfName method.name = some method := by cases method <;> rfl
    simp [runtimeEnvironment, found, callVirtual, named, callBinary, isLeft, isRight, applied,
      is_signed_class, Heap.allocate]
  unary index signed method operand bits rest heap found isOperand := by
    have found : constants.memberAt index = _ := found
    refine ⟨heap.next, heap.set heap.next ⟨signed, method.apply signed bits⟩, ?_, heap.set_new _ _,
      fun _ _ isAt => Heap.allocate_old _ isAt⟩
    have notBinary : binaryOfName method.name = none := by cases method <;> rfl
    have named : unaryOfName method.name = some method := by cases method <;> rfl
    simp [runtimeEnvironment, found, callVirtual, notBinary, named, callUnary, isOperand,
      is_signed_class, Heap.allocate]
  shift index signed op operand bits distance rest heap found isOperand := by
    have found : constants.memberAt index = _ := found
    refine ⟨heap.next, heap.set heap.next ⟨signed, Wide.shift op signed bits distance⟩, ?_,
      heap.set_new _ _, fun _ _ isAt => Heap.allocate_old _ isAt⟩
    have notBinary : binaryOfName (Wide.shiftName op) = none := by cases op <;> rfl
    have notUnary : unaryOfName (Wide.shiftName op) = none := by cases op <;> rfl
    have named : shiftOfName (Wide.shiftName op) = some op := by cases op <;> rfl
    simp [runtimeEnvironment, found, callVirtual, notBinary, notUnary, named, callShift, isOperand,
      is_signed_class, Heap.allocate]
  compare index signed left right leftBits rightBits rest heap found isLeft isRight := by
    have found : constants.memberAt index = _ := found
    have notBinary : binaryOfName "compareTo" = none := rfl
    have notUnary : unaryOfName "compareTo" = none := rfl
    have notShift : shiftOfName "compareTo" = none := rfl
    simp [runtimeEnvironment, found, callVirtual, notBinary, notUnary, notShift, callCompare, isLeft,
      isRight, is_signed_class]

end RustcCodegenJvm.Lower2
