import RustcCodegenJvm.Lower2.Triples
import RustcCodegenJvm.Runtime.WideObject

/-!
# Operators on 128-bit integers

Values of `i128` and `u128` are objects of two runtime classes. A constant is
built from its two words, and an operator is a call of the method of its name.
What the calls do is the library's part, stated on the words of the objects.
-/

namespace RustcCodegenJvm.Lower2

open Jvm Oomir RustcCodegenJvm.Runtime InternedConstantPool Translate

/-- The decimal syntax of Rust's `i128` and `u128`, and what messages print. -/
structure WideParser where
  parse : (signed : Bool) → String → Except String (BitVec 128)
  debugConstant : Constant → String

variable (parser : WideParser)

/-- The arm of `load_constant` for a 128-bit integer: its two words and the constructor. -/
def loadWideConstant (signed : Bool) (digits : String) (constant : Constant) :
    Emit (List Jvm.Instruction) := do
  let classIndex ← addClass (wideClass signed)
  match parser.parse signed digits with
  | .error error => throw (.verificationError
      ("Attempting to load constant " ++ parser.debugConstant constant)
      ("Invalid " ++ (if signed then "i128" else "u128") ++ " constant '" ++ digits ++ "': " ++ error))
  | .ok value =>
    let constructor ← addMethodRef classIndex "<init>" "(JJ)V"
    let high ← getLongConstInstr (value.extractLsb' 64 64)
    let low ← getLongConstInstr (value.setWidth 64)
    return [.new classIndex, .dup, high, low, .invoke .special constructor]

def wideSign (className : String) : Option Bool :=
  if className = i128Class then some true
  else if className = u128Class then some false
  else none

def wideDigits : Constant → Option (Bool × String)
  | .instance className _ [.string digits] _ => (wideSign className).map fun signed => (signed, digits)
  | _ => none

/-- `load_operand` for scalars, 128-bit integers and variables. -/
def loadWideOperand (operand : Operand) : Translate Unit :=
  match operand with
  | .constant constant =>
    match wideDigits constant with
    | some (signed, digits) => do pushAll (← pooled (loadWideConstant parser signed digits constant))
    | none => loadOperand operand
  | .variable _ _ => loadOperand operand

def loadWideOperandAs (operand : Operand) (expected : Ty) : Translate Unit := do
  loadWideOperand parser operand
  if operand.getType ≠ expected ∧
      operand.getType.toJvmDescriptor ≠ expected.toJvmDescriptor then
    pushAll (← pooled (getCastInstructions operand.getType expected))

def wideTypeName : Ty → Option String
  | .class name => if isWideClass name then some name else none
  | _ => none

def translateInt128BinaryOp (dest : String) (op1 op2 : Operand) (methodName : String) :
    Translate Unit :=
  match [op1.getType, op2.getType].findSome? wideTypeName with
  | none => throw (.verificationError "translate_int128_binary_op"
      "128-bit integer operation has no i128/u128 carrier operand")
  | some className => do
    loadWideOperandAs parser op1 (.class className)
    loadWideOperandAs parser op2 (.class className)
    pushPooled (methodCall .virtual className methodName
      ("(" ++ Ty.classDescriptor className ++ ")" ++ Ty.classDescriptor className))
    storeResult dest (.class className)

def loadDistance (operand : Operand) : Translate Unit := do
  loadWideOperand parser operand
  match operand.getType with
  | .int .i64 | .int .u64 => push (.convert .l2i)
  | .class name =>
    if name = i128Class ∨ name = u128Class then
      pushPooled (methodCall .virtual name "intValue" "()I")
  | _ => pure ()

def translateInt128Shift (dest : String) (value distance : Operand) (methodName : String) :
    Translate Unit :=
  match value.getType with
  | .class className => do
    loadWideOperand parser value
    loadDistance parser distance
    pushPooled (methodCall .virtual className methodName ("(I)" ++ Ty.classDescriptor className))
    storeResult dest (.class className)
  | _ => throw (.verificationError "translate_int128_shift"
      "128-bit integer carrier must be a JVM class")

def translateInt128UnaryOp (dest : String) (value : Operand) (methodName : String) :
    Translate Unit :=
  match value.getType with
  | .class className => do
    loadWideOperand parser value
    pushPooled (methodCall .virtual className methodName ("()" ++ Ty.classDescriptor className))
    storeResult dest (.class className)
  | _ => throw (.verificationError "translate_int128_unary_op"
      "128-bit integer carrier must be a JVM class")

/-- The comparison arm for a 128-bit type: both operands, `compareTo` and its sign. -/
def translateInt128Comparison (dest : String) (op1 op2 : Operand) (className : String)
    (op : ComparisonOp) : Translate Unit := do
  loadWideOperand parser op1
  loadWideOperand parser op2
  pushPooled (methodCall .virtual className "compareTo" ("(" ++ Ty.classDescriptor className ++ ")I"))
  materializeBooleanFromBranch dest (compareSign op)

/-! ### The library -/

def wideDescriptor (signed : Bool) : String := Ty.classDescriptor (wideClass signed)

/-- A machine with the runtime's 128-bit classes: the contents of their objects in each world,
and what allocation, the constructor and the methods do. Objects never change. -/
structure WideLibrary {World : Type} (env : Environment World) where
  java : JavaLibrary env
  wideAt : World → Nat → Option WideObject
  allocate : ∀ index signed stack world, env.constants.classAt index = some (wideClass signed) →
    ∃ object later, env.perform (.new index) stack world =
        .completes (.reference (some object) :: stack) later ∧ wideAt later object = none ∧
      ∀ other content, wideAt world other = some content → wideAt later other = some content
  construct : ∀ index signed object high low rest world,
    env.constants.memberAt index = some ⟨wideClass signed, "<init>", "(JJ)V"⟩ →
    wideAt world object = none →
    ∃ later, env.perform (.invoke .special index)
        (.long low :: .long high :: .reference (some object) :: rest) world =
          .completes rest later ∧
      wideAt later object = some ⟨signed, ⟨high, low⟩⟩ ∧
      ∀ other content, wideAt world other = some content → wideAt later other = some content
  binary : ∀ index signed (method : Wide.BinaryMethod) left right leftBits rightBits result rest world,
    env.constants.memberAt index = some ⟨wideClass signed, method.name,
      "(" ++ wideDescriptor signed ++ ")" ++ wideDescriptor signed⟩ →
    wideAt world left = some ⟨signed, leftBits⟩ → wideAt world right = some ⟨signed, rightBits⟩ →
    method.apply signed leftBits rightBits = .ok result →
    ∃ object later, env.perform (.invoke .virtual index)
        (.reference (some right) :: .reference (some left) :: rest) world =
          .completes (.reference (some object) :: rest) later ∧
      wideAt later object = some ⟨signed, result⟩ ∧
      ∀ other content, wideAt world other = some content → wideAt later other = some content
  unary : ∀ index signed (method : Wide.UnaryMethod) operand bits rest world,
    env.constants.memberAt index = some ⟨wideClass signed, method.name,
      "()" ++ wideDescriptor signed⟩ →
    wideAt world operand = some ⟨signed, bits⟩ →
    ∃ object later, env.perform (.invoke .virtual index) (.reference (some operand) :: rest) world =
          .completes (.reference (some object) :: rest) later ∧
      wideAt later object = some ⟨signed, method.apply signed bits⟩ ∧
      ∀ other content, wideAt world other = some content → wideAt later other = some content
  shift : ∀ index signed op operand bits distance rest world,
    env.constants.memberAt index = some ⟨wideClass signed, Wide.shiftName op,
      "(I)" ++ wideDescriptor signed⟩ →
    wideAt world operand = some ⟨signed, bits⟩ →
    ∃ object later, env.perform (.invoke .virtual index)
        (.int distance :: .reference (some operand) :: rest) world =
          .completes (.reference (some object) :: rest) later ∧
      wideAt later object = some ⟨signed, Wide.shift op signed bits distance⟩ ∧
      ∀ other content, wideAt world other = some content → wideAt later other = some content
  compare : ∀ index signed left right leftBits rightBits rest world,
    env.constants.memberAt index = some ⟨wideClass signed, "compareTo",
      "(" ++ wideDescriptor signed ++ ")I"⟩ →
    wideAt world left = some ⟨signed, leftBits⟩ → wideAt world right = some ⟨signed, rightBits⟩ →
    env.perform (.invoke .virtual index)
      (.reference (some right) :: .reference (some left) :: rest) world =
        .completes (.int (Wide.compareTo signed leftBits rightBits) :: rest) world

namespace WideLibrary

variable {World : Type} {env : Environment World} (library : WideLibrary env)

def Keeps (before after : World) : Prop :=
  ∀ object content, library.wideAt before object = some content →
    library.wideAt after object = some content

def Refers (world : World) (signed : Bool) (bits : U128) (value : Value) : Prop :=
  ∃ object, value = .reference (some object) ∧ library.wideAt world object = some ⟨signed, bits⟩

variable {library}

theorem Keeps.refl (world : World) : library.Keeps world world := fun _ _ found => found

theorem Keeps.trans {first second third : World} (head : library.Keeps first second)
    (tail : library.Keeps second third) : library.Keeps first third :=
  fun object content found => tail object content (head object content found)

theorem Refers.keep {before after : World} {signed : Bool} {bits : U128} {value : Value}
    (refers : library.Refers before signed bits value) (keeps : library.Keeps before after) :
    library.Refers after signed bits value := by
  obtain ⟨object, isReference, found⟩ := refers
  exact ⟨object, isReference, keeps object _ found⟩

end WideLibrary

end RustcCodegenJvm.Lower2
