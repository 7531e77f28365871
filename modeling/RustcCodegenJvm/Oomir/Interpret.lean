import RustcCodegenJvm.Oomir.Constant

/-!
# The constant interpreter

`oomir/interpret.rs`: folding of casts and operators on constants. `BigInt` is
`Int`. What the interpreter takes from outside the repository, the decimal
syntax of `BigInt` and the hardware floats, is a parameter, and floats are
their bits. The interpreter drops the reason of every failure (`.ok()`), so a
failing step is `none`.
-/

namespace RustcCodegenJvm.Oomir

structure FloatOps (width : Nat) where
  ofInt : Int → BitVec width
  toInt : (kind : IntTy) → BitVec width → BitVec kind.width
  add : BitVec width → BitVec width → BitVec width
  sub : BitVec width → BitVec width → BitVec width
  mul : BitVec width → BitVec width → BitVec width
  div : BitVec width → BitVec width → BitVec width
  rem : BitVec width → BitVec width → BitVec width
  neg : BitVec width → BitVec width
  partialCmp : BitVec width → BitVec width → Option Ordering

structure Numerics where
  parseBigInt : String → Option Int
  showBigInt : Int → String
  single : FloatOps 32
  double : FloatOps 64
  singleToDouble : BitVec 32 → BitVec 64
  doubleToSingle : BitVec 64 → BitVec 32

/-- A float type whose operations all give zero. -/
def FloatOps.absent (width : Nat) : FloatOps width where
  ofInt _ := 0
  toInt _ _ := 0
  add _ _ := 0
  sub _ _ := 0
  mul _ _ := 0
  div _ _ := 0
  rem _ _ := 0
  neg _ := 0
  partialCmp _ _ := none

/-- Enough to run the interpreter on integers. -/
def Numerics.integral : Numerics where
  parseBigInt := String.toInt?
  showBigInt := toString
  single := .absent 32
  double := .absent 64
  singleToDouble _ := 0
  doubleToSingle _ := 0

/-- `x == 0.0`, which both zeros satisfy. -/
def isFloatZero {width : Nat} (bits : BitVec width) : Bool := bits.toNat % 2 ^ (width - 1) == 0

def isWideClass (className : String) : Bool := className == i128Class || className == u128Class

def charFromU32 (scalar : Nat) : Option Char :=
  if scalar.isValidChar then some (Char.ofNat scalar) else none

variable (numerics : Numerics)

def parseConstantToBigint : Constant → Option Int
  | .int kind bits => some (kind.value bits)
  | .boolean value => some (if value then 1 else 0)
  | .char value => some value.toNat
  | .instance className _ params _ =>
    if isWideClass className then
      match params with
      | [.string digits] => numerics.parseBigInt digits
      | _ => none
    else none
  | _ => none

/-- `value` reduced to the width and signedness of the template. -/
def bigintToIntegerConstantLike (value : Int) : Constant → Option Constant
  | .int kind _ => some (.int kind (BitVec.ofInt kind.width value))
  | .instance className fields _ _ =>
    if className = i128Class then
      some (.instance className fields
        [.string (numerics.showBigInt (BitVec.ofInt 128 value).toInt)] [])
    else if className = u128Class then
      some (.instance className fields
        [.string (numerics.showBigInt (BitVec.ofInt 128 value).toNat)] [])
    else none
  | _ => none

/-- Casts of the signed integer constants; unsigned ones only cast to themselves. -/
def castInteger (kind : IntTy) (bits : BitVec kind.width) (ty : Ty) : Option Constant :=
  if kind.signed then
    match ty with
    | .int target =>
      if target.signed then some (.int target (bits.signExtend target.width)) else none
    | .f32 => some (.f32 (numerics.single.ofInt bits.toInt))
    | .f64 => some (.f64 (numerics.double.ofInt bits.toInt))
    | .char =>
      match kind with
      -- `*val as u32` sign-extends, so a negative byte or short is no scalar value
      | .i8 | .i16 => (charFromU32 (bits.signExtend 32).toNat).map .char
      -- `u32::try_from` rejects a negative or too large value first
      | _ =>
        if 0 ≤ bits.toInt ∧ bits.toInt < 2 ^ 32 then
          (charFromU32 bits.toInt.toNat).map .char
        else none
    | .boolean => some (.boolean (bits != 0))
    | _ => none
  else none

def castConstant (constant : Constant) (ty : Ty) : Option Constant :=
  if Ty.fromConstant constant = ty then some constant
  else
    match constant with
    | .int kind bits => castInteger numerics kind bits ty
    | .f32 bits =>
      match ty with
      | .int target =>
        if target.signed then some (.int target (numerics.single.toInt target bits)) else none
      | .f64 => some (.f64 (numerics.singleToDouble bits))
      | _ => none
    | .f64 bits =>
      match ty with
      | .int target =>
        if target.signed then some (.int target (numerics.double.toInt target bits)) else none
      | .f32 => some (.f32 (numerics.doubleToSingle bits))
      | _ => none
    | .boolean value =>
      match ty with
      | .int target =>
        if target.signed then some (.int target (BitVec.ofNat target.width value.toNat)) else none
      | _ => none
    | .char value =>
      match ty with
      | .int target =>
        if target.signed then some (.int target (BitVec.ofNat target.width value.toNat)) else none
      | _ => none
    | _ => none

def isWideType : Ty → Bool
  | .class name => isWideClass name
  | _ => false

/-- The type two operands of different types are promoted to. -/
def promotedType (left right : Ty) : Option Ty :=
  if isWideType left then some left
  else if isWideType right then some right
  else [Ty.f64, .f32, .int .i64, .int .i32, .int .i16, .int .i8].find? fun target =>
    left = target ∨ right = target

def unifyOpsType (left right : Constant) : Option (Constant × Constant) :=
  if Ty.fromConstant left = Ty.fromConstant right then some (left, right)
  else do
    let target ← promotedType (Ty.fromConstant left) (Ty.fromConstant right)
    return (← castConstant numerics left target, ← castConstant numerics right target)

/-! ### Operators -/

inductive ArithmeticOp
  | add | sub | mul | div | rem
deriving DecidableEq

def FloatOps.apply {width : Nat} (ops : FloatOps width) :
    ArithmeticOp → BitVec width → BitVec width → BitVec width
  | .add => ops.add
  | .sub => ops.sub
  | .mul => ops.mul
  | .div => ops.div
  | .rem => ops.rem

def foldFloat {width : Nat} (ops : FloatOps width) (op : ArithmeticOp)
    (left right : BitVec width) : Option (BitVec width) :=
  match op with
  | .div | .rem => if isFloatZero right then none else some (ops.apply op left right)
  | _ => some (ops.apply op left right)

/-- `MIN / -1`, the one quotient of signed integers that does not fit. -/
def divisionOverflows (kind : IntTy) (left right : BitVec kind.width) : Bool :=
  kind.signed && left == BitVec.intMin kind.width && right == -1

/-- `wrapping_*` and `checked_*` of the primitive integers: the checked ones fail
for a zero divisor and on overflow. -/
def foldInteger (kind : IntTy) (op : ArithmeticOp) (left right : BitVec kind.width) :
    Option (BitVec kind.width) :=
  match op with
  | .add => some (left + right)
  | .sub => some (left - right)
  | .mul => some (left * right)
  | .div =>
    if right = 0 ∨ divisionOverflows kind left right then none
    else some (if kind.signed then left.sdiv right else left / right)
  | .rem =>
    if right = 0 ∨ divisionOverflows kind left right then none
    else some (if kind.signed then left.srem right else left % right)

/-- The `primitive_arithmetic!` macro: both operands must have one primitive type. -/
def primitiveArithmetic (op : ArithmeticOp) : Constant → Constant → Option Constant
  | .int kind left, .int other right =>
    if same : other = kind then (foldInteger kind op left (same ▸ right)).map (.int kind)
    else none
  | .f32 left, .f32 right => (foldFloat numerics.single op left right).map .f32
  | .f64 left, .f64 right => (foldFloat numerics.double op left right).map .f64
  | _, _ => none

/-- The big-integer form of an operator; `checked_div` truncates. -/
def ArithmeticOp.applyBig (op : ArithmeticOp) (left right : Int) : Option Int :=
  match op with
  | .add => some (left + right)
  | .sub => some (left - right)
  | .mul => some (left * right)
  | .div => if right = 0 then none else some (left.tdiv right)
  | .rem => if right = 0 then none else some (left.tmod right)

def isWideConstant : Constant → Bool
  | .instance className _ _ _ => isWideClass className
  | _ => false

/-- `add_constants`, `subtract_constants`, `multiply_constants`, `divide_constants`
and `rem_constants`. -/
def arithmeticConstants (op : ArithmeticOp) (left right : Constant) : Option Constant := do
  let (unifiedLeft, unifiedRight) ← unifyOpsType numerics left right
  if isWideConstant unifiedLeft then
    let result ← op.applyBig (← parseConstantToBigint numerics unifiedLeft)
      (← parseConstantToBigint numerics unifiedRight)
    bigintToIntegerConstantLike numerics result unifiedLeft
  else primitiveArithmetic numerics op unifiedLeft unifiedRight

/-! ### Comparison -/

/-- The first result that is not `Equal`; an incomparable pair before it fails. -/
def firstDifference : List (Option Ordering) → Option Ordering
  | [] => some .eq
  | none :: _ => none
  | some .eq :: rest => firstDifference rest
  | some other :: _ => some other

/-- Comparisons of the constants with no integer value. -/
def compareScalar : Constant → Constant → Option Ordering
  | .f64 left, .f64 right => numerics.double.partialCmp left right
  | .f32 left, .f32 right => numerics.single.partialCmp left right
  | .string left, .string right => some (compare left right)
  | .unit, .unit => some .eq
  | _, _ => none

def compareBigints (left right : Constant) : Option Ordering := do
  return compare (← parseConstantToBigint numerics left) (← parseConstantToBigint numerics right)

mutual

/-- Integers compare as numbers whatever their types; arrays and instances of one
shape compare element by element, fields in the order of their names. -/
def compareConstants (left right : Constant) : Option Ordering :=
  match compareBigints numerics left right with
  | some order => some order
  | none =>
    match left, right with
    | .array leftTy leftElements, .array rightTy rightElements =>
      if leftTy ≠ rightTy ∨ leftElements.length ≠ rightElements.length then none
      else firstDifference (compareElements leftElements rightElements)
    | .instance leftClass leftFields leftParams _, .instance rightClass rightFields rightParams _ =>
      if leftClass ≠ rightClass ∨ leftFields.length ≠ rightFields.length ∨
          leftParams.length ≠ rightParams.length then none
      else
        match firstDifference (compareElements leftParams rightParams) with
        | some .eq =>
          if (leftFields.map Prod.fst).mergeSort ≠ (rightFields.map Prod.fst).mergeSort then none
          else
            let results := compareFields leftFields rightFields
            firstDifference
              ((results.mergeSort fun first second => first.1 ≤ second.1).map Prod.snd)
        | other => other
    | left, right => compareScalar numerics left right

def compareElements : List Constant → List Constant → List (Option Ordering)
  | left :: lefts, right :: rights =>
    compareConstants left right :: compareElements lefts rights
  | _, _ => []

/-- Each field of the left instance against the right instance's field of that name. -/
def compareFields : List (String × Constant) → List (String × Constant) →
    List (String × Option Ordering)
  | [], _ => []
  | (name, value) :: rest, fields =>
    (name, (fields.lookup name).bind fun other => compareConstants value other) ::
      compareFields rest fields

end

inductive ComparisonOp
  | eq | ne | lt | le | gt | ge
deriving DecidableEq

def ComparisonOp.holds : ComparisonOp → Ordering → Bool
  | eq, order => order == .eq
  | ne, order => order != .eq
  | lt, order => order == .lt
  | le, order => order != .gt
  | gt, order => order == .gt
  | ge, order => order != .lt

/-- `eq_constants`, `lt_constants`, …; `Ne` is folded as the negation of `eq_constants`. -/
def comparisonConstants (op : ComparisonOp) (left right : Constant) : Option Bool :=
  (compareConstants numerics left right).map op.holds

/-! ### Bitwise operators and shifts -/

inductive BitwiseOp
  | and | or | xor
deriving DecidableEq

def BitwiseOp.applyBig : BitwiseOp → Int → Int → Int
  | and => Int.land
  | or => Int.lor
  | xor => Int.xor

/-- `do_bitwise_op`: the result has the type of the left operand. The second
path needs operands that only become integers by a cast. -/
def bitwiseConstants (op : BitwiseOp) (left right : Constant) : Option Constant :=
  match parseConstantToBigint numerics left, parseConstantToBigint numerics right with
  | some leftValue, some rightValue =>
    bigintToIntegerConstantLike numerics (op.applyBig leftValue rightValue) left
  | _, _ => do
    match ← unifyOpsType numerics left right with
    | (.int kind leftBits, .int other rightBits) =>
      if kind.signed ∧ other = kind then
        let result := op.applyBig leftBits.toInt rightBits.toInt
        if (BitVec.ofInt kind.width result).toInt = result then
          return .int kind (BitVec.ofInt kind.width result)
        else none
      else none
    | _ => none

/-- A shift amount is any non-negative integer constant of at most 64 bits. -/
def getShiftAmount : Constant → Option Nat
  | .int kind bits => if 0 ≤ kind.value bits then some (kind.value bits).toNat else none
  | _ => none

inductive ShiftOp
  | shl | shr
deriving DecidableEq

def ShiftOp.applyBig : ShiftOp → Int → Nat → Int
  | shl, value, amount => value * 2 ^ amount
  | shr, value, amount => value / 2 ^ amount

def shiftConstants (op : ShiftOp) (left right : Constant) : Option Constant := do
  let value ← parseConstantToBigint numerics left
  let amount ← getShiftAmount right
  bigintToIntegerConstantLike numerics (op.applyBig value amount) left

/-! ### Unary operators -/

def notConstant (operand : Constant) : Option Constant :=
  match operand with
  | .boolean value => some (.boolean !value)
  | operand => do
    let value ← parseConstantToBigint numerics operand
    bigintToIntegerConstantLike numerics (-value - 1) operand

def negConstant (operand : Constant) : Option Constant :=
  match operand with
  | .instance className _ _ _ =>
    if isWideClass className then do
      let value ← parseConstantToBigint numerics operand
      bigintToIntegerConstantLike numerics (-value) operand
    else none
  | .int kind bits => if kind.signed then some (.int kind (-bits)) else none
  | .f32 bits => some (.f32 (numerics.single.neg bits))
  | .f64 bits => some (.f64 (numerics.double.neg bits))
  | _ => none

/-! ### Switches -/

/-- The label of the first case equal to the discriminant; an incomparable case does not match. -/
def switchConstants (op : Constant) : List (Constant × String) → Option String
  | [] => none
  | (target, label) :: rest =>
    match comparisonConstants numerics .eq op target with
    | some true => some label
    | _ => switchConstants op rest

end RustcCodegenJvm.Oomir
