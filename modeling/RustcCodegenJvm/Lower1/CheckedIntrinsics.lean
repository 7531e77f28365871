import RustcCodegenJvm.Oomir.Function

/-!
# Checked arithmetic intrinsics

The functions `lower1/control_flow/checked_intrinsics.rs` generates for the
checked operators of a type: the wrapped result and a flag, in a result struct.
`none` stands for the panics on types that are not integers.
-/

namespace RustcCodegenJvm.Lower1

open Oomir

inductive CheckedOperation
  | add
  | sub
  | mul
deriving DecidableEq

def CheckedOperation.name : CheckedOperation → String
  | add => "add"
  | sub => "sub"
  | mul => "mul"

def CheckedOperation.arithmetic : CheckedOperation → ArithmeticOp
  | add => .add
  | sub => .sub
  | mul => .mul

/-- The characters of a name that a token keeps, with one separator for each run of others;
the last component says whether the token ends in such a separator. -/
def sanitizeStep (token : List Char × Bool) (character : Char) : List Char × Bool :=
  if character.isAlphanum || character = '_' then (token.1 ++ [character], false)
  else if !token.2 && !token.1.isEmpty then (token.1 ++ ['_'], true)
  else token

def sanitizeNameToken (name : String) : String :=
  let token := ((name.toList.foldl sanitizeStep ([], false)).1.reverse.dropWhile (· = '_')).reverse
  if token.isEmpty then "Type" else String.ofList token

def getIntrinsicFunctionName (operation tySuffix resultStructName : String) : String :=
  "_oomir_checked_" ++ operation ++ "_" ++ tySuffix ++ "_" ++ sanitizeNameToken resultStructName

/-- A 128-bit constant is an instance built from its digits. -/
def wideConstant (className digits : String) : Constant :=
  .instance className [] [.string digits] []

/-- Zero, the least value and minus one; an unsigned type has its least and greatest value. -/
def integerConstants : Ty → Option (Constant × Constant × Constant)
  | .int .i8 => some (.int .i8 0, .int .i8 (BitVec.intMin 8), .int .i8 (-1))
  | .int .u8 => some (.int .u8 0, .int .u8 0, .int .u8 (BitVec.allOnes 8))
  | .int .i16 => some (.int .i16 0, .int .i16 (BitVec.intMin 16), .int .i16 (-1))
  | .int .u16 => some (.int .u16 0, .int .u16 0, .int .u16 (BitVec.allOnes 16))
  | .int .i32 => some (.int .i32 0, .int .i32 (BitVec.intMin 32), .int .i32 (-1))
  | .int .u32 => some (.int .u32 0, .int .u32 0, .int .u32 (BitVec.allOnes 32))
  | .int .i64 => some (.int .i64 0, .int .i64 (BitVec.intMin 64), .int .i64 (-1))
  | .int .u64 => some (.int .u64 0, .int .u64 0, .int .u64 (BitVec.allOnes 64))
  | .class className =>
    if className = i128Class then
      some (wideConstant className "0",
        wideConstant className "-170141183460469231731687303715884105728",
        wideConstant className "-1")
    else if className = u128Class then
      some (wideConstant className "0", wideConstant className "0",
        wideConstant className "340282366920938463463374607431768211455")
    else none
  | _ => none

def isUnsigned : Ty → Bool
  | .int .u8 | .int .u16 | .int .u32 | .int .u64 => true
  | .class className => className = u128Class
  | _ => false

/-- `matches!(ty, Type::I8 | Type::I16)` -/
def isNarrowSigned : Ty → Bool
  | .int .i8 | .int .i16 => true
  | _ => false

section Instructions

variable (ty : Ty)

def variableA : Operand := .variable "_1" ty
def variableB : Operand := .variable "_2" ty
def variableResult : Operand := .variable "result" ty

/-- An unsigned sum is less than a summand, an unsigned difference has the smaller number first. -/
def unsignedFlag : CheckedOperation → List Instruction
  | .sub => [.comparison .lt "overflow" (variableA ty) (variableB ty)]
  | _ => [.comparison .lt "overflow" (variableResult ty) (variableA ty)]

/-- `((a ^ result) & (b ^ result)) < 0` for a sum, `((a ^ b) & (a ^ result)) < 0` for a difference. -/
def signedFlag (operation : CheckedOperation) (zero : Constant) : List Instruction :=
  let isAdd := operation = .add
  [.bitwise .xor "overflow_xor_left" (variableA ty)
      (if isAdd then variableResult ty else variableB ty),
    .bitwise .xor "overflow_xor_right" (if isAdd then variableB ty else variableA ty)
      (variableResult ty),
    .bitwise .and "overflow_sign_bits" (.variable "overflow_xor_left" ty)
      (.variable "overflow_xor_right" ty),
    .comparison .lt "overflow" (.variable "overflow_sign_bits" ty) (.constant zero)]

def mulCheckLabel (fnName : String) : String := fnName ++ "_mul_check"
def mulNoOverflowLabel (fnName : String) : String := fnName ++ "_mul_no_overflow"
def mulEndLabel (fnName : String) : String := fnName ++ "_mul_end"

def mulZeroTest (fnName : String) (zero : Constant) : List Instruction :=
  [.comparison .eq "mul_a_zero" (variableA ty) (.constant zero),
    .comparison .eq "mul_b_zero" (variableB ty) (.constant zero),
    .bitwise .or "mul_either_zero" (.variable "mul_a_zero" .boolean) (.variable "mul_b_zero" .boolean),
    .branch (.variable "mul_either_zero" .boolean) (mulNoOverflowLabel fnName) (mulCheckLabel fnName)]

def mulQuotient : List Instruction :=
  [.arithmetic .div "mul_quotient" (variableResult ty) (variableB ty),
    .comparison .ne "mul_quotient_differs" (.variable "mul_quotient" ty) (variableA ty)]

/-- The flag of a product without zeros; the wider signed types ask for `MIN * -1` as well. -/
def mulFlag (min minusOne : Constant) : List Instruction :=
  if isUnsigned ty || isNarrowSigned ty then
    [.move "overflow" (.variable "mul_quotient_differs" .boolean)]
  else
    [.comparison .eq "mul_a_min" (variableA ty) (.constant min),
      .comparison .eq "mul_b_minus_one" (variableB ty) (.constant minusOne),
      .bitwise .and "mul_min_times_minus_one" (.variable "mul_a_min" .boolean)
        (.variable "mul_b_minus_one" .boolean),
      .bitwise .or "overflow" (.variable "mul_quotient_differs" .boolean)
        (.variable "mul_min_times_minus_one" .boolean)]

def mulOverflow (fnName : String) (zero min minusOne : Constant) : List Instruction :=
  mulZeroTest ty fnName zero ++ [.label (mulCheckLabel fnName)] ++ mulQuotient ty ++
    mulFlag ty min minusOne ++ [.jump (mulEndLabel fnName), .label (mulNoOverflowLabel fnName),
      .move "overflow" (.constant (.boolean false)), .label (mulEndLabel fnName)]

def overflowFlag (operation : CheckedOperation) (fnName : String) (zero min minusOne : Constant) :
    List Instruction :=
  match operation with
  | .mul => mulOverflow ty fnName zero min minusOne
  | _ => if isUnsigned ty then unsignedFlag ty operation else signedFlag ty operation zero

def returnPair (resultStructName : String) : List Instruction :=
  [.constructObject "tmp_struct" resultStructName
      [(variableResult ty, ty), (.variable "overflow" .boolean, .boolean)],
    .return (some (.variable "tmp_struct" (.class resultStructName)))]

end Instructions

def emitCheckedArithmeticIntrinsic (operation : CheckedOperation) (ty : Ty)
    (tySuffix resultStructName : String) : Option Function :=
  (integerConstants ty).map fun (zero, min, minusOne) =>
    let fnName := getIntrinsicFunctionName operation.name tySuffix resultStructName
    { name := fnName
      ownerClass := none
      signature :=
        { params := [("_1", ty), ("_2", ty)], ret := .class resultStructName, isStatic := true }
      body :=
        { basicBlocks := [("entry",
            { label := "entry"
              instructions :=
                [.arithmetic operation.arithmetic "result" (variableA ty) (variableB ty)] ++
                  overflowFlag ty operation fnName zero min minusOne ++
                  returnPair ty resultStructName })]
          entry := "entry" } }

end RustcCodegenJvm.Lower1
