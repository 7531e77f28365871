import RustcCodegenJvm.Lower2.IntegerOps

/-!
# Folded operators against emitted operators

The interpreter folds an operator on constants; the translator emits code for it
on operands that hold the same integers. The two agree for every operator except
the shifts, which the interpreter applies to the unbounded integer by the whole
amount while the emitted code masks the amount to the width.
-/

namespace RustcCodegenJvm.Lower2

open Jvm Oomir Library Truncation BitVec

/-- The operators on integers, over constants or over operands. -/
inductive Operation (Argument : Type)
  | arithmetic (op : Oomir.ArithmeticOp) (left right : Argument)
  | bitwise (op : Oomir.BitwiseOp) (left right : Argument)
  | comparison (op : ComparisonOp) (left right : Argument)
  | shift (op : Oomir.ShiftOp) (value amount : Argument)
  | not (operand : Argument)
  | neg (operand : Argument)

namespace Operation

def fold (numerics : Numerics) : Operation Constant → Option Constant
  | arithmetic op left right => arithmeticConstants numerics op left right
  | bitwise op left right => bitwiseConstants numerics op left right
  | comparison op left right => (comparisonConstants numerics op left right).map .boolean
  | shift op value amount => shiftConstants numerics op value amount
  | not operand => notConstant numerics operand
  | neg operand => negConstant numerics operand

def translate (dest : String) : Operation Operand → Translate Unit
  | arithmetic op op1 op2 => translateArithmetic op dest op1 op2
  | bitwise op op1 op2 =>
    translateBinaryOp dest op1 op2 (.bitwise (jvmBitwise op) (wordKind op1.getType))
  | comparison op op1 op2 => translateComparisonOp dest op1 op2 op
  | shift op op1 op2 => translatePrimitiveShift dest op1 op2 (op = .shl)
  | not operand => translateNot dest operand
  | neg operand => translateNeg dest operand

/-- The operands stand for integers of one type; a shift amount has any type. -/
inductive Holds (table : LocalTable) (locals : Locals) (kind : IntTy) :
    Operation Operand → Operation Constant → Prop
  | arithmetic (op : Oomir.ArithmeticOp) {op1 op2 : Operand} {left right : BitVec kind.width} :
    OperandHolds table locals op1 (.int kind left) → OperandHolds table locals op2 (.int kind right) →
      Holds table locals kind (arithmetic op op1 op2) (arithmetic op (.int kind left) (.int kind right))
  | bitwise (op : Oomir.BitwiseOp) {op1 op2 : Operand} {left right : BitVec kind.width} :
    OperandHolds table locals op1 (.int kind left) → OperandHolds table locals op2 (.int kind right) →
      Holds table locals kind (bitwise op op1 op2) (bitwise op (.int kind left) (.int kind right))
  | comparison (op : ComparisonOp) {op1 op2 : Operand} {left right : BitVec kind.width} :
    OperandHolds table locals op1 (.int kind left) → OperandHolds table locals op2 (.int kind right) →
      Holds table locals kind (comparison op op1 op2) (comparison op (.int kind left) (.int kind right))
  | shift (op : Oomir.ShiftOp) {op1 op2 : Operand} {value : BitVec kind.width} {amountKind : IntTy}
      {amount : BitVec amountKind.width} :
    OperandHolds table locals op1 (.int kind value) →
      OperandHolds table locals op2 (.int amountKind amount) →
      Holds table locals kind (shift op op1 op2) (shift op (.int kind value) (.int amountKind amount))
  | not {operand : Operand} {bits : BitVec kind.width} :
    OperandHolds table locals operand (.int kind bits) →
      Holds table locals kind (not operand) (not (.int kind bits))
  | neg {operand : Operand} {bits : BitVec kind.width} :
    OperandHolds table locals operand (.int kind bits) →
      Holds table locals kind (neg operand) (neg (.int kind bits))

/-- Where the fold and the emitted code give one value: everywhere but for a shift by
the width or more whose masked distance still leaves something of the value. -/
def Agrees : Operation Constant → Prop
  | shift op (.int kind value) (.int _ amount) =>
    let number := kind.value value
    let distance := amount.toNat % kind.width
    amount.toNat < kind.width ∨
      match op with
      | .shl => (2 : Int) ^ kind.width ∣ number * 2 ^ distance
      | .shr => -2 ^ distance ≤ number ∧ number < 2 ^ distance
  | _ => True

end Operation

/-! ### What the interpreter folds to -/

variable {folded : Constant}

section Folds

variable (numerics : Numerics) {kind : IntTy} (left right bits : BitVec kind.width)

theorem of_int_value : BitVec.ofInt kind.width (kind.value bits) = bits := by
  unfold IntTy.value
  split
  · exact ofInt_toInt
  · rw [ofInt_natCast, ofNat_toNat, setWidth_eq]

theorem arithmetic_constants_int (op : Oomir.ArithmeticOp) :
    arithmeticConstants numerics op (.int kind left) (.int kind right) =
      (foldInteger kind op left right).map (.int kind) := by
  simp [arithmeticConstants, unifyOpsType, Ty.fromConstant, isWideConstant, primitiveArithmetic]

theorem bitwise_constants_int (op : Oomir.BitwiseOp) :
    bitwiseConstants numerics op (.int kind left) (.int kind right) =
      some (.int kind ((jvmBitwise op).apply left right)) := by
  change some (Constant.int kind (BitVec.ofInt kind.width _)) = _
  cases op with
  | and => rw [Oomir.BitwiseOp.applyBig, of_int_land, of_int_value, of_int_value]; rfl
  | or => rw [Oomir.BitwiseOp.applyBig, of_int_lor, of_int_value, of_int_value]; rfl
  | xor => rw [Oomir.BitwiseOp.applyBig, of_int_xor, of_int_value, of_int_value]; rfl

theorem not_constant_int :
    notConstant numerics (.int kind bits) = some (.int kind (~~~bits)) := by
  change some (Constant.int kind (BitVec.ofInt kind.width (-kind.value bits - 1))) = _
  have complement : -bits - BitVec.ofNat kind.width 1 = ~~~bits := by
    rw [neg_eq_not_add, add_sub_cancel]
  have minusOne : BitVec.ofInt kind.width (-1) = -BitVec.ofNat kind.width 1 := by
    rw [ofInt_neg]
    rfl
  rw [Int.sub_eq_add_neg, ofInt_add, ofInt_neg, of_int_value, minusOne,
    ← sub_eq_add_neg, complement]

theorem value_shifted_right (distance : Nat) :
    kind.value (shifted .shr kind bits distance) = kind.value bits / 2 ^ distance := by
  unfold IntTy.value shifted
  split
  · rw [toInt_sshiftRight, Int.shiftRight_eq_div_pow]
    norm_cast
  · rw [toNat_ushiftRight, Nat.shiftRight_eq_div_pow]
    norm_cast

theorem shifted_eq_apply_big (op : Oomir.ShiftOp) (distance : Nat) :
    BitVec.ofInt kind.width (op.applyBig (kind.value bits) distance) =
      shifted op kind bits distance := by
  cases op with
  | shl =>
    have power : BitVec.ofInt kind.width (2 ^ distance) = BitVec.twoPow kind.width distance := by
      apply eq_of_toNat_eq
      rw [toNat_twoPow, ← toNat_ofNat, ← ofInt_natCast]
      norm_cast
    rw [Oomir.ShiftOp.applyBig, shifted, ofInt_mul, of_int_value, power, shiftLeft_eq_mul_twoPow]
  | shr => rw [Oomir.ShiftOp.applyBig, ← value_shifted_right, of_int_value]

theorem shift_amount_eq {amountKind : IntTy} {amount : BitVec amountKind.width} {distance : Nat}
    (isAmount : getShiftAmount (.int amountKind amount) = some distance) :
    distance = amount.toNat := by
  change (if 0 ≤ amountKind.value amount then some (amountKind.value amount).toNat else none) = _
    at isAmount
  split at isAmount
  · rename_i nonneg
    cases isAmount
    unfold IntTy.value at nonneg ⊢
    split at nonneg
    · have bound := amount.isLt
      rw [toInt_eq_toNat_cond] at nonneg
      rw [if_pos ‹_›, toInt_eq_toNat_cond]
      split at nonneg
      · rw [if_pos ‹_›, Int.toNat_natCast]
      · omega
    · rw [if_neg ‹_›, Int.toNat_natCast]
  · cases isAmount

theorem shift_constants_int (op : Oomir.ShiftOp) {amountKind : IntTy}
    (amount : BitVec amountKind.width)
    (folds : shiftConstants numerics op (.int kind bits) (.int amountKind amount) = some folded) :
    folded = .int kind (shifted op kind bits amount.toNat) := by
  obtain ⟨distance, isAmount, isFolded⟩ := Option.bind_eq_some_iff.mp folds
  cases isFolded
  rw [shift_amount_eq isAmount, shifted_eq_apply_big]

end Folds

/-! ### Agreement -/

theorem div_eq_div_iff {number narrow wide : Int} (positive : 0 < narrow) (order : narrow ≤ wide)
    (above : -wide ≤ number) (below : number < wide) :
    number / narrow = number / wide ↔ -narrow ≤ number ∧ number < narrow := by
  have widePositive : 0 < wide := lt_of_lt_of_le positive order
  have quotient : ∀ divisor : Int, 0 < divisor → ∀ result, number / divisor = result ↔
      result * divisor ≤ number ∧ number < (result + 1) * divisor := by
    intro divisor divisorPositive result
    rw [← Int.le_ediv_iff_mul_le divisorPositive, ← Int.ediv_lt_iff_lt_mul divisorPositive]
    omega
  rcases lt_or_ge number 0 with negative | nonneg
  · rw [(quotient wide widePositive (-1)).mpr (by omega), quotient narrow positive]
    omega
  · rw [(quotient wide widePositive 0).mpr (by omega), quotient narrow positive]
    omega

theorem value_bounds (kind : IntTy) (bits : BitVec kind.width) :
    -(2 : Int) ^ kind.width ≤ kind.value bits ∧ kind.value bits < 2 ^ kind.width := by
  have power : ((2 ^ kind.width : Nat) : Int) = 2 ^ kind.width := by norm_cast
  unfold IntTy.value
  split
  · rw [toInt_eq_toNat_cond]
    split <;> omega
  · omega

theorem value_injective (kind : IntTy) {left right : BitVec kind.width} :
    left = right ↔ kind.value left = kind.value right := by
  constructor
  · rintro rfl
    rfl
  · intro same
    rw [← of_int_value left, same, of_int_value]

theorem of_int_eq_zero_iff {width : Nat} (number : Int) :
    BitVec.ofInt width number = BitVec.ofNat width 0 ↔ (2 : Int) ^ width ∣ number := by
  rw [← toInt_inj, toInt_ofInt, toInt_zero, ← Int.dvd_iff_bmod_eq_zero]
  norm_cast

theorem shifted_mod_eq_iff (op : Oomir.ShiftOp) (kind amountKind : IntTy) (bits : BitVec kind.width)
    (amount : BitVec amountKind.width) :
    shifted op kind bits (amount.toNat % kind.width) = shifted op kind bits amount.toNat ↔
      (Operation.shift op (.int kind bits) (.int amountKind amount)).Agrees := by
  unfold Operation.Agrees
  rcases lt_or_ge amount.toNat kind.width with inside | outside
  · rw [Nat.mod_eq_of_lt inside]
    simp [inside]
  · have masked : amount.toNat % kind.width < kind.width := Nat.mod_lt _ kind.width_pos
    simp only [Nat.not_lt.mpr outside, false_or]
    cases op with
    | shl =>
      have vanishes : shifted .shl kind bits amount.toNat = BitVec.ofNat kind.width 0 :=
        shiftLeft_eq_zero outside
      rw [vanishes, ← shifted_eq_apply_big, of_int_eq_zero_iff]
      rfl
    | shr =>
      obtain ⟨above, below⟩ := value_bounds kind bits
      have room : (2 : Int) ^ kind.width ≤ 2 ^ amount.toNat := pow_le_pow_right₀ (by decide) outside
      rw [value_injective, value_shifted_right, value_shifted_right]
      exact div_eq_div_iff (by positivity) (pow_le_pow_right₀ (by decide) (by omega)) (by omega) (by omega)

theorem word_value_injective (kind : IntTy) {left right : BitVec (carrierWidth kind)}
    (same : wordValue kind left = wordValue kind right) : left = right := by
  cases kind <;> exact (by injection same)

theorem encode_int_injective (kind : IntTy) {left right : BitVec kind.width} :
    encodeInt kind left = encodeInt kind right ↔ left = right := by
  refine ⟨fun same => ?_, fun same => by rw [same]⟩
  rw [encode_int_eq, encode_int_eq] at same
  rw [← truncate_extend_carrier kind left, ← truncate_extend_carrier kind right,
    word_value_injective kind same]

variable {constants : Operation Constant}

/-- Every operator the interpreter folds leaves some value in the result variable, and it is
the folded constant exactly where the two agree. -/
theorem operation_computes (numerics : Numerics) {table : LocalTable} {locals : Locals}
    {kind : IntTy} {operands : Operation Operand}
    (holds : Operation.Holds table locals kind operands constants)
    (folds : constants.fold numerics = some folded) (dest : String) (stack : List Value) :
    ∃ left result, encode folded = some result ∧
      Computes table (operands.translate dest) dest (Ty.fromConstant folded) (stack, locals) stack
        left ∧ (left = result ↔ constants.Agrees) := by
  cases holds with
  | @arithmetic op op1 op2 left right leftHolds rightHolds =>
    rw [Operation.fold, arithmetic_constants_int] at folds
    obtain ⟨result, foldsTo, rfl⟩ := Option.map_eq_some_iff.mp folds
    exact ⟨_, _, rfl, arithmetic_computes op leftHolds rightHolds foldsTo, iff_of_true rfl trivial⟩
  | @bitwise op op1 op2 left right leftHolds rightHolds =>
    rw [Operation.fold, bitwise_constants_int] at folds
    cases folds
    have sameType : op1.getType = .int kind := leftHolds.type
    rw [Operation.translate, sameType]
    exact ⟨_, _, rfl, (bitwise_assigns _ leftHolds rightHolds).computes, iff_of_true rfl trivial⟩
  | @comparison op op1 op2 left right leftHolds rightHolds =>
    cases folds
    exact ⟨_, _, rfl, (comparison_assigns op leftHolds rightHolds).computes, iff_of_true rfl trivial⟩
  | @shift op op1 op2 value amountKind amount valueHolds amountHolds =>
    cases shift_constants_int numerics value op amount folds
    refine ⟨_, _, rfl, (shift_assigns op valueHolds amountHolds).computes, ?_⟩
    rw [encode_int_injective, shifted_mod_eq_iff]
  | @not operand bits operandHolds =>
    rw [Operation.fold, not_constant_int] at folds
    cases folds
    exact ⟨_, _, rfl, (not_assigns operandHolds).computes, iff_of_true rfl trivial⟩
  | @neg operand bits operandHolds =>
    change (if kind.signed = true then some (Constant.int kind (-bits)) else none) = _ at folds
    split at folds
    · cases folds
      exact ⟨_, _, rfl, (neg_assigns operandHolds).computes, iff_of_true rfl trivial⟩
    · cases folds

/-- The code the translator appends for an operator runs to its end and leaves the stack as it
was, with the folded constant in the result variable exactly where the two agree. -/
theorem fold_agrees_iff (numerics : Numerics) {locals : Locals} {kind : IntTy}
    {operands : Operation Operand} {state later : Translator} {dest : String} (stack : List Value)
    (holds : Operation.Holds state.locals locals kind operands constants)
    (folds : constants.fold numerics = some folded)
    (emits : (operands.translate dest).run state = .ok ((), later)) : ∃ slot after left result,
      later.locals.getTypedLocalIndex dest (Ty.fromConstant folded) = some slot ∧
      after slot = some left ∧ encode folded = some result ∧
      Emitted state later (stack, locals) (stack, after) ∧ (left = result ↔ constants.Agrees) := by
  obtain ⟨left, result, encoded, computes, agrees⟩ :=
    operation_computes numerics holds folds dest stack
  obtain ⟨slot, after, typed, stored, emitted⟩ := computes state later rfl emits
  exact ⟨slot, after, left, result, typed, stored, encoded, emitted, agrees⟩

def Translator.start : Translator where
  constantPool := .empty
  jvmInstructions := []
  locals := ⟨[], [], [], 0, 0⟩

theorem fold_agrees_on_minus_one_shifted :
    ∃ later, ((Operation.shift .shr (.constant (.int .i8 (-1))) (.constant (.int .u64 7))).translate
        "shifted").run .start = .ok ((), later) ∧
      ∃ slot after left result,
        later.locals.getTypedLocalIndex "shifted" (.int .i8) = some slot ∧
        after slot = some left ∧ encode (.int .i8 (-1)) = some result ∧
        Emitted .start later ([], fun _ => none) ([], after) ∧ (left = result ↔
          (Operation.shift .shr (.int .i8 (-1)) (.int .u64 7)).Agrees) :=
  ⟨_, rfl, fold_agrees_iff Numerics.integral []
    (.shift .shr (.literal (.int .i8 (-1))) (.literal (.int .u64 7))) rfl rfl⟩

/-- `1i32 << 32` folds to `0`; the emitted code masks the distance to `0` and leaves `1`. -/
theorem shift_fold_diverges :
    (Operation.shift .shl (.int .i32 1) (.int .i32 32)).fold Numerics.integral =
      some (.int .i32 0) ∧ encode (.int .i32 0) ≠ some (.int 1) ∧ ∃ later slot after,
      ((Operation.shift .shl (.constant (.int .i32 1)) (.constant (.int .i32 32))).translate
        "shifted").run .start = .ok ((), later) ∧
      later.locals.getTypedLocalIndex "shifted" (.int .i32) = some slot ∧
      after slot = some (.int 1) ∧ Emitted .start later ([], fun _ => none) ([], after) := by
  refine ⟨rfl, by decide, ?_⟩
  have computes : Computes Translator.start.locals _ "shifted" _ ([], fun _ => none) [] _ :=
    (shift_assigns .shl (.literal (.int .i32 1)) (.literal (.int .i32 32))).computes
  obtain ⟨slot, after, typed, stored, emitted⟩ := computes .start _ rfl rfl
  exact ⟨_, slot, after, rfl, typed, stored, emitted⟩

end RustcCodegenJvm.Lower2
