import RustcCodegenJvm.Lower2.Carriers

/-!
# Emitted integer operators

For every operator the translator emits on integers, the value that ends up in
the result variable, in terms of the operator on the integers themselves.
-/

namespace RustcCodegenJvm.Lower2

open Jvm Oomir Library Truncation StateExcept BitVec Emits

variable {table : LocalTable} {stack : List Value} {locals : Locals} {dest : String}

/-! ### Ring operators, signed division, bitwise operators -/

theorem int_arithmetic_effect {op : Jvm.ArithmeticOp} {left right word : JInt}
    (applied : op.apply left right = some word) :
    arithmeticEffect op .int (.int right :: .int left :: stack) = .done (.int word :: stack) := by
  simp only [arithmeticEffect, applied]

theorem arithmetic_effect (kind : IntTy) (op : Jvm.ArithmeticOp) {left right : BitVec kind.width}
    {word : BitVec (carrierWidth kind)}
    (applied : op.apply (extend kind left) (extend kind right) = some word) (pool : ConstantPool) :
    stackEffect pool (.arithmetic op (numericKind (.int kind)))
      (encodeInt kind right :: encodeInt kind left :: stack) =
        .done (wordValue kind word :: stack) := by
  cases kind with
  | i8 | u8 | i16 | u16 | i32 | u32 => exact int_arithmetic_effect applied
  | i64 | u64 =>
    have whole : op.apply left right = some word := applied
    change arithmeticEffect op .long (.long right :: .long left :: stack) = .done (.long word :: stack)
    simp only [arithmeticEffect, whole]

variable {kind : IntTy} {op1 op2 operand : Operand} {width wide narrow : Nat} {amount : Int}
  {left right result : BitVec kind.width}

/-- Computing on the carriers and truncating is computing on the integers, for the
operators that do not depend on the extension or extend with the sign. -/
theorem arithmetic_apply {op : Oomir.ArithmeticOp}
    (signed : (op = .div ∨ op = .rem) → kind.signed = true)
    (applied : (jvmArithmetic op).apply left right = some result) :
    ∃ word, (jvmArithmetic op).apply (extend kind left) (extend kind right) = some word ∧
      word.setWidth kind.width = result := by
  have bound := width_le_carrier kind
  have nonzero : right ≠ 0 → extend kind right ≠ 0 := by
    intro nonzero vanishes
    apply nonzero
    rw [← truncate_extend_carrier kind right, vanishes]
    simp
  cases op with
  | add =>
    cases applied
    exact ⟨_, rfl, by rw [setWidth_add _ _ bound]; simp only [truncate_extend_carrier]⟩
  | sub =>
    cases applied
    exact ⟨_, rfl, by rw [set_width_sub _ _ bound]; simp only [truncate_extend_carrier]⟩
  | mul =>
    cases applied
    exact ⟨_, rfl, by rw [setWidth_mul _ _ bound]; simp only [truncate_extend_carrier]⟩
  | div =>
    have signed := signed (.inl rfl)
    simp only [jvmArithmetic, ArithmeticOp.apply] at applied
    split_ifs at applied with zero
    cases applied
    refine ⟨_, if_neg (nonzero zero), ?_⟩
    apply eq_of_toInt_eq
    rw [to_int_set_width _ bound, toInt_sdiv, toInt_sdiv,
      extend_signed kind _ signed, extend_signed kind _ signed,
      Int.bmod_bmod_of_dvd (pow_dvd_pow 2 bound)]
  | rem =>
    have signed := signed (.inr rfl)
    simp only [jvmArithmetic, ArithmeticOp.apply] at applied
    split_ifs at applied with zero
    cases applied
    refine ⟨_, if_neg (nonzero zero), ?_⟩
    apply eq_of_toInt_eq
    rw [to_int_set_width _ bound, toInt_srem, extend_signed kind _ signed,
      extend_signed kind _ signed, ← toInt_srem, toInt_bmod_cancel]

theorem fold_applies {op : Oomir.ArithmeticOp}
    (signed : (op = .div ∨ op = .rem) → kind.signed = true)
    (folds : foldInteger kind op left right = some result) :
    (jvmArithmetic op).apply left right = some result := by
  cases op with
  | add | sub | mul => exact folds
  | div | rem =>
    simp only [foldInteger, signed (by simp), if_true] at folds
    split_ifs at folds with invalid
    exact (if_neg fun zero => invalid (.inl zero)).trans folds

theorem plain_arithmetic_assigns {op : Oomir.ArithmeticOp}
    (leftHolds : OperandHolds table locals op1 (.int kind left))
    (rightHolds : OperandHolds table locals op2 (.int kind right))
    (signed : (op = .div ∨ op = .rem) → kind.signed = true)
    (applied : (jvmArithmetic op).apply left right = some result) : Assigns table
      (translateBinaryOp dest op1 op2 (.arithmetic (jvmArithmetic op) (numericKind (.int kind))))
      dest (.int kind) (stack, locals) stack locals (encodeInt kind result) := by
  obtain ⟨word, extended, rfl⟩ := arithmetic_apply signed applied
  exact binary_op_assigns leftHolds rightHolds rfl (arithmetic_effect kind _ extended)

theorem bitwise_assigns (op : Jvm.BitwiseOp) {left right : BitVec kind.width}
    (leftHolds : OperandHolds table locals op1 (.int kind left))
    (rightHolds : OperandHolds table locals op2 (.int kind right)) :
    Assigns table (translateBinaryOp dest op1 op2 (.bitwise op (wordKind (.int kind))))
      dest (.int kind) (stack, locals) stack locals (encodeInt kind (op.apply left right)) := by
  have truncated : (op.apply (extend kind left) (extend kind right)).setWidth kind.width =
      op.apply left right := by
    cases op
    · rw [BitwiseOp.apply, setWidth_and]
      simp only [truncate_extend_carrier, BitwiseOp.apply]
    · rw [BitwiseOp.apply, setWidth_or]
      simp only [truncate_extend_carrier, BitwiseOp.apply]
    · rw [BitwiseOp.apply, setWidth_xor]
      simp only [truncate_extend_carrier, BitwiseOp.apply]
  rw [← truncated]
  exact binary_op_assigns leftHolds rightHolds rfl fun _ => by cases kind <;> rfl

/-! ### Unsigned values of the small types -/

/-- The `int` of an integer of at most 32 bits once a `u8` has been masked. -/
def unmasked (kind : IntTy) (bits : BitVec kind.width) : JInt :=
  match kind, bits with
  | .u8, bits => bits.setWidth 32
  | .i8, bits | .i16, bits => bits.signExtend 32
  | .u16, bits => bits.setWidth 32
  | .i32, bits | .u32, bits => bits
  | .i64, bits | .u64, bits => bits.setWidth 32

theorem masked_byte (bits : BitVec 8) : bits.signExtend 32 &&& 0xff = bits.setWidth 32 := by
  revert bits
  decide +kernel

theorem mask_emits (kind : IntTy) (bits : BitVec kind.width) (small : kind.width ≤ 32) :
    Emits table (maskUnsignedByte (.int kind)) (encodeInt kind bits :: stack, locals)
      (.int (unmasked kind bits) :: stack, locals) := by
  cases kind with
  | u8 =>
    have masked : encodeInt .u8 bits = .int (bits.signExtend 32) := rfl
    rw [masked, unmasked, ← masked_byte bits]
    exact (load_constant (int_const_emits_push 0xff)).seq (plain rfl fun _ => rfl)
  | i8 | i16 | u16 | i32 | u32 => exact nothing
  | i64 | u64 => exact absurd small (by decide)

theorem unmasked_value (kind : IntTy) (bits : BitVec kind.width) (small : kind.width ≤ 32)
    (notWord : kind ≠ .u32) : (unmasked kind bits).toInt = kind.value bits := by
  cases kind with
  | u8 | u16 => exact to_int_zero_extend bits (by decide)
  | i8 | i16 => exact toInt_signExtend_of_le (by decide)
  | i32 => rfl
  | u32 => exact absurd rfl notWord
  | i64 | u64 => exact absurd small (by decide)

/-! ### Unsigned division -/

theorem unsigned_small_apply (small : width < 32) (left right : BitVec width)
    (nonzero : right ≠ 0) (isRemainder : Bool) :
    ∃ word : JInt, (if isRemainder then Jvm.ArithmeticOp.rem else .div).apply
        (left.setWidth 32) (right.setWidth 32) = some word ∧
      word.setWidth width = if isRemainder then left % right else left / right := by
  have divisor : right.setWidth 32 ≠ 0 := by
    intro vanishes
    apply nonzero
    rw [← setWidth_eq right, ← setWidth_setWidth_of_le right small.le, vanishes]
    simp
  cases isRemainder with
  | false =>
    refine ⟨_, if_neg divisor, ?_⟩
    apply eq_of_toInt_eq
    rw [to_int_set_width _ small.le, toInt_sdiv, Int.bmod_bmod_of_dvd (pow_dvd_pow 2 small.le),
      to_int_zero_extend _ small, to_int_zero_extend _ small, toInt_eq_toNat_bmod]
    simp
  | true =>
    refine ⟨_, if_neg divisor, ?_⟩
    apply eq_of_toInt_eq
    rw [to_int_set_width _ small.le, toInt_srem, to_int_zero_extend _ small,
      to_int_zero_extend _ small, toInt_eq_toNat_bmod,
      Int.tmod_eq_emod_of_nonneg (Int.natCast_nonneg _)]
    simp

theorem unsigned_fold (isRemainder : Bool) (unsigned : kind.signed = false)
    (folds : foldInteger kind (if isRemainder then .rem else .div) left right = some result) :
    right ≠ 0 ∧ result = if isRemainder then left % right else left / right := by
  cases isRemainder
  all_goals
    simp only [foldInteger, divisionOverflows, unsigned, Bool.false_and, Bool.false_eq_true,
      or_false, if_true, if_false] at folds
    split at folds
    · cases folds
    · cases folds
      exact ⟨‹_›, rfl⟩

/-- The two small unsigned types divide as ints, after a `u8` is masked. -/
theorem small_div_rem_effect (small : width < 32) (left right : BitVec width)
    (nonzero : right ≠ 0) (isRemainder : Bool) : ∃ word : JInt, (∀ pool, stackEffect pool
        (.arithmetic (if isRemainder then .rem else .div) .int)
        (.int (right.setWidth 32) :: .int (left.setWidth 32) :: stack) =
          .done (.int word :: stack)) ∧
      word.setWidth width = if isRemainder then left % right else left / right := by
  obtain ⟨word, applied, truncated⟩ := unsigned_small_apply small left right nonzero isRemainder
  exact ⟨word, fun _ => int_arithmetic_effect applied, truncated⟩

theorem unsigned_div_rem_assigns (leftHolds : OperandHolds table locals op1 (.int kind left))
    (rightHolds : OperandHolds table locals op2 (.int kind right)) (isRemainder : Bool)
    (unsigned : kind.signed = false)
    (folds : foldInteger kind (if isRemainder then .rem else .div) left right = some result) :
    Assigns table (translateUnsignedDivRem dest op1 op2 (.int kind) isRemainder) dest (.int kind)
      (stack, locals) stack locals (encodeInt kind result) := by
  obtain ⟨nonzero, quotient⟩ := unsigned_fold isRemainder unsigned folds
  subst quotient
  have normalizes : ∀ word, Assigns table
      (normalizeIntegerResult (.int kind) >>= fun _ => storeResult dest (.int kind)) dest (.int kind)
      (wordValue kind word :: stack, locals) stack locals _ :=
    fun word => (normalize_emits kind word).assigns (store_int_assigns kind _)
  cases kind with
  | u8 | u16 =>
    obtain ⟨word, effect, truncated⟩ := small_div_rem_effect (by decide) left right nonzero isRemainder
    rw [← truncated]
    exact (load_operand_as_emits leftHolds).assigns <|
      (mask_emits _ left (by decide)).assigns <|
      (load_operand_as_emits rightHolds).assigns <|
      (mask_emits _ right (by decide)).assigns <|
      (plain rfl effect).assigns (normalizes word)
  | u32 | u64 =>
    refine (load_operand_as_emits leftHolds).assigns <|
      (load_operand_as_emits rightHolds).assigns <|
      (static_call fun env library index found world => ?_).assigns (store_int_assigns _ _)
    first
      | exact library.integerDivRem index left right stack world isRemainder nonzero found
      | exact library.longDivRem index left right stack world isRemainder nonzero found
  | i8 | i16 | i32 | i64 => cases unsigned

/-! ### Comparisons -/

/-- A branch over `0` to `1` leaves the truth value of its condition. -/
theorem branch_executes {World : Type} (env : Environment World) (base : Nat)
    {condition : Condition} {operands rest : List Value} {taken : Bool}
    (tested : condition.test operands = some (taken, rest)) : Executes env base
      [.branch condition (base + 3), .iconst .zero, .goto (base + 4), .iconst .one]
      (operands, locals) (.int (if taken then 1 else 0) :: rest, locals) := by
  intro code world holds
  have at0 := holds 0 _ rfl
  have at1 := holds 1 _ rfl
  have at2 := holds 2 _ rfl
  have at3 := holds 3 _ rfl
  have branches : step env code ⟨base, operands, locals, world⟩ =
      .running ⟨if taken then base + 3 else base + 1, rest, locals, world⟩ := by
    simp only [step, Nat.add_zero] at at0 ⊢
    simp only [at0, execute, tested]
  cases taken with
  | true =>
    have pushes : step env code ⟨base + 3, rest, locals, world⟩ =
        .running ⟨base + 4, .int 1 :: rest, locals, world⟩ := by
      simp only [step, at3]
      exact execute_done env code _ rfl rfl
    exact .tail (.single branches) pushes
  | false =>
    have pushes : step env code ⟨base + 1, rest, locals, world⟩ =
        .running ⟨base + 2, .int 0 :: rest, locals, world⟩ := by
      simp only [step, at1]
      exact execute_done env code _ rfl rfl
    have jumps : step env code ⟨base + 2, .int 0 :: rest, locals, world⟩ =
        .running ⟨base + 4, .int 0 :: rest, locals, world⟩ := by
      simp only [step, at2]
      rfl
    exact .tail (.tail (.single branches) pushes) jumps

theorem materialize_assigns {condition : Condition} {operands rest : List Value} {taken : Bool}
    (tested : condition.test operands = some (taken, rest)) :
    Assigns table (materializeBooleanFromBranch dest condition) dest .boolean (operands, locals)
      rest locals (.int (if taken then 1 else 0)) := by
  intro state later same ran
  obtain ⟨_, middle, got, rest⟩ := bind_ok ran
  obtain ⟨rfl, rfl⟩ := get_ok got
  unfold materializeAt at rest
  split at rest
  · obtain ⟨_, branched, pushed, stored⟩ := bind_ok rest
    obtain rfl := modify_ok pushed
    have boolean : localKind .boolean = some (Value.int (if taken then 1 else 0)).kind := rfl
    obtain ⟨assigned, storing⟩ := store_result_assigns boolean
      { middle with jvmInstructions := middle.jvmInstructions ++ _ } later same stored
    refine ⟨assigned, Emitted.trans (emitted_push_all ?_) storing⟩
    intro World env library known
    exact branch_executes env middle.jvmInstructions.length tested
  · exact (throw_ok rest).elim

variable (op : ComparisonOp)

include op

theorem compare_ints_test (left right : JInt) :
    (compareInts op).test (.int right :: .int left :: stack) =
      some (op.holds (compare left.toInt right.toInt), stack) := by
  have less : left.slt right = (compare left.toInt right.toInt == .lt) := by
    rw [Bool.eq_iff_iff, slt_iff_toInt_lt, beq_iff_eq, compare_lt_iff_lt]
  have equal : (left == right) = (compare left.toInt right.toInt == .eq) := by
    rw [Bool.eq_iff_iff, beq_iff_eq, beq_iff_eq, compare_eq_iff_eq, toInt_inj]
  have greater : right.slt left = (compare left.toInt right.toInt == .gt) := by
    rw [Bool.eq_iff_iff, slt_iff_toInt_lt, beq_iff_eq, compare_gt_iff_gt]
  cases op <;> simp only [compareInts, Condition.test, ComparisonOp.holds, bne, less, equal, greater]

theorem compare_sign_test {result : JInt} {order : Ordering}
    (negative : result.slt 0 = true ↔ order = .lt) (zero : result = 0 ↔ order = .eq)
    (positive : (0 : JInt).slt result = true ↔ order = .gt) :
    (compareSign op).test (.int result :: stack) = some (op.holds order, stack) := by
  have less : result.slt 0 = (order == .lt) := by
    rw [Bool.eq_iff_iff, negative, beq_iff_eq]
  have equal : (result == 0) = (order == .eq) := by
    rw [Bool.eq_iff_iff, beq_iff_eq, beq_iff_eq, zero]
  have greater : (0 : JInt).slt result = (order == .gt) := by
    rw [Bool.eq_iff_iff, positive, beq_iff_eq]
  cases op <;> simp only [compareSign, Condition.test, ComparisonOp.holds, bne, less, equal, greater]

theorem unsigned_order_test (left right : BitVec width) :
    (compareSign op).test (.int (compareUnsigned left right) :: stack) =
      some (op.holds (compare (left.toNat : Int) right.toNat), stack) := by
  apply compare_sign_test
  · rw [compare_unsigned_negative, compare_lt_iff_lt, Int.ofNat_lt]
  · rw [compare_unsigned_zero, compare_eq_iff_eq, Int.natCast_inj, toNat_inj]
  · rw [compare_unsigned_positive, compare_gt_iff_gt, Int.ofNat_lt]

theorem signed_order_test (left right : BitVec width) :
    (compareSign op).test (.int (compareSigned left right) :: stack) =
      some (op.holds (compare left.toInt right.toInt), stack) := by
  apply compare_sign_test
  · rw [compare_signed_negative, compare_lt_iff_lt]
  · rw [compare_signed_zero, compare_eq_iff_eq, toInt_inj]
  · rw [compare_signed_positive, compare_gt_iff_gt]

omit op

variable {bits : BitVec kind.width} (holds : OperandHolds table locals operand (.int kind bits))

include holds in
theorem load_for_comparison_emits :
    Emits table (loadForComparison operand (.int kind)) (stack, locals)
      (encodeInt kind bits :: stack, locals) := by
  have sameType : operand.getType = .int kind := holds.type
  have skipped : loadForComparison operand (.int kind) = (do loadOperand operand; pure ()) := by
    simp [loadForComparison, sameType]
  rw [skipped]
  exact (load_operand_emits holds).seq nothing

include op in
theorem comparison_assigns {left right : BitVec kind.width} (leftHolds : OperandHolds table locals op1 (.int kind left))
    (rightHolds : OperandHolds table locals op2 (.int kind right)) :
    Assigns table (translateComparisonOp dest op1 op2 op) dest .boolean (stack, locals) stack
      locals (.int (if op.holds (compare (kind.value left) (kind.value right)) then 1 else 0)) := by
  have leftType : op1.getType = .int kind := leftHolds.type
  have rightType : op2.getType = .int kind := rightHolds.type
  have sameType : comparisonType (.int kind) (.int kind) = .int kind := if_pos rfl
  rw [translateComparisonOp, leftType, rightType, sameType]
  cases kind with
  | i8 | u8 | i16 | u16 | i32 =>
    rw [← unmasked_value _ left (by decide) (by decide), ← unmasked_value _ right (by decide) (by decide)]
    exact (load_for_comparison_emits leftHolds).assigns <|
      (mask_emits _ left (by decide)).assigns <|
      (load_for_comparison_emits rightHolds).assigns <|
      (mask_emits _ right (by decide)).assigns (materialize_assigns (compare_ints_test op _ _))
  | i64 =>
    exact (load_for_comparison_emits leftHolds).assigns <|
      nothing.assigns <|
      (load_for_comparison_emits rightHolds).assigns <|
      nothing.assigns <|
      (plain rfl fun _ => rfl).assigns
        (materialize_assigns (signed_order_test op left right))
  | u32 | u64 =>
    refine (load_for_comparison_emits leftHolds).assigns <|
      nothing.assigns <|
      (load_for_comparison_emits rightHolds).assigns <|
      nothing.assigns <|
      (static_call fun env library index found world => ?_).assigns
        (materialize_assigns (unsigned_order_test op left right))
    first
      | exact library.integerCompare index left right stack world found
      | exact library.longCompare index left right stack world found

/-! ### Shifts -/

/-- A shift of the integer by an in-range distance. -/
def shifted (op : Oomir.ShiftOp) (kind : IntTy) (bits : BitVec kind.width) (distance : Nat) :
    BitVec kind.width :=
  match op with
  | .shl => bits <<< distance
  | .shr => if kind.signed then bits.sshiftRight distance else bits >>> distance

def lowAmount (kind : IntTy) (bits : BitVec kind.width) : JInt :=
  (extend kind bits).setWidth 32

include holds in
theorem load_amount_emits : Emits table (loadJvmIntOperand operand) (stack, locals)
      (.int (lowAmount kind bits) :: stack, locals) := by
  have sameType : operand.getType = .int kind := holds.type
  rw [loadJvmIntOperand, sameType]
  refine (load_operand_emits holds).seq ?_
  cases kind with
  | i64 | u64 => exact plain rfl fun _ => rfl
  | i8 | u8 | i16 | u16 | i32 | u32 =>
    exact nothing

theorem low_amount_mod (amountKind : IntTy) (amount : BitVec amountKind.width) {log : Nat}
    (small : log ≤ 8) : (lowAmount amountKind amount).toNat % 2 ^ log = amount.toNat % 2 ^ log := by
  have wide : log ≤ amountKind.width := by
    cases amountKind <;> simp only [IntTy.width] <;> omega
  have low : (lowAmount amountKind amount).setWidth log = amount.setWidth log := by
    rw [lowAmount, setWidth_setWidth_of_le _ (by omega)]
    conv_rhs => rw [← truncate_extend_carrier amountKind amount]
    rw [setWidth_setWidth_of_le _ wide]
  have equal := congrArg BitVec.toNat low
  rwa [toNat_setWidth, toNat_setWidth] at equal

theorem masked_amount (kind amountKind : IntTy) (amount : BitVec amountKind.width) :
    (lowAmount amountKind amount &&& BitVec.ofNat 32 (kind.width - 1)).toNat =
      amount.toNat % kind.width := by
  have exponent : ∃ log, kind.width = 2 ^ log ∧ log ≤ 6 := by
    cases kind
    exacts [⟨3, rfl, by decide⟩, ⟨3, rfl, by decide⟩, ⟨4, rfl, by decide⟩, ⟨4, rfl, by decide⟩,
      ⟨5, rfl, by decide⟩, ⟨5, rfl, by decide⟩, ⟨6, rfl, by decide⟩, ⟨6, rfl, by decide⟩]
  obtain ⟨log, size, small⟩ := exponent
  have bound : 2 ^ log ≤ 2 ^ 6 := Nat.pow_le_pow_right (by decide) small
  rw [size, toNat_and, toNat_ofNat, Nat.mod_eq_of_lt (by omega),
    Nat.and_two_pow_sub_one_eq_mod, low_amount_mod amountKind amount (by omega)]

theorem shift_left_effect (kind : IntTy) (bits : BitVec kind.width) (distance : JInt)
    (small : distance.toNat < kind.width) (pool : ConstantPool) :
    stackEffect pool (shiftInstruction (.int kind) true)
      (.int distance :: encodeInt kind bits :: stack) =
        .done (wordValue kind (extend kind bits <<< distance.toNat) :: stack) := by
  have inside : distance.toNat % carrierWidth kind = distance.toNat :=
    Nat.mod_eq_of_lt (lt_of_lt_of_le small (width_le_carrier kind))
  rw [← inside]
  cases kind <;> rfl

theorem truncate_shift_left (word : BitVec wide) (bound : narrow ≤ wide)
    (distance : Nat) : (word <<< distance).setWidth narrow = word.setWidth narrow <<< distance := by
  apply eq_of_toNat_eq
  rw [toNat_setWidth, toNat_shiftLeft, toNat_shiftLeft, toNat_setWidth,
    Nat.shiftLeft_eq, Nat.shiftLeft_eq, Nat.mod_mod_of_dvd _ (pow_dvd_pow 2 bound), Nat.mod_mul_mod]

theorem truncate_arithmetic_shift {word : BitVec wide} {bits : BitVec narrow}
    (bound : narrow ≤ wide) (same : word.toInt = bits.toInt) (distance : Nat) :
    (word.sshiftRight distance).setWidth narrow = bits.sshiftRight distance := by
  apply eq_of_toInt_eq
  rw [to_int_set_width _ bound, toInt_sshiftRight, same, ← toInt_sshiftRight, toInt_bmod_cancel]

theorem truncate_logical_shift {word : BitVec wide} {bits : BitVec narrow}
    (same : word.toNat = bits.toNat) (distance : Nat) :
    (word >>> distance).setWidth narrow = bits >>> distance := by
  apply eq_of_toNat_eq
  rw [toNat_setWidth, toNat_ushiftRight, same, ← toNat_ushiftRight,
    Nat.mod_eq_of_lt (BitVec.isLt _)]

/-- The value a right shift works on: a `u8` is masked first. -/
def shiftOperand (kind : IntTy) (bits : BitVec kind.width) : BitVec (carrierWidth kind) :=
  match kind, bits with
  | .u8, bits => bits.setWidth 32
  | .i8, bits => bits.signExtend 32
  | .i16, bits => bits.signExtend 32
  | .u16, bits => bits.setWidth 32
  | .i32, bits | .u32, bits => bits
  | .i64, bits | .u64, bits => bits

theorem shift_operand_emits (kind : IntTy) (bits : BitVec kind.width) :
    Emits table (maskUnsignedByte (.int kind)) (encodeInt kind bits :: stack, locals)
      (wordValue kind (shiftOperand kind bits) :: stack, locals) := by
  cases kind with
  | i8 | u8 | i16 | u16 | i32 | u32 => exact mask_emits _ bits (by decide)
  | i64 | u64 => exact nothing

theorem shift_operand_signed (kind : IntTy) (bits : BitVec kind.width) (signed : kind.signed = true) :
    (shiftOperand kind bits).toInt = bits.toInt := by
  cases kind with
  | i8 | i16 => exact toInt_signExtend_of_le (by decide)
  | i32 | i64 => rfl
  | u8 | u16 | u32 | u64 => cases signed

theorem shift_operand_unsigned (kind : IntTy) (bits : BitVec kind.width)
    (unsigned : kind.signed = false) : (shiftOperand kind bits).toNat = bits.toNat := by
  cases kind with
  | u8 | u16 => exact toNat_setWidth_of_le (by decide)
  | u32 | u64 => rfl
  | i8 | i16 | i32 | i64 => cases unsigned

theorem shift_right_effect (kind : IntTy) (bits : BitVec kind.width) (distance : JInt)
    (small : distance.toNat < kind.width) : ∃ word : BitVec (carrierWidth kind),
      word.setWidth kind.width = shifted .shr kind bits distance.toNat ∧
      ∀ pool, stackEffect pool (shiftInstruction (.int kind) false)
        (.int distance :: wordValue kind (shiftOperand kind bits) :: stack) =
          .done (wordValue kind word :: stack) := by
  have inside : distance.toNat % carrierWidth kind = distance.toNat :=
    Nat.mod_eq_of_lt (lt_of_lt_of_le small (width_le_carrier kind))
  cases signed : kind.signed with
  | true =>
    refine ⟨(shiftOperand kind bits).sshiftRight (distance.toNat % carrierWidth kind), ?_, ?_⟩
    · rw [inside, truncate_arithmetic_shift (width_le_carrier kind)
        (shift_operand_signed kind bits signed), shifted, if_pos signed]
    · intro pool
      cases kind <;> first | rfl | cases signed
  | false =>
    refine ⟨shiftOperand kind bits >>> (distance.toNat % carrierWidth kind), ?_, ?_⟩
    · rw [inside, truncate_logical_shift (shift_operand_unsigned kind bits signed), shifted, signed]
      rfl
    · intro pool
      cases kind <;> first | rfl | cases signed

theorem shift_assigns {amountKind : IntTy} {amount : BitVec amountKind.width} (op : Oomir.ShiftOp)
    (valueHolds : OperandHolds table locals op1 (.int kind bits))
    (amountHolds : OperandHolds table locals op2 (.int amountKind amount)) :
    Assigns table (translatePrimitiveShift dest op1 op2 (op = .shl)) dest (.int kind)
      (stack, locals) stack locals
      (encodeInt kind (shifted op kind bits (amount.toNat % kind.width))) := by
  have sameType : op1.getType = .int kind := valueHolds.type
  have small : (lowAmount amountKind amount &&& BitVec.ofNat 32 (kind.width - 1)).toNat < kind.width := by
    rw [masked_amount]
    exact Nat.mod_lt _ kind.width_pos
  rw [translatePrimitiveShift, sameType, ← masked_amount kind amountKind amount]
  cases op with
  | shl =>
    have truncated := truncate_shift_left (extend kind bits) (width_le_carrier kind)
      (lowAmount amountKind amount &&& BitVec.ofNat 32 (kind.width - 1)).toNat
    rw [truncate_extend_carrier] at truncated
    rw [shifted, ← truncated]
    exact (load_operand_emits valueHolds).assigns <|
      nothing.assigns <|
      (load_amount_emits amountHolds).assigns <|
      (load_constant (int_const_emits_push _)).assigns <|
      (plain rfl fun _ => rfl).assigns <|
      (plain (by cases kind <;> rfl) (shift_left_effect kind bits _ small)).assigns <|
      (normalize_emits kind _).assigns (store_int_assigns kind _)
  | shr =>
    obtain ⟨word, truncated, effect⟩ := shift_right_effect kind bits _ small
    rw [← truncated]
    exact (load_operand_emits valueHolds).assigns <|
      (shift_operand_emits kind bits).assigns <|
      (load_amount_emits amountHolds).assigns <|
      (load_constant (int_const_emits_push _)).assigns <|
      (plain rfl fun _ => rfl).assigns <|
      (plain (by cases kind <;> rfl) effect).assigns <|
      (normalize_emits kind _).assigns (store_int_assigns kind _)

/-! ### Unary operators -/

include holds in
theorem not_assigns :
    Assigns table (translateNot dest operand) dest (.int kind) (stack, locals) stack
      locals (encodeInt kind (~~~bits)) := by
  have sameType : operand.getType = .int kind := holds.type
  have truncated : (extend kind bits ^^^ -1#(carrierWidth kind)).setWidth kind.width = ~~~bits := by
    rw [neg_one_eq_allOnes, xor_allOnes, setWidth_not (width_le_carrier kind),
      truncate_extend_carrier]
  rw [translateNot, sameType, ← truncated]
  refine (load_operand_emits holds).assigns ?_
  cases kind with
  | i8 | u8 | i16 | u16 | i32 | u32 =>
    exact (plain rfl fun _ => rfl).assigns <|
      (plain rfl fun _ => rfl).assigns <|
      (normalize_emits _ _).assigns (store_int_assigns _ _)
  | i64 | u64 =>
    exact (load_constant (pooled_emits_push rfl execute_ldc2)).assigns <|
      (plain rfl fun _ => rfl).assigns (store_int_assigns _ _)

include holds in
theorem neg_assigns :
    Assigns table (translateNeg dest operand) dest (.int kind) (stack, locals) stack
      locals (encodeInt kind (-bits)) := by
  have sameType : operand.getType = .int kind := holds.type
  have truncated : (-extend kind bits).setWidth kind.width = -bits := by
    rw [setWidth_neg_of_le (width_le_carrier kind), truncate_extend_carrier]
  have effect : ∀ pool, stackEffect pool (.negate (numericKind (.int kind)))
      (encodeInt kind bits :: stack) = .done (wordValue kind (-extend kind bits) :: stack) := by
    intro pool
    cases kind <;> rfl
  rw [translateNeg, sameType, ← truncated]
  exact (load_operand_emits holds).assigns <|
    (plain rfl effect).assigns <|
    (normalize_emits kind _).assigns (store_int_assigns kind _)

/-! ### Increments -/

theorem sign_extend_of_int {number : Int} (positive : 0 < narrow)
    (above : -2 ^ (narrow - 1) ≤ number) (below : number < 2 ^ (narrow - 1)) :
    (BitVec.ofInt narrow number).signExtend wide = BitVec.ofInt wide number := by
  rw [BitVec.signExtend, toInt_ofInt_eq_self positive above below]

theorem iinc_executes {World : Type} (env : Environment World) (code : Code) (world : World)
    (pc : Nat) {index : Nat} {value : JInt} (held : locals index = some (.int value))
    (above : -2 ^ 15 ≤ amount) (below : amount < 2 ^ 15) :
    execute env code ⟨pc, stack, locals, world⟩ (makeIincInstruction index amount) =
      .running ⟨pc + 1, stack,
        locals.write index (.int (value + BitVec.ofInt 32 amount)), world⟩ := by
  unfold makeIincInstruction
  split
  · rename_i narrow
    change increment _ index ((BitVec.ofInt 8 amount).signExtend 32) = _
    rw [sign_extend_of_int (by decide) narrow.2.1 narrow.2.2]
    simp only [increment, held]
  · change increment _ index ((BitVec.ofInt 16 amount).signExtend 32) = _
    rw [sign_extend_of_int (by decide) above below]
    simp only [increment, held]

theorem increment_local_computes {index : Nat} {value : JInt}
    {state later : Translator} {done : Bool} (held : locals index = some (.int value))
    (above : -2 ^ 15 ≤ amount) (below : amount < 2 ^ 15)
    (ran : (incrementLocal dest index amount).run state = .ok (done, later)) :
    done = true ∧ later.locals.getTypedLocalIndex = state.locals.getTypedLocalIndex ∧
      ∃ after, after index = some (.int (value + BitVec.ofInt 32 amount)) ∧
        Emitted state later (stack, locals) (stack, after) := by
  obtain ⟨_, pushed, appended, rest⟩ := bind_ok ran
  obtain ⟨_, noted, modified, returned⟩ := bind_ok rest
  have pushedIs : pushed = _ := modify_ok appended
  have notedIs : noted = _ := modify_ok modified
  obtain ⟨rfl, rfl⟩ := pure_ok returned
  subst notedIs pushedIs
  refine ⟨rfl, rfl, ?_⟩
  by_cases zero : amount = 0
  · subst zero
    refine ⟨locals, by simpa using held, InternedConstantPool.Includes.refl _, [], rfl, ?_⟩
    exact fun _ _ _ => Executes.nil _ _
  · refine ⟨locals.write index (.int (value + BitVec.ofInt 32 amount)), if_pos rfl,
      InternedConstantPool.Includes.refl _, [makeIincInstruction index amount], ?_, ?_⟩
    · simp only [ne_eq, zero, not_false_eq_true, if_true]
    · intro World env library known
      exact Executes.single fun code world => iinc_executes env code world _ held above below

theorem iinc_amount_of_holds {bits : JInt} {sign : Int}
    (holds : OperandHolds table locals operand (.int .i32 bits))
    (isAmount : iincAmount operand sign = some amount) :
    amount = bits.toInt * sign ∧ -2 ^ 15 ≤ amount ∧ amount < 2 ^ 15 := by
  cases holds with
  | literal =>
    change (if _ then some _ else none) = some amount at isAmount
    split at isAmount
    · cases isAmount
      exact ⟨rfl, ‹_›⟩
    · cases isAmount
  | named => cases isAmount

/-- An attempt leaves the translator as it is, or computes the value. -/
def Attempts (table : LocalTable) (attempt : Translate Bool) (dest : String) (ty : Ty)
    (before : List Value × Locals) (stack : List Value) (value : Value) : Prop :=
  ∀ state later done, state.locals = table → attempt.run state = .ok (done, later) →
    (done = false ∧ later = state) ∨
    (done = true ∧ ∃ slot locals, later.locals.getTypedLocalIndex dest ty = some slot ∧
      locals slot = some value ∧ Emitted state later before (stack, locals))

/-- An attempt, and other code for the value when it leaves the translator alone. -/
theorem Attempts.or_else {attempt : Translate Bool} {other : Translate Unit} {ty : Ty}
    {before : List Value × Locals} {value : Value}
    (attempts : Attempts table attempt dest ty before stack value)
    (otherwise : Computes table other dest ty before stack value) :
    Computes table (do if ← attempt then pure () else other) dest ty before stack value := by
  intro state later same ran
  obtain ⟨done, middle, tried, rest⟩ := bind_ok ran
  rcases attempts state middle done same tried with ⟨rfl, rfl⟩ | ⟨rfl, slot, after, found⟩
  · exact otherwise middle later same rest
  · obtain ⟨-, rfl⟩ := pure_ok rest
    exact ⟨slot, after, found⟩

section Arithmetic

variable {kind : IntTy} {left right result : BitVec kind.width} {op1 op2 : Operand}

section

variable (leftHolds : OperandHolds table locals op1 (.int kind left))

include leftHolds

variable (rightHolds : OperandHolds table locals op2 (.int kind right))

include rightHolds

theorem iinc_update_attempts (sign : Int) :
    Attempts table (emitIincUpdate dest op1 op2 sign) dest (.int kind) (stack, locals) stack
      (encodeInt kind (left + BitVec.ofInt kind.width (right.toInt * sign))) := by
  intro state later done same ran
  unfold emitIincUpdate at ran
  split at ran
  case h_2 =>
    obtain ⟨rfl, rfl⟩ := pure_ok ran
    exact .inl ⟨rfl, rfl⟩
  case h_1 name =>
    -- only an `i32` variable gets here
    cases leftHolds.type
    split at ran
    case isFalse =>
      obtain ⟨rfl, rfl⟩ := pure_ok ran
      exact .inl ⟨rfl, rfl⟩
    case isTrue sameName =>
      subst sameName
      obtain ⟨_, middle, got, rest⟩ := bind_ok ran
      obtain ⟨rfl, rfl⟩ := get_ok got
      split at rest
      · rename_i delta slot isAmount isSlot
        obtain ⟨known, encoded, isKnown, encodes, held⟩ := leftHolds.slot
        cases encodes
        rw [same] at isSlot
        cases isKnown.symm.trans isSlot
        obtain ⟨isDelta, above, below⟩ := iinc_amount_of_holds rightHolds isAmount
        obtain ⟨isDone, sameSlots, after, stored, emitted⟩ :=
          increment_local_computes held above below rest
        rw [isDelta] at stored
        exact .inr ⟨isDone, slot, after, by rw [sameSlots, same, isSlot], stored, emitted⟩
      · obtain ⟨rfl, rfl⟩ := pure_ok rest
        exact .inl ⟨rfl, rfl⟩

theorem iinc_add_attempts :
    Attempts table (emitIincAdd dest op1 op2) dest (.int kind) (stack, locals) stack
      (encodeInt kind (left + right)) := by
  have direct : Attempts table (emitIincUpdate dest op1 op2 1) dest _ (stack, locals) stack _ :=
    iinc_update_attempts leftHolds rightHolds 1
  have swapped : Attempts table (emitIincUpdate dest op2 op1 1) dest _ (stack, locals) stack _ :=
    iinc_update_attempts rightHolds leftHolds 1
  rw [mul_one, ofInt_toInt] at direct swapped
  rw [BitVec.add_comm] at swapped
  intro state later done same ran
  obtain ⟨first, middle, tried, rest⟩ := bind_ok ran
  rcases direct state middle first same tried with ⟨rfl, rfl⟩ | ⟨rfl, found⟩
  · exact swapped middle later done same rest
  · obtain ⟨rfl, rfl⟩ := pure_ok rest
    exact .inr ⟨rfl, found⟩

theorem iinc_sub_attempts :
    Attempts table (emitIincSub dest op1 op2) dest (.int kind) (stack, locals) stack
      (encodeInt kind (left - right)) := by
  have update : Attempts table (emitIincUpdate dest op1 op2 (-1)) dest _ (stack, locals) stack _ :=
    iinc_update_attempts leftHolds rightHolds (-1)
  rwa [mul_neg_one, ofInt_neg, ofInt_toInt, ← sub_eq_add_neg] at update

end

/-- Whichever code is emitted for an arithmetic operator computes its fold. -/
theorem arithmetic_computes (op : Oomir.ArithmeticOp)
    (leftHolds : OperandHolds table locals op1 (.int kind left))
    (rightHolds : OperandHolds table locals op2 (.int kind right))
    (folds : foldInteger kind op left right = some result) :
    Computes table (translateArithmetic op dest op1 op2) dest (.int kind) (stack, locals) stack
      (encodeInt kind result) := by
  have sameType : op1.getType = .int kind := leftHolds.type
  have plain : ((op = .div ∨ op = .rem) → kind.signed = true) → Computes table _ dest _ _ stack _ :=
    fun signed => (plain_arithmetic_assigns leftHolds rightHolds signed (fold_applies signed folds)).computes
  unfold translateArithmetic
  rw [sameType]
  cases op with
  | add =>
    cases folds
    exact (iinc_add_attempts leftHolds rightHolds).or_else (plain (by simp))
  | sub =>
    cases folds
    exact (iinc_sub_attempts leftHolds rightHolds).or_else (plain (by simp))
  | mul => exact plain (by simp)
  | div =>
    cases signed : kind.signed with
    | true => simpa [translateArithmetic.isUnsignedInteger, signed] using plain fun _ => signed
    | false =>
      simpa [translateArithmetic.isUnsignedInteger, signed] using
        (unsigned_div_rem_assigns leftHolds rightHolds false signed folds).computes
  | rem =>
    cases signed : kind.signed with
    | true => simpa [translateArithmetic.isUnsignedInteger, signed] using plain fun _ => signed
    | false =>
      simpa [translateArithmetic.isUnsignedInteger, signed] using
        (unsigned_div_rem_assigns leftHolds rightHolds true signed folds).computes

end Arithmetic

end RustcCodegenJvm.Lower2
