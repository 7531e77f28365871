import RustcCodegenJvm.Lower2.WideEmission
import RustcCodegenJvm.Lower2.FoldAgreement
import RustcCodegenJvm.Lower2.RuntimeMachine

/-!
# Folded operators against the 128-bit runtime

The interpreter computes on unbounded integers, reduces the result to 128 bits
and writes it as a decimal string; the emitted code builds the operands and
calls the runtime. Only the decimal syntax is taken from outside the
repository: what is read back is what was written, and the two parsers agree on
what the narrower one accepts.
-/

namespace RustcCodegenJvm.Lower2

open Jvm Oomir RustcCodegenJvm.Runtime InternedConstantPool Translate BitVec

/-- The decimal syntax of `i128`, `u128` and `BigInt`. -/
structure WideParser.Decimal (parser : WideParser) (numerics : Numerics) : Prop where
  reads : ∀ signed digits value, parser.parse signed digits = .ok value →
    numerics.parseBigInt digits = some (bitsNumber signed value)
  shows : ∀ signed value, parser.parse signed (numerics.showBigInt (bitsNumber signed value)) = .ok value

inductive Content
  | word (value : Value)
  | wide (signed : Bool) (bits : U128)
deriving DecidableEq

def Content.At {World : Type} {env : Environment World} (library : WideLibrary env) (content : Content)
    (world : World) (value : Value) : Prop :=
  match content with
  | word expected => value = expected
  | wide signed bits => library.Refers world signed bits value

namespace Operation

/-- The choice of the translator by the types of the operands. -/
def emit (parser : WideParser) (dest : String) (operation : Operation Operand) : Translate Unit :=
  match operation with
  | arithmetic op op1 op2 =>
    if isWideType op1.getType ∨ isWideType op2.getType then
      translateInt128BinaryOp parser dest op1 op2 (Wide.arithmeticMethod op).name
    else operation.translate dest
  | bitwise op op1 op2 =>
    if isWideType op1.getType then
      translateInt128BinaryOp parser dest op1 op2 (Wide.bitwiseMethod op).name
    else operation.translate dest
  | comparison op op1 op2 =>
    match wideTypeName op1.getType with
    | some className => translateInt128Comparison parser dest op1 op2 className op
    | none => operation.translate dest
  | shift op op1 op2 =>
    if isWideType op1.getType then translateInt128Shift parser dest op1 op2 (Wide.shiftName op)
    else operation.translate dest
  | not operand =>
    if isWideType operand.getType then
      translateInt128UnaryOp parser dest operand Wide.UnaryMethod.not.name
    else operation.translate dest
  | neg operand =>
    if isWideType operand.getType then
      translateInt128UnaryOp parser dest operand Wide.UnaryMethod.negate.name
    else operation.translate dest

end Operation

section Agreement

variable {World : Type} {env : Environment World} {library : WideLibrary env} {parser : WideParser}
  {numerics : Numerics}

def IsWide (parser : WideParser) (signed : Bool) (value : BitVec 128) (constant : Constant) : Prop :=
  ∃ digits, wideDigits constant = some (signed, digits) ∧ parser.parse signed digits = .ok value

structure WideAgrees (library : WideLibrary env) (parser : WideParser) (table : LocalTable)
    (locals : Locals) (world : World) (signed : Bool) (value : BitVec 128) (operand : Operand)
    (constant : Constant) : Prop where
  holds : WideHolds library parser table locals world signed (wordsOf value) operand
  constant : IsWide parser signed value constant

/-- The operands stand for 128-bit integers of one type; a shift amount has any integer type. -/
inductive WideOperation (library : WideLibrary env) (parser : WideParser) (table : LocalTable)
    (locals : Locals) (world : World) (signed : Bool) : Operation Operand → Operation Constant → Prop
  | arithmetic (op : Oomir.ArithmeticOp) {op1 op2 : Operand} {left right : Constant}
      {leftValue rightValue : BitVec 128} :
    WideAgrees library parser table locals world signed leftValue op1 left →
    WideAgrees library parser table locals world signed rightValue op2 right →
      WideOperation library parser table locals world signed (.arithmetic op op1 op2)
        (.arithmetic op left right)
  | bitwise (op : Oomir.BitwiseOp) {op1 op2 : Operand} {left right : Constant}
      {leftValue rightValue : BitVec 128} :
    WideAgrees library parser table locals world signed leftValue op1 left →
    WideAgrees library parser table locals world signed rightValue op2 right →
      WideOperation library parser table locals world signed (.bitwise op op1 op2)
        (.bitwise op left right)
  | comparison (op : ComparisonOp) {op1 op2 : Operand} {left right : Constant}
      {leftValue rightValue : BitVec 128} :
    WideAgrees library parser table locals world signed leftValue op1 left →
    WideAgrees library parser table locals world signed rightValue op2 right →
      WideOperation library parser table locals world signed (.comparison op op1 op2)
        (.comparison op left right)
  | shift (op : Oomir.ShiftOp) {op1 op2 : Operand} {constant : Constant} {value : BitVec 128}
      {amountKind : IntTy} {amount : BitVec amountKind.width} :
    WideAgrees library parser table locals world signed value op1 constant →
    OperandHolds table locals op2 (.int amountKind amount) →
      WideOperation library parser table locals world signed (.shift op op1 op2)
        (.shift op constant (.int amountKind amount))
  | shiftWide (op : Oomir.ShiftOp) {op1 op2 : Operand} {constant amount : Constant}
      {value amountValue : BitVec 128} {amountSigned : Bool} :
    WideAgrees library parser table locals world signed value op1 constant →
    WideAgrees library parser table locals world amountSigned amountValue op2 amount →
      WideOperation library parser table locals world signed (.shift op op1 op2)
        (.shift op constant amount)
  | not {operand : Operand} {constant : Constant} {value : BitVec 128} :
    WideAgrees library parser table locals world signed value operand constant →
      WideOperation library parser table locals world signed (.not operand) (.not constant)
  | neg {operand : Operand} {constant : Constant} {value : BitVec 128} :
    WideAgrees library parser table locals world signed value operand constant →
      WideOperation library parser table locals world signed (.neg operand) (.neg constant)

/-- Where the fold and the runtime give one value: everywhere but for a shift by 128 or more
whose masked distance still leaves something of the value. -/
def Operation.WideFoldExact (numerics : Numerics) : Operation Constant → Prop
  | .shift op constant (.int _ amount) =>
    amount.toNat < 128 ∨ ∃ number, parseConstantToBigint numerics constant = some number ∧
      match op with
      | .shl => (2 : Int) ^ 128 ∣ number * 2 ^ (amount.toNat % 128)
      | .shr => -2 ^ (amount.toNat % 128) ≤ number ∧ number < 2 ^ (amount.toNat % 128)
  | _ => True

/-! ### What the interpreter folds to -/

variable {signed : Bool} {value : BitVec 128} {constant : Constant}
  (isWide : IsWide parser signed value constant)

include isWide in
theorem IsWide.shape : ∃ fields digits paramTypes,
      constant = .instance (wideClass signed) fields [.string digits] paramTypes ∧
      parser.parse signed digits = .ok value := by
  obtain ⟨digits, shape, parsed⟩ := isWide
  unfold wideDigits at shape
  split at shape
  · rename_i className fields text paramTypes
    obtain ⟨sign, isSign, isPair⟩ := Option.map_eq_some_iff.mp shape
    cases isPair
    rw [wide_sign_class isSign]
    exact ⟨fields, digits, paramTypes, rfl, parsed⟩
  · cases shape

theorem is_wide_class (signed : Bool) : isWideClass (wideClass signed) = true := by
  cases signed <;> decide

theorem IsWide.number (decimal : parser.Decimal numerics)
    (isWide : IsWide parser signed value constant) :
    parseConstantToBigint numerics constant = some (bitsNumber signed value) := by
  obtain ⟨fields, digits, paramTypes, rfl, parsed⟩ := isWide.shape
  simp [parseConstantToBigint, is_wide_class, decimal.reads signed digits value parsed]

include isWide in
theorem IsWide.type : Ty.fromConstant constant = .class (wideClass signed) := by
  obtain ⟨fields, digits, paramTypes, rfl, -⟩ := isWide.shape
  have notPointer : wideClass signed ≠ pointerClass := by cases signed <;> decide
  exact if_neg notPointer

theorem bits_number_of_int (signed : Bool) (number : Int) :
    bitsNumber signed (BitVec.ofInt 128 number) = Wide.wrap signed number := by
  cases signed with
  | true => exact (Wide.wrap_signed_of_bits number).symm
  | false => exact (Wide.wrap_unsigned_of_bits number).symm

variable {number : Int}

theorem IsWide.folded (decimal : parser.Decimal numerics)
    {folded : Constant} (isWide : IsWide parser signed value constant)
    (folds : bigintToIntegerConstantLike numerics number constant = some folded) :
    IsWide parser signed (BitVec.ofInt 128 number) folded := by
  obtain ⟨fields, digits, paramTypes, rfl, -⟩ := isWide.shape
  cases signed with
  | true =>
    cases folds
    exact ⟨_, rfl, decimal.shows true _⟩
  | false =>
    cases folds
    exact ⟨_, rfl, decimal.shows false _⟩

def LoadsAs (library : WideLibrary env) (parser : WideParser) (constant : Constant)
    (content : Content) : Prop :=
  ∀ table stack locals world, Triple env (At table stack locals world)
    (loadWideOperand parser (.constant constant))
    fun tableAfter stackAfter localsAfter worldAfter =>
      tableAfter = table ∧ localsAfter = locals ∧ library.Keeps world worldAfter ∧
        ∃ value, stackAfter = value :: stack ∧ content.At library worldAfter value

include isWide in
theorem IsWide.loads : LoadsAs library parser constant (.wide signed (wordsOf value)) := by
  obtain ⟨digits, shape, parsed⟩ := isWide
  exact fun table stack locals world =>
    load_wide_operand_triple (.literal constant digits value shape parsed rfl)

theorem boolean_loads (truth : Bool) :
    LoadsAs library parser (.boolean truth) (.word (.int (if truth then 1 else 0))) := by
  intro table stack locals world
  refine Triple.of_emitted library.java (Grows.load_wide_operand parser _) ?_
  rintro state later ran _ _ _ ⟨isTable, rfl, rfl, rfl⟩
  have pushes : EmitsPush (pure (.iconst (if truth then .one else .zero)))
      (.int (if truth then 1 else 0)) :=
    pure_emits_push fun env code frame => by cases truth <;> rfl
  obtain ⟨isLater, emitted⟩ := Emits.load_constant pushes state later isTable ran
  exact ⟨_, _, emitted, isLater, rfl, WideLibrary.Keeps.refl _, _, rfl, rfl⟩

/-! ### Masked distances -/

theorem bits_number_injective (signed : Bool) {left right : BitVec 128} :
    bitsNumber signed left = bitsNumber signed right ↔ left = right := by
  refine ⟨fun same => ?_, fun same => by rw [same]⟩
  cases signed with
  | true => exact eq_of_toInt_eq same
  | false => exact eq_of_toNat_eq (Int.ofNat_inj.mp same)

/-- An object whose number is the reduced first integer has the bits of the second exactly
where the two are reduced to one number. -/
theorem words_of_int_iff {bits : U128} {computed folded : Int}
    (isNumber : Wide.number signed bits = Wide.wrap signed computed) :
    bits = wordsOf (BitVec.ofInt 128 folded) ↔
      Wide.wrap signed computed = Wide.wrap signed folded := by
  rw [← Wide.number_injective signed, number_words_of, isNumber, bits_number_of_int]

def InRange (signed : Bool) (number : Int) : Prop :=
  if signed then -2 ^ 127 ≤ number ∧ number < 2 ^ 127 else 0 ≤ number ∧ number < 2 ^ 128

theorem bits_number_in_range (signed : Bool) (value : BitVec 128) :
    InRange signed (bitsNumber signed value) := by
  cases signed with
  | true => exact ⟨BitVec.le_toInt value, toInt_lt⟩
  | false =>
    have bound : (value.toNat : Int) < 2 ^ 128 := by exact_mod_cast value.isLt
    exact ⟨Int.natCast_nonneg _, bound⟩

theorem wrap_of_range (inside : InRange signed number) :
    Wide.wrap signed number = number := by
  cases signed with
  | true =>
    obtain ⟨above, below⟩ : -2 ^ 127 ≤ number ∧ number < 2 ^ 127 := inside
    exact Int.bmod_eq_of_le (by omega) (by omega)
  | false =>
    obtain ⟨above, below⟩ : 0 ≤ number ∧ number < 2 ^ 128 := inside
    exact Int.emod_eq_of_lt above below

theorem div_between {divisor lower upper : Int} (positive : 0 < divisor) (above : lower ≤ number)
    (below : number < upper) (lowerSign : lower ≤ 0) (upperSign : 0 < upper) :
    lower ≤ number / divisor ∧ number / divisor < upper := by
  rw [Int.le_ediv_iff_mul_le positive, Int.ediv_lt_iff_lt_mul positive]
  constructor
  · nlinarith
  · nlinarith

theorem shifted_in_range (inside : InRange signed number)
    (distance : Nat) : InRange signed (number / 2 ^ distance) := by
  have positive : (0 : Int) < 2 ^ distance := by positivity
  cases signed with
  | true => exact div_between positive inside.1 inside.2 (by decide) (by decide)
  | false => exact div_between positive inside.1 inside.2 (by decide) (by decide)

/-- Masking the distance of a shift changes nothing exactly under the stated condition. -/
theorem wrap_masked_iff (op : Oomir.ShiftOp) (inside : InRange signed number) (amount : Nat) :
    Wide.wrap signed (op.applyBig number (amount % 128)) = Wide.wrap signed (op.applyBig number amount) ↔
      amount < 128 ∨
        match op with
        | .shl => (2 : Int) ^ 128 ∣ number * 2 ^ (amount % 128)
        | .shr => -2 ^ (amount % 128) ≤ number ∧ number < 2 ^ (amount % 128) := by
  rcases lt_or_ge amount 128 with small | large
  · simp only [Nat.mod_eq_of_lt small, small, true_or]
  · simp only [Nat.not_lt.mpr large, false_or]
    have masked : amount % 128 ≤ amount := Nat.mod_le _ _
    cases op with
    | shl =>
      have vanishes : BitVec.ofInt 128 (number * 2 ^ amount) = BitVec.ofNat 128 0 :=
        (of_int_eq_zero_iff _).mpr (Dvd.dvd.mul_left (pow_dvd_pow 2 large) number)
      rw [Oomir.ShiftOp.applyBig, Oomir.ShiftOp.applyBig, ← bits_number_of_int, ← bits_number_of_int,
        bits_number_injective, vanishes, of_int_eq_zero_iff]
    | shr =>
      have bounds : -(2 : Int) ^ 128 ≤ number ∧ number < 2 ^ 128 := by
        cases signed with
        | true =>
          obtain ⟨above, below⟩ : -2 ^ 127 ≤ number ∧ number < 2 ^ 127 := inside
          omega
        | false =>
          obtain ⟨above, below⟩ : 0 ≤ number ∧ number < 2 ^ 128 := inside
          omega
      have room : (2 : Int) ^ 128 ≤ 2 ^ amount := pow_le_pow_right₀ (by decide) large
      rw [Oomir.ShiftOp.applyBig, Oomir.ShiftOp.applyBig, wrap_of_range (shifted_in_range inside _),
        wrap_of_range (shifted_in_range inside _)]
      exact div_eq_div_iff (by positivity) (pow_le_pow_right₀ (by decide) masked) (by omega) (by omega)

/-! ### Agreement -/

section Cases

variable {table : LocalTable} {stack : List Value} {locals : Locals} {world : World} {signed : Bool}
  {dest : String}

variable {value leftValue rightValue : BitVec 128} {constant left right : Constant}
  {op1 op2 : Operand}

theorem WideAgrees.is_wide_type {operand : Operand}
    (agrees : WideAgrees library parser table locals world signed value operand constant) :
    isWideType operand.getType = true := by
  rw [agrees.holds.type]
  exact is_wide_class signed

/-- Two results of one operation, the one the code leaves and the one the folded constant loads. -/
structure FoldsAgainst (library : WideLibrary env) (parser : WideParser) (table : LocalTable)
    (stack : List Value) (locals : Locals) (world : World) (dest : String)
    (operands : Operation Operand) (folded : Constant) (executed loaded : Content) : Prop where
  executes : Triple env (At table stack locals world) (operands.emit parser dest)
    (Stored library table stack locals world dest (Ty.fromConstant folded) (executed.At library))
  loads : LoadsAs library parser folded loaded

variable (decimal : parser.Decimal numerics)

include decimal

variable {folded : Constant}

theorem arithmetic_folds (op : Oomir.ArithmeticOp)
    (leftAgrees : WideAgrees library parser table locals world signed leftValue op1 left)
    (rightAgrees : WideAgrees library parser table locals world signed rightValue op2 right)
    (folds : arithmeticConstants numerics op left right = some folded) :
    ∃ content, FoldsAgainst library parser table stack locals world dest (.arithmetic op op1 op2)
      folded content content := by
  have sameType : Ty.fromConstant left = Ty.fromConstant right :=
    leftAgrees.constant.type.trans rightAgrees.constant.type.symm
  have wideLeft : isWideConstant left = true := by
    obtain ⟨fields, digits, paramTypes, rfl, -⟩ := leftAgrees.constant.shape
    exact is_wide_class signed
  simp only [arithmeticConstants, unifyOpsType, if_pos sameType, Option.bind_eq_bind, Option.bind_some,
    wideLeft, if_true, leftAgrees.constant.number decimal, rightAgrees.constant.number decimal] at folds
  obtain ⟨result, applied, isFolded⟩ := Option.bind_eq_some_iff.mp folds
  have foldedWide := leftAgrees.constant.folded decimal isFolded
  rw [← number_words_of, ← number_words_of] at applied
  obtain ⟨bits, computes, isNumber⟩ := Wide.arithmetic_number op signed _ _ applied
  have isBits : bits = wordsOf (BitVec.ofInt 128 result) := (words_of_int_iff isNumber).mpr rfl
  refine ⟨.wide signed (wordsOf (BitVec.ofInt 128 result)), ?_, foldedWide.loads⟩
  rw [foldedWide.type, Operation.emit, if_pos (.inl leftAgrees.is_wide_type)]
  exact int128_binary_op_triple _ leftAgrees.holds rightAgrees.holds (isBits ▸ computes)

theorem bitwise_folds (op : Oomir.BitwiseOp)
    (leftAgrees : WideAgrees library parser table locals world signed leftValue op1 left)
    (rightAgrees : WideAgrees library parser table locals world signed rightValue op2 right)
    (folds : bitwiseConstants numerics op left right = some folded) :
    ∃ content, FoldsAgainst library parser table stack locals world dest (.bitwise op op1 op2)
      folded content content := by
  simp only [bitwiseConstants, leftAgrees.constant.number decimal,
    rightAgrees.constant.number decimal] at folds
  have foldedWide := leftAgrees.constant.folded decimal folds
  obtain ⟨bits, computes, isNumber⟩ :=
    Wide.bitwise_number op signed (wordsOf leftValue) (wordsOf rightValue)
  rw [number_words_of, number_words_of] at isNumber
  have isBits := (words_of_int_iff isNumber).mpr rfl
  refine ⟨.wide signed bits, ?_, isBits ▸ foldedWide.loads⟩
  rw [foldedWide.type, Operation.emit, if_pos leftAgrees.is_wide_type]
  exact int128_binary_op_triple _ leftAgrees.holds rightAgrees.holds computes

theorem comparison_folds (op : ComparisonOp)
    (leftAgrees : WideAgrees library parser table locals world signed leftValue op1 left)
    (rightAgrees : WideAgrees library parser table locals world signed rightValue op2 right)
    (folds : (comparisonConstants numerics op left right).map Constant.boolean = some folded) :
    ∃ content, FoldsAgainst library parser table stack locals world dest (.comparison op op1 op2)
      folded content content := by
  have compared : comparisonConstants numerics op left right =
      some (op.holds (compare (bitsNumber signed leftValue) (bitsNumber signed rightValue))) := by
    unfold comparisonConstants compareConstants
    simp only [compareBigints, leftAgrees.constant.number decimal, rightAgrees.constant.number decimal]
    rfl
  rw [compared] at folds
  cases folds
  refine ⟨_, ?_, boolean_loads _⟩
  have chosen : wideTypeName op1.getType = some (wideClass signed) := by
    rw [leftAgrees.holds.type, wideTypeName, if_pos (is_wide_class signed)]
  simp only [Operation.emit, chosen, ← number_words_of]
  exact int128_comparison_triple op leftAgrees.holds rightAgrees.holds

theorem unary_folds (method : Wide.UnaryMethod) {operand : Operand} {operands : Operation Operand}
    (agrees : WideAgrees library parser table locals world signed value operand constant)
    (emits : operands.emit parser dest = translateInt128UnaryOp parser dest operand method.name)
    (folds : bigintToIntegerConstantLike numerics (method.applyBig (bitsNumber signed value)) constant =
      some folded) : ∃ content, FoldsAgainst library parser table stack locals world dest operands
      folded content content := by
  have foldedWide := agrees.constant.folded decimal folds
  have isNumber := Wide.unary_number method signed (wordsOf value)
  rw [number_words_of] at isNumber
  have isBits := (words_of_int_iff isNumber).mpr rfl
  refine ⟨.wide signed (method.apply signed (wordsOf value)), ?_, isBits ▸ foldedWide.loads⟩
  rw [foldedWide.type, emits]
  exact int128_unary_op_triple method agrees.holds

theorem shift_folds (op : Oomir.ShiftOp) {amountKind : IntTy} {amount : BitVec amountKind.width}
    (agrees : WideAgrees library parser table locals world signed value op1 constant)
    (amountHolds : OperandHolds table locals op2 (.int amountKind amount))
    (folds : shiftConstants numerics op constant (.int amountKind amount) = some folded) :
    ∃ executed loaded, FoldsAgainst library parser table stack locals world dest (.shift op op1 op2)
      folded executed loaded ∧ (executed = loaded ↔
        (Operation.shift op constant (.int amountKind amount)).WideFoldExact numerics) := by
  simp only [shiftConstants, agrees.constant.number decimal, Option.bind_eq_bind,
    Option.bind_some] at folds
  obtain ⟨distance, isDistance, isFolded⟩ := Option.bind_eq_some_iff.mp folds
  rw [shift_amount_eq isDistance] at isFolded
  have foldedWide := agrees.constant.folded decimal isFolded
  have isNumber := Wide.shift_number op signed (wordsOf value) (lowAmount amountKind amount)
  have masked : (lowAmount amountKind amount).toNat % 128 = amount.toNat % 128 :=
    low_amount_mod amountKind amount (by decide : 7 ≤ 8)
  rw [number_words_of, masked] at isNumber
  refine ⟨.wide signed (Wide.shift op signed (wordsOf value) (lowAmount amountKind amount)), _,
    ⟨?_, foldedWide.loads⟩, ?_⟩
  · rw [foldedWide.type, Operation.emit, if_pos agrees.is_wide_type]
    exact int128_shift_triple op agrees.holds amountHolds
  · rw [Content.wide.injEq, words_of_int_iff isNumber,
      wrap_masked_iff op (bits_number_in_range signed value)]
    simp [Operation.WideFoldExact, agrees.constant.number decimal]

end Cases

/-- Whenever the interpreter folds an operation on 128-bit integers, the emitted code runs to its
end and leaves a value, loading the folded constant leaves a value, and the two are the same
exactly where no shift is by 128 or more with something left by the masked distance. -/
theorem wide_fold_agrees_iff (decimal : parser.Decimal numerics) {table : LocalTable}
    {locals : Locals} {world : World} {signed : Bool} {operands : Operation Operand}
    {constants : Operation Constant} {folded : Constant} (stack : List Value) (dest : String)
    (holds : WideOperation library parser table locals world signed operands constants)
    (folds : constants.fold numerics = some folded) :
    ∃ executed loaded, FoldsAgainst library parser table stack locals world dest operands folded
      executed loaded ∧ (executed = loaded ↔ constants.WideFoldExact numerics) := by
  cases holds with
  | arithmetic op leftAgrees rightAgrees =>
    obtain ⟨content, against⟩ := arithmetic_folds decimal op leftAgrees rightAgrees folds
    exact ⟨content, content, against, iff_of_true rfl trivial⟩
  | bitwise op leftAgrees rightAgrees =>
    obtain ⟨content, against⟩ := bitwise_folds decimal op leftAgrees rightAgrees folds
    exact ⟨content, content, against, iff_of_true rfl trivial⟩
  | comparison op leftAgrees rightAgrees =>
    obtain ⟨content, against⟩ := comparison_folds decimal op leftAgrees rightAgrees folds
    exact ⟨content, content, against, iff_of_true rfl trivial⟩
  | shift op agrees amountHolds => exact shift_folds decimal op agrees amountHolds folds
  | shiftWide op agrees amountAgrees =>
    -- an amount of 128 bits is not folded
    obtain ⟨fields, digits, paramTypes, rfl, -⟩ := amountAgrees.constant.shape
    simp [Operation.fold, shiftConstants, getShiftAmount] at folds
  | @not operand constant value agrees =>
    have emits : (Operation.not operand).emit parser dest = _ := if_pos agrees.is_wide_type
    obtain ⟨fields, digits, paramTypes, rfl, -⟩ := agrees.constant.shape
    simp only [Operation.fold, notConstant, agrees.constant.number decimal] at folds
    obtain ⟨content, against⟩ := unary_folds decimal .not agrees emits folds
    exact ⟨content, content, against, iff_of_true rfl trivial⟩
  | @neg operand constant value agrees =>
    have emits : (Operation.neg operand).emit parser dest = _ := if_pos agrees.is_wide_type
    obtain ⟨fields, digits, paramTypes, rfl, -⟩ := agrees.constant.shape
    simp only [Operation.fold, negConstant, is_wide_class, if_true,
      agrees.constant.number decimal] at folds
    obtain ⟨content, against⟩ := unary_folds decimal .negate agrees emits folds
    exact ⟨content, content, against, iff_of_true rfl trivial⟩

end Agreement

/-! ### Decimal integers -/

/-- The decimal syntax of integers, with the range of the type. -/
def WideParser.integral : WideParser where
  parse signed digits :=
    match digits.toInt? with
    | some number =>
      if bitsNumber signed (BitVec.ofInt 128 number) = number then .ok (BitVec.ofInt 128 number)
      else .error "number too large to fit in target type"
    | none => .error "invalid digit found in string"
  debugConstant _ := ""

variable (signed : Bool) (value : BitVec 128)

theorem of_int_bits_number : BitVec.ofInt 128 (bitsNumber signed value) = value := by
  cases signed with
  | true => exact ofInt_toInt
  | false => rw [bitsNumber, if_neg (by decide), ofInt_natCast, ofNat_toNat, setWidth_eq]

theorem WideParser.integral_decimal : WideParser.integral.Decimal Numerics.integral where
  reads signed digits value parsed := by
    change digits.toInt? = _
    simp only [WideParser.integral] at parsed
    split at parsed
    · rename_i number isNumber
      split at parsed
      · rename_i exact
        cases parsed
        rw [isNumber, exact]
      · cases parsed
    · cases parsed
  shows signed value := by
    have read : (Numerics.integral.showBigInt (bitsNumber signed value)).toInt? =
        some (bitsNumber signed value) := Int.toInt?_repr _
    simp only [WideParser.integral, read, of_int_bits_number, if_true]

def wideLiteral (signed : Bool) (value : BitVec 128) : Constant :=
  .instance (wideClass signed) [] [.string (toString (bitsNumber signed value))] []

theorem wide_literal_is_wide : IsWide .integral signed value (wideLiteral signed value) := by
  cases signed with
  | true => exact ⟨_, rfl, WideParser.integral_decimal.shows true value⟩
  | false => exact ⟨_, rfl, WideParser.integral_decimal.shows false value⟩

theorem wide_literal_agrees {World : Type} {env : Environment World} (library : WideLibrary env)
    (table : LocalTable) (locals : Locals) (world : World) (signed : Bool) (value : BitVec 128) :
    WideAgrees library .integral table locals world signed value (.constant (wideLiteral signed value))
      (wideLiteral signed value) := by
  obtain ⟨digits, shape, parsed⟩ := wide_literal_is_wide signed value
  exact ⟨.literal _ digits value shape parsed rfl, digits, shape, parsed⟩

theorem shift_literal_emit (op : Oomir.ShiftOp) (signed : Bool) (value : BitVec 128) (amount : Operand)
    (dest : String) :
    (Operation.shift op (.constant (wideLiteral signed value)) amount).emit .integral dest =
      translateInt128Shift .integral dest (.constant (wideLiteral signed value)) amount
        (Wide.shiftName op) := by
  have isWide : isWideType (Ty.fromConstant (wideLiteral signed value)) = true := by
    rw [(wide_literal_is_wide signed value).type]
    exact is_wide_class signed
  exact if_pos isWide

theorem load_wide_literal : loadWideOperand .integral (.constant (wideLiteral signed value)) = (do
      pushAll (← pooled (do
        let classIndex ← addClass (wideClass signed)
        let constructor ← addMethodRef classIndex "<init>" "(JJ)V"
        let high ← getLongConstInstr (value.extractLsb' 64 64)
        let low ← getLongConstInstr (value.setWidth 64)
        return [.new classIndex, .dup, high, low, .invoke .special constructor]))) := by
  have shape : wideDigits (wideLiteral signed value) =
      some (signed, toString (bitsNumber signed value)) := by
    cases signed <;> rfl
  have parsed : WideParser.integral.parse signed (toString (bitsNumber signed value)) = .ok value :=
    WideParser.integral_decimal.shows signed value
  simp only [loadWideOperand, shape, loadWideConstant, parsed]

theorem wide_fold_agrees_on_halved_minimum :
    ∃ later, ((Operation.shift .shr (.constant (wideLiteral true (BitVec.intMin 128)))
        (.constant (.int .u8 1))).emit .integral "halved").run .start = .ok ((), later) ∧
      ∃ executed loaded, FoldsAgainst (runtimeLibrary later.constantPool.pool) .integral
        Translator.start.locals [] (fun _ => none) Heap.empty "halved"
        (.shift .shr (.constant (wideLiteral true (BitVec.intMin 128))) (.constant (.int .u8 1)))
        (wideLiteral true (BitVec.ofInt 128 (-2 ^ 126))) executed loaded ∧
      (executed = loaded ↔ (Operation.shift .shr (wideLiteral true (BitVec.intMin 128))
        (.int .u8 1)).WideFoldExact Numerics.integral) := by
  have emitted : ∃ later, ((Operation.shift .shr (.constant (wideLiteral true (BitVec.intMin 128)))
        (.constant (.int .u8 1))).emit .integral "halved").run .start = .ok ((), later) := by
    rw [shift_literal_emit]
    unfold translateInt128Shift
    rw [load_wide_literal]
    exact ⟨_, rfl⟩
  obtain ⟨later, isLater⟩ := emitted
  refine ⟨later, isLater, wide_fold_agrees_iff WideParser.integral_decimal [] "halved"
    (.shift .shr (wide_literal_agrees _ _ _ _ true _) (.literal (.int .u8 1))) ?_⟩
  have number := (wide_literal_is_wide true (BitVec.intMin 128)).number WideParser.integral_decimal
  simp only [Operation.fold, shiftConstants, number]
  rfl

/-- `1u128 << 128` folds to `0`; the runtime masks the distance to `0` and leaves `1`. -/
theorem wide_shift_fold_diverges :
    (Operation.shift .shl (wideLiteral false 1) (.int .i32 128)).fold Numerics.integral =
      some (wideLiteral false 0) ∧
    ∃ later, ((Operation.shift .shl (.constant (wideLiteral false 1)) (.constant (.int .i32 128))).emit
        .integral "shifted").run .start = .ok ((), later) ∧
      FoldsAgainst (runtimeLibrary later.constantPool.pool) .integral Translator.start.locals []
        (fun _ => none) Heap.empty "shifted"
        (.shift .shl (.constant (wideLiteral false 1)) (.constant (.int .i32 128)))
        (wideLiteral false 0) (.wide false ⟨0, 1⟩) (.wide false ⟨0, 0⟩) := by
  constructor
  · have number := (wide_literal_is_wide false 1).number WideParser.integral_decimal
    simp only [Operation.fold, shiftConstants, number]
    rfl
  have emitted : ∃ later, ((Operation.shift .shl (.constant (wideLiteral false 1))
        (.constant (.int .i32 128))).emit .integral "shifted").run .start = .ok ((), later) := by
    rw [shift_literal_emit]
    unfold translateInt128Shift
    rw [load_wide_literal]
    exact ⟨_, rfl⟩
  obtain ⟨later, isLater⟩ := emitted
  refine ⟨later, isLater, ?_, (wide_literal_is_wide false 0).loads⟩
  exact int128_shift_triple .shl (wide_literal_agrees _ _ _ _ false 1).holds (.literal (.int .i32 128))

end RustcCodegenJvm.Lower2
