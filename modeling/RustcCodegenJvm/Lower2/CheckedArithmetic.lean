import RustcCodegenJvm.Lower2.Structs
import RustcCodegenJvm.Lower1.CheckedIntrinsics
import RustcCodegenJvm.Library.Overflow

/-!
# Checked arithmetic on the JVM

The code of a checked intrinsic returns the reduced result and a flag. The flag
says whether the exact result fits the type, but for one product of each of
`i8` and `i16`: the quotient that should tell `MIN * -1` apart is narrowed to
the type before it is compared, and narrows back to `MIN`.
-/

namespace RustcCodegenJvm.Lower2

open BitVec List Store

open Jvm Oomir RustcCodegenJvm.Runtime Library Overflow Lower1 TranslateMethod
  StateExcept

/-! ### Sequences of instructions -/

section Sequences

variable {World : Type} {env : Environment World} {parser : WideParser}
  {dataTypes : String → Option (List Ty)} {ret : Ty} {pre middle post : Assertion World}
  {jumps : JumpAssertion World}

theorem instructions_triple_nil :
    MethodTriple env pre (translateInstructions parser dataTypes ret []) pre jumps :=
  MethodTriple.nothing

variable {instruction : Oomir.Instruction} {state later : MethodTranslator}

variable {action : Translate Unit}
  (isAction : translateInstruction parser dataTypes ret instruction = lift action)
  (head : Triple env pre action middle)

include isAction head

variable {rest : List Oomir.Instruction}

theorem instructions_triple_cons
    (tail : MethodTriple env middle (translateInstructions parser dataTypes ret rest) post jumps) :
    MethodTriple env pre (translateInstructions parser dataTypes ret (instruction :: rest)) post jumps := by
  rw [translateInstructions, isAction]
  apply (MethodTriple.lift head).seq
  apply MethodTriple.get
  intro state
  split
  · exact fun _ _ ran => (throw_ok ran).elim
  · exact tail

theorem instructions_triple_last
    (ends : ∀ table stack locals world, middle table stack locals world → post table stack locals world) :
    MethodTriple env pre (translateInstructions parser dataTypes ret [instruction]) post jumps :=
  instructions_triple_cons isAction head
    (instructions_triple_nil.consequence ends (fun _ _ _ _ holds => holds) fun _ _ _ _ jumped => jumped)

omit isAction head

theorem instructions_cons_iff :
    (translateInstructions parser dataTypes ret (instruction :: rest)).run state = .ok ((), later) ↔
      ∃ between, (translateInstruction parser dataTypes ret instruction).run state = .ok ((), between) ∧
        ¬between.jvmInstructions.length > 65535 ∧
        (translateInstructions parser dataTypes ret rest).run between = .ok ((), later) := by
  constructor
  · intro ran
    obtain ⟨_, between, first, afterFirst⟩ := bind_ok ran
    obtain ⟨_, _, got, checked⟩ := bind_ok afterFirst
    obtain ⟨rfl, rfl⟩ := get_ok got
    split at checked
    · exact (throw_ok checked).elim
    · rename_i short
      exact ⟨_, first, short, checked⟩
  · rintro ⟨between, first, short, restRan⟩
    rw [translateInstructions, StateT.run_bind, first]
    change StateT.run (if between.jvmInstructions.length > 65535 then _ else _) between = _
    rw [if_neg short]
    exact restRan

theorem instructions_append_ok {first second : List Oomir.Instruction}
    (ran : (translateInstructions parser dataTypes ret (first ++ second)).run state = .ok ((), later)) :
    ∃ between, (translateInstructions parser dataTypes ret first).run state = .ok ((), between) ∧
      (translateInstructions parser dataTypes ret second).run between = .ok ((), later) := by
  induction first generalizing state with
  | nil => exact ⟨state, rfl, ran⟩
  | cons instruction rest ih =>
    obtain ⟨next, stepped, short, restRan⟩ := instructions_cons_iff.mp ran
    obtain ⟨between, firstRan, secondRan⟩ := ih restRan
    exact ⟨between, instructions_cons_iff.mpr ⟨next, stepped, short, firstRan⟩, secondRan⟩

theorem instruction_ok
    (ran : (translateInstructions parser dataTypes ret [instruction]).run state = .ok ((), later)) :
    (translateInstruction parser dataTypes ret instruction).run state = .ok ((), later) := by
  obtain ⟨between, stepped, -, restRan⟩ := instructions_cons_iff.mp ran
  obtain ⟨-, rfl⟩ := pure_ok restRan
  exact stepped

theorem label_ok {name : String}
    (ran : (translateInstruction parser dataTypes ret (.label name)).run state = .ok ((), later)) :
    later = { state with
      labelToInstrIndex := (name, state.jvmInstructions.length) :: state.labelToInstrIndex } := by
  obtain ⟨_, _, got, checked⟩ := bind_ok ran
  obtain ⟨rfl, rfl⟩ := get_ok got
  dsimp only at checked
  split at checked
  · exact modify_ok checked
  · exact (throw_ok checked).elim

theorem MethodGrows.instructions {instructions : List Oomir.Instruction}
    (each : ∀ instruction ∈ instructions,
      MethodGrows (translateInstruction parser dataTypes ret instruction)) :
    MethodGrows (translateInstructions parser dataTypes ret instructions) := by
  induction instructions with
  | nil => exact MethodGrows.pure ()
  | cons instruction rest ih =>
    grind [translateInstructions]

/-- What no instruction between two labels changes. -/
structure SameControl (state later : MethodTranslator) : Prop where
  labels : later.labelToInstrIndex = state.labelToInstrIndex
  fallthrough : later.currentFallthroughBlockLabel = state.currentFallthroughBlockLabel

def IsStraight : Oomir.Instruction → Bool
  | .jump _ | .branch _ _ _ | .switch _ _ _ | .label _ => false
  | _ => true

theorem straight_lifts (straight : IsStraight instruction = true) :
    ∃ action, translateInstruction parser dataTypes ret instruction = lift action := by
  cases instruction with
  | jump | branch | switch | label => cases straight
  | _ => exact ⟨_, rfl⟩

theorem straight_keeps_control {instructions : List Oomir.Instruction}
    (straight : instructions.all IsStraight = true)
    (ran : (translateInstructions parser dataTypes ret instructions).run state = .ok ((), later)) :
    SameControl state later := by
  induction instructions generalizing state with
  | nil =>
    obtain ⟨-, rfl⟩ := pure_ok ran
    exact ⟨rfl, rfl⟩
  | cons instruction rest ih =>
    rw [all_cons, Bool.and_eq_true] at straight
    obtain ⟨next, stepped, -, restRan⟩ := instructions_cons_iff.mp ran
    obtain ⟨action, isLift⟩ := straight_lifts straight.1
    rw [isLift] at stepped
    obtain ⟨translator, -, rfl⟩ := lift_ok stepped
    have kept := ih straight.2 restRan
    exact ⟨kept.labels, kept.fallthrough⟩

theorem branch_keeps_control {condition : Operand} {trueBlock falseBlock : String}
    (ran : (branchBoth condition trueBlock falseBlock).run state = .ok ((), later)) :
    SameControl state later := by
  obtain ⟨_, loaded, loads, afterLoad⟩ := bind_ok ran
  obtain ⟨_, branched, branches, jumps⟩ := bind_ok afterLoad
  obtain ⟨translator, -, rfl⟩ := lift_ok loads
  obtain rfl := modify_ok branches
  obtain rfl := modify_ok jumps
  exact ⟨rfl, rfl⟩

theorem labelled_extends (state : MethodTranslator) (labels : List (String × Nat)) :
    state.Extends { state with labelToInstrIndex := labels } :=
  .of_translator (Translator.Extends.refl _) rfl rfl

theorem push_branch_keeps_control {instruction : Jvm.Instruction} {label : String}
    (ran : (pushBranch instruction label).run state = .ok ((), later)) : SameControl state later := by
  obtain rfl := modify_ok ran
  exact ⟨rfl, rfl⟩

end Sequences

/-! ### The flag of each operator -/

def exactResult : CheckedOperation → Int → Int → Int
  | .add, left, right => left + right
  | .sub, left, right => left - right
  | .mul, left, right => left * right

def BodyName (name : String) : Prop := "param_".toList.isPrefixOf name.toList = false

instance (name : String) : Decidable (BodyName name) := by
  unfold BodyName
  infer_instance

section Flags

variable {World : Type} {env : Environment World} (library : WideLibrary env) {parser : WideParser}
  {dataTypes : String → Option (List Ty)} {ret : Ty} {jumps : JumpAssertion World} {store : Store}
  {integer : IntegerTy} {left right : BitVec integer.width}

variable (integer) in
def Flagged (result : BitVec integer.width) (flag : Bool) : Assertion World :=
  fun table stack locals world => ∃ store, store "result" = some (integer.ty, integer.content result) ∧
    store "overflow" = some (.boolean, .ofBool flag) ∧
    Holding library BodyName store table stack locals world

variable (integer left right store) in
structure Computed (result : BitVec integer.width) : Prop where
  first : store "_1" = some (integer.ty, integer.content left)
  second : store "_2" = some (integer.ty, integer.content right)
  result : store "result" = some (integer.ty, integer.content result)

def overflows (integer : IntegerTy) (operation : CheckedOperation) (left right : BitVec integer.width) :
    Bool :=
  decide (¬Fits integer.width integer.signed
    (exactResult operation (integer.value left) (integer.value right)))

def reduced (integer : IntegerTy) (operation : CheckedOperation) (left right : BitVec integer.width) :
    BitVec integer.width :=
  BitVec.ofInt integer.width (exactResult operation (integer.value left) (integer.value right))

theorem reduced_eq (operation : CheckedOperation) : reduced integer operation left right =
    match operation with
    | .add => left + right
    | .sub => left - right
    | .mul => left * right := by
  cases operation with
  | add => rw [reduced, exactResult, ofInt_add, integer.of_int_value, integer.of_int_value]
  | sub =>
    rw [reduced, exactResult, Int.sub_eq_add_neg, ofInt_add, ofInt_neg,
      integer.of_int_value, integer.of_int_value, sub_eq_add_neg]
  | mul => rw [reduced, exactResult, ofInt_mul, integer.of_int_value, integer.of_int_value]

variable {library}

theorem value_unsigned (unsigned : integer.signed = false) (bits : BitVec integer.width) :
    integer.value bits = number false bits := by
  simp [IntegerTy.value, unsigned, unsigned_number]

theorem value_signed (signed : integer.signed = true) (bits : BitVec integer.width) :
    integer.value bits = number true bits := by
  simp [IntegerTy.value, signed, signed_number]

variable (first second : Int)

theorem less_holds :
    ComparisonOp.lt.holds (compare first second) = decide (first < second) := by
  rw [Bool.eq_iff_iff, decide_eq_true_iff]
  exact beq_iff_eq.trans compare_lt_iff_lt

variable {result : BitVec integer.width}

theorem Flagged.of_set {between : Store} {stored flag : Bool}
    (isResult : between "result" = some (integer.ty, integer.content result)) (isFlag : stored = flag)
    (table : LocalTable) (stack : List Value) (locals : Locals) (world : World)
    (holding : Holding library BodyName (between.set "overflow" .boolean (.ofBool stored)) table stack locals
      world) : Flagged library integer result flag table stack locals world :=
  ⟨_, by simp [isResult], by simp [isFlag], holding⟩

variable {operation : CheckedOperation}

theorem unsigned_flag_triple (notMul : operation ≠ .mul) (unsigned : integer.signed = false)
    (computed : Computed store integer left right (reduced integer operation left right)) :
    MethodTriple env (Holding library BodyName store)
      (translateInstructions parser dataTypes ret (unsignedFlag integer.ty operation))
      (Flagged library integer (reduced integer operation left right)
        (overflows integer operation left right)) jumps := by
  cases operation with
  | mul => exact absurd rfl notMul
  | add =>
    apply instructions_triple_last rfl (comparison_stores (by decide)
      (.named "result" computed.result) (.named "_1" computed.first) .lt)
    apply Flagged.of_set computed.result
    rw [less_holds, value_unsigned unsigned, value_unsigned unsigned, reduced_eq]
    rw [overflows, decide_eq_decide, value_unsigned unsigned, value_unsigned unsigned, unsigned]
    exact unsigned_add_overflows left right
  | sub =>
    apply instructions_triple_last rfl (comparison_stores (by decide)
      (.named "_1" computed.first) (.named "_2" computed.second) .lt)
    apply Flagged.of_set computed.result
    rw [less_holds, value_unsigned unsigned, value_unsigned unsigned]
    rw [overflows, decide_eq_decide, value_unsigned unsigned, value_unsigned unsigned, unsigned]
    exact unsigned_sub_overflows left right

variable {zero : Constant}

/-- The last two instructions of a signed flag test the sign of a conjunction. -/
theorem sign_test_triple {result first second : BitVec integer.width} {flag : Bool}
    (isZero : integer.IsLiteral parser 0 zero)
    (isResult : store "result" = some (integer.ty, integer.content result))
    (isFirst : store "overflow_xor_left" = some (integer.ty, integer.content first))
    (isSecond : store "overflow_xor_right" = some (integer.ty, integer.content second))
    (isFlag : decide (integer.value (first &&& second) < integer.value 0) = flag) :
    MethodTriple env (Holding library BodyName store) (translateInstructions parser dataTypes ret
        [.bitwise .and "overflow_sign_bits" (.variable "overflow_xor_left" integer.ty)
            (.variable "overflow_xor_right" integer.ty),
          .comparison .lt "overflow" (.variable "overflow_sign_bits" integer.ty) (.constant zero)])
      (Flagged library integer result flag) jumps := by
  refine instructions_triple_cons rfl (bitwise_stores (by decide)
    (.named "overflow_xor_left" isFirst) (.named "overflow_xor_right" isSecond) .and) ?_
  apply instructions_triple_last rfl (comparison_stores (by decide)
    (.named "overflow_sign_bits" set_same) (.literal zero isZero) .lt)
  apply Flagged.of_set (keep isResult)
  rw [less_holds]
  exact isFlag

theorem signed_flag_triple (notMul : operation ≠ .mul)
    (signed : integer.signed = true) (isZero : integer.IsLiteral parser 0 zero)
    (computed : Computed store integer left right (reduced integer operation left right)) :
    MethodTriple env (Holding library BodyName store)
      (translateInstructions parser dataTypes ret (signedFlag integer.ty operation zero))
      (Flagged library integer (reduced integer operation left right)
        (overflows integer operation left right)) jumps := by
  have zeroValue : integer.value 0 = 0 := by
    simp [IntegerTy.value, signed]
  cases operation with
  | mul => exact absurd rfl notMul
  | add =>
    refine instructions_triple_cons rfl (bitwise_stores (by decide)
      (.named "_1" computed.first) (.named "result" computed.result) .xor) ?_
    refine instructions_triple_cons rfl (bitwise_stores (by decide)
      (.named "_2" (keep computed.second)) (.named "result" (keep computed.result)) .xor) ?_
    apply sign_test_triple isZero (by simp [computed.result]) (keep set_same) set_same
    rw [zeroValue, value_signed signed, reduced_eq]
    rw [overflows, decide_eq_decide, value_signed signed, value_signed signed, signed]
    exact signed_add_overflows left right
  | sub =>
    refine instructions_triple_cons rfl (bitwise_stores (by decide)
      (.named "_1" computed.first) (.named "_2" computed.second) .xor) ?_
    refine instructions_triple_cons rfl (bitwise_stores (by decide)
      (.named "_1" (keep computed.first)) (.named "result" (keep computed.result)) .xor) ?_
    apply sign_test_triple isZero (by simp [computed.result]) (keep set_same) set_same
    rw [zeroValue, value_signed signed, reduced_eq]
    rw [overflows, decide_eq_decide, value_signed signed, value_signed signed, signed]
    exact signed_sub_overflows left right

/-! ### Products -/

theorem equal_holds :
    ComparisonOp.eq.holds (compare first second) = decide (first = second) := by
  rw [Bool.eq_iff_iff, decide_eq_true_iff]
  exact beq_iff_eq.trans compare_eq_iff_eq

theorem differs_holds :
    ComparisonOp.ne.holds (compare first second) = decide (first ≠ second) := by
  have equal := equal_holds first second
  simp only [ComparisonOp.holds] at equal ⊢
  rw [bne, equal, decide_not]

theorem value_inj {first second : BitVec integer.width} :
    integer.value first = integer.value second ↔ first = second := by
  refine ⟨fun same => ?_, fun same => by rw [same]⟩
  rw [← integer.of_int_value first, same, integer.of_int_value]

def eitherZero (integer : IntegerTy) (left right : BitVec integer.width) : Bool :=
  decide (integer.value left = 0) || decide (integer.value right = 0)

/-- The flag the code computes when no factor is zero. -/
def quotientFlag (integer : IntegerTy) (left right : BitVec integer.width) : Bool :=
  let differs := decide (wrappedQuotient integer.signed left right ≠ left)
  if Lower1.isUnsigned integer.ty || isNarrowSigned integer.ty then differs
  else differs || (decide (left = BitVec.intMin integer.width) && decide (right = -1))

/-- The factors, the product, and whether a factor is zero. -/
def ZeroTested (library : WideLibrary env) (integer : IntegerTy) (left right : BitVec integer.width) :
    Assertion World :=
  fun table stack locals world => ∃ store, Computed store integer left right
      (reduced integer .mul left right) ∧
    store "mul_either_zero" = some (.boolean, .ofBool (eitherZero integer left right)) ∧
    Holding library BodyName store table stack locals world

theorem zero_value : integer.value 0 = 0 := by
  unfold IntegerTy.value
  split <;> simp

def zeroTests (ty : Ty) (zero : Constant) : List Oomir.Instruction :=
  [.comparison .eq "mul_a_zero" (variableA ty) (.constant zero),
    .comparison .eq "mul_b_zero" (variableB ty) (.constant zero),
    .bitwise .or "mul_either_zero" (.variable "mul_a_zero" .boolean) (.variable "mul_b_zero" .boolean)]

theorem zero_test_triple (isZero : integer.IsLiteral parser 0 zero)
    (computed : Computed store integer left right (reduced integer .mul left right)) :
    MethodTriple env (Holding library BodyName store)
      (translateInstructions parser dataTypes ret (zeroTests integer.ty zero))
      (ZeroTested library integer left right) jumps := by
  refine instructions_triple_cons rfl (comparison_stores (by decide)
    (.named "_1" computed.first) (.literal zero isZero) .eq) ?_
  refine instructions_triple_cons rfl (comparison_stores (by decide)
    (.named "_2" (keep computed.second)) (.literal zero isZero) .eq) ?_
  apply instructions_triple_last rfl (truth_bitwise_stores (by decide) .or
    (.named "mul_a_zero" (keep set_same)) (.named "mul_b_zero" set_same))
  intro table stack locals world holding
  refine ⟨_, ⟨?_, ?_, ?_⟩, ?_, holding⟩
  · simp [computed.first]
  · simp [computed.second]
  · simp [computed.result]
  · rw [set_same, equal_holds, equal_holds, zero_value]
    rfl

theorem is_unsigned_eq : Lower1.isUnsigned integer.ty = !integer.signed := by
  cases integer with
  | narrow kind => cases kind <;> rfl
  | wide signed => cases signed <;> decide

/-- The constants of a type are read as its numbers. -/
structure Literals (parser : WideParser) (integer : IntegerTy) (zero min minusOne : Constant) : Prop where
  isZero : integer.IsLiteral parser 0 zero
  isMin : integer.signed = true → integer.IsLiteral parser (BitVec.intMin integer.width) min
  isMinusOne : integer.signed = true → integer.IsLiteral parser (-1) minusOne

theorem quotient_flag_triple {zero min minusOne : Constant} (nonzero : integer.value right ≠ 0)
    (literals : Literals parser integer zero min minusOne)
    (computed : Computed store integer left right (reduced integer .mul left right)) :
    MethodTriple env (Holding library BodyName store) (translateInstructions parser dataTypes ret
        (mulQuotient integer.ty ++ mulFlag integer.ty min minusOne))
      (Flagged library integer (reduced integer .mul left right) (quotientFlag integer left right))
      jumps := by
  have divides : Oomir.ArithmeticOp.div.applyBig (integer.value (reduced integer .mul left right))
      (integer.value right) =
        some ((integer.value (reduced integer .mul left right)).tdiv (integer.value right)) :=
    if_neg nonzero
  refine instructions_triple_cons rfl (arithmetic_stores (by decide)
    (.named "result" computed.result) (.named "_2" computed.second) .div
    (by simp) (by simp) divides) ?_
  refine instructions_triple_cons rfl (comparison_stores (by decide)
    (.named "mul_quotient" set_same) (.named "_1" (keep computed.first)) .ne) ?_
  have isQuotient : BitVec.ofInt integer.width
      ((integer.value (reduced integer .mul left right)).tdiv (integer.value right)) =
        wrappedQuotient integer.signed left right := by
    rw [reduced_eq]
    rfl
  rw [isQuotient, differs_holds, decide_eq_decide.mpr (not_congr value_inj)]
  unfold mulFlag quotientFlag
  split
  · apply instructions_triple_last rfl (truth_move_stores (by decide)
      (.named "mul_quotient_differs" set_same))
    exact Flagged.of_set (by simp [computed.result]) rfl
  · rename_i wider
    have signed : integer.signed = true := by
      rw [is_unsigned_eq] at wider
      cases isSigned : integer.signed with
      | true => rfl
      | false => simp [isSigned] at wider
    refine instructions_triple_cons rfl (comparison_stores (by decide)
      (.named "_1" (keep (keep computed.first)))
      (.literal min (literals.isMin signed)) .eq) ?_
    refine instructions_triple_cons rfl (comparison_stores (by decide)
      (.named "_2" (keep (keep (keep computed.second))))
      (.literal minusOne (literals.isMinusOne signed)) .eq) ?_
    refine instructions_triple_cons rfl (truth_bitwise_stores (by decide) .and
      (.named "mul_a_min" (keep set_same))
      (.named "mul_b_minus_one" set_same)) ?_
    apply instructions_triple_last rfl (truth_bitwise_stores (by decide) .or
      (.named "mul_quotient_differs" (keep (keep (keep set_same))))
      (.named "mul_min_times_minus_one" set_same))
    apply Flagged.of_set (by simp [computed.result])
    rw [equal_holds, equal_holds, decide_eq_decide.mpr value_inj, decide_eq_decide.mpr value_inj]
    rfl

def mulFlagged (integer : IntegerTy) (left right : BitVec integer.width) : Bool :=
  !eitherZero integer left right && quotientFlag integer left right

variable (ty : Ty)

theorem mul_overflow_pieces (fnName : String) (zero min minusOne : Constant) :
    mulOverflow ty fnName zero min minusOne = zeroTests ty zero ++
      (Oomir.Instruction.branch (.variable "mul_either_zero" .boolean) (mulNoOverflowLabel fnName)
          (mulCheckLabel fnName) :: Oomir.Instruction.label (mulCheckLabel fnName) ::
        ((mulQuotient ty ++ mulFlag ty min minusOne) ++
          [.jump (mulEndLabel fnName), .label (mulNoOverflowLabel fnName),
            .move "overflow" (.constant (.boolean false)), .label (mulEndLabel fnName)])) := by
  simp [mulOverflow, mulZeroTest, zeroTests]

def IsCheckInstruction : Oomir.Instruction → Bool
  | .comparison .. | .bitwise .. | .arithmetic .div .. | .move .. | .jump _ | .branch .. | .label _
  | .constructObject .. | .return _ => true
  | _ => false

theorem check_instruction_grows {instruction : Oomir.Instruction}
    (isCheck : IsCheckInstruction instruction = true) :
    MethodGrows (translateInstruction parser dataTypes ret instruction) := by
  cases instruction with
  | switch | shift | not | neg => cases isCheck
  | arithmetic op =>
    cases op with
    | div => grind [translateInstruction, Operation.emit, Operation.translate, translateArithmetic]
    | _ => cases isCheck
  | bitwise | comparison | move | constructObject | «return» | jump | branch =>
    grind [translateInstruction, Operation.emit, Operation.translate,
      translateMove, translateJump, translateBranch]
  | label =>
    intro state later _ ran
    rw [label_ok ran]
    exact labelled_extends _ _

theorem check_instructions_grow {instructions : List Oomir.Instruction}
    (areChecks : instructions.all IsCheckInstruction = true) :
    MethodGrows (translateInstructions parser dataTypes ret instructions) :=
  MethodGrows.instructions fun _ member =>
    check_instruction_grows (all_eq_true.mp areChecks _ member)

theorem mul_flag_checks (min minusOne : Constant) :
    (mulFlag ty min minusOne).all IsCheckInstruction = true := by
  unfold mulFlag
  split <;> rfl

theorem overflow_flag_checks (operation : CheckedOperation) (fnName : String)
    (zero min minusOne : Constant) :
    (overflowFlag ty operation fnName zero min minusOne).all IsCheckInstruction = true := by
  cases operation with
  | mul =>
    rw [overflowFlag, mul_overflow_pieces]
    simp only [all_append, all_cons, mul_flag_checks]
    rfl
  | add | sub =>
    unfold overflowFlag
    dsimp only
    split <;> rfl

theorem no_overflow_triple
    (computed : Computed store integer left right (reduced integer .mul left right)) :
    MethodTriple env (Holding library BodyName store)
      (translateInstructions parser dataTypes ret [.move "overflow" (.constant (.boolean false))])
      (Flagged library integer (reduced integer .mul left right) false) jumps := by
  have moves : Triple env (Holding library BodyName store)
      (translateMove parser "overflow" (.constant (.boolean false))) _ :=
    truth_move_stores (by decide) .literal
  exact instructions_triple_last rfl moves (Flagged.of_set computed.result rfl)

/-- The states of the translator between the pieces. -/
structure MulPieces (parser : WideParser) (dataTypes : String → Option (List Ty)) (ret ty : Ty)
    (fnName : String) (zero min minusOne : Constant) (state later : MethodTranslator) where
  tested : MethodTranslator
  branched : MethodTranslator
  divided : MethodTranslator
  jumped : MethodTranslator
  moved : MethodTranslator
  isTested : (translateInstructions parser dataTypes ret (zeroTests ty zero)).run state =
    .ok ((), tested)
  isBranched : (translateInstruction parser dataTypes ret (.branch (.variable "mul_either_zero" .boolean)
    (mulNoOverflowLabel fnName) (mulCheckLabel fnName))).run tested = .ok ((), branched)
  isDivided : (translateInstructions parser dataTypes ret
    (mulQuotient ty ++ mulFlag ty min minusOne)).run
      { branched with
        labelToInstrIndex := (mulCheckLabel fnName, branched.jvmInstructions.length) ::
          branched.labelToInstrIndex } = .ok ((), divided)
  isJumped : (translateInstruction parser dataTypes ret (.jump (mulEndLabel fnName))).run divided =
    .ok ((), jumped)
  isMoved : (translateInstructions parser dataTypes ret
    [.move "overflow" (.constant (.boolean false))]).run
      { jumped with
        labelToInstrIndex := (mulNoOverflowLabel fnName, jumped.jvmInstructions.length) ::
          jumped.labelToInstrIndex } = .ok ((), moved)
  isLater : later = { moved with
    labelToInstrIndex := (mulEndLabel fnName, moved.jvmInstructions.length) :: moved.labelToInstrIndex }

section MulPieces

variable {fnName : String} {zero min minusOne : Constant} {state later final : MethodTranslator}
  {code : Code} {stack : List Value} {locals : Locals} {world : World}

theorem mul_pieces {ty : Ty} (ran : (translateInstructions parser dataTypes ret
      (mulOverflow ty fnName zero min minusOne)).run state = .ok ((), later)) :
    Nonempty (MulPieces parser dataTypes ret ty fnName zero min minusOne state later) := by
  rw [mul_overflow_pieces] at ran
  obtain ⟨tested, isTested, afterTest⟩ := instructions_append_ok ran
  obtain ⟨branched, isBranched, -, afterBranch⟩ := instructions_cons_iff.mp afterTest
  obtain ⟨checked, isChecked, -, afterCheck⟩ := instructions_cons_iff.mp afterBranch
  obtain ⟨divided, isDivided, afterDivision⟩ := instructions_append_ok afterCheck
  obtain ⟨jumped, isJumped, -, afterJump⟩ := instructions_cons_iff.mp afterDivision
  obtain ⟨labelled, isLabelled, -, afterLabel⟩ := instructions_cons_iff.mp afterJump
  have afterLabel : (translateInstructions parser dataTypes ret
      ([.move "overflow" (.constant (.boolean false))] ++ [.label (mulEndLabel fnName)])).run labelled =
        .ok ((), later) := afterLabel
  obtain ⟨moved, isMoved, ended⟩ := instructions_append_ok afterLabel
  have isChecked := label_ok isChecked
  have isLabelled := label_ok isLabelled
  subst isChecked isLabelled
  exact ⟨⟨tested, branched, divided, jumped, moved, isTested, isBranched, isDivided, isJumped, isMoved,
    label_ok (instruction_ok ended)⟩⟩

theorem mul_labels_differ (fnName : String) :
    mulNoOverflowLabel fnName ≠ mulEndLabel fnName ∧ mulCheckLabel fnName ≠ mulEndLabel fnName ∧
      mulCheckLabel fnName ≠ mulNoOverflowLabel fnName := by
  refine ⟨?_, ?_, ?_⟩ <;>
  · intro same
    exact absurd ((String.append_right_inj fnName).mp same) (by decide)

theorem Flagged.of_extends {flag : Bool} {table later : LocalTable}
    (flagged : Flagged library integer result flag table stack locals world)
    (extension : table.Extends later) : Flagged library integer result flag later stack locals world := by
  obtain ⟨store, isResult, isFlag, isEmpty, represents⟩ := flagged
  exact ⟨store, isResult, isFlag, isEmpty, represents.extend extension⟩

namespace MulPieces

variable (pieces : MulPieces parser dataTypes ret integer.ty fnName zero min minusOne state later)

include pieces

theorem test_extends : state.Extends pieces.tested :=
  check_instructions_grow rfl _ _ _ pieces.isTested

theorem branch_extends : pieces.tested.Extends pieces.branched :=
  check_instruction_grows rfl _ _ _ pieces.isBranched

theorem divide_extends : pieces.branched.Extends pieces.divided := by
  have areChecks : (mulQuotient integer.ty ++ mulFlag integer.ty min minusOne).all IsCheckInstruction =
      true := by
    rw [all_append, mul_flag_checks]
    rfl
  exact (labelled_extends _ _).trans (check_instructions_grow areChecks _ _ _ pieces.isDivided)

theorem jump_extends : pieces.divided.Extends pieces.jumped :=
  check_instruction_grows rfl _ _ _ pieces.isJumped

theorem move_extends : pieces.jumped.Extends pieces.moved :=
  (labelled_extends _ _).trans (check_instructions_grow rfl _ _ _ pieces.isMoved)

theorem end_extends : pieces.moved.Extends later := by
  have labelled := labelled_extends pieces.moved
    ((mulEndLabel fnName, pieces.moved.jvmInstructions.length) :: pieces.moved.labelToInstrIndex)
  rwa [← pieces.isLater] at labelled

theorem end_length : later.jvmInstructions.length = pieces.moved.jvmInstructions.length :=
  congrArg (fun state => state.jvmInstructions.length) pieces.isLater

variable (wellFormed : state.WellFormed) (extension : later.Extends final)
  (finished : Finished env final code)
  (computed : Computed store integer left right (reduced integer .mul left right))

include wellFormed extension finished computed

theorem zero_factor_runs
    (represents : Represents library BodyName pieces.tested.locals store locals world) :
    Reaches env code ⟨pieces.jumped.jvmInstructions.length, [], locals, world⟩ later.jvmInstructions.length
      (Flagged library integer (reduced integer .mul left right) false later.locals) := by
  have toJumped := pieces.branch_extends.trans (pieces.divide_extends.trans pieces.jump_extends)
  have jumpedWell := (wellFormed.extend pieces.test_extends).extend toJumped
  obtain ⟨stackAfter, localsAfter, worldAfter, steps, flagged⟩ :=
    (no_overflow_triple computed).falls_through pieces.isMoved
      (jumpedWell.extend (labelled_extends _ _)) (pieces.end_extends.trans extension) finished
      ⟨rfl, represents.extend toJumped.translator.slots⟩
  rw [pieces.end_length]
  exact ⟨stackAfter, localsAfter, worldAfter, steps,
    flagged.of_extends pieces.end_extends.translator.slots⟩

omit wellFormed extension finished computed

variable (alone : state.currentFallthroughBlockLabel = none)

include alone

/-- Without a block to fall through to, both ways of the branch are jumps. -/
theorem branches : (branchBoth (.variable "mul_either_zero" .boolean) (mulNoOverflowLabel fnName)
    (mulCheckLabel fnName)).run pieces.tested = .ok ((), pieces.branched) := by
  have testedAlone := (straight_keeps_control rfl pieces.isTested).fallthrough.trans alone
  rw [← branch_without_fallthrough testedAlone]
  exact pieces.isBranched

theorem divided_control : pieces.divided.currentFallthroughBlockLabel = none ∧
    pieces.divided.labelToInstrIndex = (mulCheckLabel fnName, pieces.branched.jvmInstructions.length) ::
      pieces.branched.labelToInstrIndex := by
  have testControl := straight_keeps_control rfl pieces.isTested
  have branchControl := branch_keeps_control (pieces.branches alone)
  have divideControl := straight_keeps_control (by unfold mulFlag; split <;> rfl) pieces.isDivided
  exact ⟨divideControl.fallthrough.trans (branchControl.fallthrough.trans
    (testControl.fallthrough.trans alone)), divideControl.labels⟩

theorem jumps_to_end : (pushBranch (.goto 0) (mulEndLabel fnName)).run pieces.divided =
    .ok ((), pieces.jumped) := by
  rw [← jump_without_fallthrough (pieces.divided_control alone).1]
  exact pieces.isJumped

variable (labels : final.labelToInstrIndex = later.labelToInstrIndex)

include labels

theorem label_targets :
    final.labelToInstrIndex.lookup (mulEndLabel fnName) = some pieces.moved.jvmInstructions.length ∧
      final.labelToInstrIndex.lookup (mulNoOverflowLabel fnName) =
        some pieces.jumped.jvmInstructions.length ∧
      final.labelToInstrIndex.lookup (mulCheckLabel fnName) =
        some pieces.branched.jvmInstructions.length := by
  have divideLabels := (pieces.divided_control alone).2
  have jumpLabels := (push_branch_keeps_control (pieces.jumps_to_end alone)).labels
  have moveLabels := (straight_keeps_control rfl pieces.isMoved).labels
  rw [pieces.isLater] at labels
  rw [labels, moveLabels, jumpLabels, divideLabels]
  obtain ⟨noIsNotEnd, checkIsNotEnd, checkIsNotNo⟩ := mul_labels_differ fnName
  refine ⟨?_, ?_, ?_⟩
  · rw [SortedMap.lookup_cons, if_pos rfl]
  · rw [SortedMap.lookup_cons, if_neg noIsNotEnd, SortedMap.lookup_cons, if_pos rfl]
  · rw [SortedMap.lookup_cons, if_neg checkIsNotEnd, SortedMap.lookup_cons, if_neg checkIsNotNo,
      SortedMap.lookup_cons, if_pos rfl]

include wellFormed extension finished computed in
theorem nonzero_factors_run (nonzero : integer.value right ≠ 0)
    (literals : Literals parser integer zero min minusOne)
    (represents : Represents library BodyName pieces.tested.locals store locals world) :
    Reaches env code ⟨pieces.branched.jvmInstructions.length, [], locals, world⟩ later.jvmInstructions.length
      (Flagged library integer (reduced integer .mul left right) (quotientFlag integer left right)
        later.locals) := by
  have branchedWell := (wellFormed.extend pieces.test_extends).extend pieces.branch_extends
  have fromJumped := (pieces.move_extends.trans pieces.end_extends).trans extension
  obtain ⟨stackDivided, localsDivided, worldDivided, divideSteps, flagged⟩ :=
    (quotient_flag_triple nonzero literals computed).falls_through pieces.isDivided
      (branchedWell.extend (labelled_extends _ _)) (pieces.jump_extends.trans fromJumped) finished
      ⟨rfl, represents.extend pieces.branch_extends.translator.slots⟩
  have jumping : MethodTriple env (At pieces.divided.locals stackDivided localsDivided worldDivided)
      (pushBranch (.goto 0) (mulEndLabel fnName)) Never
      (fun label stack locals world => label = mulEndLabel fnName ∧ stack = stackDivided ∧
        locals = localsDivided ∧ world = worldDivided) := by
    apply MethodTriple.goto
    rintro _ _ _ _ ⟨-, isStack, isLocals, isWorld⟩
    exact ⟨rfl, isStack, isLocals, isWorld⟩
  obtain ⟨pc, _, _, _, jumpSteps, jumpExits⟩ := (jumping _ _ (pieces.jumps_to_end alone)).2
    (branchedWell.extend pieces.divide_extends) final code fromJumped finished _ _ _ ⟨rfl, rfl, rfl, rfl⟩
  obtain ⟨_, isTarget, rfl, rfl, rfl, rfl⟩ := jumpExits.resolve_left fun ⟨_, never⟩ => never
  have isEnd : pc = later.jvmInstructions.length := by
    rw [(pieces.label_targets alone labels).1] at isTarget
    rw [pieces.end_length, Option.some.inj isTarget]
  rw [isEnd] at jumpSteps
  exact ⟨_, _, _, divideSteps.trans jumpSteps, flagged.of_extends (pieces.jump_extends.trans
    (pieces.move_extends.trans pieces.end_extends)).translator.slots⟩

end MulPieces

def codeFlag (integer : IntegerTy) (operation : CheckedOperation) (left right : BitVec integer.width) :
    Bool :=
  match operation with
  | .mul => mulFlagged integer left right
  | _ => overflows integer operation left right

variable (literals : Literals parser integer zero min minusOne) (wellFormed : state.WellFormed)
  (alone : state.currentFallthroughBlockLabel = none) (extension : later.Extends final)
  (labels : final.labelToInstrIndex = later.labelToInstrIndex) (finished : Finished env final code)

include literals wellFormed alone extension labels finished

/-- The code of a product's flag runs from its start to its end, whichever way it takes. -/
theorem mul_overflow_runs (ran : (translateInstructions parser dataTypes ret
      (mulOverflow integer.ty fnName zero min minusOne)).run state = .ok ((), later))
    (computed : Computed store integer left right (reduced integer .mul left right))
    (holding : Holding library BodyName store state.locals stack locals world) :
    Reaches env code ⟨state.jvmInstructions.length, stack, locals, world⟩ later.jvmInstructions.length
      (Flagged library integer (reduced integer .mul left right) (mulFlagged integer left right)
        later.locals) := by
  obtain ⟨pieces⟩ := mul_pieces ran
  obtain ⟨-, isNo, isCheck⟩ := pieces.label_targets alone labels
  have fromBranched := (pieces.divide_extends.trans (pieces.jump_extends.trans
    (pieces.move_extends.trans pieces.end_extends))).trans extension
  obtain ⟨stackTested, localsTested, worldTested, testSteps, testedStore, testedComputed, isEither,
    testedHolding⟩ := (zero_test_triple literals.isZero computed).falls_through pieces.isTested wellFormed
      (pieces.branch_extends.trans fromBranched) finished holding
  have branching : MethodTriple env (fun now stack locals world => now = pieces.tested.locals ∧
      Holding library BodyName testedStore pieces.tested.locals stack locals world)
      (branchBoth _ (mulNoOverflowLabel fnName) (mulCheckLabel fnName)) Never _ :=
    branch_jumps (.named "mul_either_zero" isEither)
  obtain ⟨pc, stackBranched, localsBranched, worldBranched, branchSteps, branchExits⟩ :=
    (branching _ _ (pieces.branches alone)).2 (wellFormed.extend pieces.test_extends) final code
      fromBranched finished stackTested localsTested worldTested ⟨rfl, testedHolding⟩
  obtain ⟨label, isTarget, isLabel, rfl, represents⟩ :=
    branchExits.resolve_left fun ⟨_, never⟩ => never
  have toBranch := testSteps.trans branchSteps
  cases isZeroFactor : eitherZero integer left right with
  | true =>
    rw [isLabel, isZeroFactor, if_pos rfl, isNo] at isTarget
    cases isTarget
    rw [mulFlagged, isZeroFactor]
    exact (pieces.zero_factor_runs wellFormed extension finished testedComputed represents).after toBranch
  | false =>
    rw [isLabel, isZeroFactor, if_neg Bool.false_ne_true, isCheck] at isTarget
    cases isTarget
    have nonzero : integer.value right ≠ 0 := by
      intro zeroRight
      simp [eitherZero, zeroRight] at isZeroFactor
    rw [mulFlagged, isZeroFactor]
    exact (pieces.nonzero_factors_run wellFormed extension finished testedComputed alone labels nonzero
      literals represents).after toBranch

theorem overflow_flag_runs (ran : (translateInstructions parser dataTypes ret
      (overflowFlag integer.ty operation fnName zero min minusOne)).run state = .ok ((), later))
    (computed : Computed store integer left right (reduced integer operation left right))
    (holding : Holding library BodyName store state.locals stack locals world) :
    Reaches env code ⟨state.jvmInstructions.length, stack, locals, world⟩ later.jvmInstructions.length
      (Flagged library integer (reduced integer operation left right)
        (codeFlag integer operation left right) later.locals) := by
  have sums : ∀ notMul : operation ≠ .mul, MethodTriple env (Holding library BodyName store)
      (translateInstructions parser dataTypes ret
        (if Lower1.isUnsigned integer.ty then unsignedFlag integer.ty operation
          else signedFlag integer.ty operation zero))
      (Flagged library integer (reduced integer operation left right)
        (overflows integer operation left right)) (fun _ _ _ _ => False) := by
    intro notMul
    rw [is_unsigned_eq]
    cases signed : integer.signed with
    | true => exact signed_flag_triple notMul signed literals.isZero computed
    | false => exact unsigned_flag_triple notMul signed computed
  cases operation with
  | mul =>
    exact mul_overflow_runs literals wellFormed alone extension labels finished ran computed holding
  | add => exact (sums (by decide)).falls_through ran wellFormed extension finished holding
  | sub => exact (sums (by decide)).falls_through ran wellFormed extension finished holding

end MulPieces

/-! ### The result struct -/

section Pair

variable {resultStruct : String} {result : BitVec integer.width} {flag : Bool}
  (structs : StructLibrary library resultStruct [integer.ty, .boolean])
  (declared : ∀ types, dataTypes resultStruct = some types →
    types.filter Ty.hasJvmValue = [integer.ty, .boolean])

theorem integer_type_plain (integer : IntegerTy) : isPointerType integer.ty = false := by
  cases integer <;> rfl

theorem integer_type_valued (integer : IntegerTy) : integer.ty.hasJvmValue = true := by
  cases integer <;> rfl

/-- The code returns a struct of the result and the flag. -/
def ReturnsPair (structs : StructLibrary library resultStruct [integer.ty, .boolean]) (code : Code)
    (start : Frame World) (result : BitVec integer.width) (flag : Bool) : Prop :=
  ∃ object worldAfter value,
    Returns env code start (some (.reference (some object))) worldAfter ∧
    structs.fieldsAt worldAfter object = some [value, .int (if flag then 1 else 0)] ∧
    (integer.content result).At library worldAfter value

include declared in
theorem return_pair_returns {state later final : MethodTranslator} {code : Code} {stack : List Value}
    {locals : Locals} {world : World}
    (ran : (translateInstructions parser dataTypes (.class resultStruct)
      (returnPair integer.ty resultStruct)).run state = .ok ((), later))
    (wellFormed : state.WellFormed) (extension : later.Extends final)
    (finished : Finished env final code)
    (flagged : Flagged library integer result flag state.locals stack locals world) :
    ReturnsPair structs code ⟨state.jvmInstructions.length, stack, locals, world⟩ result flag := by
  obtain ⟨store, isResult, isFlag, rfl, represents⟩ := flagged
  obtain ⟨-, resultSlot, resultValue, resultKnown, resultHeld, resultKind, resultContent⟩ :=
    represents.held _ _ _ isResult
  obtain ⟨-, flagSlot, _, flagKnown, flagHeld, flagKind, rfl⟩ := represents.held _ _ _ isFlag
  obtain ⟨built, constructs, -, afterBuilt⟩ := instructions_cons_iff.mp ran
  have returns := instruction_ok afterBuilt
  have loads : ∀ worldNow, library.Keeps world worldNow →
      Forall₂ (ArgLoads env parser state.locals locals worldNow)
        ([variableResult integer.ty, .variable "overflow" .boolean].zip [integer.ty, .boolean])
        [resultValue, .int (if flag then 1 else 0)] := by
    intro worldNow _
    exact .cons (variable_arg_loads library.java resultKnown resultHeld resultKind)
      (.cons (variable_arg_loads library.java flagKnown flagHeld flagKind) .nil)
  have kinds : [resultValue, .int (if flag then 1 else 0)].map (fun value => some value.kind) =
      [integer.ty, .boolean].map localKind := by
    simp [resultKind, flagKind]
  have valued : ∀ ty ∈ [integer.ty, .boolean], ty.hasJvmValue = true :=
    forall_mem_cons.mpr ⟨integer_type_valued integer, forall_mem_singleton.mpr rfl⟩
  have plain : [integer.ty, .boolean].any isPointerType = false := by
    rw [any_cons, integer_type_plain]
    rfl
  have building : MethodTriple env (At state.locals [] locals world)
      (lift (translateConstructObject parser dataTypes "tmp_struct" resultStruct
        ([variableResult integer.ty, .variable "overflow" .boolean].zip [integer.ty, .boolean]))) _
      (fun _ _ _ _ => False) :=
    MethodTriple.lift (construct_object_triple structs rfl valued declared plain loads kinds)
  have builtExtends := (building state built constructs).1
  have returnExtends := MethodGrows.lift (Grows.return_operand parser _ _) _ _ _ returns
  obtain ⟨_, _, worldBuilt, buildSteps, isTable, rfl, keeps, _, rfl, object, rfl, fields⟩ :=
    building.falls_through constructs wellFormed (returnExtends.trans extension) finished
      ⟨rfl, rfl, rfl, rfl⟩
  have known : built.locals.getTypedLocalIndex "tmp_struct" (.class resultStruct) =
      some (state.locals.getOrAssignLocal "tmp_struct" (.class resultStruct)).1 := by
    rw [isTable]
    exact state.locals.get_or_assign_local_typed _ _
  have held : locals.write (state.locals.getOrAssignLocal "tmp_struct" (.class resultStruct)).1
      (.reference (some object)) (state.locals.getOrAssignLocal "tmp_struct" (.class resultStruct)).1 =
        some (.reference (some object)) := if_pos rfl
  obtain ⟨last, lastSteps, returned⟩ := return_returns library.java returns
    (wellFormed.extend builtExtends) extension finished known held rfl
  exact ⟨object, worldBuilt, resultValue, ⟨last, buildSteps.trans lastSteps, returned⟩, fields,
    resultContent.keep keeps⟩

end Pair

/-! ### Which flags are right -/

/-- The product the flag misses: `MIN * -1` of the two narrow signed types. -/
def Missed (integer : IntegerTy) (operation : CheckedOperation) (left right : BitVec integer.width) :
    Prop :=
  operation = .mul ∧ isNarrowSigned integer.ty = true ∧
    IsMinTimesMinusOne integer.width (integer.value left) (integer.value right)

theorem narrow_signed_is_signed (narrow : isNarrowSigned integer.ty = true) : integer.signed = true := by
  cases integer with
  | narrow kind => cases kind <;> first | rfl | cases narrow
  | wide signed => cases narrow

theorem min_times_minus_one_iff (signed : integer.signed = true) :
    IsMinTimesMinusOne integer.width (integer.value left) (integer.value right) ↔
      left = intMin integer.width ∧ right = -1 := by
  have isMin : integer.value (intMin integer.width) = -2 ^ (integer.width - 1) := by
    rw [value_signed signed, signed_number, toInt_intMin_of_pos integer.width_pos]
  have isMinusOne : integer.value (-1) = -1 := by
    have allOnes : (-1 : BitVec integer.width) = allOnes integer.width := neg_one_eq_allOnes
    rw [value_signed signed, signed_number, allOnes, toInt_allOnes, if_pos integer.width_pos]
  rw [IsMinTimesMinusOne, ← isMin, ← isMinusOne, value_inj, value_inj]

theorem zero_factor_fits (width : Nat) (signed : Bool) {first second : Int}
    (zero : first = 0 ∨ second = 0) : Fits width signed (first * second) := by
  have product : first * second = 0 := mul_eq_zero.mpr zero
  rw [product]
  cases signed with
  | true => exact ⟨neg_nonpos.mpr (by positivity), by positivity⟩
  | false => exact ⟨le_refl 0, by positivity⟩

theorem mul_flagged_iff : mulFlagged integer left right = overflows integer .mul left right ↔
    ¬Missed integer .mul left right := by
  have isMissed : Missed integer .mul left right ↔ isNarrowSigned integer.ty = true ∧
      IsMinTimesMinusOne integer.width (integer.value left) (integer.value right) := by
    simp [Missed]
  rw [isMissed, Bool.eq_iff_iff, overflows, decide_eq_true_iff, exactResult]
  cases isZero : eitherZero integer left right with
  | true =>
    have zero : integer.value left = 0 ∨ integer.value right = 0 := by
      simpa [eitherZero] using isZero
    have fits := zero_factor_fits integer.width integer.signed zero
    have other : ¬IsMinTimesMinusOne integer.width (integer.value left) (integer.value right) := by
      rintro ⟨isMin, isMinusOne⟩
      have positive : (0 : Int) < 2 ^ (integer.width - 1) := by positivity
      omega
    simp [mulFlagged, isZero, fits, other]
  | false =>
    have nonzero : integer.value right ≠ 0 := by
      intro zero
      simp [eitherZero, zero] at isZero
    rw [mulFlagged, isZero, Bool.not_false, Bool.true_and, quotientFlag, is_unsigned_eq]
    cases signed : integer.signed with
    | false =>
      have notNarrow : ¬isNarrowSigned integer.ty = true := by
        intro narrow
        rw [narrow_signed_is_signed narrow] at signed
        cases signed
      rw [value_unsigned signed] at nonzero
      have exact := unsigned_mul_overflows left right nonzero
      simp only [Bool.not_false, Bool.true_or, if_true, decide_eq_true_iff, value_unsigned signed]
      simp [exact, notNarrow]
    | true =>
      rw [value_signed signed] at nonzero
      cases narrow : isNarrowSigned integer.ty with
      | true =>
        have exact := signed_mul_quotient_decides integer.width_pos left right nonzero
        simp only [Bool.or_true, if_true, decide_eq_true_iff, value_signed signed, true_and]
        exact exact
      | false =>
        have exact := signed_mul_overflows integer.width_pos left right nonzero
        have pair : _ ↔ left = intMin integer.width ∧ right = -1 := min_times_minus_one_iff signed
        rw [value_signed signed, value_signed signed] at pair
        simp only [Bool.not_true, Bool.or_false, Bool.false_eq_true, if_false, Bool.or_eq_true,
          Bool.and_eq_true, decide_eq_true_iff, value_signed signed, false_and, not_false_iff, iff_true]
        rw [← pair]
        exact exact

end Flags

/-! ### The constants of a type -/

/-- The parser of 128-bit literals reads the decimal digits of a number in range. -/
def WideParser.ReadsDecimal (parser : WideParser) : Prop :=
  ∀ signed value, parser.parse signed (toString (bitsNumber signed value)) = .ok value

theorem integer_constants_literal {parser : WideParser} (reads : parser.ReadsDecimal)
    {integer : IntegerTy} {zero min minusOne : Constant}
    (constants : integerConstants integer.ty = some (zero, min, minusOne)) :
    Literals parser integer zero min minusOne := by
  cases integer with
  | narrow kind =>
    cases kind <;> cases constants
    all_goals first
      | exact ⟨rfl, fun _ => rfl, fun _ => rfl⟩
      | exact ⟨rfl, (nomatch ·), (nomatch ·)⟩
  | wide signed =>
    cases signed with
    | true =>
      cases constants
      exact ⟨⟨_, rfl, reads true 0⟩, fun _ => ⟨_, rfl, reads true (intMin 128)⟩,
        fun _ => ⟨_, rfl, reads true (-1)⟩⟩
    | false =>
      cases constants
      exact ⟨⟨_, rfl, reads false 0⟩, (nomatch ·), (nomatch ·)⟩

/-! ### The function -/

theorem translate_single_block {parser : WideParser} {dataTypes : String → Option (List Ty)}
    {function : Function} {block : BasicBlock} {state final : MethodTranslator}
    (blocks : function.body.basicBlocks = [(function.body.entry, block)])
    (ends : layoutSuccessors block = [])
    (ran : (translateFunction parser dataTypes function).run state = .ok ((), final)) :
    ∃ later, (translateInstructions parser dataTypes function.signature.ret block.instructions).run
        { state with
          currentOomirBlockLabel := block.label
          currentFallthroughBlockLabel := none
          labelToInstrIndex := (block.label, state.jvmInstructions.length) :: state.labelToInstrIndex } =
          .ok ((), later) ∧
      final = { later with currentFallthroughBlockLabel := none } := by
  have order : layoutBlockOrder function.body = [function.body.entry] := by
    simp [layoutBlockOrder, blocks, ends, layoutBlocks]
  obtain ⟨_, translated, blocksRan, reset⟩ := bind_ok ran
  rw [order, translateBlocks, blocks] at blocksRan
  simp only [lookup_cons, beq_self_eq_true] at blocksRan
  obtain ⟨_, blockDone, blockRan, rest⟩ := bind_ok blocksRan
  obtain ⟨-, rfl⟩ := pure_ok rest
  obtain ⟨_, labelled, modified, afterModify⟩ := bind_ok blockRan
  obtain rfl := modify_ok modified
  obtain ⟨_, _, got, checked⟩ := bind_ok afterModify
  obtain ⟨rfl, rfl⟩ := get_ok got
  split at checked
  · exact (throw_ok checked).elim
  obtain ⟨_, entered, enters, afterEnter⟩ := bind_ok checked
  obtain rfl := modify_ok enters
  obtain ⟨_, later, instructionsRan, afterInstructions⟩ := bind_ok afterEnter
  split at afterInstructions
  · exact (throw_ok afterInstructions).elim
  obtain ⟨-, rfl⟩ := pure_ok afterInstructions
  exact ⟨_, instructionsRan, modify_ok reset⟩

section Intrinsic

variable {World : Type} {env : Environment World} {library : WideLibrary env} {parser : WideParser}
  {dataTypes : String → Option (List Ty)} {integer : IntegerTy} {left right : BitVec integer.width}
  {operation : CheckedOperation} {tySuffix resultStruct : String}

theorem two_parameters (functionName : String) (integer : IntegerTy) :
    assignParameters functionName true 0 [("_1", integer.ty), ("_2", integer.ty)] ⟨[], [], [], 0, 0⟩ =
      ((⟨[], [], [], 0, 0⟩ : LocalTable).parameter "param_0" "_1" integer.ty).parameter
        "param_1" "_2" integer.ty := by
  have notArray : integer.ty ≠ .array Ty.javaString := by
    cases integer <;> exact Ty.noConfusion
  have notMain : ∀ index, isSyntheticJvmMainArg functionName true index integer.ty = false := by
    simp [isSyntheticJvmMainArg, notArray]
  simp only [assignParameters, notMain, Bool.false_eq_true, if_false]
  rfl

theorem LocalTable.Valid.empty (visible : String → Prop) :
    LocalTable.Valid visible ⟨[], [], [], 0, 0⟩ := by
  constructor
  · intro _ _ _ found
    cases found
  · intro _ _ _ _ _ _ _ _ _ found
    cases found
  · intro _ _ found
    cases found
  · intro _ _ found
    cases found

theorem integer_type_sized (integer : IntegerTy) : 0 < integer.ty.size := by
  cases integer with
  | narrow kind => cases kind <;> decide
  | wide => exact Nat.one_pos

def argumentStore (integer : IntegerTy) (left right : BitVec integer.width) : Store :=
  Store.set (Store.set (fun _ => none) "_1" integer.ty (integer.content left)) "_2" integer.ty
    (integer.content right)

variable {locals : Locals} {world : World} {fnName : String} {zero min minusOne : Constant}
  {state final : MethodTranslator} {code : Code}

theorem start_represents {firstValue secondValue : Value}
    (first : locals 0 = some firstValue) (second : locals integer.ty.size = some secondValue)
    (isLeft : (integer.content left).At library world firstValue)
    (isRight : (integer.content right).At library world secondValue) (functionName : String) :
    Represents library BodyName
      (assignParameters functionName true 0 [("_1", integer.ty), ("_2", integer.ty)] ⟨[], [], [], 0, 0⟩)
      (argumentStore integer left right) locals world := by
  have sized := integer_type_sized integer
  let start : LocalTable := ⟨[], [], [], 0, 0⟩
  have unknown : ∀ name, start.getTypedLocalIndex name integer.ty = none := fun _ => rfl
  have afterFirst : (start.parameter "param_0" "_1" integer.ty).Valid BodyName :=
    (LocalTable.Valid.empty _).parameter (by decide) (by decide) (unknown _) (unknown _) sized
  have lookupFirst : ∀ other otherTy,
      (start.parameter "param_0" "_1" integer.ty).getTypedLocalIndex other otherTy = _ :=
    LocalTable.parameter_lookup (unknown _)
  have unknownSecond : ∀ name, name ≠ "_1" → name ≠ "param_0" →
      (start.parameter "param_0" "_1" integer.ty).getTypedLocalIndex name integer.ty = none := by
    intro name notFirst notInternal
    rw [lookupFirst, if_neg (by simp [notFirst, notInternal])]
    exact unknown name
  have internal := unknownSecond "param_1" (by decide) (by decide)
  have isNext : (start.parameter "param_0" "_1" integer.ty).nextLocalIndex = integer.ty.size :=
    (LocalTable.assign_local_fresh (unknown "param_0")).2.1.trans (Nat.zero_add _)
  rw [two_parameters]
  refine ⟨afterFirst.parameter (by decide) (by decide) internal
    (unknownSecond "_2" (by decide) (by decide)) sized, ?_⟩
  intro name ty content found
  unfold argumentStore at found
  rw [LocalTable.parameter_lookup internal, isNext]
  by_cases isSecond : name = "_2"
  · rw [isSecond, set_same] at found
    cases found
    exact ⟨by rw [isSecond]; decide, _, secondValue, if_pos ⟨.inl isSecond, rfl⟩, second,
      integer.content_kind right world secondValue isRight, isRight⟩
  · rw [set_other _ _ _ isSecond] at found
    by_cases isFirst : name = "_1"
    · rw [isFirst, set_same] at found
      cases found
      refine ⟨by rw [isFirst]; decide, 0, firstValue, ?_, first,
        integer.content_kind left world firstValue isLeft, isLeft⟩
      rw [isFirst, if_neg (by simp), lookupFirst, if_pos ⟨.inl rfl, rfl⟩]
    · rw [set_other _ _ _ isFirst] at found
      cases found

theorem code_flag_exact_iff : codeFlag integer operation left right = overflows integer operation left right ↔
    ¬Missed integer operation left right := by
  cases operation with
  | mul => exact mul_flagged_iff
  | add | sub => simp [codeFlag, Missed]

theorem apply_exact_result (operation : CheckedOperation) (left right : Int) :
    operation.arithmetic.applyBig left right = some (exactResult operation left right) := by
  cases operation <;> rfl

theorem result_triple {ret : Ty} (library : WideLibrary env) (left right : BitVec integer.width) :
    MethodTriple env (Holding library BodyName (argumentStore integer left right))
      (translateInstructions parser dataTypes ret
        [.arithmetic operation.arithmetic "result" (variableA integer.ty) (variableB integer.ty)])
      (Holding library BodyName ((argumentStore integer left right).set "result" integer.ty
        (integer.content (reduced integer operation left right)))) (fun _ _ _ _ => False) := by
  have first : Denotes parser (argumentStore integer left right) integer left (variableA integer.ty) :=
    .named "_1" (keep set_same)
  have second : Denotes parser (argumentStore integer left right) integer right (variableB integer.ty) :=
    .named "_2" set_same
  have applied := apply_exact_result operation (integer.value left) (integer.value right)
  refine instructions_triple_cons rfl ?_ instructions_triple_nil
  exact arithmetic_stores (by decide) first second operation.arithmetic (by simp [variableA])
    (by simp [variableB]) applied

theorem result_computed : Computed ((argumentStore integer left right).set "result" integer.ty
    (integer.content (reduced integer operation left right))) integer left right
    (reduced integer operation left right) := by
  constructor <;> simp [argumentStore]

theorem body_ends (instructions : List Oomir.Instruction) (ty : Ty) (resultStruct : String) :
    layoutSuccessors ⟨"entry", instructions ++ returnPair ty resultStruct⟩ = [] := by
  rw [layoutSuccessors, getLast?_append]
  rfl

variable {ended : MethodTranslator} (ran : (translateInstructions parser dataTypes (.class resultStruct)
    ([.arithmetic operation.arithmetic "result" (variableA integer.ty) (variableB integer.ty)] ++
      overflowFlag integer.ty operation fnName zero min minusOne ++
      returnPair integer.ty resultStruct)).run state = .ok ((), ended))

include ran

theorem body_returns (structs : StructLibrary library resultStruct [integer.ty, .boolean])
    (declared : ∀ types, dataTypes resultStruct = some types →
      types.filter Ty.hasJvmValue = [integer.ty, .boolean])
    (literals : Literals parser integer zero min minusOne)
    (wellFormed : state.WellFormed) (alone : state.currentFallthroughBlockLabel = none)
    (extension : ended.Extends final) (labels : final.labelToInstrIndex = ended.labelToInstrIndex)
    (finished : Finished env final code)
    (represents : Represents library BodyName state.locals (argumentStore integer left right) locals
      world) : ReturnsPair structs code ⟨state.jvmInstructions.length, [], locals, world⟩
        (reduced integer operation left right) (codeFlag integer operation left right) := by
  obtain ⟨flagged, beforePair, pairRan⟩ := instructions_append_ok ran
  obtain ⟨computed, arithmeticRan, flagRan⟩ := instructions_append_ok beforePair
  have resultExtends := (result_triple library left right _ _ arithmeticRan).1
  have flagExtends := check_instructions_grow (overflow_flag_checks _ _ _ _ _ _) _ _ _ flagRan
  have flagExtension := (check_instructions_grow rfl _ _ _ pairRan).trans extension
  have computedWell := wellFormed.extend resultExtends
  have computedAlone := (straight_keeps_control rfl arithmeticRan).fallthrough.trans alone
  have flagLabels := labels.trans (straight_keeps_control rfl pairRan).labels
  obtain ⟨_, _, _, resultSteps, holding⟩ := (result_triple library left right).falls_through
    arithmeticRan wellFormed (flagExtends.trans flagExtension) finished ⟨rfl, represents⟩
  obtain ⟨_, _, _, flagSteps, isFlagged⟩ := overflow_flag_runs literals computedWell
    computedAlone flagExtension flagLabels finished flagRan result_computed holding
  obtain ⟨object, worldAfter, value, ⟨last, pairSteps, returned⟩, fields, isResult⟩ :=
    return_pair_returns structs declared pairRan (computedWell.extend flagExtends) extension finished
      isFlagged
  exact ⟨object, worldAfter, value, ⟨last, (resultSteps.trans flagSteps).trans pairSteps, returned⟩,
    fields, isResult⟩

theorem body_extends (library : WideLibrary env) : state.Extends ended := by
  obtain ⟨flagged, beforePair, pairRan⟩ := instructions_append_ok ran
  obtain ⟨computed, arithmeticRan, flagRan⟩ := instructions_append_ok beforePair
  have resultExtends := (result_triple library 0 0 _ _ arithmeticRan).1
  have flagExtends := check_instructions_grow (overflow_flag_checks _ _ _ _ _ _) _ _ _ flagRan
  exact resultExtends.trans (flagExtends.trans (check_instructions_grow rfl _ _ _ pairRan))

end Intrinsic

section Returned

variable {World : Type} {env : Environment World} {library : WideLibrary env} {parser : WideParser}
  {dataTypes : String → Option (List Ty)} {operation : CheckedOperation} {tySuffix resultStruct : String}
  (integer : IntegerTy) (left right : BitVec integer.width)
  (reads : parser.ReadsDecimal) (structs : StructLibrary library resultStruct [integer.ty, .boolean])
  (declared : ∀ types, dataTypes resultStruct = some types →
    types.filter Ty.hasJvmValue = [integer.ty, .boolean])
  {function : Function} {pool : InternedConstantPool} {owner : Option String} {final : MethodTranslator}
  {code : Code} {locals : Locals} {world : World} {firstValue secondValue : Value}
  (emitted : emitCheckedArithmeticIntrinsic operation integer.ty tySuffix resultStruct = some function)
  (translated : (translateFunction parser dataTypes function).run
    (.new function pool function.signature.isStatic owner) = .ok ((), final))

include emitted translated in
theorem intrinsic_well_formed (library : WideLibrary env) : final.WellFormed := by
  obtain ⟨⟨zero, min, minusOne⟩, constants, rfl⟩ := Option.map_eq_some_iff.mp emitted
  obtain ⟨ended, bodyRan, rfl⟩ := translate_single_block rfl (body_ends _ _ _) translated
  have endedWell : ended.WellFormed := by
    apply MethodTranslator.WellFormed.extend _ (body_extends bodyRan library)
    exact ⟨Within.nil _ _, Within.nil _ _⟩
  exact ⟨endedWell.branches, endedWell.switches⟩

variable (finished : Finished env final code)
  (first : locals 0 = some firstValue) (second : locals integer.ty.size = some secondValue)
  (isLeft : (integer.content left).At library world firstValue)
  (isRight : (integer.content right).At library world secondValue)

include reads declared emitted translated finished first second isLeft isRight

/-- The code of the intrinsic returns the reduced result with the flag it computes. -/
theorem checked_arithmetic_returns : ReturnsPair structs code ⟨0, [], locals, world⟩
    (reduced integer operation left right) (codeFlag integer operation left right) := by
  obtain ⟨⟨zero, min, minusOne⟩, constants, rfl⟩ := Option.map_eq_some_iff.mp emitted
  have literals := integer_constants_literal reads constants
  obtain ⟨ended, bodyRan, isFinal⟩ := translate_single_block rfl (body_ends _ _ _) translated
  have extension : ended.Extends final := by
    rw [isFinal]
    exact .of_translator (Translator.Extends.refl _) rfl rfl
  have labels : final.labelToInstrIndex = ended.labelToInstrIndex := by
    rw [isFinal]
  exact body_returns bodyRan structs declared literals ⟨Within.nil _ _, Within.nil _ _⟩ rfl
    extension labels finished (start_represents first second isLeft isRight
      (getIntrinsicFunctionName operation.name tySuffix resultStruct))

/-- For every integer type, operator and pair of operands, the code of the intrinsic returns the exact
result reduced to the type and a flag; the flag says whether the exact result does not fit, unless it
is `MIN * -1` of `i8` or `i16`. -/
theorem checked_arithmetic_exact_iff : ∃ object worldAfter value flag,
      Returns env code ⟨0, [], locals, world⟩ (some (.reference (some object))) worldAfter ∧
      structs.fieldsAt worldAfter object = some [value, .int (if flag then 1 else 0)] ∧
      (integer.content (reduced integer operation left right)).At library worldAfter value ∧
      (flag = overflows integer operation left right ↔ ¬Missed integer operation left right) := by
  obtain ⟨object, worldAfter, value, returns, fields, isResult⟩ := checked_arithmetic_returns integer
    left right reads structs declared emitted translated finished first second isLeft isRight
  exact ⟨object, worldAfter, value, _, returns, fields, isResult, code_flag_exact_iff⟩

end Returned

theorem WideParser.integral_reads_decimal : WideParser.integral.ReadsDecimal :=
  WideParser.integral_decimal.shows

/-! ### The intrinsics of a byte -/

section Bytes

/-- The intrinsic of an operator on `i8`, its translation and its finished code. -/
def byteIntrinsic (operation : CheckedOperation) :
    Option (Function × MethodTranslator × List Jvm.Instruction) := do
  let function ← emitCheckedArithmeticIntrinsic operation (.int .i8) "i8" "Pair"
  match (translateFunction .integral (fun _ => none) function).run
      (.new function .empty function.signature.isStatic none) with
  | .ok (_, final) =>
    match final.applyFixups with
    | .ok resolved => some (function, final, dropFallthroughJumps resolved)
    | .error _ => none
  | .error _ => none

theorem byte_intrinsic_exists (operation : CheckedOperation) :
    ∃ function final instructions, byteIntrinsic operation = some (function, final, instructions) := by
  have exists_some : (byteIntrinsic operation).isSome = true := by
    cases operation <;> decide +kernel
  obtain ⟨⟨function, final, instructions⟩, found⟩ := Option.isSome_iff_exists.mp exists_some
  exact ⟨function, final, instructions, found⟩

theorem pair_is_not_wide (signed : Bool) : wideClass signed ≠ "Pair" := by
  cases signed <;> decide

abbrev pairEnvironment (final : MethodTranslator) : Environment StructHeap :=
  structEnvironment "Pair" 2 final.constantPool.pool

abbrev pairLibrary (final : MethodTranslator) : WideLibrary (pairEnvironment final) :=
  structWideLibrary 2 final.constantPool.pool pair_is_not_wide

abbrev pairStructs (final : MethodTranslator) :
    StructLibrary (pairLibrary final) "Pair" [.int .i8, .boolean] :=
  structLibrary final.constantPool.pool pair_is_not_wide [.int .i8, .boolean]

theorem byte_intrinsic_finished {operation : CheckedOperation} {function : Function}
    {final : MethodTranslator} {instructions : List Jvm.Instruction}
    (found : byteIntrinsic operation = some (function, final, instructions)) :
    emitCheckedArithmeticIntrinsic operation (.int .i8) "i8" "Pair" = some function ∧
      (translateFunction .integral (fun _ => none) function).run
        (.new function .empty function.signature.isStatic none) = .ok ((), final) ∧
      Finished (pairEnvironment final) final ⟨instructions, []⟩ := by
  unfold byteIntrinsic at found
  obtain ⟨emitted, isEmitted, translated⟩ := Option.bind_eq_some_iff.mp found
  split at translated
  · rename_i isTranslated
    split at translated
    · rename_i resolved isResolved
      cases translated
      exact ⟨isEmitted, isTranslated,
        intrinsic_well_formed (.narrow .i8) isEmitted isTranslated (pairLibrary final),
        ⟨resolved, isResolved, rfl⟩, ConstantPool.Includes.refl _⟩
    · cases translated
  · cases translated

def byteArguments (left right : BitVec 8) : Locals := fun slot =>
  if slot = 0 then some (encodeInt .i8 left) else if slot = 1 then some (encodeInt .i8 right) else none

theorem byte_arguments_at (left right : BitVec 8) : byteArguments left right 0 = some (encodeInt .i8 left) ∧
    byteArguments left right 1 = some (encodeInt .i8 right) := ⟨rfl, rfl⟩

theorem byte_argument_held (final : MethodTranslator) (bits : BitVec 8) :
    ((IntegerTy.narrow .i8).content bits).At (pairLibrary final) ⟨.empty, fun _ => none⟩
      (encodeInt .i8 bits) := rfl

theorem no_data_types (types : List Ty) (known : (fun _ => none : String → Option (List Ty)) "Pair" = some types) :
    types.filter Ty.hasJvmValue = [.int .i8, .boolean] := nomatch known

theorem checked_arithmetic_exact_on_byte_sum :
    ∃ function final instructions, byteIntrinsic .add = some (function, final, instructions) ∧
      ∃ object worldAfter, Returns (pairEnvironment final) ⟨instructions, []⟩
          ⟨0, [], byteArguments 100 100, ⟨.empty, fun _ => none⟩⟩ (some (.reference (some object)))
          worldAfter ∧
        worldAfter.fieldsAt object = some [.int (-56), .int 1] := by
  obtain ⟨function, final, instructions, found⟩ := byte_intrinsic_exists .add
  obtain ⟨emitted, translated, finished⟩ := byte_intrinsic_finished found
  obtain ⟨first, second⟩ := byte_arguments_at 100 100
  obtain ⟨object, worldAfter, value, flag, returns, fields, isResult, exact⟩ :=
    checked_arithmetic_exact_iff (.narrow .i8) 100 100 WideParser.integral_reads_decimal
      (pairStructs final) no_data_types emitted translated finished first second
      (byte_argument_held final 100) (byte_argument_held final 100)
  obtain rfl : flag = true := exact.mpr fun missed => nomatch missed.1
  obtain rfl : value = encodeInt .i8 (-56) := isResult
  exact ⟨function, final, instructions, found, object, worldAfter, returns, fields⟩

/-- `-128i8 * -1i8` is 128, which does not fit; the intrinsic returns `-128` and says that it does. -/
theorem checked_product_misses_overflow : overflows (.narrow .i8) .mul (-128) (-1) = true ∧
    ∃ function final instructions, byteIntrinsic .mul = some (function, final, instructions) ∧
      ∃ object worldAfter, Returns (pairEnvironment final) ⟨instructions, []⟩
          ⟨0, [], byteArguments (-128) (-1), ⟨.empty, fun _ => none⟩⟩ (some (.reference (some object)))
          worldAfter ∧
        worldAfter.fieldsAt object = some [.int (-128), .int 0] := by
  obtain ⟨function, final, instructions, found⟩ := byte_intrinsic_exists .mul
  obtain ⟨emitted, translated, finished⟩ := byte_intrinsic_finished found
  obtain ⟨first, second⟩ := byte_arguments_at (-128) (-1)
  obtain ⟨object, worldAfter, value, returns, fields, isResult⟩ :=
    checked_arithmetic_returns (.narrow .i8) (-128) (-1) WideParser.integral_reads_decimal
      (pairStructs final) no_data_types emitted translated finished first second
      (byte_argument_held final (-128)) (byte_argument_held final (-1))
  obtain rfl : value = encodeInt .i8 (-128) := isResult
  exact ⟨by decide, function, final, instructions, found, object, worldAfter, returns, fields⟩

end Bytes

end RustcCodegenJvm.Lower2
