import RustcCodegenJvm.Lower2.WideOps
import RustcCodegenJvm.Lower2.IntegerOps

/-!
# What the code for 128-bit operators does

Each operator leaves a reference to the object its method computes in the
result variable, and every object there was before is still there.
-/

namespace RustcCodegenJvm.Lower2

open Jvm Oomir RustcCodegenJvm.Runtime Library InternedConstantPool Translate StateExcept

def wordsOf (value : BitVec 128) : U128 := ⟨value.extractLsb' 64 64, value.setWidth 64⟩

def bitsNumber (signed : Bool) (value : BitVec 128) : Int :=
  if signed then value.toInt else value.toNat

theorem words_of_value (value : BitVec 128) : (wordsOf value).toNat = value.toNat := by
  rw [U128.toNat, wordsOf, BitVec.extractLsb'_toNat, BitVec.toNat_setWidth, Nat.shiftRight_eq_div_pow]
  omega

theorem number_words_of (signed : Bool) (value : BitVec 128) :
    Wide.number signed (wordsOf value) = bitsNumber signed value := by
  cases signed with
  | false => exact congrArg _ (words_of_value value)
  | true =>
    have same : (I128.ofU128 (wordsOf value)).toInt = (value.toNat : Int).bmod (2 ^ 128) :=
      I128.to_int_of_congr (wordsOf value) (by rw [words_of_value])
    rw [← BitVec.toInt_eq_toNat_bmod] at same
    exact same

/-! ### Loading -/

namespace PoolGrows

@[grind ←] theorem load_wide_constant (parser : WideParser) (signed : Bool) (digits : String) (constant : Constant) :
    PoolGrows (loadWideConstant parser signed digits constant) := by
  grind [loadWideConstant]

end PoolGrows

namespace Grows

variable (parser : WideParser) (operand : Operand)

@[grind ←] theorem load_wide_operand : Grows (loadWideOperand parser operand) := by
  unfold loadWideOperand
  split <;> grind

@[grind ←] theorem load_wide_operand_as (expected : Ty) :
    Grows (loadWideOperandAs parser operand expected) := by
  grind [loadWideOperandAs]

theorem load_distance : Grows (loadDistance parser operand) := by
  refine bind (load_wide_operand parser operand) fun _ => ?_
  split <;> grind

@[grind ←] theorem int128_binary_op (dest : String) (op1 op2 : Operand) (methodName : String) :
    Grows (translateInt128BinaryOp parser dest op1 op2 methodName) := by
  grind [translateInt128BinaryOp]

@[grind ←] theorem int128_comparison (dest : String) (op1 op2 : Operand) (className : String)
    (op : ComparisonOp) : Grows (translateInt128Comparison parser dest op1 op2 className op) := by
  grind [translateInt128Comparison]

end Grows

theorem load_wide_scalar (parser : WideParser) {table : LocalTable} {locals : Locals} {operand : Operand}
    {constant : Constant} {value : Value} (isScalar : IsScalar constant value)
    (holds : OperandHolds table locals operand constant) :
    loadWideOperand parser operand = loadOperand operand := by
  have notWide : wideDigits constant = none := by
    have encodes := isScalar.encodes
    cases constant with
    | «instance» => cases encodes
    | _ => rfl
  cases holds with
  | literal => simp only [loadWideOperand, notWide]
  | named => rfl

section Machine

variable {World : Type} {env : Environment World} (library : WideLibrary env) (parser : WideParser)

/-- The operand stands for an integer with these bits: a constant that is built from them, or a
variable whose slot refers to such an object. -/
inductive WideHolds (table : LocalTable) (locals : Locals) (world : World) (signed : Bool)
    (bits : U128) : Operand → Prop
  | literal (constant : Constant) (digits : String) (value : BitVec 128)
      (isWide : wideDigits constant = some (signed, digits))
      (parsed : parser.parse signed digits = .ok value) (isBits : wordsOf value = bits) :
      WideHolds table locals world signed bits (.constant constant)
  | named (name : String) (slot : Nat) (value : Value)
      (known : table.getTypedLocalIndex name (.class (wideClass signed)) = some slot)
      (held : locals slot = some value) (refers : library.Refers world signed bits value) :
      WideHolds table locals world signed bits (.variable name (.class (wideClass signed)))

variable {library parser}

variable {table : LocalTable} {locals : Locals} {signed : Bool} {bits : U128} {operand : Operand}
  {world : World}

theorem WideHolds.keep {before after : World}
    (holds : WideHolds library parser table locals before signed bits operand)
    (keeps : library.Keeps before after) :
    WideHolds library parser table locals after signed bits operand := by
  cases holds with
  | literal constant digits value isWide parsed isBits =>
    exact .literal constant digits value isWide parsed isBits
  | named name slot value known held refers =>
    exact .named name slot value known held (refers.keep keeps)

theorem wide_sign_class {className : String} (isWide : wideSign className = some signed) :
    className = wideClass signed := by
  unfold wideSign at isWide
  split_ifs at isWide with isSigned isUnsigned
  · cases isWide
    exact isSigned
  · cases isWide
    exact isUnsigned

theorem WideHolds.type (holds : WideHolds library parser table locals world signed bits operand) :
    operand.getType = .class (wideClass signed) := by
  cases holds with
  | named => rfl
  | literal constant digits value isWide parsed isBits =>
    unfold wideDigits at isWide
    split at isWide
    · rename_i className fields text paramTypes
      obtain ⟨sign, isSign, isPair⟩ := Option.map_eq_some_iff.mp isWide
      cases isPair
      have isClass := wide_sign_class isSign
      have notPointer : className ≠ pointerClass := by
        rw [isClass]
        cases signed <;> decide
      have isType : Ty.fromConstant (.instance className fields [.string digits] paramTypes) =
          .class className := by
        exact if_neg notPointer
      exact isType.trans (by rw [isClass])
    · cases isWide

theorem execute_external {code : Code} {pc : Nat} {stack stackAfter : List Value}
    {worldAfter : World} {instruction : Jvm.Instruction} (plain : instruction.isPlain = true)
    (isExternal : stackEffect env.constants instruction stack = .external)
    (performed : env.perform instruction stack world = .completes stackAfter worldAfter) :
    execute env code ⟨pc, stack, locals, world⟩ instruction =
      .running ⟨pc + 1, stackAfter, locals, worldAfter⟩ := by
  rw [execute_plain env code _ plain]
  simp only [isExternal, performExternal, performed]

theorem load_wide_constant_runs {before after : InternedConstantPool} {digits : String}
    {constant : Constant} {instructions : List Jvm.Instruction} {value : BitVec 128}
    (ran : (loadWideConstant parser signed digits constant).run before = .ok (instructions, after))
    (parsed : parser.parse signed digits = .ok value) (known : env.constants.Includes after.pool)
    (stack : List Value) (locals : Locals) (world : World) :
    ∃ reference worldAfter, (∀ code base, code.Holds base instructions →
        Steps env code ⟨base, stack, locals, world⟩
          ⟨base + instructions.length, reference :: stack, locals, worldAfter⟩) ∧
      library.Refers worldAfter signed (wordsOf value) reference ∧ library.Keeps world worldAfter := by
  obtain ⟨classIndex, classed, addedClass, afterClass⟩ := bind_ok ran
  simp only [parsed] at afterClass
  obtain ⟨methodIndex, referred, addedMethod, afterMethod⟩ := bind_ok afterClass
  obtain ⟨high, highPooled, highRan, afterHigh⟩ := bind_ok afterMethod
  obtain ⟨low, lowPooled, lowRan, returned⟩ := bind_ok afterHigh
  obtain ⟨rfl, rfl⟩ := pure_ok returned
  obtain ⟨classAt, -⟩ := add_class_spec addedClass
  obtain ⟨memberAt, memberGrows⟩ := add_method_ref_spec classAt addedMethod
  obtain ⟨highGrows, pushesHigh⟩ := long_const_emits_push _ _ _ _ highRan
  obtain ⟨lowGrows, pushesLow⟩ := long_const_emits_push _ _ _ _ lowRan
  have knownHigh : env.constants.Includes highPooled.pool := ConstantPool.Includes.trans known lowGrows
  have knownMember : env.constants.Includes referred.pool := ConstantPool.Includes.trans knownHigh highGrows
  have knownClass : env.constants.Includes classed.pool :=
    ConstantPool.Includes.trans knownMember memberGrows
  obtain ⟨object, allocated, created, fresh, keepsNew⟩ :=
    library.allocate classIndex signed stack world (knownClass.class_at classAt)
  obtain ⟨worldAfter, constructed, found, keepsInit⟩ :=
    library.construct methodIndex signed object (value.extractLsb' 64 64) (value.setWidth 64)
      (.reference (some object) :: stack) allocated (knownMember.member_at memberAt) fresh
  refine ⟨.reference (some object), worldAfter, ?_, ⟨object, rfl, found⟩,
    WideLibrary.Keeps.trans keepsNew keepsInit⟩
  intro code base holds
  refine steps_cons holds (execute_external rfl rfl created) fun holds => ?_
  refine steps_cons holds (execute_done env code _ rfl rfl) fun holds => ?_
  refine steps_cons holds (pushesHigh env knownHigh code _) fun holds => ?_
  refine steps_cons holds (pushesLow env known code _) fun holds => ?_
  exact steps_cons holds (execute_external rfl rfl constructed) fun _ => .refl

def Loaded (library : WideLibrary env) (table : LocalTable) (stack : List Value) (locals : Locals)
    (world : World) (signed : Bool) (bits : U128) : Assertion World :=
  fun tableAfter stackAfter localsAfter worldAfter =>
    tableAfter = table ∧ localsAfter = locals ∧ library.Keeps world worldAfter ∧
      ∃ value, stackAfter = value :: stack ∧ library.Refers worldAfter signed bits value

theorem load_wide_operand_triple {stack : List Value}
    (holds : WideHolds library parser table locals world signed bits operand) :
    Triple env (At table stack locals world) (loadWideOperand parser operand)
      (Loaded library table stack locals world signed bits) := by
  cases holds with
  | literal constant digits value isWide parsed isBits =>
    have chosen : loadWideOperand parser (.constant constant) =
        (do pushAll (← pooled (loadWideConstant parser signed digits constant))) := by
      simp only [loadWideOperand, isWide]
    rw [chosen]
    refine Triple.push_all_pooled (PoolGrows.load_wide_constant _ _ _ _) ?_
    rintro before after instructions ran known _ _ _ _ ⟨rfl, rfl, rfl, rfl⟩
    obtain ⟨reference, worldAfter, runs, refers, keeps⟩ :=
      load_wide_constant_runs ran parsed known _ _ _
    exact ⟨_, _, worldAfter, runs, rfl, rfl, keeps, reference, rfl, isBits ▸ refers⟩
  | named name slot value known held refers =>
    refine Triple.of_emitted library.java (Grows.load_wide_operand parser _) ?_
    rintro state later ran stack locals world ⟨isTable, rfl, rfl, rfl⟩
    obtain ⟨object, rfl, found⟩ := refers
    obtain ⟨_, between, got, loads⟩ := bind_ok ran
    obtain ⟨rfl, rfl⟩ := get_ok got
    simp only [isTable, known] at loads
    obtain rfl := modify_ok loads
    refine ⟨_, _, emitted_push fun env _ _ code world pc => ?_, isTable, rfl,
      WideLibrary.Keeps.refl _, .reference (some object), rfl, object, rfl, found⟩
    have read : locals.read .reference (LocalForm.ofSlot slot).slot =
        some (.reference (some object)) := by
      simp [Locals.read, held, Value.kind]
    simp only [execute, read]

def LoadedBoth (library : WideLibrary env) (table : LocalTable) (stack : List Value) (locals : Locals)
    (world : World) (signed : Bool) (left right : U128) : Assertion World :=
  fun tableAfter stackAfter localsAfter worldAfter =>
    tableAfter = table ∧ localsAfter = locals ∧ library.Keeps world worldAfter ∧
      ∃ leftValue rightValue, stackAfter = rightValue :: leftValue :: stack ∧
        library.Refers worldAfter signed left leftValue ∧
        library.Refers worldAfter signed right rightValue

/-- The result variable holds a value, and nothing else changed but new objects. -/
def Stored (library : WideLibrary env) (table : LocalTable) (stack : List Value) (locals : Locals)
    (world : World) (dest : String) (ty : Ty) (result : World → Value → Prop) : Assertion World :=
  fun tableAfter stackAfter localsAfter worldAfter =>
    tableAfter = (table.getOrAssignLocal dest ty).2 ∧ stackAfter = stack ∧
      library.Keeps world worldAfter ∧
      ∃ value, localsAfter = locals.write (table.getOrAssignLocal dest ty).1 value ∧
        result worldAfter value

section Operators

variable {table : LocalTable} {stack : List Value} {locals : Locals} {world : World} {signed : Bool}
  {left right bits : U128} {op1 op2 operand : Operand} {dest : String}

theorem store_wide_triple :
    Triple env (Loaded library table stack locals world signed bits)
      (storeResult dest (.class (wideClass signed)))
      (Stored library table stack locals world dest (.class (wideClass signed))
        fun worldAfter value => library.Refers worldAfter signed bits value) := by
  refine Triple.of_emitted library.java (Grows.store_result _ _) ?_
  rintro state later ran stackBefore localsBefore worldBefore
    ⟨isTable, rfl, keeps, value, rfl, object, rfl, found⟩
  have assigns : Assigns table (storeResult dest (.class (wideClass signed))) dest
      (.class (wideClass signed)) (.reference (some object) :: stack, localsBefore) stack localsBefore
      (.reference (some object)) := store_result_assigns rfl
  obtain ⟨isLater, emitted⟩ := assigns state later isTable ran
  exact ⟨_, _, emitted, isLater, rfl, keeps, _, rfl, object, rfl, found⟩

theorem load_wide_operand_as_triple
    (holds : WideHolds library parser table locals world signed bits operand) :
    Triple env (At table stack locals world)
      (loadWideOperandAs parser operand (.class (wideClass signed)))
      (Loaded library table stack locals world signed bits) := by
  have skipped : loadWideOperandAs parser operand (.class (wideClass signed)) =
      (do loadWideOperand parser operand; pure ()) := by
    simp [loadWideOperandAs, holds.type]
  rw [skipped]
  exact (load_wide_operand_triple holds).seq Triple.nothing

theorem load_second_triple {load : Translate Unit} (grows : Grows load)
    (loads : ∀ stackNow worldNow, library.Keeps world worldNow →
      Triple env (At table stackNow locals worldNow) load
        (Loaded library table stackNow locals worldNow signed right)) :
    Triple env (Loaded library table stack locals world signed left) load
      (LoadedBoth library table stack locals world signed left right) := by
  refine Triple.of_each grows ?_
  rintro tableNow stackNow localsNow worldNow ⟨rfl, rfl, keeps, leftValue, rfl, leftRefers⟩
  refine (loads _ worldNow keeps).consequence (fun _ _ _ _ same => same) ?_
  rintro _ _ _ worldAfter ⟨rfl, rfl, keepsMore, rightValue, rfl, rightRefers⟩
  exact ⟨rfl, rfl, keeps.trans keepsMore, leftValue, rightValue, rfl, leftRefers.keep keepsMore,
    rightRefers⟩

theorem int128_binary_op_triple (method : Wide.BinaryMethod)
    (leftHolds : WideHolds library parser table locals world signed left op1)
    (rightHolds : WideHolds library parser table locals world signed right op2)
    (applied : method.apply signed left right = .ok bits) :
    Triple env (At table stack locals world)
      (translateInt128BinaryOp parser dest op1 op2 method.name)
      (Stored library table stack locals world dest (.class (wideClass signed))
        fun worldAfter value => library.Refers worldAfter signed bits value) := by
  have chosen : [op1.getType, op2.getType].findSome? wideTypeName = some (wideClass signed) := by
    rw [leftHolds.type]
    cases signed <;> rfl
  unfold translateInt128BinaryOp
  simp only [chosen]
  refine (load_wide_operand_as_triple leftHolds).seq <|
    (load_second_triple (Grows.load_wide_operand_as parser op2 _) fun stackNow worldNow keeps =>
      load_wide_operand_as_triple (rightHolds.keep keeps)).seq <|
    Triple.seq (Triple.call ?_) store_wide_triple
  rintro index found _ _ _ worldNow ⟨rfl, rfl, keeps, _, _, rfl, ⟨leftObject, rfl, leftAt⟩,
    ⟨rightObject, rfl, rightAt⟩⟩
  obtain ⟨object, worldAfter, performed, isResult, keepsMore⟩ :=
    library.binary index signed method leftObject rightObject left right bits stack worldNow found
      leftAt rightAt applied
  exact ⟨_, worldAfter, performed, rfl, rfl, keeps.trans keepsMore, _, rfl, object, rfl, isResult⟩

theorem int128_unary_op_triple (method : Wide.UnaryMethod)
    (holds : WideHolds library parser table locals world signed bits operand) :
    Triple env (At table stack locals world)
      (translateInt128UnaryOp parser dest operand method.name)
      (Stored library table stack locals world dest (.class (wideClass signed))
        fun worldAfter value => library.Refers worldAfter signed (method.apply signed bits) value) := by
  unfold translateInt128UnaryOp
  simp only [holds.type]
  refine (load_wide_operand_triple holds).seq <| Triple.seq (Triple.call ?_) store_wide_triple
  rintro index found _ _ _ worldNow ⟨rfl, rfl, keeps, _, rfl, operandObject, rfl, operandAt⟩
  obtain ⟨object, worldAfter, performed, isResult, keepsMore⟩ :=
    library.unary index signed method operandObject bits stack worldNow found operandAt
  exact ⟨_, worldAfter, performed, rfl, rfl, keeps.trans keepsMore, _, rfl, object, rfl, isResult⟩

def Compared (library : WideLibrary env) (table : LocalTable) (stack : List Value) (locals : Locals)
    (world : World) (signed : Bool) (left right : U128) : Assertion World :=
  fun tableAfter stackAfter localsAfter worldAfter =>
    tableAfter = table ∧ localsAfter = locals ∧ library.Keeps world worldAfter ∧
      stackAfter = .int (Wide.compareTo signed left right) :: stack

theorem compare_to_triple (leftHolds : WideHolds library parser table locals world signed left op1)
    (rightHolds : WideHolds library parser table locals world signed right op2) {rest : Translate Unit}
    {post : Assertion World}
    (tail : Triple env (Compared library table stack locals world signed left right) rest post) :
    Triple env (At table stack locals world) (do
      loadWideOperand parser op1
      loadWideOperand parser op2
      pushPooled (methodCall .virtual (wideClass signed) "compareTo"
        ("(" ++ wideDescriptor signed ++ ")I"))
      rest) post := by
  refine (load_wide_operand_triple leftHolds).seq <|
    (load_second_triple (Grows.load_wide_operand parser op2) fun stackNow worldNow keeps =>
      load_wide_operand_triple (rightHolds.keep keeps)).seq <|
    Triple.seq (Triple.call ?_) tail
  rintro index found _ _ _ worldNow ⟨rfl, rfl, keeps, _, _, rfl, ⟨leftObject, rfl, leftAt⟩,
    ⟨rightObject, rfl, rightAt⟩⟩
  exact ⟨_, worldNow, library.compare index signed leftObject rightObject left right stack worldNow
    found leftAt rightAt, rfl, rfl, keeps, rfl⟩

theorem int128_comparison_triple (op : ComparisonOp)
    (leftHolds : WideHolds library parser table locals world signed left op1)
    (rightHolds : WideHolds library parser table locals world signed right op2) :
    Triple env (At table stack locals world)
      (translateInt128Comparison parser dest op1 op2 (wideClass signed) op)
      (Stored library table stack locals world dest .boolean fun _ value =>
        value = .int (if op.holds (compare (Wide.number signed left) (Wide.number signed right))
          then 1 else 0)) := by
  refine compare_to_triple leftHolds rightHolds (Triple.of_emitted library.java (Grows.materialize _ _) ?_)
  rintro state later ran _ localsNow worldNow ⟨isTable, rfl, keeps, rfl⟩
  obtain ⟨negative, zero, positive⟩ := Wide.compare_number signed left right
  have tested : (compareSign op).test (.int (Wide.compareTo signed left right) :: stack) = _ :=
    compare_sign_test op (negative.trans compare_lt_iff_lt.symm) (zero.trans compare_eq_iff_eq.symm)
      (positive.trans compare_gt_iff_gt.symm)
  obtain ⟨isLater, emitted⟩ := materialize_assigns tested state later isTable ran
  exact ⟨_, _, emitted, isLater, rfl, keeps, _, rfl, rfl⟩

def DistanceLoaded (library : WideLibrary env) (table : LocalTable) (stack : List Value)
    (locals : Locals) (world : World) (signed : Bool) (bits : U128) (distance : JInt) :
    Assertion World :=
  fun tableAfter stackAfter localsAfter worldAfter =>
    tableAfter = table ∧ localsAfter = locals ∧ library.Keeps world worldAfter ∧
      ∃ value, stackAfter = .int distance :: value :: stack ∧
        library.Refers worldAfter signed bits value

section Shifts

variable {amountKind : IntTy} {amount : BitVec amountKind.width}

theorem load_distance_triple (amountHolds : OperandHolds table locals op2 (.int amountKind amount)) :
    Triple env (Loaded library table stack locals world signed bits) (loadDistance parser op2)
      (DistanceLoaded library table stack locals world signed bits (lowAmount amountKind amount)) := by
  have distance : loadDistance parser op2 = loadJvmIntOperand op2 := by
    cases amountHolds with
    | literal => cases amountKind <;> rfl
    | named => cases amountKind <;> rfl
  refine Triple.of_emitted library.java (Grows.load_distance parser op2) ?_
  rintro state later ran _ _ worldNow ⟨isTable, rfl, keeps, value, rfl, refers⟩
  rw [distance] at ran
  obtain ⟨isLater, emitted⟩ := load_amount_emits amountHolds state later isTable ran
  exact ⟨_, _, emitted, isLater, rfl, keeps, value, rfl, refers⟩

theorem int128_shift_triple (op : Oomir.ShiftOp)
    (valueHolds : WideHolds library parser table locals world signed bits op1)
    (amountHolds : OperandHolds table locals op2 (.int amountKind amount)) :
    Triple env (At table stack locals world)
      (translateInt128Shift parser dest op1 op2 (Wide.shiftName op))
      (Stored library table stack locals world dest (.class (wideClass signed))
        fun worldAfter value => library.Refers worldAfter signed
          (Wide.shift op signed bits (lowAmount amountKind amount)) value) := by
  unfold translateInt128Shift
  simp only [valueHolds.type]
  refine (load_wide_operand_triple valueHolds).seq <| (load_distance_triple amountHolds).seq <|
    Triple.seq (Triple.call ?_) store_wide_triple
  rintro index found _ _ _ worldNow ⟨rfl, rfl, keeps, _, rfl, operandObject, rfl, operandAt⟩
  obtain ⟨object, worldAfter, performed, isResult, keepsMore⟩ :=
    library.shift index signed op operandObject bits (lowAmount amountKind amount) stack worldNow found
      operandAt
  exact ⟨_, worldAfter, performed, rfl, rfl, keeps.trans keepsMore, _, rfl, object, rfl, isResult⟩

end Shifts

end Operators

end Machine

end RustcCodegenJvm.Lower2
