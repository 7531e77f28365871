import RustcCodegenJvm.Lower2.Fixups
import RustcCodegenJvm.Lower2.WideFoldAgreement

/-!
# Switches

Three implementations of one switch: the interpreter compares the discriminant
with each case, a JVM switch finds its `int` among sorted keys, and a chain of
comparisons tries the cases one by one. All three take the label of the case
with the discriminant's value, or the default.
-/

namespace RustcCodegenJvm.Lower2

open Option MethodTriple

open Jvm Oomir RustcCodegenJvm.Runtime Library Translate TranslateMethod StateExcept
  List

/-- A constant of a type that can be switched on, with its integer. -/
inductive IsCase (parser : WideParser) : Ty → Int → Constant → Prop
  | int (kind : IntTy) (bits : BitVec kind.width) :
    IsCase parser (.int kind) (kind.value bits) (.int kind bits)
  | boolean (truth : Bool) : IsCase parser .boolean (if truth then 1 else 0) (.boolean truth)
  | char (character : Char) : IsCase parser .char character.toNat (.char character)
  | wide {signed : Bool} {value : BitVec 128} {constant : Constant}
      (isWide : IsWide parser signed value constant) :
    IsCase parser (.class (wideClass signed)) (bitsNumber signed value) constant

def matchingLabel (numerics : Numerics) (number : Int) (targets : List (Constant × String))
    (otherwise : String) : String :=
  match targets with
  | [] => otherwise
  | (constant, label) :: rest =>
    if parseConstantToBigint numerics constant = some number then label
    else matchingLabel numerics number rest otherwise

def AllCases (parser : WideParser) (ty : Ty) (targets : List (Constant × String)) : Prop :=
  ∀ target ∈ targets, ∃ caseNumber, IsCase parser ty caseNumber target.1

section Switch

variable {World : Type} {env : Environment World} {library : WideLibrary env} {parser : WideParser}
  {numerics : Numerics}
  {ty : Ty} {constant : Constant} {value : Value} {locals : Locals} {world : World}

theorem IsCase.number (decimal : parser.Decimal numerics) {number : Int}
    (isCase : IsCase parser ty number constant) :
    parseConstantToBigint numerics constant = some number := by
  cases isCase with
  | int | boolean | char => rfl
  | wide isWide => exact isWide.number decimal

variable {number : Int}

theorem IsCase.type
    (isCase : IsCase parser ty number constant) : Ty.fromConstant constant = ty := by
  cases isCase with
  | int | boolean | char => rfl
  | wide isWide => exact isWide.type

theorem IsCase.valued (isCase : IsCase parser ty number constant) : 0 < ty.size := by
  cases isCase with
  | int kind bits => exact LocalTable.size_pos_of_value rfl
  | boolean | char | wide => exact Nat.one_pos

/-! ### The interpreter -/

theorem switch_constants_match (decimal : parser.Decimal numerics)
    {discr : Constant} (isDiscr : IsCase parser ty number discr) (targets : List (Constant × String))
    (cases : AllCases parser ty targets)
    (otherwise : String) :
    (switchConstants numerics discr targets).getD otherwise =
      matchingLabel numerics number targets otherwise := by
  induction targets with
  | nil => rfl
  | cons target rest ih =>
    obtain ⟨constant, label⟩ := target
    obtain ⟨caseNumber, isCase⟩ := cases _ mem_cons_self
    have compared : comparisonConstants numerics .eq discr constant =
        some (compare number caseNumber == .eq) := by
      unfold comparisonConstants compareConstants
      simp only [compareBigints, isDiscr.number decimal, isCase.number decimal]
      rfl
    have restMatches := ih fun target member => cases target (mem_cons_of_mem _ member)
    simp only [switchConstants, matchingLabel, compared, isCase.number decimal, some.injEq]
    by_cases same : caseNumber = number
    · have equal : (compare number caseNumber == .eq) = true := by
        rw [beq_iff_eq, compare_eq_iff_eq, same]
      rw [equal, if_pos same]
      rfl
    · have different : (compare number caseNumber == .eq) = false := by
        rw [beq_eq_false_iff_ne, Ne, compare_eq_iff_eq]
        exact fun equal => same equal.symm
      rw [different, if_neg same]
      exact restMatches

/-! ### Values of the small types -/

theorem char_word (character : Char) :
    (BitVec.ofNat 32 character.toNat : JInt).toInt = character.toNat := by
  have small : character.toNat < 2 ^ 31 := by
    have valid : character.toNat.isValidChar := character.valid
    omega
  rw [BitVec.toInt_eq_toNat_cond, BitVec.toNat_ofNat]
  omega

theorem IsCase.narrow
    (isCase : IsCase parser ty number constant) (isNarrow : isJvmSwitchType ty = true) :
    ∃ word : JInt, IsScalar constant (.int word) ∧ caseKey constant = some word.toInt := by
  cases isCase with
  | boolean truth => exact ⟨_, boolean_is_scalar truth, by cases truth <;> rfl⟩
  | char character => exact ⟨_, ⟨rfl, ⟨_, rfl, int_const_emits_push _⟩, rfl⟩, congrArg some (char_word character).symm⟩
  | wide isWide => cases isNarrow
  | int kind bits =>
    cases kind with
    | i64 | u64 => cases isNarrow
    | i8 | u8 | i16 =>
      refine ⟨_, int_is_scalar _ bits, congrArg some ?_⟩
      exact (BitVec.toInt_signExtend_of_le (by decide)).symm
    | u16 =>
      refine ⟨_, int_is_scalar _ bits, congrArg some ?_⟩
      have bound : bits.toNat < 2 ^ 16 := bits.isLt
      rw [BitVec.toInt_eq_toNat_cond, BitVec.toNat_setWidth]
      omega
    | i32 | u32 => exact ⟨_, int_is_scalar _ bits, rfl⟩

/-- Two cases of one type push one value exactly if they are the same integer. -/
theorem scalar_eq_iff {number other : Int} {second : Constant}
    {secondValue : Value} (isCase : IsCase parser ty number constant)
    (isSecond : IsCase parser ty other second) (encoded : IsScalar constant value)
    (secondEncoded : IsScalar second secondValue) : value = secondValue ↔ number = other := by
  have encodes := encoded.encodes
  have secondEncodes := secondEncoded.encodes
  cases isCase with
  | int kind bits =>
    cases isSecond with
    | int _ secondBits =>
      cases encodes
      cases secondEncodes
      rw [encode_int_injective, value_injective]
  | boolean truth =>
    cases isSecond with
    | boolean secondTruth =>
      cases encodes
      cases secondEncodes
      cases truth <;> cases secondTruth <;> decide
  | char character =>
    cases isSecond with
    | char secondCharacter =>
      cases encodes
      cases secondEncodes
      rw [Value.int.injEq, ← BitVec.toInt_inj, char_word, char_word]
  | wide isWide =>
    obtain ⟨fields, digits, paramTypes, rfl, -⟩ := isWide.shape
    cases encodes

/-! ### The value of the discriminant -/

inductive DiscrValue (library : WideLibrary env) (parser : WideParser) (world : World) :
    Ty → Int → Value → Prop
  | scalar {ty : Ty} {number : Int} {constant : Constant} {value : Value}
      (isCase : IsCase parser ty number constant) (isScalar : IsScalar constant value) :
    DiscrValue library parser world ty number value
  | wide {signed : Bool} {bits : BitVec 128} {value : Value}
      (refers : library.Refers world signed (wordsOf bits) value) :
    DiscrValue library parser world (.class (wideClass signed)) (bitsNumber signed bits) value

inductive DiscrHolds (library : WideLibrary env) (parser : WideParser) (table : LocalTable)
    (locals : Locals) (world : World) : Ty → Int → Operand → Constant → Prop
  | scalar {ty : Ty} {number : Int} {operand : Operand} {constant : Constant} {value : Value}
      (isCase : IsCase parser ty number constant) (isScalar : IsScalar constant value)
      (holds : OperandHolds table locals operand constant) :
    DiscrHolds library parser table locals world ty number operand constant
  | wide {signed : Bool} {bits : BitVec 128} {operand : Operand} {constant : Constant}
      (agrees : WideAgrees library parser table locals world signed bits operand constant) :
    DiscrHolds library parser table locals world (.class (wideClass signed)) (bitsNumber signed bits)
      operand constant

theorem DiscrHolds.is_case {table : LocalTable}
    {operand : Operand}
    (holds : DiscrHolds library parser table locals world ty number operand constant) :
    IsCase parser ty number constant := by
  cases holds with
  | scalar isCase => exact isCase
  | wide agrees => exact .wide agrees.constant

theorem DiscrHolds.type {table : LocalTable}
    {operand : Operand}
    (holds : DiscrHolds library parser table locals world ty number operand constant) :
    operand.getType = ty := by
  cases holds with
  | scalar isCase _ holds => rw [holds.type, isCase.type]
  | wide agrees => exact agrees.holds.type

theorem DiscrValue.kind
    (isValue : DiscrValue library parser world ty number value) : localKind ty = some value.kind := by
  cases isValue with
  | scalar isCase isScalar => rw [← isCase.type, isScalar.kind]
  | wide refers =>
    obtain ⟨object, rfl, -⟩ := refers
    rfl

theorem wide_class_injective {first second : Bool} (same : wideClass first = wideClass second) :
    first = second := by
  cases first <;> cases second <;> first | rfl | exact absurd same (by decide)

theorem DiscrValue.of_wide {signed : Bool}
    (isValue : DiscrValue library parser world (.class (wideClass signed)) number value) :
    ∃ bits, number = bitsNumber signed bits ∧ library.Refers world signed (wordsOf bits) value := by
  generalize isTy : Ty.class (wideClass signed) = ty at isValue
  cases isValue with
  | scalar isCase isScalar =>
    cases isCase with
    | int | boolean | char => cases isTy
    | wide isWide =>
      -- a 128-bit constant is no scalar
      obtain ⟨fields, digits, paramTypes, rfl, -⟩ := isWide.shape
      have encodes := isScalar.encodes
      cases encodes
  | wide refers =>
    obtain rfl := wide_class_injective (Ty.class.inj isTy)
    exact ⟨_, rfl, refers⟩

/-! ### The comparison chain -/

def Kept (library : WideLibrary env) (stack : List Value) (locals : Locals) (world : World) :
    Assertion World :=
  fun _ stackAfter localsAfter worldAfter =>
    stackAfter = stack ∧ localsAfter = locals ∧ library.Keeps world worldAfter

theorem Kept.of_emits {stack stackAfter : List Value} {localsAfter : Locals}
    {action : Translate Unit} (grows : Grows action)
    (emits : ∀ table, Emits table action (stack, locals) (stackAfter, localsAfter)) :
    Triple env (Kept library stack locals world) action
      (Kept library stackAfter localsAfter world) := by
  refine Triple.of_emitted library.java grows ?_
  rintro state later ran _ _ worldNow ⟨rfl, rfl, keeps⟩
  obtain ⟨-, emitted⟩ := emits _ state later rfl ran
  exact ⟨_, _, emitted, rfl, rfl, keeps⟩

section Chain

variable {ty : Ty} {number caseNumber : Int} {value : Value} {slot : Nat} {stack : List Value}
  {locals : Locals} {world : World} {constant : Constant} {label : String}

def CaseCompared (library : WideLibrary env) (stack : List Value) (locals : Locals) (world : World)
    (equal : Prop) : Assertion World :=
  fun _ stackAfter localsAfter worldAfter =>
    ∃ order : JInt, stackAfter = .int order :: stack ∧ localsAfter = locals ∧
      library.Keeps world worldAfter ∧ (order = 0 ↔ equal)

@[grind ←] theorem compared_case_grows (context : String) (ty : Ty) (constant : Constant) :
    Grows (pushComparedCase parser context ty constant) := by
  unfold pushComparedCase
  split <;> grind

theorem long_case_triple {kind : IntTy} {bits caseBits : BitVec kind.width} {left right : JLong}
    (isLeft : encodeInt kind bits = .long left) (isRight : encodeInt kind caseBits = .long right) :
    Triple env (Kept library (encodeInt kind bits :: stack) locals world)
      (do
        pushPooled (loadInt kind caseBits)
        Translate.push .lcmp)
      (CaseCompared library stack locals world (kind.value bits = kind.value caseBits)) := by
  have emits : ∀ table, Emits table (do pushPooled (loadInt kind caseBits); Translate.push .lcmp)
      (encodeInt kind bits :: stack, locals) (.int (compareSigned left right) :: stack, locals) := by
    intro table
    refine (Emits.load_constant (load_int_emits_push kind caseBits)).seq (Emits.plain rfl fun pool => ?_)
    rw [isLeft, isRight]
    rfl
  refine (Kept.of_emits (by grind) emits).consequence (fun _ _ _ _ same => same) ?_
  rintro _ _ _ worldAfter ⟨rfl, rfl, keeps⟩
  refine ⟨_, rfl, rfl, keeps, ?_⟩
  rw [compare_signed_zero, BitVec.toInt_inj, ← value_injective, ← encode_int_injective, isLeft, isRight,
    Value.long.injEq]

theorem wide_case_triple {signed : Bool} {bits caseBits : BitVec 128}
    (refers : library.Refers world signed (wordsOf bits) value)
    (isWide : IsWide parser signed caseBits constant) :
    Triple env (Kept library (value :: stack) locals world)
      (do
        loadWideOperand parser (.constant constant)
        pushPooled (methodCall .virtual (wideClass signed) "compareTo"
          ("(" ++ Ty.classDescriptor (wideClass signed) ++ ")I")))
      (CaseCompared library stack locals world (bitsNumber signed bits = bitsNumber signed caseBits)) := by
  refine Triple.of_each (by grind) ?_
  rintro tableNow _ _ worldNow ⟨rfl, rfl, keeps⟩
  have loads : LoadsAs library parser constant (.wide signed (wordsOf caseBits)) := isWide.loads
  refine (loads tableNow _ _ worldNow).seq (Triple.call ?_)
  rintro index found _ _ _ worldAfter ⟨rfl, rfl, keepsMore, _, rfl, caseObject, rfl, caseAt⟩
  obtain ⟨object, rfl, isAt⟩ := refers.keep (keeps.trans keepsMore)
  refine ⟨_, worldAfter, library.compare index signed object caseObject _ _ stack worldAfter found isAt
    caseAt, _, rfl, rfl, keeps.trans keepsMore, ?_⟩
  rw [(Wide.compare_number signed _ _).zero, number_words_of, number_words_of]

theorem compared_case_triple (context : String)
    (isValue : DiscrValue library parser world ty number value)
    (isCase : IsCase parser ty caseNumber constant) (notNarrow : isJvmSwitchType ty = false) :
    Triple env (Kept library (value :: stack) locals world)
      (pushComparedCase parser context ty constant)
      (CaseCompared library stack locals world (number = caseNumber)) := by
  cases isCase with
  | boolean | char => cases notNarrow
  | int kind caseBits =>
    cases isValue with
    | scalar isDiscr isScalar =>
      cases isDiscr with
      | int _ bits =>
        have encodes := isScalar.encodes
        cases encodes
        cases kind with
        | i8 | u8 | i16 | u16 | i32 | u32 => cases notNarrow
        | i64 | u64 => exact long_case_triple rfl rfl
  | @wide signed caseBits _ isWide =>
    obtain ⟨bits, rfl, refers⟩ := isValue.of_wide
    exact wide_case_triple refers isWide

/-- One link of the chain jumps exactly for the case's own integer. -/
theorem case_check_triple (isValue : DiscrValue library parser world ty number value)
    (held : locals slot = some value) (isCase : IsCase parser ty caseNumber constant) :
    MethodTriple env (Kept library stack locals world)
      (emitCaseCheck parser ty slot constant label)
      (fun table stackAfter localsAfter worldAfter => number ≠ caseNumber ∧
        Kept library stack locals world table stackAfter localsAfter worldAfter)
      (fun target stackAfter _ _ => number = caseNumber ∧ target = label ∧ stackAfter = stack) := by
  refine seq (lift (Kept.of_emits (Grows.push_load ty slot) fun table =>
    push_load_emits isValue.kind held)) <| get fun state => ?_
  by_cases isNarrow : isJvmSwitchType ty = true
  · rw [if_pos isNarrow]
    obtain ⟨word, caseScalar, isKey⟩ := isCase.narrow isNarrow
    simp only [isKey, BitVec.ofInt_toInt]
    refine seq (lift (Kept.of_emits
      (Grows.push_pooled (PoolGrows.int_const word)) fun table =>
        Emits.load_constant (int_const_emits_push word))) <| branch ?_
    rintro table _ _ worldNow ⟨rfl, rfl, keeps⟩
    cases isValue with
    | wide => cases isNarrow
    | scalar isDiscr isScalar =>
      obtain ⟨discrWord, discrScalar, -⟩ := isDiscr.narrow isNarrow
      have sameValue : some value = some (Value.int discrWord) :=
        isScalar.encodes.symm.trans discrScalar.encodes
      cases sameValue
      have equal : discrWord = word ↔ number = caseNumber := by
        rw [← scalar_eq_iff isDiscr isCase discrScalar caseScalar, Value.int.injEq]
      refine ⟨discrWord == word, stack, rfl, ?_⟩
      split
      · rename_i taken
        exact ⟨equal.mp (beq_iff_eq.mp taken), rfl, rfl⟩
      · rename_i passed
        exact ⟨fun same => passed (beq_iff_eq.mpr (equal.mpr same)), rfl, rfl, keeps⟩
  · rw [if_neg isNarrow]
    refine seq (lift (compared_case_triple _ isValue isCase
      (Bool.eq_false_of_not_eq_true isNarrow))) <| branch ?_
    rintro table _ _ worldNow ⟨order, rfl, rfl, keeps, equal⟩
    refine ⟨order == 0, stack, rfl, ?_⟩
    split
    · rename_i taken
      exact ⟨equal.mp (beq_iff_eq.mp taken), rfl, rfl⟩
    · rename_i passed
      exact ⟨fun same => passed (beq_iff_eq.mpr (equal.mpr same)), rfl, rfl, keeps⟩

/-- The links of the chain jump to the label of the first case with the number, and fall through
when there is none. -/
theorem case_checks_triple (decimal : parser.Decimal numerics)
    (isValue : DiscrValue library parser world ty number value) (held : locals slot = some value)
    (targets : List (Constant × String))
    (cases : AllCases parser ty targets) :
    MethodTriple env (Kept library stack locals world) (emitCaseChecks parser ty slot targets)
      (fun table stackAfter localsAfter worldAfter =>
        (∀ otherwise, matchingLabel numerics number targets otherwise = otherwise) ∧
        Kept library stack locals world table stackAfter localsAfter worldAfter)
      (fun label stackAfter _ _ =>
        (∀ otherwise, matchingLabel numerics number targets otherwise = label) ∧ stackAfter = stack) := by
  induction targets with
  | nil =>
    exact nothing.consequence (fun _ _ _ _ kept => kept)
      (fun _ _ _ _ kept => ⟨fun _ => rfl, kept⟩) fun _ _ _ _ jumped => jumped
  | cons target rest ih =>
    obtain ⟨constant, caseLabel⟩ := target
    obtain ⟨caseNumber, isCase⟩ := cases _ mem_cons_self
    have restTriple := ih fun target member => cases target (mem_cons_of_mem _ member)
    have unfolds : ∀ otherwise, matchingLabel numerics number ((constant, caseLabel) :: rest) otherwise =
        if number = caseNumber then caseLabel else matchingLabel numerics number rest otherwise := by
      intro otherwise
      simp only [matchingLabel, isCase.number decimal, some.injEq, eq_comm]
    simp only [unfolds]
    refine seq ((case_check_triple isValue held isCase).consequence
      (fun _ _ _ _ kept => kept) (fun _ _ _ _ kept => kept) ?_)
      (restTriple.frame.consequence (fun _ _ _ _ kept => kept) ?_ ?_)
    · rintro label _ _ _ ⟨same, rfl, rfl⟩
      exact ⟨fun _ => if_pos same, rfl⟩
    · rintro table _ _ _ ⟨different, none, kept⟩
      exact ⟨fun otherwise => (if_neg different).trans (none otherwise), kept⟩
    · rintro label _ _ _ ⟨different, found, rfl⟩
      exact ⟨fun otherwise => (if_neg different).trans (found otherwise), rfl⟩

end Chain

@[grind ←] theorem case_checks_grow (ty : Ty) (slot : Nat) (targets : List (Constant × String)) :
    MethodGrows (emitCaseChecks parser ty slot targets) := by
  induction targets with
  | nil => exact MethodGrows.pure ()
  | cons target rest ih =>
    refine MethodGrows.bind (MethodGrows.bind (by grind) fun _ => MethodGrows.bind .get fun _ => ?_) fun _ => ih
    repeat' split
    all_goals grind

/-- The jump a switch takes: to the label of the matching case, with the stack as it was. -/
def SwitchJump (numerics : Numerics) (number : Int) (targets : List (Constant × String))
    (otherwise : String) (stack : List Value) : JumpAssertion World :=
  fun label stackAfter _ _ =>
    label = matchingLabel numerics number targets otherwise ∧ stackAfter = stack

section Discriminant

variable {table : LocalTable} {stack : List Value} {locals : Locals} {world : World} {ty : Ty}
  {number : Int} {discr : Operand} {constant : Constant}

def DiscrLoaded (library : WideLibrary env) (parser : WideParser) (table : LocalTable)
    (stack : List Value) (locals : Locals) (world : World) (ty : Ty) (number : Int) : Assertion World :=
  fun tableAfter stackAfter localsAfter worldAfter =>
    tableAfter = table ∧ localsAfter = locals ∧ library.Keeps world worldAfter ∧
      ∃ value, stackAfter = value :: stack ∧ DiscrValue library parser worldAfter ty number value

section

variable (holds : DiscrHolds library parser table locals world ty number discr constant)

include holds

theorem load_discr_triple :
    Triple env (At table stack locals world) (loadWideOperand parser discr)
      (DiscrLoaded library parser table stack locals world ty number) := by
  cases holds with
  | @scalar _ _ _ _ value isCase isScalar operandHolds =>
    refine Triple.of_emitted library.java (Grows.load_wide_operand parser _) ?_
    rintro state later ran _ _ worldNow ⟨isTable, rfl, rfl, rfl⟩
    rw [load_wide_scalar parser isScalar operandHolds] at ran
    obtain ⟨isLater, emitted⟩ := load_scalar_emits isScalar operandHolds state later isTable ran
    exact ⟨_, _, emitted, isLater, rfl, WideLibrary.Keeps.refl _, value, rfl, .scalar isCase isScalar⟩
  | wide agrees =>
    refine (load_wide_operand_triple agrees.holds).consequence (fun _ _ _ _ same => same) ?_
    rintro _ _ _ worldAfter ⟨rfl, rfl, keeps, value, rfl, refers⟩
    exact ⟨rfl, rfl, keeps, value, rfl, .wide refers⟩

theorem DiscrHolds.valued :
    0 < ty.size := by
  cases holds with
  | scalar isCase => exact isCase.valued
  | wide => exact Nat.one_pos

end

variable (decimal : parser.Decimal numerics)
  (holds : DiscrHolds library parser table locals world ty number discr constant)

include holds in
include decimal in
theorem comparison_chain_triple
    (targets : List (Constant × String))
    (cases : AllCases parser ty targets)
    (otherwise : String) :
    MethodTriple env (At table stack locals world) (emitComparisonChain parser discr targets otherwise)
      Never (SwitchJump numerics number targets otherwise stack) := by
  unfold emitComparisonChain
  rw [holds.type]
  refine seq (lift (load_discr_triple holds)) <|
    get fun state =>
      assign holds.valued (fun _ _ _ _ loaded => loaded.1) fun slot => ?_
  refine of_each (by grind) ?_
  rintro tableNow _ localsNow worldNow ⟨-, -, -, rfl, -, value, rfl, isValue⟩
  have stores : Triple env (At tableNow (value :: stack) localsNow worldNow) (pushStore ty slot)
      (Kept library stack (localsNow.write slot value) worldNow) := by
    refine (Kept.of_emits (Grows.push_store ty slot) fun _ => push_store_emits isValue.kind).consequence
      ?_ fun _ _ _ _ kept => kept
    rintro _ _ _ _ ⟨-, rfl, rfl, rfl⟩
    exact ⟨rfl, rfl, WideLibrary.Keeps.refl _⟩
  have held : localsNow.write slot value slot = some value := if_pos rfl
  refine seq (lift stores) <| seq
    ((case_checks_triple decimal isValue held targets cases).consequence (fun _ _ _ _ kept => kept)
      (fun _ _ _ _ kept => kept) ?_) (goto ?_)
  · rintro label _ _ _ ⟨found, rfl⟩
    exact ⟨(found otherwise).symm, rfl⟩
  · rintro _ _ _ _ ⟨none, rfl, -, -⟩
    exact ⟨(none otherwise).symm, rfl⟩

/-! ### The JVM switch -/

def caseLabel (key : Int) : List (Constant × String) → Option String
  | [] => none
  | (constant, label) :: rest => if caseKey constant = some key then some label else caseLabel key rest

variable {targets : List (Constant × String)}

theorem case_label_absent {key : Int}
    (absent : some key ∉ targets.map fun target => caseKey target.1) : caseLabel key targets = none := by
  induction targets with
  | nil => rfl
  | cons target rest ih =>
    rw [map_cons, mem_cons, not_or] at absent
    rw [caseLabel, if_neg fun same => absent.1 same.symm, ih absent.2]

theorem collect_cases_lookup {context : String}
    (distinct : (targets.map fun target => caseKey target.1).Nodup)
    {before collected : List (Int × String)} (sorted : SortedMap.Sorted before)
    (ran : collectCases parser ty context before targets = .ok collected) :
    SortedMap.Sorted collected ∧
      ∀ key, collected.lookup key = (caseLabel key targets).or (before.lookup key) := by
  induction targets generalizing before with
  | nil =>
    cases ran
    exact ⟨sorted, fun key => rfl⟩
  | cons target rest ih =>
    obtain ⟨constant, label⟩ := target
    rw [map_cons, nodup_cons] at distinct
    obtain ⟨key, isKey, inserted⟩ := except_bind_ok ran
    have hasKey : caseKey constant = some key := by
      unfold jvmSwitchKey at isKey
      split_ifs at isKey
      split at isKey
      · rename_i found
        cases isKey
        exact found
      · cases isKey
    have collects : collectCases parser ty context (SortedMap.insert key label before) rest =
        .ok collected := by
      split at inserted
      · split_ifs at inserted
        exact inserted
      · exact inserted
    obtain ⟨restSorted, restLookup⟩ :=
      ih distinct.2 (SortedMap.insert_sorted key label sorted) collects
    refine ⟨restSorted, fun query => ?_⟩
    rw [restLookup, SortedMap.lookup_insert, caseLabel, hasKey]
    by_cases same : query = key
    · have absent : caseLabel query rest = none := case_label_absent (by rw [same, ← hasKey]; exact distinct.1)
      rw [if_pos same, if_pos (congrArg some same.symm), absent]
      rfl
    · rw [if_neg same, if_neg fun equal => same (some.inj equal).symm]

include decimal in
theorem matching_label_of_key (isNarrow : isJvmSwitchType ty = true)
    (isDiscr : IsCase parser ty number constant) {word : JInt} (isScalar : IsScalar constant (.int word))
    (targets : List (Constant × String))
    (cases : AllCases parser ty targets)
    (otherwise : String) :
    (caseLabel word.toInt targets).getD otherwise =
      matchingLabel numerics number targets otherwise := by
  induction targets with
  | nil => rfl
  | cons target rest ih =>
    obtain ⟨caseNumber, isCase⟩ := cases _ mem_cons_self
    obtain ⟨caseWord, caseScalar, hasKey⟩ := isCase.narrow isNarrow
    have restMatches := ih fun target member => cases target (mem_cons_of_mem _ member)
    have equal : caseWord.toInt = word.toInt ↔ caseNumber = number := by
      rw [BitVec.toInt_inj, ← scalar_eq_iff isCase isDiscr caseScalar isScalar, Value.int.injEq]
    simp only [caseLabel, matchingLabel, hasKey, isCase.number decimal, some.injEq, equal]
    by_cases same : caseNumber = number
    · rw [if_pos same, if_pos same]
      rfl
    · rw [if_neg same, if_neg same, restMatches]

theorem label_delta_target {functionName label : String} {labels : List (String × Nat)} {index : Nat}
    {delta : Int} (ran : labelInstructionDelta functionName labels index label = .ok delta) :
    ∃ target, labels.lookup label = some target ∧ relativeTarget index delta = some target := by
  unfold labelInstructionDelta at ran
  split at ran
  · cases ran
  · rename_i target isTarget
    dsimp only at ran
    split_ifs at ran
    cases ran
    refine ⟨target, isTarget, ?_⟩
    have sum : (index : Int) + (target - index) = target := by omega
    simp [relativeTarget, wideTarget, sum]

section Resolved

variable {functionName otherwise : String} {labels : List (String × Nat)} {index : Nat}
  {entries : List (Int × String)} {low high : Int} {resolved : Jvm.Instruction}

/-- A resolved table leads a key to its label, and every other key to the default. -/
theorem table_target
    (bounds : ∀ key label, entries.lookup key = some label → low ≤ key ∧ key ≤ high)
    (applied : applySwitchFixup functionName labels index ⟨index, otherwise,
      .table (tableLabels low (high - low + 1).toNat entries otherwise)⟩
      (some (.tableswitch 0 low high (List.replicate (high - low + 1).toNat 0))) = .ok resolved)
    (key : Int) :
    ∃ default offsets target, resolved = .tableswitch default low high offsets ∧
      labels.lookup ((entries.lookup key).getD otherwise) = some target ∧
      relativeTarget index (tableOffset default low high offsets key) = some target := by
  obtain ⟨default, isDefault, afterDefault⟩ := except_bind_ok applied
  obtain ⟨offsets, mapped, patched⟩ := except_bind_ok afterDefault
  have deltas := except_map_ok mapped
  simp only at patched
  split_ifs at patched
  cases patched
  by_cases inside : low ≤ key ∧ key ≤ high
  · have position : (key - low).toNat < (tableLabels low (high - low + 1).toNat entries otherwise).length := by
      simp only [tableLabels, length_map, length_range]
      omega
    have isLabel : (tableLabels low (high - low + 1).toNat entries otherwise).get ⟨_, position⟩ =
        (entries.lookup key).getD otherwise := by
      have isKey : low + ((key - low).toNat : Int) = key := by omega
      simp only [tableLabels, get_eq_getElem, getElem_map, getElem_range, isKey]
    have offsetPosition : (key - low).toNat < offsets.length := deltas.length_eq ▸ position
    have delta := List.Forall₂.get deltas position offsetPosition
    rw [isLabel] at delta
    obtain ⟨target, isTarget, leads⟩ := label_delta_target delta
    refine ⟨default, offsets, target, rfl, isTarget, ?_⟩
    rw [tableOffset, if_pos inside, List.getElem?_eq_getElem offsetPosition]
    exact leads
  · have absent : entries.lookup key = none := by
      cases found : entries.lookup key with
      | none => rfl
      | some label => exact (inside (bounds key label found)).elim
    obtain ⟨target, isTarget, leads⟩ := label_delta_target isDefault
    refine ⟨default, offsets, target, rfl, ?_, ?_⟩
    · rw [absent]
      exact isTarget
    · rw [tableOffset, if_neg inside]
      exact leads

theorem lookup_resolved {pairs : List (Int × Int)}
    (deltas : List.Forall₂ (fun entry pair => (do
      return (entry.1, ← labelInstructionDelta functionName labels index entry.2)) = Except.ok pair)
      entries pairs) (key : Int) :
    match entries.lookup key with
    | some label => ∃ delta, pairs.lookup key = some delta ∧
        labelInstructionDelta functionName labels index label = .ok delta
    | none => pairs.lookup key = none := by
  induction deltas with
  | nil => rfl
  | @cons entry pair restEntries restPairs head _ ih =>
    obtain ⟨delta, isDelta, isPair⟩ := except_bind_ok head
    cases isPair
    obtain ⟨entryKey, label⟩ := entry
    rw [SortedMap.lookup_cons, SortedMap.lookup_cons]
    by_cases same : key = entryKey
    · rw [if_pos same, if_pos same]
      exact ⟨delta, rfl, isDelta⟩
    · rw [if_neg same, if_neg same]
      exact ih

/-- Resolved pairs lead a key to its label, and every other key to the default. -/
theorem lookup_target
    (applied : applySwitchFixup functionName labels index ⟨index, otherwise, .lookup entries⟩
      (some (.lookupswitch 0 (entries.map fun entry => (entry.1, 0)))) = .ok resolved) (key : Int) :
    ∃ default pairs target, resolved = .lookupswitch default pairs ∧
      labels.lookup ((entries.lookup key).getD otherwise) = some target ∧
      relativeTarget index (lookupOffset default pairs key) = some target := by
  obtain ⟨default, isDefault, afterDefault⟩ := except_bind_ok applied
  obtain ⟨pairs, mapped, patched⟩ := except_bind_ok afterDefault
  have chosen := lookup_resolved (except_map_ok mapped) key
  cases patched
  cases found : entries.lookup key with
  | some label =>
    simp only [found] at chosen
    obtain ⟨delta, isDelta, leadsTo⟩ := chosen
    obtain ⟨target, isTarget, leads⟩ := label_delta_target leadsTo
    refine ⟨default, pairs, target, rfl, isTarget, ?_⟩
    rw [lookupOffset, isDelta]
    exact leads
  | none =>
    simp only [found] at chosen
    obtain ⟨target, isTarget, leads⟩ := label_delta_target isDefault
    refine ⟨default, pairs, target, rfl, isTarget, ?_⟩
    rw [lookupOffset, chosen]
    exact leads

end Resolved

variable {entries : List (Int × String)}

/-- A JVM switch jumps to the label of the key on the stack. -/
theorem integer_switch_triple {pre : Assertion World} {jumps : JumpAssertion World}
    {low high : Int} {otherwise : String}
    (bounds : ∀ key label, entries.lookup key = some label → low ≤ key ∧ key ≤ high)
    (chooses : ∀ table stack locals world, pre table stack locals world → ∃ (key : JInt) (rest : List Value),
      stack = .int key :: rest ∧
        jumps ((entries.lookup key.toInt).getD otherwise) rest locals world) :
    MethodTriple env pre (pushIntegerSwitch entries low high otherwise) Never jumps := by
  intro state later ran
  unfold pushIntegerSwitch at ran
  dsimp only at ran
  split_ifs at ran
  · refine ⟨MethodGrows.push_switch _ _ _ _ _ _ ran, ?_⟩
    intro _ final code extension finished stack locals world holdsPre
    obtain ⟨key, rest, rfl, jumped⟩ := chooses _ _ _ _ holdsPre
    obtain ⟨before, isResolved, same⟩ := finished.resolves
    obtain ⟨resolved, applied, inCode⟩ :=
      placed_switch ran (fun _ => rfl) extension isResolved
    obtain ⟨default, offsets, target, rfl, isTarget, leads⟩ := table_target bounds applied key.toInt
    have stepped : step env before ⟨state.jvmInstructions.length, .int key :: rest, locals, world⟩ =
        .running ⟨target, rest, locals, world⟩ := by
      simp only [step, inCode, execute, leads, Frame.jump]
    exact ⟨target, rest, locals, world, steps_of_same same (.single stepped), .inr ⟨_, isTarget, jumped⟩⟩
  · refine ⟨MethodGrows.push_switch _ _ _ _ _ _ ran, ?_⟩
    intro _ final code extension finished stack locals world holdsPre
    obtain ⟨key, rest, rfl, jumped⟩ := chooses _ _ _ _ holdsPre
    obtain ⟨before, isResolved, same⟩ := finished.resolves
    obtain ⟨resolved, applied, inCode⟩ :=
      placed_switch ran (fun _ => rfl) extension isResolved
    obtain ⟨default, pairs, target, rfl, isTarget, leads⟩ := lookup_target applied key.toInt
    have stepped : step env before ⟨state.jvmInstructions.length, .int key :: rest, locals, world⟩ =
        .running ⟨target, rest, locals, world⟩ := by
      simp only [step, inCode, execute, leads, Frame.jump]
    exact ⟨target, rest, locals, world, steps_of_same same (.single stepped), .inr ⟨_, isTarget, jumped⟩⟩

include decimal

include holds in
theorem jvm_switch_triple
    (isNarrow : isJvmSwitchType ty = true)
    (cases : AllCases parser ty targets)
    (distinct : (targets.map fun target => caseKey target.1).Nodup) {context : String}
    (collected : collectCases parser ty context [] targets = .ok entries)
    {low high : Int × String} (isLow : entries.head? = some low) (isHigh : entries.getLast? = some high)
    (otherwise : String) :
    MethodTriple env (At table stack locals world)
      (do
        lift (loadWideOperand parser discr)
        pushIntegerSwitch entries low.1 high.1 otherwise)
      Never (SwitchJump numerics number targets otherwise stack) := by
  obtain ⟨sorted, lookups⟩ := collect_cases_lookup distinct List.Pairwise.nil collected
  have bounds : ∀ key label, entries.lookup key = some label → low.1 ≤ key ∧ key ≤ high.1 := by
    intro key label found
    have member := SortedMap.mem_of_lookup found
    exact ⟨SortedMap.head_le sorted isLow member, SortedMap.le_last sorted isHigh member⟩
  refine seq (lift (load_discr_triple holds))
    (integer_switch_triple bounds ?_)
  rintro _ _ _ worldNow ⟨-, -, -, value, rfl, isValue⟩
  cases isValue with
  | wide => cases isNarrow
  | scalar isDiscr isScalar =>
    obtain ⟨word, discrScalar, -⟩ := isDiscr.narrow isNarrow
    have sameValue : some value = some (Value.int word) :=
      isScalar.encodes.symm.trans discrScalar.encodes
    cases sameValue
    refine ⟨word, stack, rfl, ?_, rfl⟩
    rw [lookups, lookup_nil, or_none]
    exact matching_label_of_key decimal isNarrow isDiscr discrScalar targets cases otherwise

theorem distinct_keys (isNarrow : isJvmSwitchType ty = true)
    (cases : AllCases parser ty targets)
    (distinct : (targets.map fun target => parseConstantToBigint numerics target.1).Nodup) :
    (targets.map fun target => caseKey target.1).Nodup := by
  rw [List.Nodup, pairwise_map] at distinct ⊢
  refine distinct.imp_of_mem fun firstMember secondMember different same => different ?_
  obtain ⟨firstNumber, firstCase⟩ := cases _ firstMember
  obtain ⟨secondNumber, secondCase⟩ := cases _ secondMember
  obtain ⟨firstWord, firstScalar, firstKey⟩ := firstCase.narrow isNarrow
  obtain ⟨secondWord, secondScalar, secondKey⟩ := secondCase.narrow isNarrow
  rw [firstKey, secondKey, some.injEq, BitVec.toInt_inj] at same
  rw [firstCase.number decimal, secondCase.number decimal, some.injEq,
    ← scalar_eq_iff firstCase secondCase firstScalar secondScalar, same]

omit decimal

theorem valid_switch_type {caseConstant : Constant} (isCase : IsCase parser ty number caseConstant) :
    isValidSwitchType ty = true := by
  cases isCase with
  | int | boolean | char => rfl
  | wide => exact is_wide_class _

include holds in
include decimal in
theorem switch_triple
    (cases : AllCases parser ty targets)
    (distinct : (targets.map fun target => parseConstantToBigint numerics target.1).Nodup)
    (otherwise : String) :
    MethodTriple env (At table stack locals world) (translateSwitch parser discr targets otherwise)
      Never (SwitchJump numerics number targets otherwise stack) := by
  have chain : MethodTriple env (At table stack locals world)
      (emitComparisonChain parser discr targets otherwise) Never
      (SwitchJump numerics number targets otherwise stack) :=
    comparison_chain_triple decimal holds targets cases otherwise
  have isValid : isValidSwitchType discr.getType = true := by
    rw [holds.type]
    exact valid_switch_type holds.is_case
  intro state later ran
  rw [translateSwitch, if_pos isValid, holds.type] at ran
  obtain ⟨emitted, middle, attempted, rest⟩ := bind_ok ran
  unfold emitIntegerSwitch at attempted
  by_cases skips : (!isJvmSwitchType ty || decide (targets.length < 3)) = true
  · rw [if_pos skips] at attempted
    obtain ⟨rfl, rfl⟩ := pure_ok attempted
    exact chain _ later rest
  · rw [if_neg skips] at attempted
    obtain ⟨_, between, got, afterGet⟩ := bind_ok attempted
    obtain ⟨rfl, rfl⟩ := get_ok got
    have isNarrow : isJvmSwitchType ty = true := by
      simp only [Bool.or_eq_true, not_or] at skips
      simpa using skips.1
    split at afterGet
    · exact (throw_ok afterGet).elim
    rename_i entries collected
    split_ifs at afterGet
    · obtain ⟨rfl, rfl⟩ := pure_ok afterGet
      exact chain _ later rest
    split at afterGet
    · rename_i low lowLabel high highLabel isLow isHigh
      obtain ⟨_, loaded, loadRan, afterLoad⟩ := bind_ok afterGet
      obtain ⟨_, switched, switchRan, returned⟩ := bind_ok afterLoad
      obtain ⟨rfl, rfl⟩ := pure_ok returned
      obtain ⟨-, rfl⟩ := pure_ok rest
      have jvmSwitch : MethodTriple env (At table stack locals world)
          (do lift (loadWideOperand parser discr); pushIntegerSwitch entries low high otherwise) Never
          (SwitchJump numerics number targets otherwise stack) :=
        jvm_switch_triple decimal holds isNarrow cases (distinct_keys decimal isNarrow cases distinct)
          collected isLow isHigh otherwise
      refine jvmSwitch _ later ?_
      rw [StateT.run_bind, loadRan]
      exact switchRan
    · obtain ⟨rfl, rfl⟩ := pure_ok afterGet
      exact chain _ later rest

end Discriminant

/-- For every type that can be switched on, every list of cases of that type with distinct values
and every discriminant: the folded label, the label the emitted switch jumps to and the label the
comparison chain jumps to are the label of the matching case, or the default. -/
theorem switch_implementations_agree (decimal : parser.Decimal numerics) {table : LocalTable}
    {locals : Locals} {world : World} {ty : Ty} {number : Int} {discr : Operand} {constant : Constant}
    (holds : DiscrHolds library parser table locals world ty number discr constant)
    {targets : List (Constant × String)}
    (cases : ∀ target ∈ targets, ∃ caseNumber, IsCase parser ty caseNumber target.1)
    (distinct : (targets.map fun target => parseConstantToBigint numerics target.1).Nodup)
    (otherwise : String) (stack : List Value) :
    (switchConstants numerics constant targets).getD otherwise =
        matchingLabel numerics number targets otherwise ∧
      MethodTriple env (At table stack locals world) (translateSwitch parser discr targets otherwise)
        Never (SwitchJump numerics number targets otherwise stack) ∧
      MethodTriple env (At table stack locals world)
        (emitComparisonChain parser discr targets otherwise)
        Never (SwitchJump numerics number targets otherwise stack) :=
  ⟨switch_constants_match decimal holds.is_case targets cases otherwise,
    switch_triple decimal holds cases distinct otherwise,
    comparison_chain_triple decimal holds targets cases otherwise⟩

end Switch

def MethodTranslator.start (functionName : String) : MethodTranslator where
  toTranslator := .start
  functionName := functionName
  currentOomirBlockLabel := "entry"
  currentFallthroughBlockLabel := none
  labelToInstrIndex := []
  branchFixups := []
  switchFixups := []

def byteCases : List (Constant × String) :=
  [(.int .u8 0, "zero"), (.int .u8 200, "large"), (.int .u8 7, "seven")]

/-- A switch on a byte whose method ends with its labels. -/
theorem switch_implementations_agree_on_byte :
    ∃ later code, (translateSwitch .integral (.constant (.int .u8 200)) byteCases "other").run
        (.start "f") = .ok ((), later) ∧
      Finished (runtimeEnvironment later.constantPool.pool)
        { later with labelToInstrIndex := [("zero", 2), ("large", 3), ("seven", 4), ("other", 5)] } code ∧
      (switchConstants Numerics.integral (.int .u8 200) byteCases).getD "other" =
        matchingLabel Numerics.integral 200 byteCases "other" ∧
      MethodTriple (runtimeEnvironment later.constantPool.pool)
        (At Translator.start.locals [] (fun _ => none) Heap.empty)
        (translateSwitch .integral (.constant (.int .u8 200)) byteCases "other")
        Never (SwitchJump Numerics.integral 200 byteCases "other" []) ∧
      MethodTriple (runtimeEnvironment later.constantPool.pool)
        (At Translator.start.locals [] (fun _ => none) Heap.empty)
        (emitComparisonChain .integral (.constant (.int .u8 200)) byteCases "other")
        Never (SwitchJump Numerics.integral 200 byteCases "other" []) := by
  have switchWithin : Within [1] 0 2 := ⟨List.pairwise_singleton _ _, by simp⟩
  refine ⟨_, ⟨[.bipush (-56), .lookupswitch 4 [(-56, 2), (0, 1), (7, 3)]], []⟩, rfl,
    ⟨⟨Within.nil _ _, switchWithin⟩, ⟨_, rfl, rfl⟩, ConstantPool.Includes.refl _⟩, ?_⟩
  have holds : ∀ pool, DiscrHolds (runtimeLibrary pool) .integral Translator.start.locals
      (fun _ => none) Heap.empty (.int .u8) 200 (.constant (.int .u8 200)) (.int .u8 200) :=
    fun pool => .scalar (.int .u8 200) (int_is_scalar .u8 200) (.literal _)
  refine switch_implementations_agree WideParser.integral_decimal (holds _) ?_ (by decide) "other" []
  intro target member
  simp only [byteCases, mem_cons, not_mem_nil, or_false] at member
  rcases member with rfl | rfl | rfl
  · exact ⟨_, .int .u8 0⟩
  · exact ⟨_, .int .u8 200⟩
  · exact ⟨_, .int .u8 7⟩

end RustcCodegenJvm.Lower2
