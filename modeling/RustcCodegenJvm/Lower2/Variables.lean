import RustcCodegenJvm.Lower2.FunctionTranslator
import RustcCodegenJvm.Lower2.Fixups

/-!
# The variables of a function

OOMIR assigns variables by name; the emitted code keeps each in a JVM slot. A
store says what the variables hold, and `Represents` that the slots hold it.
Every instruction on integers and truth values then updates the store as its
operator says, whatever else the slots and the world contain.
-/

namespace RustcCodegenJvm.Lower2

open Jvm Oomir RustcCodegenJvm.Runtime Library Truncation TranslateMethod MethodTriple

/-! ### Integers of every type -/

inductive IntegerTy
  | narrow (kind : IntTy)
  | wide (signed : Bool)
deriving DecidableEq

namespace IntegerTy

def ty : IntegerTy → Ty
  | narrow kind => .int kind
  | wide signed => .class (wideClass signed)

def width : IntegerTy → Nat
  | narrow kind => kind.width
  | wide _ => 128

def signed : IntegerTy → Bool
  | narrow kind => kind.signed
  | wide signed => signed

theorem width_pos (integer : IntegerTy) : 0 < integer.width := by
  cases integer with
  | narrow kind => exact kind.width_pos
  | wide => exact Nat.zero_lt_succ 127

def value (integer : IntegerTy) (bits : BitVec integer.width) : Int :=
  if integer.signed then bits.toInt else bits.toNat

def content : (integer : IntegerTy) → BitVec integer.width → Content
  | narrow kind, bits => .word (encodeInt kind bits)
  | wide signed, bits => .wide signed (wordsOf bits)

theorem of_int_value (integer : IntegerTy) (bits : BitVec integer.width) :
    BitVec.ofInt integer.width (integer.value bits) = bits := by
  unfold value
  split
  · exact BitVec.ofInt_toInt
  · rw [BitVec.ofInt_natCast, BitVec.ofNat_toNat, BitVec.setWidth_eq]

def IsLiteral (parser : WideParser) :
    (integer : IntegerTy) → BitVec integer.width → Constant → Prop
  | narrow kind, bits, constant => constant = .int kind bits
  | wide signed, bits, constant => IsWide parser signed bits constant

end IntegerTy

/-! ### Parameters -/

namespace LocalTable

theorem assign_local_fresh {table : LocalTable} {name : String} {ty : Ty}
    (unknown : table.getTypedLocalIndex name ty = none) :
    (table.assignLocal name ty).1 = table.nextLocalIndex ∧
      (table.assignLocal name ty).2.nextLocalIndex = table.nextLocalIndex + ty.size ∧
      ∀ other otherTy, (table.assignLocal name ty).2.getTypedLocalIndex other otherTy =
        if other = name ∧ otherTy = ty then some table.nextLocalIndex
        else table.getTypedLocalIndex other otherTy := by
  unfold assignLocal
  rw [unknown]
  exact ⟨rfl, rfl, fun other otherTy => get_typed_cons _ _ _ _ _ _⟩

/-- The table after a parameter: its own slot, and the name the body uses for it. -/
def parameter (table : LocalTable) (internal name : String) (ty : Ty) : LocalTable :=
  (table.assignLocal internal ty).2.share name ty (table.assignLocal internal ty).1

variable {table : LocalTable} {internal name : String} {ty : Ty}

theorem parameter_lookup (unknown : table.getTypedLocalIndex internal ty = none) (other : String)
    (otherTy : Ty) : (table.parameter internal name ty).getTypedLocalIndex other otherTy =
      if (other = name ∨ other = internal) ∧ otherTy = ty then some table.nextLocalIndex
      else table.getTypedLocalIndex other otherTy := by
  obtain ⟨isSlot, -, lookup⟩ := assign_local_fresh unknown
  refine (get_typed_cons (table.assignLocal internal ty).2 _ _ _ _ _).trans ?_
  rw [lookup, isSlot]
  split_ifs <;> simp_all

/-- The body does not use a parameter's internal name, so the shared slot is apart from all it
uses. -/
theorem Valid.parameter {visible : String → Prop} (valid : table.Valid visible)
    (hidden : ¬visible internal) (different : name ≠ internal)
    (unknown : table.getTypedLocalIndex internal ty = none)
    (fresh : table.getTypedLocalIndex name ty = none) (valued : 0 < ty.size) :
    (table.parameter internal name ty).Valid visible := by
  obtain ⟨isSlot, isNext, lookup⟩ := assign_local_fresh unknown
  have assigned := valid.assign_local internal valued
  have notYet : (table.assignLocal internal ty).2.getTypedLocalIndex name ty = none := by
    rw [lookup, if_neg (fun both => different both.1), fresh]
  have added : Valid visible { (table.assignLocal internal ty).2 with
      typedLocalVarMap := ((name, ty), (table.assignLocal internal ty).1) ::
        (table.assignLocal internal ty).2.typedLocalVarMap
      nextLocalIndex := (table.assignLocal internal ty).2.nextLocalIndex
      maxLocalsUsed := (table.assignLocal internal ty).2.maxLocalsUsed } := by
    apply assigned.add (le_refl _) (by rw [isSlot, isNext]) notYet
    intro other otherTy otherSlot _ otherVisible _ found
    rw [lookup, if_neg] at found
    · exact .inr (isSlot ▸ valid.below _ _ _ found)
    · rintro ⟨rfl, -⟩
      exact hidden otherVisible
  exact added.note ((get_typed_cons _ _ _ _ _ _).trans (if_pos ⟨rfl, rfl⟩)) valued

end LocalTable

/-! ### Exact results on words -/

section Words

variable {kind : IntTy} {left right : BitVec kind.width} {result : Int}

/-- An operator of the JVM leaves the exact result, reduced to the type; its division is signed. -/
theorem exact_applies (op : Oomir.ArithmeticOp)
    (signed : (op = .div ∨ op = .rem) → kind.signed = true)
    (applied : op.applyBig (kind.value left) (kind.value right) = some result) :
    (jvmArithmetic op).apply left right = some (BitVec.ofInt kind.width result) := by
  have nonzero : kind.value right ≠ 0 → right ≠ 0 := by
    rintro nonzero rfl
    exact nonzero (by cases isSigned : kind.signed <;> simp [IntTy.value, isSigned])
  cases op with
  | add =>
    cases applied
    simp [jvmArithmetic, ArithmeticOp.apply, BitVec.ofInt_add, of_int_value]
  | sub =>
    cases applied
    simp [jvmArithmetic, ArithmeticOp.apply, Int.sub_eq_add_neg, BitVec.ofInt_add, BitVec.ofInt_neg,
      of_int_value, BitVec.sub_eq_add_neg]
  | mul =>
    cases applied
    simp [jvmArithmetic, ArithmeticOp.apply, BitVec.ofInt_mul, of_int_value]
  | div | rem =>
    have isSigned := signed (by simp)
    simp only [Oomir.ArithmeticOp.applyBig] at applied
    split_ifs at applied with zero
    cases applied
    refine (if_neg (nonzero zero)).trans (congrArg some (BitVec.eq_of_toInt_eq ?_))
    simp only [IntTy.value, isSigned, if_true, BitVec.toInt_ofInt]
    first
      | exact BitVec.toInt_sdiv _ _
      | rw [← BitVec.toInt_srem, BitVec.toInt_bmod_cancel]

theorem unsigned_quotient (unsigned : kind.signed = false) (isRemainder : Bool)
    (applied : (if isRemainder then Oomir.ArithmeticOp.rem else .div).applyBig (kind.value left)
      (kind.value right) = some result) :
    foldInteger kind (if isRemainder then .rem else .div) left right =
      some (BitVec.ofInt kind.width result) := by
  have isNat : ∀ bits : BitVec kind.width, kind.value bits = bits.toNat := by
    intro bits
    simp [IntTy.value, unsigned]
  have notOverflow : divisionOverflows kind left right = false := by
    simp [divisionOverflows, unsigned]
  have zero : kind.value right = 0 ↔ right = 0 := by
    simp [isNat, ← BitVec.toNat_inj]
  cases isRemainder with
  | false =>
    simp only [Bool.false_eq_true, if_false, Oomir.ArithmeticOp.applyBig] at applied ⊢
    split_ifs at applied with isZero
    cases applied
    rw [zero] at isZero
    simp only [foldInteger, isZero, notOverflow, unsigned, Bool.false_eq_true, or_self, if_false,
      Option.some.injEq]
    apply BitVec.eq_of_toNat_eq
    rw [isNat, isNat, ← Int.ofNat_tdiv, BitVec.ofInt_natCast, BitVec.toNat_udiv, BitVec.toNat_ofNat]
    exact (Nat.mod_eq_of_lt (lt_of_le_of_lt (Nat.div_le_self _ _) left.isLt)).symm
  | true =>
    simp only [if_true, Oomir.ArithmeticOp.applyBig] at applied ⊢
    split_ifs at applied with isZero
    cases applied
    rw [zero] at isZero
    simp only [foldInteger, isZero, notOverflow, unsigned, Bool.false_eq_true, or_self, if_false,
      Option.some.injEq]
    apply BitVec.eq_of_toNat_eq
    rw [isNat, isNat, ← Int.ofNat_tmod, BitVec.ofInt_natCast, BitVec.toNat_umod, BitVec.toNat_ofNat]
    exact (Nat.mod_eq_of_lt (lt_of_le_of_lt (Nat.mod_le _ _) left.isLt)).symm

end Words

/-! ### Stores -/

abbrev Store := String → Option (Ty × Content)

def Store.set (store : Store) (name : String) (ty : Ty) (content : Content) : Store :=
  fun other => if other = name then some (ty, content) else store other

variable {store : Store} {name other trueBlock falseBlock : String} {ty : Ty} {content : Content}

@[simp] theorem Store.set_same : store.set name ty content name = some (ty, content) := if_pos rfl

@[simp] theorem Store.set_other (store : Store) {name : String} (ty : Ty) (content : Content)
    (different : other ≠ name) : store.set name ty content other = store other := if_neg different

theorem Store.keep {held : Ty × Content} (isHeld : store other = some held)
    (different : other ≠ name := by decide) :
    store.set name ty content other = some held :=
  (store.set_other ty content different).trans isHeld

def Content.ofBool (truth : Bool) : Content := .word (.int (if truth then 1 else 0))

section Machine

variable {World : Type} {env : Environment World} (library : WideLibrary env) (visible : String → Prop)

structure Represents (table : LocalTable) (store : Store) (locals : Locals) (world : World) : Prop where
  valid : table.Valid visible
  held : ∀ name ty content, store name = some (ty, content) → visible name ∧ ∃ slot value,
    table.getTypedLocalIndex name ty = some slot ∧ locals slot = some value ∧
      localKind ty = some value.kind ∧ content.At library world value

variable {library visible} {table later : LocalTable} {store : Store} {locals : Locals}
  {world worldAfter : World}

variable {value : Value} {kind : IntTy} {truth : Bool}

theorem Content.At.keep {content : Content} (isAt : content.At library world value)
    (keeps : library.Keeps world worldAfter) : content.At library worldAfter value := by
  cases content with
  | word => exact isAt
  | wide => exact WideLibrary.Refers.keep isAt keeps

variable (represents : Represents library visible table store locals world)

include represents

theorem Represents.extend
    (extension : table.Extends later) : Represents library visible later store locals world where
  valid := extension.valid visible represents.valid
  held name ty content found := by
    obtain ⟨isVisible, slot, value, known, held⟩ := represents.held name ty content found
    exact ⟨isVisible, slot, value, extension.typed name ty slot known, held⟩

/-- An assignment changes one variable: the slots of the others are apart from it. -/
theorem Represents.assign {dest : String} {ty : Ty} {content : Content} (isVisible : visible dest)
    (kind : localKind ty = some value.kind) (keeps : library.Keeps world worldAfter)
    (isContent : content.At library worldAfter value) :
    Represents library visible (table.getOrAssignLocal dest ty).2 (store.set dest ty content)
      (locals.write (table.getOrAssignLocal dest ty).1 value) worldAfter := by
  have valued : 0 < ty.size := by
    rw [← width_of_kind kind]
    exact value.kind.width_pos
  have extension := table.get_or_assign_extends dest valued
  have isSlot := table.get_or_assign_local_typed dest ty
  have valid := extension.valid visible represents.valid
  refine ⟨valid, fun name nameTy nameContent found => ?_⟩
  by_cases same : name = dest
  · rw [same, Store.set_same] at found
    cases found
    exact ⟨same ▸ isVisible, _, value, same ▸ isSlot, if_pos rfl, kind, isContent⟩
  · rw [Store.set_other _ _ _ same] at found
    obtain ⟨nameVisible, slot, held, known, isHeld, heldKind, heldContent⟩ :=
      represents.held name nameTy nameContent found
    have knownLater := extension.typed name nameTy slot known
    have apart := valid.apart _ _ _ _ _ _ isVisible nameVisible (Ne.symm same) isSlot knownLater
    rw [← width_of_kind kind, ← width_of_kind heldKind] at apart
    exact ⟨nameVisible, slot, held, knownLater, write_apart isHeld apart, heldKind,
      heldContent.keep keeps⟩

omit represents

/-! ### Operands -/

inductive Denotes (parser : WideParser) (store : Store) (integer : IntegerTy)
    (bits : BitVec integer.width) : Operand → Prop
  | named (name : String) (held : store name = some (integer.ty, integer.content bits)) :
    Denotes parser store integer bits (.variable name integer.ty)
  | literal (constant : Constant) (isLiteral : integer.IsLiteral parser bits constant) :
    Denotes parser store integer bits (.constant constant)

inductive DenotesTruth (store : Store) (truth : Bool) : Operand → Prop
  | named (name : String) (held : store name = some (.boolean, .ofBool truth)) :
    DenotesTruth store truth (.variable name .boolean)
  | literal : DenotesTruth store truth (.constant (.boolean truth))

variable {parser : WideParser} {operand op1 op2 : Operand}

include represents

theorem Represents.narrow_holds {bits : BitVec kind.width}
    (denotes : Denotes parser store (.narrow kind) bits operand) :
    OperandHolds table locals operand (.int kind bits) := by
  cases denotes with
  | literal constant isLiteral =>
    rw [show constant = .int kind bits from isLiteral]
    exact .literal _
  | named name held =>
    obtain ⟨-, slot, value, known, isHeld, -, isContent⟩ := represents.held _ _ _ held
    rw [show value = encodeInt kind bits from isContent] at isHeld
    exact .named name (.int kind bits) slot _ known rfl isHeld

theorem Represents.wide_holds {signed : Bool} {bits : BitVec 128}
    (denotes : Denotes parser store (.wide signed) bits operand) :
    WideHolds library parser table locals world signed (wordsOf bits) operand := by
  cases denotes with
  | literal constant isLiteral =>
    obtain ⟨digits, isWide, parsed⟩ := isLiteral
    exact .literal constant digits bits isWide parsed rfl
  | named name held =>
    obtain ⟨-, slot, value, known, isHeld, -, isContent⟩ := represents.held _ _ _ held
    exact .named name slot value known isHeld isContent

theorem Represents.truth_holds (denotes : DenotesTruth store truth operand) :
    OperandHolds table locals operand (.boolean truth) := by
  cases denotes with
  | literal => exact .literal _
  | named name held =>
    obtain ⟨-, slot, value, known, isHeld, -, isContent⟩ := represents.held _ _ _ held
    rw [show value = .int (if truth then 1 else 0) from isContent] at isHeld
    exact .named name (.boolean truth) slot _ known rfl isHeld

omit represents

theorem Denotes.type {integer : IntegerTy} {bits : BitVec integer.width}
    (denotes : Denotes parser store integer bits operand) : operand.getType = integer.ty := by
  cases denotes with
  | named => rfl
  | literal constant isLiteral =>
    cases integer with
    | narrow kind =>
      rw [show constant = .int kind bits from isLiteral]
      rfl
    | wide => exact isLiteral.type

/-! ### Assignments -/

variable (library visible)

/-- Between two instructions: an empty operand stack, and slots that hold the store. -/
def Holding (store : Store) : Assertion World :=
  fun table stack locals world => stack = [] ∧ Represents library visible table store locals world

variable {library visible} {dest : String} {action : Translate Unit} {ty : Ty} {content : Content}

theorem Holding.assigned (grows : Grows action) (isVisible : visible dest)
    (kind : ∀ worldNow value, content.At library worldNow value → localKind ty = some value.kind)
    (stores : ∀ table locals world, Represents library visible table store locals world →
      Triple env (At table [] locals world) action
        (Stored library table [] locals world dest ty (content.At library))) :
    Triple env (Holding library visible store) action
      (Holding library visible (store.set dest ty content)) := by
  apply Triple.of_each grows
  rintro table _ locals world ⟨rfl, represents⟩
  apply (stores table locals world represents).consequence (fun _ _ _ _ same => same)
  rintro _ _ _ worldNow ⟨rfl, rfl, keeps, value, rfl, isContent⟩
  exact ⟨rfl, represents.assign isVisible (kind worldNow value isContent) keeps isContent⟩

theorem Stored.of_assigns (grows : Grows action)
    (assigns : Assigns table action dest ty ([], locals) [] locals value) :
    Triple env (At table [] locals world) action
      (Stored library table [] locals world dest ty ((Content.word value).At library)) := by
  apply Triple.of_emitted library.java grows
  rintro state later ran _ _ _ ⟨isTable, rfl, rfl, rfl⟩
  obtain ⟨isLater, emitted⟩ := assigns state later isTable ran
  exact ⟨_, _, emitted, isLater, rfl, WideLibrary.Keeps.refl _, value, rfl, rfl⟩

theorem IntegerTy.content_kind (integer : IntegerTy) (bits : BitVec integer.width) (worldNow : World)
    (value : Value) (isContent : (integer.content bits).At library worldNow value) :
    localKind integer.ty = some value.kind := by
  cases integer with
  | narrow kind =>
    rw [show value = encodeInt kind bits from isContent]
    exact encode_int_kind kind bits
  | wide =>
    obtain ⟨object, rfl, -⟩ := isContent
    rfl

theorem truth_kind (truth : Bool) (worldNow : World) (value : Value)
    (isContent : (Content.ofBool truth).At library worldNow value) :
    localKind .boolean = some value.kind := by
  rw [show value = .int (if truth then 1 else 0) from isContent]
  rfl

/-! ### Arithmetic -/

/-- Only an operand that is the result variable itself is incremented in place. -/
theorem iinc_update_skipped {amount : Operand} {sign : Int}
    (other : operand ≠ .variable dest (.int .i32)) :
    emitIincUpdate dest operand amount sign = pure false := by
  unfold emitIincUpdate
  split
  · rename_i name
    rw [if_neg]
    rintro rfl
    exact other rfl
  · rfl

theorem arithmetic_plain (op : Oomir.ArithmeticOp) (first : op1 ≠ .variable dest (.int .i32))
    (second : op2 ≠ .variable dest (.int .i32)) : translateArithmetic op dest op1 op2 =
      if (op = .div ∨ op = .rem) ∧ translateArithmetic.isUnsignedInteger op1.getType then
        translateUnsignedDivRem dest op1 op2 op1.getType (op = .rem)
      else translateBinaryOp dest op1 op2
        (.arithmetic (jvmArithmetic op) (numericKind op1.getType)) := by
  cases op <;> simp [translateArithmetic, emitIincAdd, emitIincSub, iinc_update_skipped first,
    iinc_update_skipped second]

variable {result : Int}

theorem narrow_arithmetic_stores {left right : BitVec kind.width}
    (op : Oomir.ArithmeticOp) (leftHolds : OperandHolds table locals op1 (.int kind left))
    (rightHolds : OperandHolds table locals op2 (.int kind right))
    (first : op1 ≠ .variable dest (.int .i32)) (second : op2 ≠ .variable dest (.int .i32))
    (applied : op.applyBig (kind.value left) (kind.value right) = some result) :
    Triple env (At table [] locals world) (translateArithmetic op dest op1 op2)
      (Stored library table [] locals world dest (.int kind)
        ((Content.word (encodeInt kind (BitVec.ofInt kind.width result))).At library)) := by
  have sameType : op1.getType = .int kind := leftHolds.type
  rw [arithmetic_plain op first second, sameType]
  split_ifs with divides
  · obtain ⟨isDivision, unsigned⟩ := divides
    have unsigned : kind.signed = false := by simpa [translateArithmetic.isUnsignedInteger] using unsigned
    apply Stored.of_assigns (Grows.unsigned_div_rem _ _ _ _ _)
    apply unsigned_div_rem_assigns leftHolds rightHolds _ unsigned
    apply unsigned_quotient unsigned
    rcases isDivision with rfl | rfl
    · exact applied
    · exact applied
  · apply Stored.of_assigns (Grows.binary_op _ _ _ _)
    have signed : (op = .div ∨ op = .rem) → kind.signed = true := by
      intro isDivision
      simpa [isDivision, translateArithmetic.isUnsignedInteger] using divides
    exact plain_arithmetic_assigns leftHolds rightHolds signed (exact_applies op signed applied)

/-! The same on objects of 128 bits. -/

section Wide

variable {signed : Bool} {left right : BitVec 128}
  (leftHolds : WideHolds library parser table locals world signed (wordsOf left) op1)
  (rightHolds : WideHolds library parser table locals world signed (wordsOf right) op2)

include leftHolds rightHolds

theorem wide_arithmetic_stores (op : Oomir.ArithmeticOp)
    (applied : op.applyBig (bitsNumber signed left) (bitsNumber signed right) = some result) :
    Triple env (At table [] locals world)
      (translateInt128BinaryOp parser dest op1 op2 (Wide.arithmeticMethod op).name)
      (Stored library table [] locals world dest (.class (wideClass signed))
        ((Content.wide signed (wordsOf (BitVec.ofInt 128 result))).At library)) := by
  rw [← number_words_of, ← number_words_of] at applied
  obtain ⟨bits, computes, isNumber⟩ := Wide.arithmetic_number op signed _ _ applied
  have isBits : bits = wordsOf (BitVec.ofInt 128 result) := (words_of_int_iff isNumber).mpr rfl
  exact int128_binary_op_triple _ leftHolds rightHolds (isBits ▸ computes)

theorem wide_bitwise_stores (op : Oomir.BitwiseOp) : Triple env (At table [] locals world)
      (translateInt128BinaryOp parser dest op1 op2 (Wide.bitwiseMethod op).name)
      (Stored library table [] locals world dest (.class (wideClass signed))
        ((Content.wide signed (wordsOf ((jvmBitwise op).apply left right))).At library)) := by
  obtain ⟨bits, computes, isNumber⟩ := Wide.bitwise_number op signed (wordsOf left) (wordsOf right)
  rw [number_words_of, number_words_of] at isNumber
  have isBits := (words_of_int_iff isNumber).mpr rfl
  have isLeft : BitVec.ofInt 128 (bitsNumber signed left) = left :=
    (IntegerTy.wide signed).of_int_value left
  have isRight : BitVec.ofInt 128 (bitsNumber signed right) = right :=
    (IntegerTy.wide signed).of_int_value right
  have reduced : BitVec.ofInt 128 (op.applyBig (bitsNumber signed left) (bitsNumber signed right)) =
      (jvmBitwise op).apply left right := by
    cases op with
    | and => rw [Oomir.BitwiseOp.applyBig, of_int_land, isLeft, isRight]; rfl
    | or => rw [Oomir.BitwiseOp.applyBig, of_int_lor, isLeft, isRight]; rfl
    | xor => rw [Oomir.BitwiseOp.applyBig, of_int_xor, isLeft, isRight]; rfl
  rw [reduced] at isBits
  exact int128_binary_op_triple _ leftHolds rightHolds (isBits ▸ computes)

theorem wide_comparison_stores (op : ComparisonOp) : Triple env (At table [] locals world)
      (translateInt128Comparison parser dest op1 op2 (wideClass signed) op)
      (Stored library table [] locals world dest .boolean ((Content.ofBool
        (op.holds (compare (bitsNumber signed left) (bitsNumber signed right)))).At library)) := by
  rw [← number_words_of, ← number_words_of]
  exact int128_comparison_triple op leftHolds rightHolds

end Wide

theorem Denotes.is_wide_type {signed : Bool} {bits : BitVec 128}
    (denotes : Denotes parser store (.wide signed) bits operand) :
    isWideType operand.getType = true := by
  rw [denotes.type]
  exact is_wide_class signed

theorem Denotes.narrow_type {bits : BitVec kind.width}
    (denotes : Denotes parser store (.narrow kind) bits operand) :
    isWideType operand.getType = false ∧ wideTypeName operand.getType = none := by
  rw [denotes.type]
  exact ⟨rfl, rfl⟩

section Operators

variable {integer : IntegerTy} {left right : BitVec integer.width} (isVisible : visible dest)
  (leftDenotes : Denotes parser store integer left op1)
  (rightDenotes : Denotes parser store integer right op2)

include isVisible leftDenotes rightDenotes

/-- An arithmetic instruction assigns the exact result, reduced to the type. -/
theorem arithmetic_stores (op : Oomir.ArithmeticOp)
    (first : ∀ other, op1 ≠ .variable dest other) (second : ∀ other, op2 ≠ .variable dest other)
    (applied : op.applyBig (integer.value left) (integer.value right) = some result) :
    Triple env (Holding library visible store) (Operation.emit parser dest (.arithmetic op op1 op2))
      (Holding library visible
        (store.set dest integer.ty (integer.content (BitVec.ofInt integer.width result)))) := by
  cases integer with
  | narrow kind =>
    have emits : Operation.emit parser dest (.arithmetic op op1 op2) =
        translateArithmetic op dest op1 op2 := by
      simp [Operation.emit, Operation.translate, leftDenotes.narrow_type, rightDenotes.narrow_type]
    have grows : Grows (translateArithmetic op dest op1 op2) := by
      rw [arithmetic_plain op (first _) (second _)]
      grind
    rw [emits]
    apply Holding.assigned grows isVisible (IntegerTy.content_kind (.narrow kind) _)
    intro table locals world represents
    exact narrow_arithmetic_stores op (represents.narrow_holds leftDenotes)
      (represents.narrow_holds rightDenotes) (first _) (second _) applied
  | wide signed =>
    have emits : Operation.emit parser dest (.arithmetic op op1 op2) =
        translateInt128BinaryOp parser dest op1 op2 (Wide.arithmeticMethod op).name := by
      simp [Operation.emit, leftDenotes.is_wide_type]
    rw [emits]
    apply Holding.assigned (Grows.int128_binary_op parser _ _ _ _) isVisible
      (IntegerTy.content_kind (.wide signed) _)
    intro table locals world represents
    exact wide_arithmetic_stores (represents.wide_holds leftDenotes) (represents.wide_holds rightDenotes)
      op applied

theorem bitwise_stores (op : Oomir.BitwiseOp) :
    Triple env (Holding library visible store) (Operation.emit parser dest (.bitwise op op1 op2))
      (Holding library visible
        (store.set dest integer.ty (integer.content ((jvmBitwise op).apply left right)))) := by
  cases integer with
  | narrow kind =>
    have emits : Operation.emit parser dest (.bitwise op op1 op2) =
        translateBinaryOp dest op1 op2 (.bitwise (jvmBitwise op) (wordKind (.int kind))) := by
      rw [Operation.emit, if_neg (by simp [leftDenotes.narrow_type]), Operation.translate,
        leftDenotes.type, IntegerTy.ty]
    rw [emits]
    apply Holding.assigned (Grows.binary_op _ _ _ _) isVisible (IntegerTy.content_kind (.narrow kind) _)
    intro table locals world represents
    apply Stored.of_assigns (Grows.binary_op _ _ _ _)
    exact bitwise_assigns _ (represents.narrow_holds leftDenotes) (represents.narrow_holds rightDenotes)
  | wide signed =>
    have emits : Operation.emit parser dest (.bitwise op op1 op2) =
        translateInt128BinaryOp parser dest op1 op2 (Wide.bitwiseMethod op).name := by
      simp [Operation.emit, leftDenotes.is_wide_type]
    rw [emits]
    apply Holding.assigned (Grows.int128_binary_op parser _ _ _ _) isVisible
      (IntegerTy.content_kind (.wide signed) _)
    intro table locals world represents
    exact wide_bitwise_stores (represents.wide_holds leftDenotes) (represents.wide_holds rightDenotes) op

theorem comparison_stores (op : ComparisonOp) :
    Triple env (Holding library visible store) (Operation.emit parser dest (.comparison op op1 op2))
      (Holding library visible (store.set dest .boolean
        (.ofBool (op.holds (compare (integer.value left) (integer.value right)))))) := by
  cases integer with
  | narrow kind =>
    have emits : Operation.emit parser dest (.comparison op op1 op2) =
        translateComparisonOp dest op1 op2 op := by
      simp [Operation.emit, Operation.translate, leftDenotes.narrow_type]
    rw [emits]
    apply Holding.assigned (Grows.comparison_op _ _ _ _) isVisible (truth_kind _)
    intro table locals world represents
    apply Stored.of_assigns (Grows.comparison_op _ _ _ _)
    exact comparison_assigns op (represents.narrow_holds leftDenotes) (represents.narrow_holds rightDenotes)
  | wide signed =>
    have isName : wideTypeName op1.getType = some (wideClass signed) := by
      rw [leftDenotes.type]
      cases signed <;> rfl
    have emits : Operation.emit parser dest (.comparison op op1 op2) =
        translateInt128Comparison parser dest op1 op2 (wideClass signed) op := by
      simp [Operation.emit, isName]
    rw [emits]
    apply Holding.assigned (Grows.int128_comparison parser _ _ _ _ _) isVisible (truth_kind _)
    intro table locals world represents
    exact wide_comparison_stores (represents.wide_holds leftDenotes) (represents.wide_holds rightDenotes)
      op

end Operators

/-! ### Truth values -/

def truthOp : Oomir.BitwiseOp → Bool → Bool → Bool
  | .and => (· && ·)
  | .or => (· || ·)
  | .xor => Bool.xor

theorem load_truth_as_emits {stack : List Value}
    (holds : OperandHolds table locals operand (.boolean truth)) :
    Emits table (loadOperandAs operand .boolean) (stack, locals)
      (.int (if truth then 1 else 0) :: stack, locals) := by
  have sameType : operand.getType = .boolean := holds.type
  have skipped : loadOperandAs operand .boolean = (do loadOperand operand; pure ()) := by
    simp [loadOperandAs, sameType]
  rw [skipped]
  exact (load_scalar_emits (boolean_is_scalar truth) holds).seq Emits.nothing

theorem truth_bitwise_assigns (op : Oomir.BitwiseOp) {left right : Bool}
    (leftHolds : OperandHolds table locals op1 (.boolean left))
    (rightHolds : OperandHolds table locals op2 (.boolean right)) :
    Assigns table (translateBinaryOp dest op1 op2 (.bitwise (jvmBitwise op) .int)) dest .boolean
      ([], locals) [] locals (.int (if truthOp op left right then 1 else 0)) := by
  have sameType : op1.getType = .boolean := leftHolds.type
  have effect : ∀ pool, stackEffect pool (.bitwise (jvmBitwise op) .int)
      [.int (if right then 1 else 0), .int (if left then 1 else 0)] =
        .done [.int (if truthOp op left right then 1 else 0)] := by
    intro pool
    cases op <;> cases left <;> cases right <;> rfl
  rw [translateBinaryOp, sameType]
  exact (load_truth_as_emits leftHolds).assigns <|
    (load_truth_as_emits rightHolds).assigns <|
    (Emits.plain rfl effect).assigns <|
    Emits.nothing.assigns (store_result_assigns rfl)

section Truth

variable {left right truth : Bool} (isVisible : visible dest)

include isVisible

theorem truth_bitwise_stores (op : Oomir.BitwiseOp) (leftDenotes : DenotesTruth store left op1)
    (rightDenotes : DenotesTruth store right op2) :
    Triple env (Holding library visible store) (Operation.emit parser dest (.bitwise op op1 op2))
      (Holding library visible (store.set dest .boolean (.ofBool (truthOp op left right)))) := by
  have emits : Operation.emit parser dest (.bitwise op op1 op2) =
      translateBinaryOp dest op1 op2 (.bitwise (jvmBitwise op) .int) := by
    cases leftDenotes <;> rfl
  rw [emits]
  apply Holding.assigned (Grows.binary_op _ _ _ _) isVisible (truth_kind _)
  intro table locals world represents
  apply Stored.of_assigns (Grows.binary_op _ _ _ _)
  exact truth_bitwise_assigns op (represents.truth_holds leftDenotes) (represents.truth_holds rightDenotes)

theorem truth_move_stores (denotes : DenotesTruth store truth operand) :
    Triple env (Holding library visible store) (translateMove parser dest operand)
      (Holding library visible (store.set dest .boolean (.ofBool truth))) := by
  have sameType : operand.getType = .boolean := by cases denotes <;> rfl
  have grows : Grows (translateMove parser dest operand) := by
    grind [translateMove]
  apply Holding.assigned grows isVisible (truth_kind _)
  intro table locals world represents
  have holds := represents.truth_holds denotes
  apply Stored.of_assigns grows
  rw [translateMove, load_wide_scalar parser (boolean_is_scalar truth) holds, sameType]
  exact (load_scalar_emits (boolean_is_scalar truth) holds).assigns (store_result_assigns rfl)

end Truth

/-! ### Control -/

/-- What a branch emits where neither block follows: a test, and a jump to the other block. -/
def branchBoth (condition : Operand) (trueBlock falseBlock : String) : TranslateMethod Unit := do
  lift (loadOperand condition)
  pushBranch (.branch .ifne 0) trueBlock
  pushBranch (.goto 0) falseBlock

theorem branch_without_fallthrough {state : MethodTranslator} {condition : Operand}
    (alone : state.currentFallthroughBlockLabel = none) :
    (translateBranch condition trueBlock falseBlock).run state =
      (branchBoth condition trueBlock falseBlock).run state := by
  unfold translateBranch branchBoth
  rw [StateT.run_bind, StateT.run_bind]
  cases ran : (lift (loadOperand condition)).run state with
  | error => rfl
  | ok pair =>
    obtain ⟨_, later⟩ := pair
    obtain ⟨translator, -, rfl⟩ := lift_ok ran
    change StateT.run (if state.currentFallthroughBlockLabel = _ then _ else _) _ = _
    rw [alone, if_neg (by simp), if_neg (by simp)]
    rfl

theorem jump_without_fallthrough {state : MethodTranslator} {target : String}
    (alone : state.currentFallthroughBlockLabel = none) :
    (translateJump target).run state = (pushBranch (.goto 0) target).run state := by
  change StateT.run (if state.currentFallthroughBlockLabel = _ then _ else _) _ = _
  rw [alone, if_neg (by simp)]

/-- A branch goes to one of its blocks with the store it had. -/
theorem branch_jumps (denotes : DenotesTruth store truth operand) :
    MethodTriple env (fun now stack locals world => now = table ∧
        Holding library visible store table stack locals world)
      (branchBoth operand trueBlock falseBlock) Never
      (fun label stack locals world => label = (if truth then trueBlock else falseBlock) ∧
        Holding library visible store table stack locals world) := by
  have loads : Triple env (fun now stack locals world => now = table ∧
        Holding library visible store table stack locals world) (loadOperand operand)
      (fun now stack locals world => stack = [.int (if truth then 1 else 0)] ∧ now = table ∧
        Holding library visible store table [] locals world) := by
    apply Triple.of_emitted library.java (Grows.load_operand operand)
    rintro state later ran _ locals world ⟨isTable, rfl, represents⟩
    obtain ⟨isLater, emitted⟩ := load_scalar_emits (boolean_is_scalar truth)
      (represents.truth_holds denotes) state later isTable ran
    exact ⟨_, _, emitted, rfl, isLater, rfl, represents⟩
  apply seq (lift loads)
  cases truth with
  | true =>
    apply seq (?_ : MethodTriple env _ _ Never _)
    · apply goto
      intro _ _ _ _ never
      exact never.elim
    · apply branch
      rintro _ _ locals world ⟨rfl, rfl, holding⟩
      exact ⟨true, [], rfl, rfl, holding⟩
  | false =>
    have falls : MethodTriple env (fun now stack locals world =>
          stack = [.int (if false then 1 else 0)] ∧ now = table ∧
            Holding library visible store table [] locals world)
        (pushBranch (.branch .ifne 0) trueBlock)
        (fun now stack locals world => Holding library visible store table stack locals world)
        (fun label stack locals world => label = (if false then trueBlock else falseBlock) ∧
          Holding library visible store table stack locals world) := by
      apply branch
      rintro _ _ locals world ⟨rfl, rfl, holding⟩
      exact ⟨false, [], rfl, holding⟩
    apply seq falls
    apply goto
    intro _ _ _ _ holding
    exact ⟨rfl, holding⟩

end Machine

end RustcCodegenJvm.Lower2
