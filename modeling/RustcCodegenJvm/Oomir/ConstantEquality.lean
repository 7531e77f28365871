import RustcCodegenJvm.Oomir.Interpret

/-!
# Equality of constants

What `==` on constants means: the derived comparison of all parts, with floats
compared as numbers. The fields of an instance are a map; its entries stand in
the order of their names, so that equal maps are equal lists. Beside it the
tests and constructors of zero and one of `oomir.rs`.
-/

namespace RustcCodegenJvm.Oomir

def isFloatNan {width : Nat} (infinity : Nat) (bits : BitVec width) : Bool :=
  infinity < bits.toNat % 2 ^ (width - 1)

/-- `==` of floats: zeros are equal, and a NaN is not equal to itself. -/
def floatEq {width : Nat} (infinity : Nat) (left right : BitVec width) : Bool :=
  !isFloatNan infinity left && !isFloatNan infinity right &&
    (left == right || isFloatZero left && isFloatZero right)

/-- The bits with a positive zero for either zero. -/
def positiveZero {width : Nat} (bits : BitVec width) : BitVec width :=
  if isFloatZero bits then 0 else bits

theorem float_eq_iff {width infinity : Nat} {left right : BitVec width} :
    floatEq infinity left right ↔ isFloatNan infinity left = false ∧ isFloatNan infinity right = false ∧
      positiveZero left = positiveZero right := by
  have zero : isFloatZero (0 : BitVec width) = true := by simp [isFloatZero]
  simp only [floatEq, positiveZero, Bool.and_eq_true, Bool.or_eq_true, Bool.not_eq_true', beq_iff_eq, and_assoc]
  cases leftZero : isFloatZero left with
  | true =>
    cases rightZero : isFloatZero right with
    | true => simp
    | false =>
      have differs : left ≠ right ∧ BitVec.ofNat width 0 ≠ right := by
        constructor <;> (rintro rfl; simp_all)
      simp [differs]
  | false =>
    cases rightZero : isFloatZero right with
    | true =>
      have differs : left ≠ right ∧ left ≠ BitVec.ofNat width 0 := by
        constructor <;> (rintro rfl; simp_all)
      simp [differs]
    | false => simp

def singleInfinity : Nat := 0x7f800000

def doubleInfinity : Nat := 0x7ff0000000000000

namespace Constant

mutual

def same : Constant → Constant → Bool
  | .unit, .unit => true
  | .staticRef owner field ty, .staticRef owner' field' ty' =>
    owner == owner' && field == field' && decide (ty = ty')
  | .functionPointer adapter interface, .functionPointer adapter' interface' =>
    adapter == adapter' && interface == interface'
  | .factoryCall owner method ty, .factoryCall owner' method' ty' =>
    owner == owner' && method == method' && decide (ty = ty')
  | .staticCall owner method args paramTypes ty, .staticCall owner' method' args' paramTypes' ty' =>
    owner == owner' && method == method' && sameElements args args' &&
      decide (paramTypes = paramTypes') && decide (ty = ty')
  | .pointerAddress address viewSize pointee, .pointerAddress address' viewSize' pointee' =>
    address == address' && viewSize == viewSize' && decide (pointee = pointee')
  | .repeatedBytePointer identity byte length offset viewSize alignment viewCodec pointee,
    .repeatedBytePointer identity' byte' length' offset' viewSize' alignment' viewCodec' pointee' =>
    identity == identity' && byte == byte' && length == length' && offset == offset' &&
      viewSize == viewSize' && alignment == alignment' && viewCodec == viewCodec' &&
      decide (pointee = pointee')
  | .byteArrayPointer identity bytes offset viewSize alignment viewCodec pointee,
    .byteArrayPointer identity' bytes' offset' viewSize' alignment' viewCodec' pointee' =>
    identity == identity' && bytes == bytes' && offset == offset' && viewSize == viewSize' &&
      alignment == alignment' && viewCodec == viewCodec' && decide (pointee = pointee')
  | .internedPointer identity value arrayBacked allocationSize offset viewSize alignment viewCodec pointee,
    .internedPointer identity' value' arrayBacked' allocationSize' offset' viewSize' alignment'
      viewCodec' pointee' =>
    identity == identity' && same value value' && arrayBacked == arrayBacked' &&
      allocationSize == allocationSize' && offset == offset' && viewSize == viewSize' &&
      alignment == alignment' && same viewCodec viewCodec' && decide (pointee = pointee')
  | .null ty, .null ty' => decide (ty = ty')
  | .int kind bits, .int kind' bits' => kind == kind' && bits.toNat == bits'.toNat
  | .f16 bits, .f16 bits' => bits == bits'
  | .f32 bits, .f32 bits' => floatEq singleInfinity bits bits'
  | .f64 bits, .f64 bits' => floatEq doubleInfinity bits bits'
  | .boolean value, .boolean value' => value == value'
  | .char value, .char value' => value == value'
  | .str value, .str value' => value == value'
  | .string value, .string value' => value == value'
  | .array element elements, .array element' elements' =>
    decide (element = element') && sameElements elements elements'
  | .slice element elements, .slice element' elements' =>
    decide (element = element') && sameElements elements elements'
  | .sliceRef backing elementType offset length, .sliceRef backing' elementType' offset' length' =>
    same backing backing' && decide (elementType = elementType') && offset == offset' &&
      length == length'
  | .instance className fields params paramTypes, .instance className' fields' params' paramTypes' =>
    className == className' && sameFields fields fields' && sameElements params params' &&
      decide (paramTypes = paramTypes')
  | _, _ => false

def sameElements : List Constant → List Constant → Bool
  | [], [] => true
  | left :: lefts, right :: rights => same left right && sameElements lefts rights
  | _, _ => false

def sameFields : List (String × Constant) → List (String × Constant) → Bool
  | [], [] => true
  | (name, left) :: lefts, (name', right) :: rights =>
    name == name' && same left right && sameFields lefts rights
  | _, _ => false

end

/-! ### Equality up to the signs of zeros -/

/-- Constants that hold no floats and no other constants. -/
def isLeaf : Constant → Bool
  | .staticCall .. | .internedPointer .. | .f32 _ | .f64 _ | .array .. | .slice .. | .sliceRef ..
  | .instance .. => false
  | _ => true

variable {left right : Constant}

theorem same_leaf (leaf : left.isLeaf ∨ right.isLeaf) :
    same left right = true ↔ left = right := by
  constructor
  · intro equal
    unfold same at equal
    split at equal
    case h_11 kind bits kind' bits' =>
      simp only [Bool.and_eq_true, beq_iff_eq] at equal
      obtain ⟨rfl, sameValue⟩ := equal
      rw [BitVec.eq_of_toNat_eq sameValue]
    all_goals simp_all [isLeaf]
  · rintro rfl
    unfold same
    cases left <;> simp_all [isLeaf]

mutual

/-- The constant with positive zeros only. -/
def normal : Constant → Constant
  | .staticCall owner method args paramTypes ty => .staticCall owner method (normalElements args) paramTypes ty
  | .internedPointer identity value arrayBacked allocationSize offset viewSize alignment viewCodec pointee =>
    .internedPointer identity (normal value) arrayBacked allocationSize offset viewSize alignment
      (normal viewCodec) pointee
  | .f32 bits => .f32 (positiveZero bits)
  | .f64 bits => .f64 (positiveZero bits)
  | .array element elements => .array element (normalElements elements)
  | .slice element elements => .slice element (normalElements elements)
  | .sliceRef backing elementType offset length => .sliceRef (normal backing) elementType offset length
  | .instance className fields params paramTypes =>
    .instance className (normalFields fields) (normalElements params) paramTypes
  | leaf => leaf

def normalElements : List Constant → List Constant
  | [] => []
  | constant :: rest => normal constant :: normalElements rest

def normalFields : List (String × Constant) → List (String × Constant)
  | [] => []
  | (name, constant) :: rest => (name, normal constant) :: normalFields rest

end

mutual

def isOrdered : Constant → Bool
  | .staticCall _ _ args _ _ => allOrdered args
  | .internedPointer _ value _ _ _ _ _ viewCodec _ => isOrdered value && isOrdered viewCodec
  | .f32 bits => !isFloatNan singleInfinity bits
  | .f64 bits => !isFloatNan doubleInfinity bits
  | .array _ elements | .slice _ elements => allOrdered elements
  | .sliceRef backing _ _ _ => isOrdered backing
  | .instance _ fields params _ => fieldsOrdered fields && allOrdered params
  | _ => true

def allOrdered : List Constant → Bool
  | [] => true
  | constant :: rest => isOrdered constant && allOrdered rest

def fieldsOrdered : List (String × Constant) → Bool
  | [] => true
  | (_, constant) :: rest => isOrdered constant && fieldsOrdered rest

end

theorem normal_leaf {constant : Constant} (leaf : constant.isLeaf) :
    normal constant = constant ∧ isOrdered constant := by
  cases constant <;> first | exact ⟨rfl, rfl⟩ | cases leaf

theorem is_leaf_normal (constant : Constant) : (normal constant).isLeaf = constant.isLeaf := by
  cases constant <;> rfl

mutual

/-- Equal constants hold no NaN and agree but for the signs of zeros. -/
theorem same_iff (left right : Constant) :
    same left right ↔ isOrdered left ∧ isOrdered right ∧ normal left = normal right := by
  by_cases leaf : left.isLeaf ∨ right.isLeaf
  · rw [same_leaf leaf]
    constructor
    · rintro rfl
      exact ⟨(normal_leaf (or_self_iff.mp leaf)).2, (normal_leaf (or_self_iff.mp leaf)).2, rfl⟩
    · rintro ⟨-, -, equal⟩
      have leaves : left.isLeaf ∧ right.isLeaf := by
        have together := congrArg isLeaf equal
        rw [is_leaf_normal, is_leaf_normal] at together
        rcases leaf with isLeaf | isLeaf
        · exact ⟨isLeaf, together ▸ isLeaf⟩
        · exact ⟨together ▸ isLeaf, isLeaf⟩
      rwa [(normal_leaf leaves.1).1, (normal_leaf leaves.2).1] at equal
  · obtain ⟨notLeft, notRight⟩ := not_or.mp leaf
    cases left with
    | array | slice | f32 | f64 | staticCall | sliceRef | internedPointer | «instance» =>
      cases right
      all_goals first
        | exact iff_of_false Bool.false_ne_true fun parts => Constant.noConfusion parts.2.2
        | (simp [same, isOrdered, normal, float_eq_iff]; done)
        | simp only [same, isOrdered, normal, Bool.and_eq_true, beq_iff_eq, decide_eq_true_eq, same_iff,
            same_elements_iff, same_fields_iff, array.injEq, slice.injEq, staticCall.injEq, sliceRef.injEq,
            internedPointer.injEq, instance.injEq]
          tauto
    | _ => exact absurd rfl notLeft

theorem same_elements_iff (lefts rights : List Constant) :
    sameElements lefts rights ↔ allOrdered lefts ∧ allOrdered rights ∧
      normalElements lefts = normalElements rights := by
  cases lefts with
  | nil => cases rights <;> simp [sameElements, allOrdered, normalElements]
  | cons left lefts =>
    cases rights with
    | nil => simp [sameElements, normalElements]
    | cons right rights =>
      simp only [sameElements, allOrdered, normalElements, Bool.and_eq_true, same_iff left,
        same_elements_iff lefts, List.cons.injEq]
      tauto
termination_by structural lefts

theorem same_fields_iff (lefts rights : List (String × Constant)) :
    sameFields lefts rights ↔ fieldsOrdered lefts ∧ fieldsOrdered rights ∧
      normalFields lefts = normalFields rights := by
  cases lefts with
  | nil => cases rights <;> simp [sameFields, fieldsOrdered, normalFields]
  | cons left lefts =>
    obtain ⟨name, left⟩ := left
    cases rights with
    | nil => simp [sameFields, normalFields]
    | cons right rights =>
      simp only [sameFields, fieldsOrdered, normalFields, Bool.and_eq_true, beq_iff_eq, same_iff left,
        same_fields_iff lefts, List.cons.injEq, Prod.mk.injEq]
      tauto
termination_by structural lefts

end

theorem same_symm (equal : same left right) : same right left := by
  rw [same_iff] at equal ⊢
  exact ⟨equal.2.1, equal.1, equal.2.2.symm⟩

theorem same_trans {first second third : Constant} (left : same first second) (right : same second third) :
    same first third := by
  rw [same_iff] at left right ⊢
  exact ⟨left.1, right.2.1, left.2.2.trans right.2.2⟩

/-! ### Equal constants have one type -/

/-- The pointee of a `Pointer` instance depends on the types of its parameters. -/
theorem pointer_type (fields : List (String × Constant)) (params : List Constant) (paramTypes : List Ty) :
    Ty.fromConstant (.instance pointerClass fields params paramTypes) =
      match params.map Ty.fromConstant with
      | [value, _, _] => .pointer value
      | _ => .pointer .unit := by
  rcases params with _ | ⟨first, _ | ⟨second, _ | ⟨third, _ | _⟩⟩⟩
  all_goals simp [Ty.fromConstant]

theorem instance_type {className : String} (notPointer : className ≠ pointerClass)
    (fields : List (String × Constant)) (params : List Constant) (paramTypes : List Ty) :
    Ty.fromConstant (.instance className fields params paramTypes) = .class className := by
  unfold Ty.fromConstant
  rw [if_neg notPointer]

mutual

theorem type_normal (constant : Constant) : Ty.fromConstant (normal constant) = Ty.fromConstant constant := by
  cases constant with
  | «instance» className fields params paramTypes =>
    by_cases isPointer : className = pointerClass
    · rw [normal, isPointer, pointer_type, pointer_type, types_normal params]
    · rw [normal, instance_type isPointer, instance_type isPointer]
  | _ => rfl
termination_by structural constant

theorem types_normal (constants : List Constant) :
    (normalElements constants).map Ty.fromConstant = constants.map Ty.fromConstant := by
  cases constants with
  | nil => rfl
  | cons constant rest => rw [normalElements, List.map_cons, List.map_cons, type_normal constant, types_normal rest]
termination_by structural constants

end

theorem same_type (equal : same left right) :
    Ty.fromConstant left = Ty.fromConstant right := by
  rw [← type_normal left, ((same_iff _ _).mp equal).2.2, type_normal]

/-! ### Tests and values for the optimiser -/

mutual

/-- Whether a value may be substituted freely. What is a load at run time may not. -/
def isPropagatable : Constant → Bool
  | .staticRef .. | .factoryCall .. | .staticCall .. | .internedPointer .. | .str _ | .slice ..
  | .sliceRef .. => false
  | .array _ elements => allPropagatable elements
  | .instance _ fields params _ => fieldsPropagatable fields && allPropagatable params
  | _ => true

def allPropagatable : List Constant → Bool
  | [] => true
  | constant :: rest => isPropagatable constant && allPropagatable rest

def fieldsPropagatable : List (String × Constant) → Bool
  | [] => true
  | (_, constant) :: rest => isPropagatable constant && fieldsPropagatable rest

end

mutual

theorem propagatable_normal (constant : Constant) : (normal constant).isPropagatable = constant.isPropagatable := by
  cases constant with
  | array element elements => exact all_propagatable_normal elements
  | «instance» className fields params paramTypes =>
    simp only [normal, isPropagatable]
    rw [fields_propagatable_normal fields, all_propagatable_normal params]
  | _ => rfl
termination_by structural constant

theorem all_propagatable_normal (constants : List Constant) :
    allPropagatable (normalElements constants) = allPropagatable constants := by
  cases constants with
  | nil => rfl
  | cons constant rest =>
    rw [normalElements, allPropagatable, allPropagatable, propagatable_normal constant, all_propagatable_normal rest]
termination_by structural constants

theorem fields_propagatable_normal (fields : List (String × Constant)) :
    fieldsPropagatable (normalFields fields) = fieldsPropagatable fields := by
  cases fields with
  | nil => rfl
  | cons field rest =>
    obtain ⟨name, constant⟩ := field
    rw [normalFields, fieldsPropagatable, fieldsPropagatable, propagatable_normal constant,
      fields_propagatable_normal rest]
termination_by structural fields

end

theorem same_propagatable (equal : same left right) :
    left.isPropagatable = right.isPropagatable := by
  rw [← propagatable_normal left, ((same_iff _ _).mp equal).2.2, propagatable_normal]

def singleOne : BitVec 32 := 0x3f800000

def doubleOne : BitVec 64 := 0x3ff0000000000000

/-- Unsigned integers are not told to be zero. -/
def isZero : Constant → Bool
  | .int kind bits => kind.signed && bits == 0
  | .f32 bits => isFloatZero bits
  | .f64 bits => isFloatZero bits
  | .char value => value == Char.ofNat 0
  | .boolean value => !value
  | _ => false

/-- The character one is the digit. -/
def isOne : Constant → Bool
  | .int kind bits => kind.signed && bits == 1
  | .f32 bits => bits == singleOne
  | .f64 bits => bits == doubleOne
  | .char value => value == '1'
  | .boolean value => value
  | _ => false

/-- Zero of the type of a constant operand; other operands have none. -/
def zeroForOperand : Operand → Option Constant
  | .constant (.int kind _) => if kind.signed then some (.int kind 0) else none
  | .constant (.f32 _) => some (.f32 0)
  | .constant (.f64 _) => some (.f64 0)
  | .constant (.char _) => some (.char (Char.ofNat 0))
  | .constant (.boolean _) => some (.boolean false)
  | _ => none

def oneForOperand : Operand → Option Constant
  | .constant (.int kind _) => if kind.signed then some (.int kind 1) else none
  | .constant (.f32 _) => some (.f32 singleOne)
  | .constant (.f64 _) => some (.f64 doubleOne)
  | .constant (.char _) => some (.char '1')
  | .constant (.boolean _) => some (.boolean true)
  | _ => none

end Constant

def Operand.same : Operand → Operand → Bool
  | .constant left, .constant right => left.same right
  | .variable name ty, .variable name' ty' => name == name' && decide (ty = ty')
  | _, _ => false

end RustcCodegenJvm.Oomir
