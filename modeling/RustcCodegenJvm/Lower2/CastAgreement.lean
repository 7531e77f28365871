import RustcCodegenJvm.Library.Truncation
import RustcCodegenJvm.Lower2.Casts
import RustcCodegenJvm.Oomir.Interpret

/-!
# Folded casts against emitted casts

`cast_constant` folds a cast at compile time and `get_cast_instructions` emits
one. On integers, booleans and characters the two agree except in two places:
the emitted cast to `bool` keeps the low word where the fold tests for zero, and
the emitted cast to `char` keeps sixteen bits where the fold keeps the scalar.
-/

namespace RustcCodegenJvm.Lower2

open Jvm Oomir Library.Truncation BitVec

def isIntegral : Ty → Bool
  | .boolean | .char | .int _ => true
  | _ => false

/-- The inputs on which the emitted cast leaves the encoding of the folded one. -/
def CastAgrees (constant : Constant) (dest : Ty) : Prop :=
  match constant, dest with
  | .int kind bits, .boolean => kind.value bits = 0 ∨ kind.value bits % 2 ^ 32 = 1
  | .int kind bits, .char => kind.value bits ≤ 0xffff
  | _, _ => True

/-- The constants a cast can change, with the number they stand for: unsigned
integers only cast to their own type. -/
inductive Castable : Constant → Int → Prop
  | integer (kind : IntTy) (bits : BitVec kind.width) (signed : kind.signed = true) :
      Castable (.int kind bits) bits.toInt
  | boolean (value : Bool) : Castable (.boolean value) value.toNat
  | char (value : Char) : Castable (.char value) value.toNat

inductive FoldsTo : Constant → Int → Ty → Constant → Prop
  | integer (constant : Constant) (number : Int) (target : IntTy) (signed : target.signed = true) :
      FoldsTo constant number (.int target) (.int target (BitVec.ofInt target.width number))
  | boolean (kind : IntTy) (bits : BitVec kind.width) :
      FoldsTo (.int kind bits) bits.toInt .boolean (.boolean (bits != 0))
  | char (kind : IntTy) (bits : BitVec kind.width) (scalar : Char)
      (same : bits.toInt = scalar.toNat) :
      FoldsTo (.int kind bits) bits.toInt .char (.char scalar)

theorem char_from_u32_value {scalar : Nat} {value : Char} (found : charFromU32 scalar = some value) :
    value.toNat = scalar := by
  unfold charFromU32 at found
  split at found
  · rename_i valid
    cases found
    simp [Char.ofNat, valid, Char.toNat, Char.ofNatAux]
  · cases found

theorem char_to_nat_lt (value : Char) : value.toNat < 0x110000 := by
  have valid := value.valid
  change value.val.toNat < _
  rcases valid with low | high
  · omega
  · exact high.2

variable {width : Nat} {folded constant : Constant} {dest : Ty} {source : Value} {number : Int}
  (bits : BitVec width)

theorem sign_extended_scalar (fits : width ≤ 32)
    {value : Char} (found : charFromU32 (bits.signExtend 32).toNat = some value) :
    bits.toInt = value.toNat := by
  have same := char_from_u32_value found
  have small := char_to_nat_lt value
  rw [← toInt_signExtend_of_le fits, toInt_eq_toNat_of_lt (by omega), same]

theorem converted_scalar (found : (if 0 ≤ bits.toInt ∧ bits.toInt < 2 ^ 32 then
      (charFromU32 bits.toInt.toNat).map Constant.char else none) = some folded) :
    ∃ value : Char, folded = .char value ∧ bits.toInt = value.toNat := by
  split at found
  · rename_i range
    obtain ⟨value, scalar, rfl⟩ := Option.map_eq_some_iff.mp found
    have same := char_from_u32_value scalar
    exact ⟨value, rfl, by omega⟩
  · cases found

theorem cast_integer_folds {numerics : Numerics} {kind : IntTy} {bits : BitVec kind.width}
    (integral : isIntegral dest = true)
    (folds : castInteger numerics kind bits dest = some folded) :
    kind.signed = true ∧ FoldsTo (.int kind bits) bits.toInt dest folded := by
  unfold castInteger at folds
  split at folds
  · rename_i signed
    refine ⟨signed, ?_⟩
    split at folds
    · rename_i target
      split at folds
      · rename_i targetSigned
        cases folds
        exact .integer _ _ target targetSigned
      · cases folds
    · cases integral
    · cases integral
    · cases kind with
      | i8 | i16 =>
        obtain ⟨value, found, rfl⟩ := Option.map_eq_some_iff.mp folds
        exact .char _ bits value (sign_extended_scalar bits (by decide) found)
      | i32 | i64 =>
        obtain ⟨value, rfl, same⟩ := converted_scalar bits folds
        exact .char _ bits value same
      | u8 | u16 | u32 | u64 => cases signed
    · cases folds
      exact .boolean kind bits
    · cases folds
  · cases folds

/-- A folded cast keeps the constant or is one of the three forms above. -/
theorem cast_constant_folds {numerics : Numerics} (encoded : encode constant = some source)
    (integralSource : isIntegral (Ty.fromConstant constant) = true)
    (integral : isIntegral dest = true)
    (folds : castConstant numerics constant dest = some folded) :
    (Ty.fromConstant constant = dest ∧ folded = constant) ∨
      ∃ number, Ty.fromConstant constant ≠ dest ∧ Castable constant number ∧
        FoldsTo constant number dest folded := by
  unfold castConstant at folds
  split at folds
  · rename_i same
    cases folds
    exact .inl ⟨same, rfl⟩
  · rename_i distinct
    right
    cases constant with
    | int kind bits =>
      obtain ⟨signed, shape⟩ := cast_integer_folds integral folds
      exact ⟨_, distinct, .integer kind bits signed, shape⟩
    | boolean value =>
      cases dest with
      | int target =>
        obtain ⟨signed, shape⟩ := Option.ite_none_right_eq_some.mp folds
        cases shape
        exact ⟨_, distinct, .boolean value, by simpa using .integer _ _ target signed⟩
      | _ => cases folds
    | char value =>
      cases dest with
      | int target =>
        obtain ⟨signed, shape⟩ := Option.ite_none_right_eq_some.mp folds
        cases shape
        exact ⟨_, distinct, .char value, by simpa using .integer _ _ target signed⟩
      | _ => cases folds
    | f16 _ | f32 _ | f64 _ => cases integralSource
    | _ => cases encoded

/-! ### The emitted sequences -/

/-- Brings a castable value to an `int`. -/
def lowWord (src : Ty) : List Instruction :=
  if intWidth src = some 64 then [.convert .l2i] else []

theorem narrow_cast_emits {src : Ty} (integralSource : isIntegral src = true)
    (integral : isIntegral dest = true) (notByte : src ≠ .int .u8) (distinct : src ≠ dest)
    (narrow₁ : dest ≠ .int .i64) (narrow₂ : dest ≠ .int .u64) :
    getCastInstructions src dest = pure (lowWord src ++ (narrow dest).toList) := by
  cases src with
  | boolean | char =>
    cases dest with
    | boolean | char => first | rfl | exact absurd rfl distinct
    | int target => cases target <;> first | rfl | exact absurd rfl narrow₁ | exact absurd rfl narrow₂
    | _ => cases integral
  | int kind =>
    cases dest with
    | boolean | char => cases kind <;> first | rfl | exact absurd rfl notByte
    | int target =>
      cases kind <;> cases target <;>
        first
          | rfl
          | exact absurd rfl notByte
          | exact absurd rfl distinct
          | exact absurd rfl narrow₁
          | exact absurd rfl narrow₂
    | _ => cases integral
  | _ => cases integralSource

variable (castable : Castable constant number)

include castable in
theorem Castable.integral :
    isIntegral (Ty.fromConstant constant) = true ∧ Ty.fromConstant constant ≠ .int .u8 := by
  cases castable with
  | integer kind bits signed =>
    refine ⟨rfl, ?_⟩
    rintro same
    cases same
    cases signed
  | boolean | char => exact ⟨rfl, nofun⟩

theorem to_int_fits (fits : width ≤ 32) :
    -2 ^ 31 ≤ bits.toInt ∧ bits.toInt < 2 ^ 31 := by
  have grows : (2 : Int) ^ (width - 1) ≤ 2 ^ 31 := pow_le_pow_right₀ (by decide) (by omega)
  have low := le_toInt bits
  have high := toInt_lt (x := bits)
  exact ⟨by omega, by omega⟩

include castable in
theorem Castable.word
    (encoded : encode constant = some source) (narrow : Ty.fromConstant constant ≠ .int .i64) :
    source = .int (BitVec.ofInt 32 number) ∧ -2 ^ 31 ≤ number ∧ number < 2 ^ 31 := by
  cases castable with
  | integer kind bits signed =>
    cases kind with
    | i8 | i16 =>
      cases encoded
      exact ⟨rfl, to_int_fits bits (by decide)⟩
    | i32 =>
      cases encoded
      exact ⟨by rw [ofInt_toInt]; rfl, to_int_fits bits (by decide)⟩
    | i64 => exact absurd rfl narrow
    | u8 | u16 | u32 | u64 => cases signed
  | boolean value => cases encoded; cases value <;> decide
  | char value =>
    cases encoded
    have small := char_to_nat_lt value
    exact ⟨by rw [ofInt_natCast], by omega, by omega⟩

include castable in
theorem low_word_leaves
    (encoded : encode constant = some source) (pool : ConstantPool) (stack : List Value) :
    stackRun pool (lowWord (Ty.fromConstant constant)) (source :: stack) =
      some (.int (BitVec.ofInt 32 number) :: stack) := by
  by_cases wide : Ty.fromConstant constant = .int .i64
  · cases castable with
    | integer kind bits signed =>
      cases wide
      cases encoded
      have low : bits.setWidth 32 = BitVec.ofInt 32 bits.toInt := by
        rw [← set_width_of_int (by decide : 32 ≤ 64), ofInt_toInt]
      change some (Value.int (bits.setWidth 32) :: stack) = _
      rw [low]
    | boolean | char => cases wide
  · obtain ⟨rfl, -⟩ := castable.word encoded wide
    cases castable with
    | integer kind bits signed =>
      cases kind with
      | i64 => exact absurd rfl wide
      | _ => first | rfl | cases signed
    | boolean | char => rfl

theorem narrow_leaves (target : IntTy) (signed : target.signed = true) (narrowed : target ≠ .i64)
    (number : Int) (pool : ConstantPool) (stack : List Value) :
    stackRun pool (narrow (.int target)).toList (.int (BitVec.ofInt 32 number) :: stack) =
      some (encodeInt target (BitVec.ofInt target.width number) :: stack) := by
  cases target with
  | i8 =>
    change some (Value.int (((BitVec.ofInt 32 number).setWidth 8).signExtend 32) :: stack) = _
    rw [set_width_of_int (by decide)]
    rfl
  | i16 =>
    change some (Value.int (((BitVec.ofInt 32 number).setWidth 16).signExtend 32) :: stack) = _
    rw [set_width_of_int (by decide)]
    rfl
  | i32 => rfl
  | i64 => exact absurd rfl narrowed
  | u8 | u16 | u32 | u64 => cases signed

include castable in
theorem integer_cast_leaves
    (encoded : encode constant = some source) (target : IntTy) (signed : target.signed = true)
    (distinct : Ty.fromConstant constant ≠ .int target) :
    ∃ instructions, getCastInstructions (Ty.fromConstant constant) (.int target) =
        pure instructions ∧ ∀ pool stack, stackRun pool instructions (source :: stack) =
        some (encodeInt target (BitVec.ofInt target.width number) :: stack) := by
  by_cases wide : target = .i64
  · subst wide
    obtain ⟨rfl, low, high⟩ := castable.word encoded distinct
    refine ⟨[.convert .i2l], ?_, fun pool stack => ?_⟩
    · cases castable with
      | integer kind bits sourceSigned =>
        cases kind <;> first | exact absurd rfl distinct | rfl | cases sourceSigned
      | boolean | char => rfl
    · have extended : (BitVec.ofInt 32 number).signExtend 64 = BitVec.ofInt 64 number := by
        rw [BitVec.signExtend, toInt_ofInt, Int.bmod_eq_of_le (by omega) (by omega)]
      change some (Value.long ((BitVec.ofInt 32 number).signExtend 64) :: stack) = _
      rw [extended]
      rfl
  · obtain ⟨integral, notByte⟩ := castable.integral
    refine ⟨_, narrow_cast_emits integral rfl notByte distinct (fun same => wide (by cases same; rfl))
      (fun same => by cases same; cases signed), fun pool stack => ?_⟩
    rw [stack_run_append, low_word_leaves castable encoded, Option.bind_some,
      narrow_leaves target signed wide]

/-! ### Agreement -/

theorem low_word_is_truth : BitVec.ofInt 32 bits.toInt = (if bits != 0 then 1 else 0) ↔
      bits.toInt = 0 ∨ bits.toInt % 2 ^ 32 = 1 := by
  by_cases zero : bits = 0
  · subst zero
    simp
  · have nonzero : bits.toInt ≠ 0 := by
      intro vanishes
      exact zero (eq_of_toInt_eq (by rw [vanishes]; exact toInt_zero.symm))
    have taken : (bits != 0) = true := bne_iff_ne.mpr zero
    rw [if_pos taken, ← toNat_inj, toNat_ofInt]
    simp only [nonzero, false_or]
    change (bits.toInt % 4294967296).toNat = 1 ↔ bits.toInt % 4294967296 = 1
    omega

theorem low_char_is_scalar {scalar : Char} (same : number = scalar.toNat) :
    ((BitVec.ofInt 32 number).setWidth 16).setWidth 32 = BitVec.ofNat 32 scalar.toNat ↔
      number ≤ 0xffff := by
  have small := char_to_nat_lt scalar
  rw [set_width_of_int (by decide), ← toNat_inj, toNat_setWidth, toNat_ofInt,
    toNat_ofNat, same]
  omega

/-- A cast to another type: what the emitted sequence leaves, and when that is the
encoding of the folded constant. -/
theorem changed_cast_leaves
    (encoded : encode constant = some source) (castable : Castable constant number)
    (distinct : Ty.fromConstant constant ≠ dest) (shape : FoldsTo constant number dest folded) :
    ∃ instructions left result, encode folded = some result ∧
      getCastInstructions (Ty.fromConstant constant) dest = pure instructions ∧
      (∀ pool stack, stackRun pool instructions (source :: stack) = some (left :: stack)) ∧
      (left = result ↔ CastAgrees constant dest) := by
  obtain ⟨integral, notByte⟩ := castable.integral
  cases shape with
  | integer _ _ target signed =>
    obtain ⟨instructions, emitted, leaves⟩ := integer_cast_leaves castable encoded target signed distinct
    refine ⟨instructions, _, _, rfl, emitted, leaves, ?_⟩
    cases castable <;> simp [CastAgrees]
  | boolean kind bits =>
    refine ⟨_, .int (BitVec.ofInt 32 bits.toInt), _, rfl, narrow_cast_emits integral rfl notByte distinct nofun nofun,
      fun pool stack => ?_, ?_⟩
    · rw [stack_run_append, low_word_leaves castable encoded]
      rfl
    · cases castable with
      | integer _ _ signed =>
        have value : kind.value bits = bits.toInt := if_pos signed
        simp only [CastAgrees, value, Value.int.injEq]
        exact low_word_is_truth bits
  | char kind bits scalar same =>
    refine ⟨_, .int (((BitVec.ofInt 32 bits.toInt).setWidth 16).setWidth 32), _, rfl, narrow_cast_emits integral rfl notByte distinct nofun nofun,
      fun pool stack => ?_, ?_⟩
    · rw [stack_run_append, low_word_leaves castable encoded]
      rfl
    · cases castable with
      | integer _ _ signed =>
        have value : kind.value bits = bits.toInt := if_pos signed
        simp only [CastAgrees, value, Value.int.injEq]
        exact low_char_is_scalar same

/-- A folded cast and the emitted cast give the same value exactly on `CastAgrees`. -/
theorem cast_fold_agrees_iff (numerics : Numerics) {constant folded : Constant} {dest : Ty}
    {source : Value} (encoded : encode constant = some source)
    (integralSource : isIntegral (Ty.fromConstant constant) = true)
    (integral : isIntegral dest = true) (folds : castConstant numerics constant dest = some folded)
    (before after : InternedConstantPool) {instructions : List Instruction}
    (emits : (getCastInstructions (Ty.fromConstant constant) dest).run before =
      .ok (instructions, after))
    {World : Type} (env : Environment World) (base : Nat) (stack : List Value) (locals : Locals) :
    ∃ left result, encode folded = some result ∧
      Executes env base instructions (source :: stack, locals) (left :: stack, locals) ∧
      (left = result ↔ CastAgrees constant dest) := by
  rcases cast_constant_folds encoded integralSource integral folds with
    ⟨rfl, same⟩ | ⟨number, distinct, castable, shape⟩
  · rw [same]
    have identity : getCastInstructions (Ty.fromConstant constant) (Ty.fromConstant constant) =
        pure [] := if_pos rfl
    rw [identity] at emits
    obtain ⟨rfl, rfl⟩ := Library.StateExcept.pure_ok emits
    refine ⟨source, source, encoded, Executes.nil base _, ?_⟩
    cases constant <;> simp [CastAgrees, Ty.fromConstant]
  · obtain ⟨emitted, left, result, resultEncoded, equal, leaves, agrees⟩ :=
      changed_cast_leaves encoded castable distinct shape
    rw [equal] at emits
    obtain ⟨rfl, rfl⟩ := Library.StateExcept.pure_ok emits
    exact ⟨left, result, resultEncoded, Executes.of_stack_run (leaves _ stack) base locals, agrees⟩

theorem cast_fold_agrees_on_minus_one : ∃ left result, encode (.int .i8 (-1)) = some result ∧
      Executes (Environment.isolated ⟨[]⟩) 0 [.convert .l2i, .convert .i2b]
        ([.long (-1)], fun _ => none) ([left], fun _ => none) ∧
      (left = result ↔ CastAgrees (.int .i64 (-1)) (.int .i8)) :=
  cast_fold_agrees_iff Numerics.integral
    rfl rfl rfl rfl .empty .empty rfl (Environment.isolated ⟨[]⟩) 0 [] (fun _ => none)

/-- `2i32 as bool` folds to `true`, and no instruction is emitted for it, so the
`int` stays `2`. `0x1F600i32 as char` folds to the scalar, and `i2c` drops its
high bits. -/
theorem cast_fold_diverges :
    (castConstant Numerics.integral (.int .i32 2) .boolean = some (.boolean true) ∧
      getCastInstructions (.int .i32) .boolean = pure [] ∧
      encode (.int .i32 2) ≠ encode (.boolean true)) ∧
    (castConstant Numerics.integral (.int .i32 0x1F600) .char = some (.char '😀') ∧
      getCastInstructions (.int .i32) .char = pure [.convert .i2c] ∧
      encode (.int .i32 0x1F600) = some (.int 0x1F600) ∧
      stackRun ⟨[]⟩ [.convert .i2c] [.int 0x1F600] = some [.int 0xF600] ∧
      encode (.char '😀') ≠ some (.int 0xF600)) := by
  refine ⟨⟨rfl, rfl, by decide⟩, ⟨rfl, rfl, rfl, rfl, by decide⟩⟩

end RustcCodegenJvm.Lower2
