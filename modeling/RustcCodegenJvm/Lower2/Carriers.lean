import RustcCodegenJvm.Lower2.Emission
import RustcCodegenJvm.Library.Truncation

/-!
# Integers in JVM words

An integer type of at most 32 bits is carried in an `int` and a 64-bit one in a
`long`: `extend` puts the bits into the word, and normalisation after an
operator truncates the word and extends it again. Truncation commutes with the
ring and bitwise operators, so only division, shifts and comparisons have to
look at how a type is extended.
-/

namespace RustcCodegenJvm.Lower2

open Jvm Oomir Library.Truncation

@[reducible] def carrierWidth : IntTy → Nat
  | .i64 | .u64 => 64
  | _ => 32

def extend (kind : IntTy) (bits : BitVec kind.width) : BitVec (carrierWidth kind) :=
  match kind, bits with
  | .i8, bits | .u8, bits => bits.signExtend 32
  | .i16, bits => bits.signExtend 32
  | .u16, bits => bits.setWidth 32
  | .i32, bits | .u32, bits => bits
  | .i64, bits | .u64, bits => bits

def wordValue (kind : IntTy) (word : BitVec (carrierWidth kind)) : Value :=
  match kind, word with
  | .i64, word | .u64, word => .long word
  | .i8, word | .u8, word | .i16, word | .u16, word | .i32, word | .u32, word => .int word

variable (kind : IntTy) (bits : BitVec kind.width)

theorem encode_int_eq :
    encodeInt kind bits = wordValue kind (extend kind bits) := by
  cases kind <;> rfl

theorem width_le_carrier : kind.width ≤ carrierWidth kind := by
  cases kind <;> decide

theorem truncate_extend_carrier :
    (extend kind bits).setWidth kind.width = bits := by
  cases kind with
  | i8 | u8 | i16 =>
    exact set_width_sign_extend bits (by decide)
  | u16 =>
    rw [extend, BitVec.setWidth_setWidth_of_le _ (by decide), BitVec.setWidth_eq]
  | i32 | u32 | i64 | u64 => exact BitVec.setWidth_eq _

theorem extend_signed (signed : kind.signed = true) :
    (extend kind bits).toInt = bits.toInt := by
  cases kind with
  | i8 | i16 => exact BitVec.toInt_signExtend_of_le (by decide)
  | i32 | i64 => rfl
  | u8 | u16 | u32 | u64 => cases signed

section Rules

variable {table : LocalTable} {stack : List Value} {locals : Locals}

theorem normalize_emits (word : BitVec (carrierWidth kind)) :
    Emits table (normalizeIntegerResult (.int kind)) (wordValue kind word :: stack, locals)
      (encodeInt kind (word.setWidth kind.width) :: stack, locals) := by
  cases kind with
  | i8 | u8 | i16 | u16 => exact Emits.plain rfl fun _ => rfl
  | i32 | u32 | i64 | u64 =>
    rw [BitVec.setWidth_eq]
    exact Emits.nothing

theorem store_int_assigns {dest : String} :
    Assigns table (storeResult dest (.int kind)) dest (.int kind)
      (encodeInt kind bits :: stack, locals) stack locals (encodeInt kind bits) :=
  store_result_assigns (encode_int_kind kind bits)

theorem binary_op_assigns {kind : IntTy} {left right : BitVec kind.width} {op1 op2 : Operand}
    {dest : String} {jvmOp : Instruction} {word : BitVec (carrierWidth kind)}
    (leftHolds : OperandHolds table locals op1 (.int kind left))
    (rightHolds : OperandHolds table locals op2 (.int kind right)) (plain : jvmOp.isPlain = true)
    (effect : ∀ pool, stackEffect pool jvmOp (encodeInt kind right :: encodeInt kind left :: stack) =
      .done (wordValue kind word :: stack)) :
    Assigns table (translateBinaryOp dest op1 op2 jvmOp) dest (.int kind) (stack, locals) stack
      locals (encodeInt kind (word.setWidth kind.width)) := by
  have sameType : op1.getType = .int kind := leftHolds.type
  rw [translateBinaryOp, sameType]
  exact (load_operand_as_emits leftHolds).assigns <|
    (load_operand_as_emits rightHolds).assigns <|
    (Emits.plain plain effect).assigns <|
    (normalize_emits kind word).assigns (store_int_assigns kind _)

end Rules

end RustcCodegenJvm.Lower2
