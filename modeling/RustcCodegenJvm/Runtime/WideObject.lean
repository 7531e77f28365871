import RustcCodegenJvm.Runtime.WideArithmetic
import RustcCodegenJvm.Oomir.Interpret
import RustcCodegenJvm.Library.Truncation

/-!
# Objects of the 128-bit classes

Generated code treats `I128` and `U128` alike: it picks the class by the type
and calls a method by its name. Here an object is its class and its two words,
and each method is one function of the class, so that the code that calls it
can be described once. `number` is the integer an object stands for.
-/

namespace RustcCodegenJvm.Runtime

open Jvm Oomir Library.Truncation

structure WideObject where
  signed : Bool
  bits : U128
deriving DecidableEq

def wideClass (signed : Bool) : String := if signed then i128Class else u128Class

namespace Wide

def number (signed : Bool) (bits : U128) : Int :=
  if signed then (I128.ofU128 bits).toInt else bits.toNat

/-- The integer of 128 bits an unbounded one is reduced to. -/
def wrap (signed : Bool) (value : Int) : Int :=
  if signed then value.bmod (2 ^ 128) else value % 2 ^ 128

inductive BinaryMethod
  | add | subtract | multiply | divide | remainder | and | or | xor
deriving DecidableEq

namespace BinaryMethod

def name : BinaryMethod → String
  | add => "add"
  | subtract => "subtract"
  | multiply => "multiply"
  | divide => "divide"
  | remainder => "remainder"
  | and => "and"
  | or => "or"
  | xor => "xor"

def ofSigned (method : BinaryMethod) (left right : I128) : Except RuntimeError I128 :=
  match method with
  | add => .ok (left.add right)
  | subtract => .ok (left.subtract right)
  | multiply => .ok (left.multiply right)
  | divide => left.divide right
  | remainder => left.remainder right
  | and => .ok (left.and right)
  | or => .ok (left.or right)
  | xor => .ok (left.xor right)

def ofUnsigned (method : BinaryMethod) (left right : U128) : Except RuntimeError U128 :=
  match method with
  | add => .ok (left.add right)
  | subtract => .ok (left.subtract right)
  | multiply => .ok (left.multiply right)
  | divide => left.divide right
  | remainder => left.remainder right
  | and => .ok (left.and right)
  | or => .ok (left.or right)
  | xor => .ok (left.xor right)

def apply (method : BinaryMethod) (signed : Bool) (left right : U128) : Except RuntimeError U128 :=
  if signed then (method.ofSigned (I128.ofU128 left) (I128.ofU128 right)).map I128.toU128
  else method.ofUnsigned left right

end BinaryMethod

inductive UnaryMethod
  | not | negate
deriving DecidableEq

namespace UnaryMethod

def name : UnaryMethod → String
  | not => "not"
  | negate => "negate"

def apply (method : UnaryMethod) (signed : Bool) (bits : U128) : U128 :=
  match method, signed with
  | not, true => (I128.ofU128 bits).not.toU128
  | not, false => bits.not
  | negate, true => (I128.ofU128 bits).negate.toU128
  | negate, false => bits.negate

end UnaryMethod

def shiftName : Oomir.ShiftOp → String
  | .shl => "shiftLeft"
  | .shr => "shiftRight"

def shift (op : Oomir.ShiftOp) (signed : Bool) (bits : U128) (distance : JInt) : U128 :=
  match op, signed with
  | .shl, true => ((I128.ofU128 bits).shiftLeft distance).toU128
  | .shl, false => bits.shiftLeft distance
  | .shr, true => ((I128.ofU128 bits).shiftRight distance).toU128
  | .shr, false => bits.shiftRight distance

def compareTo (signed : Bool) (left right : U128) : JInt :=
  if signed then (I128.ofU128 left).compareTo (I128.ofU128 right) else left.compareTo right

def intValue (bits : U128) : JInt := bits.low.setWidth 32

def arithmeticMethod : Oomir.ArithmeticOp → BinaryMethod
  | .add => .add
  | .sub => .subtract
  | .mul => .multiply
  | .div => .divide
  | .rem => .remainder

def bitwiseMethod : Oomir.BitwiseOp → BinaryMethod
  | .and => .and
  | .or => .or
  | .xor => .xor

/-! ### The integers behind the objects -/

theorem number_of_signed (value : I128) : number true value.toU128 = value.toInt := rfl

theorem number_of_unsigned (bits : U128) : number false bits = bits.toNat := rfl

theorem wrap_unsigned (value : Int) : wrap false value = value % 2 ^ 128 := rfl

theorem number_wrapped (signed : Bool) (bits : U128) :
    wrap signed (number signed bits) = number signed bits := by
  cases signed with
  | true =>
    have bounds := (I128.ofU128 bits).to_int_bounds
    exact Int.bmod_eq_of_le (by rw [number, if_pos rfl]; omega) (by rw [number, if_pos rfl]; omega)
  | false =>
    have bound := bits.to_nat_lt
    exact Int.emod_eq_of_lt (by rw [number_of_unsigned]; omega) (by rw [number_of_unsigned]; omega)

theorem number_injective (signed : Bool) {left right : U128} :
    number signed left = number signed right ↔ left = right := by
  refine ⟨fun same => ?_, fun same => by rw [same]⟩
  rw [← U128.to_nat_inj]
  cases signed with
  | true =>
    have leftCongr := (I128.ofU128 left).to_nat_congr
    have rightCongr := (I128.ofU128 right).to_nat_congr
    have sameInt : (I128.ofU128 left).toInt = (I128.ofU128 right).toInt := same
    rw [sameInt] at leftCongr
    have leftBound := left.to_nat_lt
    have rightBound := right.to_nat_lt
    have congr : (left.toNat : Int) % 2 ^ 128 = right.toNat % 2 ^ 128 := leftCongr.trans rightCongr.symm
    omega
  | false => exact Int.ofNat_inj.mp same

/-! ### The methods on integers -/

/-- An arithmetic method computes the operator, reduced to 128 bits, where the operator has
a result. -/
theorem arithmetic_number (op : Oomir.ArithmeticOp) (signed : Bool) (left right : U128) {result : Int}
    (applied : op.applyBig (number signed left) (number signed right) = some result) :
    ∃ bits, (arithmeticMethod op).apply signed left right = .ok bits ∧
      number signed bits = wrap signed result := by
  have nonzero : (op = .div ∨ op = .rem) → number signed right ≠ 0 := by
    rintro (rfl | rfl) zero <;> simp [Oomir.ArithmeticOp.applyBig, zero] at applied
  cases signed with
  | true =>
    have exact := I128.exact (I128.ofU128 left) (I128.ofU128 right) 0
    cases op with
    | add =>
      cases applied
      exact ⟨_, rfl, exact.add⟩
    | sub =>
      cases applied
      exact ⟨_, rfl, exact.subtract⟩
    | mul =>
      cases applied
      exact ⟨_, rfl, exact.multiply⟩
    | div =>
      have nonzero := nonzero (.inl rfl)
      rw [Oomir.ArithmeticOp.applyBig, if_neg nonzero] at applied
      cases applied
      have division : ∃ quotient, (I128.ofU128 left).divide (I128.ofU128 right) = .ok quotient ∧ _ :=
        I128.divide_of_nonzero nonzero
      obtain ⟨quotient, divides, value⟩ := division
      refine ⟨quotient.toU128, ?_, value⟩
      simp only [arithmeticMethod, BinaryMethod.apply, BinaryMethod.ofSigned, if_true, divides]
      rfl
    | rem =>
      have nonzero := nonzero (.inr rfl)
      rw [Oomir.ArithmeticOp.applyBig, if_neg nonzero] at applied
      cases applied
      obtain ⟨rest, divides, value⟩ := exact.remainder nonzero
      refine ⟨rest.toU128, ?_, ?_⟩
      · simp only [arithmeticMethod, BinaryMethod.apply, BinaryMethod.ofSigned, if_true, divides]
        rfl
      · change _ = wrap true ((I128.ofU128 left).toInt.tmod (I128.ofU128 right).toInt)
        rw [← value, ← number_of_signed, number_wrapped]
  | false =>
    have exact := U128.exact left right 0
    cases op with
    | add =>
      cases applied
      refine ⟨_, rfl, ?_⟩
      rw [number_of_unsigned, exact.add]
      norm_cast
    | sub =>
      cases applied
      exact ⟨_, rfl, by rw [wrap_unsigned, number_of_unsigned, exact.subtract]; rfl⟩
    | mul =>
      cases applied
      refine ⟨_, rfl, ?_⟩
      rw [number_of_unsigned, exact.multiply]
      norm_cast
    | div =>
      have nonzero := nonzero (.inl rfl)
      obtain ⟨quotient, divides, value⟩ := exact.divide (Int.natCast_ne_zero.mp nonzero)
      rw [Oomir.ArithmeticOp.applyBig, if_neg nonzero] at applied
      cases applied
      refine ⟨quotient, divides, ?_⟩
      change _ = wrap false ((left.toNat / right.toNat : Nat) : Int)
      rw [← value, ← number_of_unsigned, number_wrapped]
    | rem =>
      have nonzero := nonzero (.inr rfl)
      obtain ⟨rest, divides, value⟩ := exact.remainder (Int.natCast_ne_zero.mp nonzero)
      rw [Oomir.ArithmeticOp.applyBig, if_neg nonzero] at applied
      cases applied
      refine ⟨rest, divides, ?_⟩
      change _ = wrap false ((left.toNat % right.toNat : Nat) : Int)
      rw [← value, ← number_of_unsigned, number_wrapped]

theorem wrap_unsigned_of_bits (value : Int) :
    wrap false value = (BitVec.ofInt 128 value).toNat := by
  rw [BitVec.toNat_ofInt, Int.toNat_of_nonneg (Int.emod_nonneg _ (by decide))]
  rfl

theorem wrap_signed_of_bits (value : Int) : wrap true value = (BitVec.ofInt 128 value).toInt := by
  rw [BitVec.toInt_ofInt]
  rfl

theorem bitwise_number (op : Oomir.BitwiseOp) (signed : Bool) (left right : U128) :
    ∃ bits, (bitwiseMethod op).apply signed left right = .ok bits ∧
      number signed bits = wrap signed (op.applyBig (number signed left) (number signed right)) := by
  cases signed with
  | true =>
    have exact := I128.exact (I128.ofU128 left) (I128.ofU128 right) 0
    rw [wrap_signed_of_bits]
    cases op with
    | and =>
      refine ⟨_, rfl, exact.and.trans ?_⟩
      rw [Oomir.BitwiseOp.applyBig, of_int_land]
      rfl
    | or =>
      refine ⟨_, rfl, exact.or.trans ?_⟩
      rw [Oomir.BitwiseOp.applyBig, of_int_lor]
      rfl
    | xor =>
      refine ⟨_, rfl, exact.xor.trans ?_⟩
      rw [Oomir.BitwiseOp.applyBig, of_int_xor]
      rfl
  | false =>
    have exact := U128.exact left right 0
    cases op with
    | and =>
      refine ⟨_, rfl, (number_wrapped false _).symm.trans (congrArg _ ?_)⟩
      rw [number_of_unsigned, exact.and]
      rfl
    | or =>
      refine ⟨_, rfl, (number_wrapped false _).symm.trans (congrArg _ ?_)⟩
      rw [number_of_unsigned, exact.or]
      rfl
    | xor =>
      refine ⟨_, rfl, (number_wrapped false _).symm.trans (congrArg _ ?_)⟩
      rw [number_of_unsigned, exact.xor]
      rfl

/-- A shift method shifts by the distance modulo 128. -/
theorem shift_number (op : Oomir.ShiftOp) (signed : Bool) (bits : U128) (distance : JInt) :
    number signed (shift op signed bits distance) =
      wrap signed (op.applyBig (number signed bits) (distance.toNat % 128)) := by
  cases signed with
  | true =>
    cases op with
    | shl => exact I128.shift_left_value (I128.ofU128 bits) distance
    | shr =>
      rw [← number_wrapped]
      exact congrArg _ (I128.shift_right_value (I128.ofU128 bits) distance)
  | false =>
    cases op with
    | shl =>
      change ((bits.shiftLeft distance).toNat : Int) = _
      rw [U128.shift_left_value]
      norm_cast
    | shr =>
      rw [← number_wrapped]
      refine congrArg _ ?_
      change ((bits.shiftRight distance).toNat : Int) = _
      rw [U128.shift_right_value]
      norm_cast

def UnaryMethod.applyBig : UnaryMethod → Int → Int
  | not, value => -value - 1
  | negate, value => -value

theorem unary_number (method : UnaryMethod) (signed : Bool) (bits : U128) :
    number signed (method.apply signed bits) = wrap signed (method.applyBig (number signed bits)) := by
  cases signed with
  | true =>
    have exact := I128.exact (I128.ofU128 bits) (I128.ofU128 bits) 0
    cases method with
    | not =>
      rw [← number_wrapped]
      exact congrArg _ exact.not
    | negate => exact exact.negate
  | false =>
    have exact := U128.exact bits bits 0
    cases method with
    | not =>
      rw [wrap_unsigned]
      exact exact.not
    | negate =>
      rw [wrap_unsigned]
      exact exact.negate

theorem compare_number (signed : Bool) (left right : U128) :
    ComparesAs (compareTo signed left right) (number signed left < number signed right)
      (number signed left = number signed right) (number signed left > number signed right) := by
  cases signed with
  | true => exact (I128.exact (I128.ofU128 left) (I128.ofU128 right) 0).compareTo
  | false =>
    obtain ⟨negative, zero, positive⟩ := (U128.exact left right 0).compareTo
    refine ⟨negative.trans ?_, zero.trans ?_, positive.trans ?_⟩
    all_goals
      rw [number_of_unsigned, number_of_unsigned]
      norm_cast

end Wide

end RustcCodegenJvm.Runtime
