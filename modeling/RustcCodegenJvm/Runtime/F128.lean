import RustcCodegenJvm.Jvm.Word

/-!
# `org.rustlang.runtime.F128`

The arithmetic core of the soft binary128 class: fields of a bit pattern, the
exact rational of a finite one, rounding of a rational, and the operations that
are rounded once. `java.math.BigInteger` is exact, so its values are `Nat` and
`Int` here; a `bitLength` is `Nat.size`.
-/

namespace RustcCodegenJvm.Runtime

open Jvm

structure F128 where
  high : JLong
  low : JLong
  deriving DecidableEq, Repr

variable {encodedExponent significand : Nat} (this : F128) (negative : Bool)

namespace F128

def fractionBits : Nat := 112

def exponentBias : Int := 16383

def maxExponent : Nat := 0x7fff

def two112 : Nat := 1 <<< fractionBits

def fractionMask : Nat := two112 - 1

def mask128 : Nat := (1 <<< 128) - 1

def nan : F128 := ⟨0x7fff800000000000#64, 0#64⟩

def toBits (this : F128) : Nat := this.high.toNat <<< 64 ||| this.low.toNat

def fromBits (bits : Nat) : F128 :=
  let raw := bits &&& mask128
  ⟨BitVec.ofNat 64 (raw >>> 64), BitVec.ofNat 64 raw⟩

def isNegative (this : F128) : Bool := this.high.slt 0#64

def exponent (this : F128) : Nat := (lushr this.high 48 &&& 0x7fff#64).toNat

def fraction (this : F128) : Nat := this.toBits &&& fractionMask

def isNaN (this : F128) : Bool := this.exponent = maxExponent && this.fraction ≠ 0

def isInfinite (this : F128) : Bool := this.exponent = maxExponent && this.fraction = 0

def isZero (this : F128) : Bool := this.exponent = 0 && this.fraction = 0

def zero (negative : Bool) : F128 := ⟨if negative then 0x8000000000000000#64 else 0#64, 0#64⟩

def infinity (negative : Bool) : F128 :=
  ⟨(if negative then 0x8000000000000000#64 else 0#64) ||| 0x7fff000000000000#64, 0#64⟩

def negate (this : F128) : F128 := ⟨this.high ^^^ 0x8000000000000000#64, this.low⟩

structure Rational where
  numerator : Int
  denominator : Int

/-- `numerator` and `denominator` of `finiteRational` before the sign is set. -/
def dyadic (significand : Nat) (power : Int) : Rational :=
  if 0 ≤ power then ⟨(significand <<< power.toNat : Nat), 1⟩
  else ⟨significand, ((1 <<< (-power).toNat : Nat) : Int)⟩

def finiteRational (this : F128) : Rational :=
  let magnitude :=
    if this.exponent = 0 then dyadic this.fraction (1 - exponentBias - fractionBits)
    else dyadic (this.fraction + two112) (this.exponent - exponentBias - fractionBits)
  if this.isNegative then ⟨-magnitude.numerator, magnitude.denominator⟩ else magnitude

def floorLog2 (numerator denominator : Nat) : Int :=
  let exponent : Int := (numerator.size : Int) - denominator.size
  let less : Bool :=
    if 0 ≤ exponent then numerator < denominator <<< exponent.toNat
    else numerator <<< (-exponent).toNat < denominator
  if less then exponent - 1 else exponent

def roundToEven (numerator denominator : Nat) : Nat :=
  let quotient := numerator / denominator
  let doubled := (numerator % denominator) <<< 1
  if denominator < doubled ∨ (doubled = denominator ∧ quotient.testBit 0) then quotient + 1
  else quotient

/-- The last lines of `fromRational`. -/
def pack (negative : Bool) (encodedExponent significand : Nat) : F128 :=
  let bits := encodedExponent <<< fractionBits ||| (significand &&& fractionMask)
  fromBits (if negative then bits ||| 1 <<< 127 else bits)

/-- `fromRational` once a significand with a leading bit has been rounded. -/
def packNormal (negative : Bool) (exponent : Int) (significand : Nat) : F128 :=
  if fractionBits + 1 < significand.size then
    if exponentBias < exponent + 1 then infinity negative
    else pack negative (exponent + 1 + exponentBias).toNat (significand >>> 1 - two112)
  else pack negative (exponent + exponentBias).toNat (significand - two112)

/-- `fromRational` once a subnormal significand has been rounded. -/
def packSubnormal (negative : Bool) (significand : Nat) : F128 :=
  if significand = 0 then zero negative
  else if two112 ≤ significand then pack negative 1 0
  else pack negative 0 significand

def fromRational (signedNumerator denominator : Int) (negativeZero : Bool) : F128 :=
  if signedNumerator.sign = 0 then zero negativeZero
  else
    let negative : Bool := signedNumerator.sign ≠ denominator.sign
    let numerator := signedNumerator.natAbs
    let denominator := denominator.natAbs
    let exponent := floorLog2 numerator denominator
    if exponentBias < exponent then infinity negative
    else if 1 - exponentBias ≤ exponent then
      let scale := (fractionBits : Int) - exponent
      packNormal negative exponent
        (if 0 ≤ scale then roundToEven (numerator <<< scale.toNat) denominator
        else roundToEven numerator (denominator <<< (-scale).toNat))
    else packSubnormal negative (roundToEven (numerator <<< 16494) denominator)

def add (this other : F128) : F128 :=
  if this.isNaN ∨ other.isNaN then nan
  else if this.isInfinite ∨ other.isInfinite then
    if this.isInfinite ∧ other.isInfinite ∧ this.isNegative ≠ other.isNegative then nan
    else if this.isInfinite then this else other
  else if this.isZero ∧ other.isZero then zero (this.isNegative && other.isNegative)
  else
    let a := this.finiteRational
    let b := other.finiteRational
    let numerator := a.numerator * b.denominator + b.numerator * a.denominator
    let denominator := a.denominator * b.denominator
    fromRational numerator denominator false

def subtract (this other : F128) : F128 := this.add other.negate

def multiply (this other : F128) : F128 :=
  if this.isNaN ∨ other.isNaN ∨ (this.isInfinite ∧ other.isZero) ∨
      (this.isZero ∧ other.isInfinite) then nan
  else
    let negative := this.isNegative ^^ other.isNegative
    if this.isInfinite ∨ other.isInfinite then infinity negative
    else if this.isZero ∨ other.isZero then zero negative
    else
      let a := this.finiteRational
      let b := other.finiteRational
      fromRational (a.numerator * b.numerator) (a.denominator * b.denominator) negative

def divide (this other : F128) : F128 :=
  if this.isNaN ∨ other.isNaN ∨ (this.isInfinite ∧ other.isInfinite) ∨
      (this.isZero ∧ other.isZero) then nan
  else
    let negative := this.isNegative ^^ other.isNegative
    if this.isInfinite ∨ other.isZero then infinity negative
    else if this.isZero ∨ other.isInfinite then zero negative
    else
      let a := this.finiteRational
      let b := other.finiteRational
      fromRational (a.numerator * b.denominator) (a.denominator * b.numerator) negative

def fusedMultiplyAdd (this multiplicand addend : F128) : F128 :=
  if this.isNaN ∨ multiplicand.isNaN ∨ addend.isNaN ∨
      this.isInfinite ∨ multiplicand.isInfinite ∨ addend.isInfinite then
    (this.multiply multiplicand).add addend
  else if (this.isZero ∨ multiplicand.isZero) ∧ addend.isZero then
    (this.multiply multiplicand).add addend
  else
    let left := this.finiteRational
    let right := multiplicand.finiteRational
    let extra := addend.finiteRational
    let productDenominator := left.denominator * right.denominator
    let numerator := left.numerator * right.numerator * extra.denominator +
      extra.numerator * productDenominator
    fromRational numerator (productDenominator * extra.denominator) false

theorem to_bits_eq : this.toBits = this.high.toNat * 2 ^ 64 + this.low.toNat := by
  rw [toBits, Nat.shiftLeft_eq, Nat.mul_comm, or_eq_add_of_dvd 64 (Nat.dvd_mul_right _ _) this.low.isLt]

theorem fraction_eq : this.fraction = this.toBits % 2 ^ 112 :=
  Nat.and_two_pow_sub_one_eq_mod _ 112

theorem exponent_eq : this.exponent = this.toBits / 2 ^ 112 % 2 ^ 15 := by
  have mask : this.exponent = this.high.toNat / 2 ^ 48 % 2 ^ 15 := by
    rw [exponent, BitVec.toNat_and, lushr_value _ (by decide)]
    exact Nat.and_two_pow_sub_one_eq_mod _ 15
  rw [mask, to_bits_eq]
  omega

theorem is_negative_iff : this.isNegative = true ↔ 2 ^ 127 ≤ this.toBits := by
  rw [isNegative, BitVec.slt_iff_toInt_lt, BitVec.toInt_zero, BitVec.toInt_eq_toNat_cond, to_bits_eq]
  split_ifs <;> omega

theorem from_bits_to_bits {bits : Nat} (fits : bits < 2 ^ 128) : (fromBits bits).toBits = bits := by
  have masked : bits &&& mask128 = bits := by
    rw [show mask128 = 2 ^ 128 - 1 from rfl, Nat.and_two_pow_sub_one_eq_mod, Nat.mod_eq_of_lt fits]
  rw [to_bits_eq]
  simp only [fromBits, masked, BitVec.toNat_ofNat, Nat.shiftRight_eq_div_pow]
  omega

private theorem pack_bits
    (exponentFits : encodedExponent < 2 ^ 15) (significandFits : significand < 2 ^ 112) :
    (pack negative encodedExponent significand).toBits =
      (if negative then 2 ^ 127 else 0) + encodedExponent * 2 ^ 112 + significand := by
  have masked : significand &&& fractionMask = significand := by
    rw [show fractionMask = 2 ^ 112 - 1 from rfl, Nat.and_two_pow_sub_one_eq_mod,
      Nat.mod_eq_of_lt significandFits]
  have joined : encodedExponent <<< fractionBits ||| significand =
      encodedExponent * 2 ^ 112 + significand := by
    rw [show fractionBits = 112 from rfl, Nat.shiftLeft_eq,
      or_eq_add_of_dvd 112 (Nat.dvd_mul_left _ _) significandFits]
  have signed : (encodedExponent * 2 ^ 112 + significand) ||| 1 <<< 127 =
      2 ^ 127 + (encodedExponent * 2 ^ 112 + significand) := by
    rw [Nat.lor_comm, or_eq_add_of_dvd 127 (by decide) (by omega)]
    rfl
  simp only [pack, masked, joined, signed]
  cases negative
  · simp only [Bool.false_eq_true, if_false]
    rw [from_bits_to_bits (by omega)]
    omega
  · simp only [if_true]
    rw [from_bits_to_bits (by omega)]
    omega

structure HasFields (this : F128) (negative : Bool) (encodedExponent significand : Nat) : Prop where
  sign : this.isNegative = negative
  exponent : this.exponent = encodedExponent
  fraction : this.fraction = significand

theorem has_fields_of_bits {this : F128} {negative : Bool}
    (exponentFits : encodedExponent < 2 ^ 15) (significandFits : significand < 2 ^ 112)
    (bits : this.toBits =
      (if negative then 2 ^ 127 else 0) + encodedExponent * 2 ^ 112 + significand) :
    this.HasFields negative encodedExponent significand := by
  have sign := this.is_negative_iff
  refine ⟨?_, ?_, ?_⟩
  · rw [Bool.eq_iff_iff, sign, bits]
    cases negative <;> simp only [Bool.false_eq_true, if_false, if_true, iff_true, iff_false] <;>
      omega
  · rw [exponent_eq, bits]
    cases negative <;> simp only [Bool.false_eq_true, if_false, if_true] <;> omega
  · rw [fraction_eq, bits]
    cases negative <;> simp only [Bool.false_eq_true, if_false, if_true] <;> omega

theorem pack_fields
    (exponentFits : encodedExponent < 2 ^ 15) (significandFits : significand < 2 ^ 112) :
    (pack negative encodedExponent significand).HasFields negative encodedExponent significand :=
  has_fields_of_bits exponentFits significandFits
    (pack_bits negative exponentFits significandFits)

theorem zero_fields : (zero negative).HasFields negative 0 0 :=
  has_fields_of_bits (by decide) (by decide) (by cases negative <;> decide)

theorem infinity_fields : (infinity negative).HasFields negative maxExponent 0 :=
  has_fields_of_bits (by decide) (by decide) (by cases negative <;> decide)

private theorem flip_sign (word : JLong) :
    (word ^^^ 0x8000000000000000#64).toNat =
      if word.toNat < 2 ^ 63 then word.toNat + 2 ^ 63 else word.toNat - 2 ^ 63 := by
  have top : (word.toNat ^^^ 2 ^ 63) / 2 ^ 63 = word.toNat / 2 ^ 63 ^^^ 1 := Nat.xor_div_two_pow
  have rest : (word.toNat ^^^ 2 ^ 63) % 2 ^ 63 = word.toNat % 2 ^ 63 ^^^ 0 := Nat.xor_mod_two_pow
  rw [Nat.xor_zero] at rest
  change word.toNat ^^^ 2 ^ 63 = _
  split_ifs with small
  · rw [Nat.div_eq_of_lt small, Nat.zero_xor] at top
    omega
  · rw [show word.toNat / 2 ^ 63 = 1 by omega, Nat.xor_self] at top
    omega

theorem negate_fields :
    this.negate.HasFields (!this.isNegative) this.exponent this.fraction := by
  have sign := this.is_negative_iff
  have flipped := flip_sign this.high
  have bits := this.to_bits_eq
  have negated : this.negate.toBits = this.negate.high.toNat * 2 ^ 64 + this.low.toNat :=
    this.negate.to_bits_eq
  rw [show this.negate.high.toNat = _ from flipped] at negated
  apply has_fields_of_bits
  · rw [exponent_eq]
    omega
  · rw [fraction_eq]
    omega
  · rw [exponent_eq, fraction_eq, negated]
    cases negative : this.isNegative
    · rw [negative] at sign
      simp only [Bool.false_eq_true, false_iff] at sign
      simp only [Bool.not_false, if_true]
      split_ifs <;> omega
    · rw [negative] at sign
      simp only [true_iff] at sign
      simp only [Bool.not_true, Bool.false_eq_true, if_false]
      split_ifs <;> omega

end F128

end RustcCodegenJvm.Runtime
