import RustcCodegenJvm.Lower2.ConstantPool
import RustcCodegenJvm.Jvm.Machine
import RustcCodegenJvm.Oomir.Constant

/-!
# Loading scalar constants

`lower2/consts.rs` chooses the shortest instruction that pushes a constant and
puts what no immediate form can hold into the pool. The value an integer,
boolean or character constant has on the JVM stack is called its encoding: a
`u8` is carried in a signed byte, a `u16` in a `char`, `u32` and `u64` in an
`int` and a `long` of the same bits.
-/

namespace RustcCodegenJvm.Lower2

open Jvm Oomir InternedConstantPool

def iconstOf (value : Int) : Option IconstValue :=
  if value = -1 then some .m1
  else if value = 0 then some .zero
  else if value = 1 then some .one
  else if value = 2 then some .two
  else if value = 3 then some .three
  else if value = 4 then some .four
  else if value = 5 then some .five
  else none

def immediateIntConstInstr (value : JInt) : Option Instruction :=
  match iconstOf value.toInt with
  | some small => some (.iconst small)
  | none =>
    if -128 ≤ value.toInt ∧ value.toInt ≤ 127 then some (.bipush (value.setWidth 8))
    else if -32768 ≤ value.toInt ∧ value.toInt ≤ 32767 then some (.sipush (value.setWidth 16))
    else none

/-- `Ldc` when the index fits a byte. -/
def ldcForm (index : Nat) : Instruction :=
  if index ≤ 255 then .ldc index else .ldcW index

def getIntConstInstr (value : JInt) : Emit Instruction :=
  match immediateIntConstInstr value with
  | some instruction => pure instruction
  | none => do return ldcForm (← addInteger value)

def getLongConstInstr (value : JLong) : Emit Instruction :=
  if value = 0 then pure (.lconst 0)
  else if value = 1 then pure (.lconst 1)
  else do return .ldc2W (← addLong value)

def getFloatConstInstr (bits : BitVec 32) : Emit Instruction :=
  if bits = fconstBits 0 then pure (.fconst 0)
  else if bits = fconstBits 1 then pure (.fconst 1)
  else if bits = fconstBits 2 then pure (.fconst 2)
  else do return .ldcW (← addFloat bits)

def getDoubleConstInstr (bits : BitVec 64) : Emit Instruction :=
  if bits = dconstBits 0 then pure (.dconst 0)
  else if bits = dconstBits 1 then pure (.dconst 1)
  else do return .ldc2W (← addDouble bits)

def encodeInt (kind : IntTy) (bits : BitVec kind.width) : Value :=
  match kind, bits with
  | .i8, bits | .u8, bits => .int (bits.signExtend 32)
  | .i16, bits => .int (bits.signExtend 32)
  | .u16, bits => .int (bits.setWidth 32)
  | .i32, bits | .u32, bits => .int bits
  | .i64, bits | .u64, bits => .long bits

def encode : Constant → Option Value
  | .int kind bits => some (encodeInt kind bits)
  | .f16 bits => some (.int (bits.signExtend 32))
  | .f32 bits => some (.float bits)
  | .f64 bits => some (.double bits)
  | .boolean value => some (.int (if value then 1 else 0))
  | .char value => some (.int (BitVec.ofNat 32 value.toNat))
  | _ => none

def loadInt (kind : IntTy) (bits : BitVec kind.width) : Emit Instruction :=
  match kind, bits with
  | .i8, bits | .u8, bits => getIntConstInstr (bits.signExtend 32)
  | .i16, bits => getIntConstInstr (bits.signExtend 32)
  | .u16, bits => getIntConstInstr (bits.setWidth 32)
  | .i32, bits | .u32, bits => getIntConstInstr bits
  | .i64, bits | .u64, bits => getLongConstInstr bits

/-- The arms of `load_constant` for scalars, which are one instruction each. -/
def loadConstant : Constant → Option (Emit Instruction)
  | .int kind bits => some (loadInt kind bits)
  | .f16 bits => some (getIntConstInstr (bits.signExtend 32))
  | .f32 bits => some (getFloatConstInstr bits)
  | .f64 bits => some (getDoubleConstInstr bits)
  | .boolean value => some (pure (.iconst (if value then .one else .zero)))
  | .char value => some (getIntConstInstr (BitVec.ofNat 32 value.toNat))
  | _ => none

section Pushes

variable {World : Type} {env : Environment World}

def Pushes (env : Environment World) (instruction : Instruction) (value : Value) : Prop :=
  ∀ (code : Code) (frame : Frame World),
    execute env code frame instruction =
      .running { frame with pc := frame.pc + 1, stack := value :: frame.stack }

/-- A step that emits an instruction for a value: it only grows the pool, and the
instruction pushes the value wherever the pool is known. -/
def EmitsPush (step : Emit Instruction) (value : Value) : Prop :=
  ∀ (before after : InternedConstantPool) (instruction : Instruction),
    step.run before = .ok (instruction, after) →
      after.Includes before ∧
        ∀ {World : Type} (env : Environment World),
          env.constants.Includes after.pool → Pushes env instruction value

theorem iconst_of_value {value : Int} {small : IconstValue} (found : iconstOf value = some small) :
    small.value.toInt = value := by
  unfold iconstOf at found
  split_ifs at found <;> cases found <;> subst value <;> decide

variable {value : Value} {World : Type}

theorem pure_emits_push {instruction : Instruction}
    (pushes : ∀ {World : Type} (env : Environment World), Pushes env instruction value) :
    EmitsPush (pure instruction) value := by
  intro before after emitted ran
  obtain ⟨rfl, rfl⟩ := Library.StateExcept.pure_ok ran
  exact ⟨InternedConstantPool.Includes.refl _, fun env _ => pushes env⟩

theorem pooled_emits_push {key : ConstantKey} {form : Nat → Instruction}
    (numeric : key.value = some value)
    (loads : ∀ {World : Type} (env : Environment World) (code : Code) (frame : Frame World) index,
      loadPooled env.constants index frame.stack = .done (value :: frame.stack) →
        execute env code frame (form index) =
          .running { frame with pc := frame.pc + 1, stack := value :: frame.stack }) :
    EmitsPush (do return form (← addKey key)) value := by
  intro before after emitted ran
  obtain ⟨index, middle, added, returned⟩ := Library.StateExcept.bind_ok ran
  obtain ⟨rfl, rfl⟩ := Library.StateExcept.pure_ok returned
  obtain ⟨present, grows⟩ := add_key_spec added
  refine ⟨grows, fun env known code frame => loads env code frame index ?_⟩
  simp [loadPooled, known _ _ present, numeric]

theorem execute_ldc (env : Environment World) (code : Code) (frame : Frame World) (index : Nat)
    (loaded : loadPooled env.constants index frame.stack = .done (value :: frame.stack)) :
    execute env code frame (ldcForm index) =
      .running { frame with pc := frame.pc + 1, stack := value :: frame.stack } := by
  unfold ldcForm
  split
  · exact execute_done env code frame rfl loaded
  · exact execute_done env code frame rfl loaded

theorem execute_ldc2 (env : Environment World) (code : Code) (frame : Frame World) (index : Nat)
    (loaded : loadPooled env.constants index frame.stack = .done (value :: frame.stack)) :
    execute env code frame (.ldc2W index) =
      .running { frame with pc := frame.pc + 1, stack := value :: frame.stack } :=
  execute_done env code frame rfl loaded

theorem truncate_extend {narrow : Nat} (positive : 0 < narrow) (bound : narrow ≤ 32) (value : JInt)
    (low : -2 ^ (narrow - 1) ≤ value.toInt) (high : value.toInt < 2 ^ (narrow - 1)) :
    (value.setWidth narrow).signExtend 32 = value := by
  apply BitVec.eq_of_toInt_eq
  have half : 2 ^ narrow = 2 * 2 ^ (narrow - 1) := by
    rw [← pow_succ', Nat.sub_add_cancel positive]
  have divides : 2 ^ narrow ∣ 2 ^ 32 := pow_dvd_pow 2 bound
  rw [BitVec.toInt_signExtend_of_le bound, BitVec.toInt_setWidth,
    ← Int.bmod_bmod_of_dvd divides, ← BitVec.toInt_eq_toNat_bmod]
  have cast : (2 : Int) ^ (narrow - 1) = (2 ^ (narrow - 1) : Nat) := by push_cast; rfl
  apply Int.bmod_eq_of_le <;> omega

theorem immediate_pushes {value : JInt} {instruction : Instruction}
    (found : immediateIntConstInstr value = some instruction)
    (env : Environment World) : Pushes env instruction (.int value) := by
  intro code frame
  unfold immediateIntConstInstr at found
  split at found
  · rename_i small chosen
    cases found
    have same : small.value = value := BitVec.eq_of_toInt_eq (iconst_of_value chosen)
    exact execute_done env code frame rfl (by rw [← same]; rfl)
  · split_ifs at found with byte short
    · cases found
      have same : (value.setWidth 8).signExtend 32 = value :=
        truncate_extend (by decide) (by decide) value (by omega) (by omega)
      exact execute_done env code frame rfl (by change StackEffect.done _ = _; rw [same])
    · cases found
      have same : (value.setWidth 16).signExtend 32 = value :=
        truncate_extend (by decide) (by decide) value (by omega) (by omega)
      exact execute_done env code frame rfl (by change StackEffect.done _ = _; rw [same])

end Pushes

theorem int_const_emits_push (value : JInt) : EmitsPush (getIntConstInstr value) (.int value) := by
  unfold getIntConstInstr
  cases found : immediateIntConstInstr value with
  | some instruction => exact pure_emits_push (immediate_pushes found)
  | none => exact pooled_emits_push rfl fun env code frame index => execute_ldc env code frame index

theorem long_const_emits_push (value : JLong) :
    EmitsPush (getLongConstInstr value) (.long value) := by
  unfold getLongConstInstr
  split_ifs with zero one
  · exact pure_emits_push fun env code frame => execute_done env code frame rfl (by rw [zero]; rfl)
  · exact pure_emits_push fun env code frame => execute_done env code frame rfl (by rw [one]; rfl)
  · exact pooled_emits_push rfl fun env code frame index => execute_ldc2 env code frame index

theorem load_int_emits_push (kind : IntTy) (bits : BitVec kind.width) :
    EmitsPush (loadInt kind bits) (encodeInt kind bits) := by
  cases kind <;> first | exact int_const_emits_push _ | exact long_const_emits_push _

end RustcCodegenJvm.Lower2
