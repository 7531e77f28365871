import RustcCodegenJvm.Lower2.Slots
import RustcCodegenJvm.Lower2.Emission

/-!
# Pre- and postconditions of emitted code

`Emission` follows code that leaves the world alone and says where it ends from
the stack and the locals it starts with. Code that allocates needs more: here a
step of the translator has a precondition and a postcondition over its table of
variables, the stack, the locals and the world. That a step only appends code
and pool entries is kept apart, since it does not depend on any machine.
-/

namespace RustcCodegenJvm.Lower2

open Jvm Oomir Library InternedConstantPool Translate StateExcept List

/-! ### Steps only append -/

/-- A step of code generation that keeps what is in the pool. -/
def PoolGrows {Result : Type} (step : Emit Result) : Prop :=
  ∀ before after result, step.run before = .ok (result, after) → after.Includes before

variable {step : Emit Instruction} (name : String)

namespace PoolGrows

variable {Result Next : Type}

@[grind ←] theorem pure (result : Result) : PoolGrows (Pure.pure result) := by
  intro before after _ ran
  obtain ⟨-, rfl⟩ := pure_ok ran
  exact InternedConstantPool.Includes.refl _

@[grind ←] theorem throw (error : JvmError) : PoolGrows (MonadExcept.throw error : Emit Result) :=
  fun _ _ _ ran => (throw_ok ran).elim

@[grind ←] theorem bind {step : Emit Result} {rest : Result → Emit Next} (head : PoolGrows step)
    (tail : ∀ result, PoolGrows (rest result)) : PoolGrows (step >>= rest) := by
  intro before after next ran
  obtain ⟨result, middle, first, second⟩ := bind_ok ran
  exact (tail result middle after next second).trans (head before middle result first)

@[grind ←] theorem add_key (key : ConstantKey) : PoolGrows (addKey key) :=
  fun _ _ _ ran => (add_key_spec ran).2

@[grind ←] theorem add_class : PoolGrows (addClass name) :=
  fun _ _ _ ran => (add_class_spec ran).2

@[grind ←] theorem add_method_ref (classIndex : Nat) (name descriptor : String) :
    PoolGrows (addMethodRef classIndex name descriptor) :=
  bind (fun _ _ _ ran => (add_name_and_type_spec ran).2) fun _ => add_key _

@[grind ←] theorem method_call (kind : InvokeKind) (owner name descriptor : String) :
    PoolGrows (methodCall kind owner name descriptor) := by
  grind [methodCall]

@[grind ←] theorem int_const (value : JInt) : PoolGrows (getIntConstInstr value) :=
  fun before after instruction ran => (int_const_emits_push value before after instruction ran).1

@[grind ←] theorem long_const (value : JLong) : PoolGrows (getLongConstInstr value) :=
  fun before after instruction ran => (long_const_emits_push value before after instruction ran).1

@[grind ←] theorem float_const (bits : BitVec 32) : PoolGrows (getFloatConstInstr bits) := by
  grind [getFloatConstInstr, addFloat]

@[grind ←] theorem double_const (bits : BitVec 64) : PoolGrows (getDoubleConstInstr bits) := by
  grind [getDoubleConstInstr, addDouble]

@[grind ←] theorem load_int (kind : IntTy) (bits : BitVec kind.width) : PoolGrows (loadInt kind bits) :=
  fun before after instruction ran => (load_int_emits_push kind bits before after instruction ran).1

theorem load_constant {constant : Constant}
    (found : loadConstant constant = some step) : PoolGrows step := by
  cases constant with
  | int | f16 | f32 | f64 | char | boolean =>
    cases found
    grind
  | _ => cases found

@[grind ←] theorem mask_byte : PoolGrows maskByte := by
  grind [maskByte]

@[grind ←] theorem numbers_call (name descriptor : String) : PoolGrows (numbersCall name descriptor) :=
  method_call _ _ _ _

variable (src dest : Ty)

@[grind ←] theorem word_to_word : PoolGrows (wordToWord src dest) := by
  unfold wordToWord integerToInteger integerToFloat floatToInteger
  repeat' split
  all_goals grind [noPath]

@[grind ←] theorem into_half : PoolGrows (intoHalf src dest) := by
  unfold intoHalf
  repeat' split
  all_goals grind [noPath]

@[grind ←] theorem primitive_to_primitive : PoolGrows (primitiveToPrimitive src dest) := by
  grind [primitiveToPrimitive]

theorem prim_to_wide (src : Ty) (destClass : String) : PoolGrows (primToWide src destClass) := by
  grind [primToWide]

theorem f128_to_prim (dest : Ty) : PoolGrows (f128ToPrim dest) := by
  unfold f128ToPrim
  split <;> grind [f128ToPrim.call]

theorem unboxed (dest : Ty) : PoolGrows (unbox dest) := by
  unfold unbox
  split <;> grind [unbox.call]

variable {emitted : Emit (List Instruction)}

theorem boxed_cast {src dest : Ty}
    (found : boxedCast src dest = some emitted) : PoolGrows emitted := by
  unfold boxedCast at found
  split at found
  · split_ifs at found
    · cases found
      exact prim_to_wide _ _
    · obtain ⟨boxed, -, rfl⟩ := Option.map_eq_some_iff.mp found
      grind
  · split_ifs at found
    · cases found
      exact f128_to_prim _
    · cases found
      grind [int128ToPrim]
    · cases found
      exact unboxed _
  · cases found

theorem reference_to_reference {src dest : Ty}
    (found : referenceToReference src dest = some emitted) : PoolGrows emitted := by
  unfold referenceToReference at found
  split at found
  · cases found
    grind
  · split at found
    · cases found
      grind
    · cases found

@[grind ←] theorem cast : PoolGrows (getCastInstructions src dest) := by
  have byReference : PoolGrows ((referenceToReference src dest).getD
      (Pure.pure (replaceByDefault src dest))) := by
    cases found : referenceToReference src dest with
    | some emitted => exact reference_to_reference found
    | none => exact pure _
  have byClass : ∀ srcClass destClass, src = .class srcClass → dest = .class destClass →
      PoolGrows (((wideToWide srcClass destClass).orElse fun _ => referenceToReference src dest).getD
        (Pure.pure (replaceByDefault src dest))) := by
    intro srcClass destClass isSrc isDest
    cases found : wideToWide srcClass destClass with
    | some emitted =>
      unfold wideToWide at found
      split_ifs at found
      all_goals
        cases found
        grind
    | none => exact byReference
  unfold getCastInstructions
  split_ifs
  · exact pure _
  · exact pure _
  · exact primitive_to_primitive _ _
  · split
    · exact boxed_cast ‹_›
    · split
      · exact byClass _ _ rfl rfl
      · exact byReference
  · split
    · exact boxed_cast ‹_›
    · exact pure _

end PoolGrows

/-- The later translator has all the code, constants and slots of the earlier one. -/
structure Translator.Extends (state later : Translator) : Prop where
  pool : later.constantPool.Includes state.constantPool
  code : ∃ instructions, later.jvmInstructions = state.jvmInstructions ++ instructions
  slots : state.locals.Extends later.locals

theorem Translator.Extends.refl (state : Translator) : state.Extends state :=
  ⟨InternedConstantPool.Includes.refl _, ⟨[], (append_nil _).symm⟩, LocalTable.Extends.refl _⟩

variable {state middle later : Translator}

theorem Translator.Extends.trans (head : state.Extends middle)
    (tail : middle.Extends later) : state.Extends later := by
  obtain ⟨first, firstAppended⟩ := head.code
  obtain ⟨second, secondAppended⟩ := tail.code
  refine ⟨tail.pool.trans head.pool, ⟨first ++ second, ?_⟩, head.slots.trans tail.slots⟩
  rw [secondAppended, firstAppended, append_assoc]

/-- A step of the translator that only appends. -/
def Grows {Result : Type} (action : Translate Result) : Prop :=
  ∀ state later result, action.run state = .ok (result, later) → state.Extends later

variable (dest : String) (ty : Ty) (operand : Operand) (op1 op2 : Operand)

namespace Grows

variable {Result Next : Type}

@[grind ←] theorem pure (result : Result) : Grows (Pure.pure result) := by
  intro state later _ ran
  obtain ⟨-, rfl⟩ := pure_ok ran
  exact Translator.Extends.refl _

@[grind ←] theorem throw (error : JvmError) : Grows (MonadExcept.throw error : Translate Result) :=
  fun _ _ _ ran => (throw_ok ran).elim

@[grind ←] theorem get : Grows (MonadState.get : Translate Translator) := by
  intro state later _ ran
  obtain ⟨-, rfl⟩ := get_ok ran
  exact Translator.Extends.refl _

@[grind ←] theorem bind {action : Translate Result} {rest : Result → Translate Next} (head : Grows action)
    (tail : ∀ result, Grows (rest result)) : Grows (action >>= rest) := by
  intro state later next ran
  obtain ⟨result, middle, first, second⟩ := bind_ok ran
  exact (head state middle result first).trans (tail result middle later next second)

@[grind ←] theorem push_all (instructions : List Instruction) : Grows (pushAll instructions) := by
  intro state later _ ran
  obtain rfl := modify_ok ran
  exact ⟨InternedConstantPool.Includes.refl _, ⟨instructions, rfl⟩, LocalTable.Extends.refl _⟩

@[grind ←] theorem push (instruction : Instruction) : Grows (Translate.push instruction) :=
  push_all [instruction]

@[grind ←] theorem pooled {step : Emit Result} (grows : PoolGrows step) : Grows (Translate.pooled step) := by
  intro state later result ran
  obtain ⟨pool, stepRan, rfl⟩ := pooled_ok ran
  exact ⟨grows _ _ _ stepRan, ⟨[], (append_nil _).symm⟩, LocalTable.Extends.refl _⟩

@[grind ←] theorem push_pooled (grows : PoolGrows step) : Grows (pushPooled step) :=
  bind (pooled grows) fun _ => push _

theorem assign_slot {ty : Ty} (valued : 0 < ty.size) : Grows (assignSlot name ty) := by
  intro state later index ran
  obtain ⟨-, rfl⟩ := assign_slot_ok ran
  exact ⟨InternedConstantPool.Includes.refl _, ⟨[], (append_nil _).symm⟩,
    LocalTable.get_or_assign_extends _ _ valued⟩

@[grind ←] theorem push_load (index : Nat) : Grows (pushLoad ty index) := by
  grind [pushLoad]

theorem load_assigned {rest : Unit → Translate Unit} (tail : ∀ done, Grows (rest done)) :
    Grows (do rest (← pushLoad ty (← assignSlot name ty))) := by
  cases isKind : localKind ty with
  | some kind =>
    exact bind (assign_slot name (width_of_kind isKind ▸ kind.width_pos)) fun _ =>
      bind (push_load _ _) tail
  | none =>
    intro state later result ran
    obtain ⟨index, between, -, loads⟩ := bind_ok ran
    obtain ⟨_, _, loaded, -⟩ := bind_ok loads
    rw [pushLoad, getLoadInstruction, isKind] at loaded
    exact (throw_ok loaded).elim

@[grind ←] theorem push_store (index : Nat) : Grows (pushStore ty index) := by
  grind [pushStore]

@[grind ←] theorem store_result : Grows (storeResult dest ty) := by
  unfold storeResult
  split
  · rename_i valued
    exact bind (assign_slot dest (LocalTable.size_pos_of_value valued)) fun _ => push_store ty _
  · exact pure ()

@[grind ←] theorem load_retyped (last : Option Ty) : Grows (loadRetyped name ty last) :=
  load_assigned _ _ fun _ => by grind

@[grind ←] theorem load_operand : Grows (loadOperand operand) := by
  unfold loadOperand
  split
  · split
    · rename_i found
      exact push_pooled (PoolGrows.load_constant found)
    · exact throw _
  · grind

@[grind ←] theorem load_operand_as (expected : Ty) : Grows (loadOperandAs operand expected) := by
  grind [loadOperandAs]

@[grind ←] theorem load_for_comparison (ty : Ty) : Grows (loadForComparison operand ty) := by
  grind [loadForComparison]

@[grind ←] theorem normalize : Grows (normalizeIntegerResult ty) := by
  unfold normalizeIntegerResult
  split <;> grind

@[grind ←] theorem mask_unsigned_byte : Grows (maskUnsignedByte ty) := by
  grind [maskUnsignedByte]

@[grind ←] theorem binary_op (jvmOp : Instruction) :
    Grows (translateBinaryOp dest op1 op2 jvmOp) := by
  grind [translateBinaryOp]

@[grind ←] theorem unsigned_div_rem (ty : Ty) (isRemainder : Bool) :
    Grows (translateUnsignedDivRem dest op1 op2 ty isRemainder) := by
  unfold translateUnsignedDivRem
  split <;> grind

@[grind ←] theorem materialize (condition : Condition) :
    Grows (materializeBooleanFromBranch dest condition) := by
  grind [materializeBooleanFromBranch, materializeAt]

@[grind ←] theorem comparison_op (op : ComparisonOp) :
    Grows (translateComparisonOp dest op1 op2 op) := by
  refine bind (load_for_comparison op1 _) fun _ => bind (mask_unsigned_byte _) fun _ =>
    bind (load_for_comparison op2 _) fun _ => bind (mask_unsigned_byte _) fun _ => ?_
  split <;> grind

end Grows

/-! ### Triples -/

def appendedCode (state later : Translator) : List Instruction :=
  later.jvmInstructions.drop state.jvmInstructions.length

/-- A condition on the variables of the translator and the state of the machine. -/
abbrev Assertion (World : Type) := LocalTable → List Value → Locals → World → Prop

/-- Wherever the appended code stands and the pool is known, it runs from its start to its end,
and takes every state with the precondition to one with the postcondition. -/
def Triple {World : Type} (env : Environment World) (pre : Assertion World)
    (action : Translate Unit) (post : Assertion World) : Prop :=
  ∀ state later, action.run state = .ok ((), later) → state.Extends later ∧
    (env.constants.Includes later.constantPool.pool → ∀ code stack locals world,
      code.Holds state.jvmInstructions.length (appendedCode state later) →
      pre state.locals stack locals world → ∃ stackAfter localsAfter worldAfter,
        Steps env code ⟨state.jvmInstructions.length, stack, locals, world⟩
          ⟨later.jvmInstructions.length, stackAfter, localsAfter, worldAfter⟩ ∧
        post later.locals stackAfter localsAfter worldAfter)

theorem appended_code_eq {state later : Translator} {instructions : List Instruction}
    (appended : later.jvmInstructions = state.jvmInstructions ++ instructions) :
    appendedCode state later = instructions := by
  rw [appendedCode, appended, drop_left]

theorem appended_code_trans (head : state.Extends middle) (tail : middle.Extends later) :
    appendedCode state later = appendedCode state middle ++ appendedCode middle later ∧
      middle.jvmInstructions.length =
        state.jvmInstructions.length + (appendedCode state middle).length := by
  obtain ⟨first, firstAppended⟩ := head.code
  obtain ⟨second, secondAppended⟩ := tail.code
  have both : later.jvmInstructions = state.jvmInstructions ++ (first ++ second) := by
    rw [secondAppended, firstAppended, append_assoc]
  rw [appended_code_eq both, appended_code_eq firstAppended, appended_code_eq secondAppended]
  exact ⟨rfl, by rw [firstAppended, length_append]⟩

variable {action : Translate Unit}

section Rules

variable {World : Type} {env : Environment World} {pre middle post : Assertion World}

theorem Triple.seq {first second : Translate Unit} (head : Triple env pre first middle)
    (tail : Triple env middle second post) :
    Triple env pre (first >>= fun _ => second) post := by
  intro state later ran
  obtain ⟨_, between, firstRan, secondRan⟩ := bind_ok ran
  obtain ⟨firstExtends, firstRuns⟩ := head state between firstRan
  obtain ⟨secondExtends, secondRuns⟩ := tail between later secondRan
  refine ⟨firstExtends.trans secondExtends, fun known code stack locals world holds holdsPre => ?_⟩
  obtain ⟨both, length⟩ := appended_code_trans firstExtends secondExtends
  rw [both] at holds
  have holdsSecond := holds.right
  rw [← length] at holdsSecond
  have knownFirst := ConstantPool.Includes.trans known secondExtends.pool
  obtain ⟨stackBetween, localsBetween, worldBetween, firstSteps, holdsMiddle⟩ :=
    firstRuns knownFirst code stack locals world holds.left holdsPre
  obtain ⟨stackAfter, localsAfter, worldAfter, secondSteps, holdsPost⟩ :=
    secondRuns known code stackBetween localsBetween worldBetween holdsSecond holdsMiddle
  exact ⟨stackAfter, localsAfter, worldAfter, firstSteps.trans secondSteps, holdsPost⟩

theorem Triple.consequence {stronger weaker : Assertion World} (triple : Triple env pre action post)
    (before : ∀ table stack locals world, stronger table stack locals world →
      pre table stack locals world)
    (after : ∀ table stack locals world, post table stack locals world →
      weaker table stack locals world) : Triple env stronger action weaker := by
  intro state later ran
  obtain ⟨extended, runs⟩ := triple state later ran
  refine ⟨extended, fun known code stack locals world holds holdsPre => ?_⟩
  obtain ⟨stackAfter, localsAfter, worldAfter, steps, holdsPost⟩ :=
    runs known code stack locals world holds (before _ _ _ _ holdsPre)
  exact ⟨stackAfter, localsAfter, worldAfter, steps, after _ _ _ _ holdsPost⟩

theorem Triple.nothing : Triple env pre (pure ()) pre := by
  intro state later ran
  obtain ⟨-, rfl⟩ := pure_ok ran
  exact ⟨Translator.Extends.refl _, fun _ _ stack locals world _ holdsPre =>
    ⟨stack, locals, world, .refl, holdsPre⟩⟩

def At (table : LocalTable) (stack : List Value) (locals : Locals) (world : World) : Assertion World :=
  fun otherTable otherStack otherLocals otherWorld =>
    otherTable = table ∧ otherStack = stack ∧ otherLocals = locals ∧ otherWorld = world

theorem Triple.of_each (grows : Grows action)
    (each : ∀ table stack locals world, pre table stack locals world →
      Triple env (At table stack locals world) action post) : Triple env pre action post := by
  intro state later ran
  refine ⟨grows state later () ran, fun known code stack locals world holds holdsPre => ?_⟩
  exact (each _ _ _ _ holdsPre state later ran).2 known code stack locals world holds
    ⟨rfl, rfl, rfl, rfl⟩

theorem Triple.instruction {instruction : Instruction}
    (moves : ∀ table stack locals world, pre table stack locals world → ∃ stackAfter worldAfter,
      (∀ code pc, execute env code ⟨pc, stack, locals, world⟩ instruction =
        .running ⟨pc + 1, stackAfter, locals, worldAfter⟩) ∧
      post table stackAfter locals worldAfter) :
    Triple env pre (Translate.push instruction) post := by
  intro state later ran
  refine ⟨Grows.push instruction state later () ran, fun known code stack locals world holds holdsPre => ?_⟩
  obtain rfl := modify_ok ran
  obtain ⟨stackAfter, worldAfter, moved, holdsPost⟩ := moves state.locals stack locals world holdsPre
  refine ⟨stackAfter, locals, worldAfter, ?_, holdsPost⟩
  rw [appended_code_eq rfl] at holds
  have present := holds 0 instruction rfl
  rw [Nat.add_zero] at present
  have stepped : Jvm.step env code ⟨state.jvmInstructions.length, stack, locals, world⟩ =
      .running ⟨state.jvmInstructions.length + 1, stackAfter, locals, worldAfter⟩ := by
    simp only [Jvm.step, present]
    exact moved code _
  rw [length_append]
  exact Relation.ReflTransGen.single stepped

/-- A step on the pool, and what follows it on a machine that knows the pool. -/
theorem Triple.with_pool {Result : Type} {step : Emit Result} {rest : Result → Translate Unit}
    (grows : PoolGrows step) (growsRest : ∀ result, Grows (rest result))
    (tail : ∀ before after result, step.run before = .ok (result, after) →
      env.constants.Includes after.pool → Triple env pre (rest result) post) :
    Triple env pre (pooled step >>= rest) post := by
  intro state later ran
  refine ⟨Grows.bind (Grows.pooled grows) growsRest state later () ran, ?_⟩
  intro known code stack locals world holds holdsPre
  obtain ⟨result, between, pooledRan, restRan⟩ := bind_ok ran
  obtain ⟨pool, stepRan, rfl⟩ := pooled_ok pooledRan
  have knownPool : env.constants.Includes pool.pool :=
    ConstantPool.Includes.trans known (growsRest result _ later () restRan).pool
  exact (tail _ _ _ stepRan knownPool _ later restRan).2 known code stack locals world holds holdsPre

theorem Triple.push_pooled (grows : PoolGrows step)
    (moves : ∀ before after instruction, step.run before = .ok (instruction, after) →
      env.constants.Includes after.pool → ∀ table stack locals world,
        pre table stack locals world → ∃ stackAfter worldAfter,
          (∀ code pc, execute env code ⟨pc, stack, locals, world⟩ instruction =
            .running ⟨pc + 1, stackAfter, locals, worldAfter⟩) ∧
          post table stackAfter locals worldAfter) : Triple env pre (pushPooled step) post :=
  Triple.with_pool grows (fun _ => Grows.push _) fun before after instruction ran known =>
    Triple.instruction (moves before after instruction ran known)

theorem steps_cons {code : Code} {base : Nat} {instruction : Instruction} {rest : List Instruction}
    {stack stackAfter : List Value} {locals localsAfter : Locals} {world worldAfter : World}
    {final : Frame World} (holds : code.Holds base (instruction :: rest))
    (moves : execute env code ⟨base, stack, locals, world⟩ instruction =
      .running ⟨base + 1, stackAfter, localsAfter, worldAfter⟩) (runs : code.Holds (base + 1) rest →
      Steps env code ⟨base + 1, stackAfter, localsAfter, worldAfter⟩ final) :
    Steps env code ⟨base, stack, locals, world⟩ final := by
  have present := holds 0 instruction rfl
  rw [Nat.add_zero] at present
  have split : code.Holds base ([instruction] ++ rest) := holds
  have stepped : Jvm.step env code ⟨base, stack, locals, world⟩ =
      .running ⟨base + 1, stackAfter, localsAfter, worldAfter⟩ := by
    simp only [Jvm.step, present]
    exact moves
  exact .head stepped (runs split.right)

theorem Triple.push_all_pooled {emission : Emit (List Instruction)} (grows : PoolGrows emission)
    (moves : ∀ before after instructions, emission.run before = .ok (instructions, after) →
      env.constants.Includes after.pool → ∀ table stack locals world,
        pre table stack locals world → ∃ stackAfter localsAfter worldAfter,
          (∀ code base, code.Holds base instructions → Steps env code ⟨base, stack, locals, world⟩
              ⟨base + instructions.length, stackAfter, localsAfter, worldAfter⟩) ∧
          post table stackAfter localsAfter worldAfter) :
    Triple env pre (do pushAll (← pooled emission)) post := by
  intro state later ran
  refine ⟨Grows.bind (Grows.pooled grows) (fun _ => Grows.push_all _) state later () ran, ?_⟩
  intro known code stack locals world holds holdsPre
  obtain ⟨instructions, between, pooledRan, pushed⟩ := bind_ok ran
  obtain rfl := modify_ok pushed
  obtain ⟨pool, emitted, rfl⟩ := pooled_ok pooledRan
  obtain ⟨stackAfter, localsAfter, worldAfter, moved, holdsPost⟩ :=
    moves _ _ _ emitted known state.locals stack locals world holdsPre
  have appended : appendedCode state { state with
      constantPool := pool, jvmInstructions := state.jvmInstructions ++ instructions } =
        instructions := appended_code_eq rfl
  rw [appended] at holds
  refine ⟨stackAfter, localsAfter, worldAfter, ?_, holdsPost⟩
  rw [length_append]
  exact moved code _ holds

theorem Triple.call {kind : InvokeKind} {owner name descriptor : String}
    (outcome : ∀ index, env.constants.memberAt index = some ⟨owner, name, descriptor⟩ →
      ∀ table stack locals world, pre table stack locals world → ∃ stackAfter worldAfter,
        env.perform (.invoke kind index) stack world = .completes stackAfter worldAfter ∧
          post table stackAfter locals worldAfter) :
    Triple env pre (pushPooled (methodCall kind owner name descriptor)) post := by
  refine Triple.push_pooled (PoolGrows.method_call _ _ _ _) ?_
  intro before after instruction ran known table stack locals world holdsPre
  obtain ⟨classIndex, classed, addedClass, rest⟩ := bind_ok ran
  obtain ⟨methodIndex, referred, addedMethod, returned⟩ := bind_ok rest
  obtain ⟨rfl, rfl⟩ := pure_ok returned
  obtain ⟨classAt, -⟩ := add_class_spec addedClass
  obtain ⟨memberAt, -⟩ := add_method_ref_spec classAt addedMethod
  obtain ⟨stackAfter, worldAfter, performed, holdsPost⟩ :=
    outcome methodIndex (known.member_at memberAt) table stack locals world holdsPre
  refine ⟨stackAfter, worldAfter, fun code pc => ?_, holdsPost⟩
  change performExternal env code _ _ = _
  simp only [performExternal, performed]

/-- A step whose code leaves the world alone, described from each state it starts in. -/
theorem Triple.of_emitted (library : JavaLibrary env) (grows : Grows action)
    (emitted : ∀ state later, action.run state = .ok ((), later) → ∀ stack locals world,
      pre state.locals stack locals world → ∃ stackAfter localsAfter,
        Emitted state later (stack, locals) (stackAfter, localsAfter) ∧
          post later.locals stackAfter localsAfter world) : Triple env pre action post := by
  intro state later ran
  refine ⟨grows state later () ran, fun known code stack locals world holds holdsPre => ?_⟩
  obtain ⟨stackAfter, localsAfter, emitted, holdsPost⟩ :=
    emitted state later ran stack locals world holdsPre
  obtain ⟨instructions, appended, runs⟩ := emitted.appended
  rw [appended_code_eq appended] at holds
  refine ⟨stackAfter, localsAfter, world, ?_, holdsPost⟩
  rw [appended, length_append]
  exact runs env library known code world holds

end Rules

end RustcCodegenJvm.Lower2
