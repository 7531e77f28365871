import RustcCodegenJvm.Lower2.Translator

/-!
# What emitted code does

Rules that follow the translator step by step. A step is described by the
operand stack and the locals before and after the code it appends, wherever the
finished pool includes the entries it added. The Java library methods that
stand for unsigned arithmetic are assumed to do what their documentation says.
-/

namespace RustcCodegenJvm.Lower2

open Jvm Oomir Library InternedConstantPool Translate StateExcept

structure JavaLibrary {World : Type} (env : Environment World) : Prop where
  integerDivRem : ∀ index left right rest world isRemainder, right ≠ 0 →
    env.constants.memberAt index =
      some ⟨"java/lang/Integer", unsignedDivRemMethod isRemainder, "(II)I"⟩ →
    env.perform (.invoke .static index) (.int right :: .int left :: rest) world =
      .completes (.int (if isRemainder then left % right else left / right) :: rest) world
  longDivRem : ∀ index left right rest world isRemainder, right ≠ 0 →
    env.constants.memberAt index =
      some ⟨"java/lang/Long", unsignedDivRemMethod isRemainder, "(JJ)J"⟩ →
    env.perform (.invoke .static index) (.long right :: .long left :: rest) world =
      .completes (.long (if isRemainder then left % right else left / right) :: rest) world
  integerCompare : ∀ index left right rest world,
    env.constants.memberAt index = some ⟨"java/lang/Integer", "compareUnsigned", "(II)I"⟩ →
    env.perform (.invoke .static index) (.int right :: .int left :: rest) world =
      .completes (.int (compareUnsigned left right) :: rest) world
  longCompare : ∀ index left right rest world,
    env.constants.memberAt index = some ⟨"java/lang/Long", "compareUnsigned", "(JJ)I"⟩ →
    env.perform (.invoke .static index) (.long right :: .long left :: rest) world =
      .completes (.int (compareUnsigned left right) :: rest) world

structure Emitted (state later : Translator) (before after : List Value × Locals) : Prop where
  grows : later.constantPool.Includes state.constantPool
  appended : ∃ instructions, later.jvmInstructions = state.jvmInstructions ++ instructions ∧
    ∀ {World : Type} (env : Environment World), JavaLibrary env →
      env.constants.Includes later.constantPool.pool →
        Executes env state.jvmInstructions.length instructions before after

theorem Emitted.refl (state : Translator) (before : List Value × Locals) :
    Emitted state state before before where
  grows := InternedConstantPool.Includes.refl _
  appended := ⟨[], (List.append_nil _).symm, fun _ _ _ => Executes.nil _ _⟩

theorem Emitted.trans {state middle later : Translator} {before between after : List Value × Locals}
    (head : Emitted state middle before between) (tail : Emitted middle later between after) :
    Emitted state later before after := by
  obtain ⟨first, firstAppended, firstRuns⟩ := head.appended
  obtain ⟨second, secondAppended, secondRuns⟩ := tail.appended
  refine ⟨tail.grows.trans head.grows, first ++ second, ?_, ?_⟩
  · rw [secondAppended, firstAppended, List.append_assoc]
  · intro World env library known
    have headRuns := firstRuns env library (ConstantPool.Includes.trans known tail.grows)
    have tailRuns := secondRuns env library known
    rw [firstAppended, List.length_append] at tailRuns
    exact headRuns.append tailRuns

/-- A step that keeps the local table. -/
def Emits (table : LocalTable) (action : Translate Unit) (before after : List Value × Locals) :
    Prop :=
  ∀ state later, state.locals = table → action.run state = .ok ((), later) →
    later.locals = table ∧ Emitted state later before after

/-- A step that ends by putting a value into the variable's slot. -/
def Computes (table : LocalTable) (action : Translate Unit) (dest : String) (ty : Ty)
    (before : List Value × Locals) (stack : List Value) (value : Value) : Prop :=
  ∀ state later, state.locals = table → action.run state = .ok ((), later) →
    ∃ slot locals, later.locals.getTypedLocalIndex dest ty = some slot ∧
      locals slot = some value ∧ Emitted state later before (stack, locals)

/-- A step that ends by storing a value into the variable's slot, and nothing else after it. -/
def Assigns (table : LocalTable) (action : Translate Unit) (dest : String) (ty : Ty)
    (before : List Value × Locals) (stack : List Value) (locals : Locals) (value : Value) : Prop :=
  ∀ state later, state.locals = table → action.run state = .ok ((), later) →
    later.locals = (table.getOrAssignLocal dest ty).2 ∧
      Emitted state later before (stack, locals.write (table.getOrAssignLocal dest ty).1 value)

variable {dest name : String}

section Rules

variable {table : LocalTable} {before between after : List Value × Locals}

theorem Emits.nothing : Emits table (pure ()) before before := by
  intro state later same ran
  obtain ⟨-, rfl⟩ := pure_ok ran
  exact ⟨same, Emitted.refl _ _⟩

variable {first second : Translate Unit}

theorem Emits.seq (head : Emits table first before between)
    (tail : Emits table second between after) :
    Emits table (first >>= fun _ => second) before after := by
  intro state later same ran
  obtain ⟨_, middle, firstRan, secondRan⟩ := bind_ok ran
  obtain ⟨middleSame, headEmitted⟩ := head state middle same firstRan
  obtain ⟨laterSame, tailEmitted⟩ := tail middle later middleSame secondRan
  exact ⟨laterSame, headEmitted.trans tailEmitted⟩

variable {stack : List Value} {locals : Locals} {value : Value} {state : Translator}
  {instruction : Instruction}

theorem Emits.assigns {ty : Ty} (head : Emits table first before between)
    (tail : Assigns table second dest ty between stack locals value) :
    Assigns table (first >>= fun _ => second) dest ty before stack locals value := by
  intro state later same ran
  obtain ⟨_, middle, firstRan, secondRan⟩ := bind_ok ran
  obtain ⟨middleSame, headEmitted⟩ := head state middle same firstRan
  obtain ⟨laterSame, tailEmitted⟩ := tail middle later middleSame secondRan
  exact ⟨laterSame, headEmitted.trans tailEmitted⟩

theorem Assigns.computes {action : Translate Unit} {ty : Ty}
    (assigns : Assigns table action dest ty before stack locals value) :
    Computes table action dest ty before stack value := by
  intro state later same ran
  obtain ⟨laterSame, emitted⟩ := assigns state later same ran
  refine ⟨_, _, ?_, if_pos rfl, emitted⟩
  rw [laterSame]
  exact LocalTable.get_or_assign_local_typed table dest ty

theorem emitted_push_all {instructions : List Instruction}
    (runs : ∀ {World : Type} (env : Environment World), JavaLibrary env →
      env.constants.Includes state.constantPool.pool →
        Executes env state.jvmInstructions.length instructions before after) :
    Emitted state { state with jvmInstructions := state.jvmInstructions ++ instructions }
      before after where
  grows := InternedConstantPool.Includes.refl _
  appended := ⟨instructions, rfl, runs⟩

theorem emitted_push (moves : ∀ {World : Type} (env : Environment World), JavaLibrary env →
      env.constants.Includes state.constantPool.pool → ∀ (code : Code) (world : World) pc,
        execute env code ⟨pc, before.1, before.2, world⟩ instruction =
          .running ⟨pc + 1, after.1, after.2, world⟩) :
    Emitted state { state with jvmInstructions := state.jvmInstructions ++ [instruction] }
      before after :=
  emitted_push_all fun env library known =>
    Executes.single fun code world => moves env library known code world _

theorem Emits.push
    (moves : ∀ {World : Type} (env : Environment World) (code : Code) (world : World) pc,
      execute env code ⟨pc, before.1, before.2, world⟩ instruction =
        .running ⟨pc + 1, after.1, after.2, world⟩) :
    Emits table (push instruction) before after := by
  intro state later same ran
  obtain rfl := modify_ok ran
  exact ⟨same, emitted_push fun env _ _ => moves env⟩

theorem Emits.plain {result : List Value} (plain : instruction.isPlain = true)
    (effect : ∀ pool, stackEffect pool instruction stack = .done result) :
    Emits table (Translate.push instruction) (stack, locals) (result, locals) :=
  Emits.push fun env code _ _ => execute_done env code _ plain (effect env.constants)

theorem pooled_ok {Result : Type} {step : Emit Result} {later : Translator} {result : Result}
    (ran : (pooled step).run state = .ok (result, later)) :
    ∃ pool, step.run state.constantPool = .ok (result, pool) ∧
      later = { state with constantPool := pool } := by
  simp only [pooled, StateT.run] at ran
  split at ran
  · rename_i pool stepRan
    cases ran
    exact ⟨pool, stepRan, rfl⟩
  · cases ran

theorem Emits.push_pooled {step : Emit Instruction}
    (spec : ∀ pool later instruction, step.run pool = .ok (instruction, later) →
      later.Includes pool ∧ ∀ {World : Type} (env : Environment World), JavaLibrary env →
        env.constants.Includes later.pool → ∀ (code : Code) (world : World) pc,
          execute env code ⟨pc, before.1, before.2, world⟩ instruction =
            .running ⟨pc + 1, after.1, after.2, world⟩) :
    Emits table (pushPooled step) before after := by
  intro state later same ran
  obtain ⟨instruction, middle, pooledRan, pushed⟩ := bind_ok ran
  obtain rfl := modify_ok pushed
  obtain ⟨pool, stepRan, rfl⟩ := pooled_ok pooledRan
  obtain ⟨grows, moves⟩ := spec _ _ _ stepRan
  have pushedOnly : Emitted { state with constantPool := pool } _ before after := emitted_push moves
  exact ⟨same, grows, pushedOnly.appended⟩

theorem Emits.load_constant {step : Emit Instruction} (pushes : EmitsPush step value) :
    Emits table (pushPooled step) (stack, locals) (value :: stack, locals) :=
  Emits.push_pooled fun pool later instruction ran => by
    obtain ⟨grows, pushed⟩ := pushes pool later instruction ran
    exact ⟨grows, fun env _ known code _ _ => pushed env known code _⟩

theorem Emits.static_call {owner descriptor : String} {result : List Value}
    (outcome : ∀ {World : Type} (env : Environment World), JavaLibrary env → ∀ index,
      env.constants.memberAt index = some ⟨owner, name, descriptor⟩ → ∀ world : World,
        env.perform (.invoke .static index) stack world = .completes result world) :
    Emits table (pushPooled (methodCall .static owner name descriptor)) (stack, locals)
      (result, locals) :=
  Emits.push_pooled fun pool later instruction ran => by
    obtain ⟨classIndex, classed, addedClass, rest⟩ := bind_ok ran
    obtain ⟨methodIndex, referred, addedMethod, returned⟩ := bind_ok rest
    obtain ⟨rfl, rfl⟩ := pure_ok returned
    obtain ⟨classAt, classGrows⟩ := add_class_spec addedClass
    obtain ⟨memberAt, memberGrows⟩ := add_method_ref_spec classAt addedMethod
    refine ⟨memberGrows.trans classGrows, fun env library known code world _ => ?_⟩
    have performed := outcome env library methodIndex (known.member_at memberAt) world
    rw [execute_plain env code _ rfl]
    change performExternal env code _ _ = _
    simp only [performExternal, performed]

end Rules

/-! ### Operands and results -/

/-- The operand stands for the constant: it is that constant, or a variable whose
slot holds the constant's encoding. -/
inductive OperandHolds (table : LocalTable) (locals : Locals) : Operand → Constant → Prop
  | literal (value : Constant) : OperandHolds table locals (.constant value) value
  | named (name : String) (value : Constant) (slot : Nat) (encoded : Value)
      (known : table.getTypedLocalIndex name (Ty.fromConstant value) = some slot)
      (encodes : encode value = some encoded) (held : locals slot = some encoded) :
      OperandHolds table locals (.variable name (Ty.fromConstant value)) value

variable {operand : Operand} {ty : Ty} {value : Value}

theorem OperandHolds.type {table : LocalTable} {locals : Locals}
    {value : Constant} (holds : OperandHolds table locals operand value) :
    operand.getType = Ty.fromConstant value := by
  cases holds <;> rfl

theorem OperandHolds.slot {table : LocalTable} {locals : Locals}
    {value : Constant} (holds : OperandHolds table locals (.variable name ty) value) :
    ∃ slot encoded, table.getTypedLocalIndex name (Ty.fromConstant value) = some slot ∧
      encode value = some encoded ∧ locals slot = some encoded := by
  cases holds with
  | named _ _ slot encoded known encodes held => exact ⟨slot, encoded, known, encodes, held⟩

theorem encode_int_kind (kind : IntTy) (bits : BitVec kind.width) :
    localKind (.int kind) = some (encodeInt kind bits).kind := by
  cases kind <;> rfl

variable {table : LocalTable} {stack : List Value} {locals : Locals}

/-- A constant that is loaded by one instruction, with the value it pushes. -/
structure IsScalar (constant : Constant) (encoded : Value) : Prop where
  encodes : encode constant = some encoded
  loads : ∃ step, loadConstant constant = some step ∧ EmitsPush step encoded
  kind : localKind (Ty.fromConstant constant) = some encoded.kind

theorem int_is_scalar (kind : IntTy) (bits : BitVec kind.width) :
    IsScalar (.int kind bits) (encodeInt kind bits) :=
  ⟨rfl, ⟨_, rfl, load_int_emits_push kind bits⟩, encode_int_kind kind bits⟩

theorem boolean_is_scalar (truth : Bool) : IsScalar (.boolean truth) (.int (if truth then 1 else 0)) :=
  ⟨rfl, ⟨_, rfl, pure_emits_push fun env code frame => by cases truth <;> rfl⟩, rfl⟩

variable (kind : localKind ty = some value.kind)

include kind in
theorem push_load_emits {slot : Nat} (held : locals slot = some value) :
    Emits table (pushLoad ty slot) (stack, locals) (value :: stack, locals) := by
  have loads : pushLoad ty slot = Translate.push (.load value.kind (.ofSlot slot)) := by
    simp only [pushLoad, getLoadInstruction, kind]
  rw [loads]
  refine Emits.push fun env code world pc => ?_
  have found : locals.read value.kind (LocalForm.ofSlot slot).slot = some value := by
    simp [Locals.read, held]
  simp only [execute, found]

theorem load_scalar_emits {constant : Constant} {encoded : Value}
    (scalar : IsScalar constant encoded) (holds : OperandHolds table locals operand constant) :
    Emits table (loadOperand operand) (stack, locals) (encoded :: stack, locals) := by
  cases holds with
  | literal =>
    obtain ⟨step, isStep, pushes⟩ := scalar.loads
    simp only [loadOperand, isStep]
    exact Emits.load_constant pushes
  | named name _ slot other known encodes held =>
    rw [scalar.encodes] at encodes
    cases encodes
    intro state later same ran
    obtain ⟨_, middle, got, rest⟩ := bind_ok ran
    obtain ⟨rfl, rfl⟩ := get_ok got
    rw [same, known] at rest
    exact push_load_emits scalar.kind held _ later same rest

theorem load_operand_emits {kind : IntTy} {bits : BitVec kind.width}
    (holds : OperandHolds table locals operand (.int kind bits)) :
    Emits table (loadOperand operand) (stack, locals) (encodeInt kind bits :: stack, locals) :=
  load_scalar_emits (int_is_scalar kind bits) holds

theorem load_operand_as_emits {kind : IntTy} {bits : BitVec kind.width}
    (holds : OperandHolds table locals operand (.int kind bits)) :
    Emits table (loadOperandAs operand (.int kind)) (stack, locals)
      (encodeInt kind bits :: stack, locals) := by
  have sameType : operand.getType = .int kind := holds.type
  have skipped : loadOperandAs operand (.int kind) = (do loadOperand operand; pure ()) := by
    simp [loadOperandAs, sameType]
  rw [skipped]
  exact (load_operand_emits holds).seq Emits.nothing

theorem assign_slot_ok {state later : Translator} {index : Nat}
    (ran : (assignSlot name ty).run state = .ok (index, later)) :
    index = (state.locals.getOrAssignLocal name ty).1 ∧
      later = { state with locals := (state.locals.getOrAssignLocal name ty).2 } := by
  cases ran
  exact ⟨rfl, rfl⟩

include kind

theorem push_store_emits {slot : Nat} :
    Emits table (pushStore ty slot) (value :: stack, locals) (stack, locals.write slot value) := by
  have stores : pushStore ty slot = Translate.push (.store value.kind (.ofSlot slot)) := by
    simp only [pushStore, getStoreInstruction, kind]
  rw [stores]
  refine Emits.push fun env code world pc => ?_
  change (if value.kind = value.kind then Outcome.running _ else _) = _
  rw [if_pos rfl, LocalForm.slot_of_slot]

theorem store_result_assigns :
    Assigns table (storeResult dest ty) dest ty (value :: stack, locals) stack locals value := by
  intro state later same ran
  have valued : ty.hasJvmValue = true := by
    cases ty <;> first | rfl | cases kind
  rw [storeResult, if_pos valued] at ran
  obtain ⟨slot, middle, assigned, pushed⟩ := bind_ok ran
  obtain ⟨rfl, rfl⟩ := assign_slot_ok assigned
  obtain ⟨isTable, emitted⟩ := push_store_emits kind _ later rfl pushed
  rw [← same]
  exact ⟨isTable, emitted.grows, emitted.appended⟩

end RustcCodegenJvm.Lower2
