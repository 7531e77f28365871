import RustcCodegenJvm.Lower2.Variables

/-!
# Constructing and returning objects

`ConstructObject` allocates an object of a generated class and calls the
constructor with one argument for each field; `Return` leaves the method with
the value of a variable. What the class's own code does is an assumption on the
machine: its constructor stores the arguments.
-/

namespace RustcCodegenJvm.Lower2

open Triple Grows

open Jvm Oomir RustcCodegenJvm.Runtime Library InternedConstantPool Translate TranslateMethod StateExcept

variable {World : Type} {env : Environment World}

/-- A machine with a class of the given fields: allocation, and the constructor that stores its
arguments. Neither touches the 128-bit objects. -/
structure StructLibrary (library : WideLibrary env) (className : String) (fieldTypes : List Ty) where
  fieldsAt : World → Nat → Option (List Value)
  allocate : ∀ index stack world, env.constants.classAt index = some className →
    ∃ object later, env.perform (.new index) stack world =
        .completes (.reference (some object) :: stack) later ∧ fieldsAt later object = none ∧
      library.Keeps world later
  construct : ∀ index object values stack world,
    env.constants.memberAt index = some ⟨className, "<init>", constructorDescriptor false fieldTypes⟩ →
    values.map (fun value => some value.kind) = fieldTypes.map localKind →
    fieldsAt world object = none →
    ∃ later, env.perform (.invoke .special index)
        (values.reverse ++ .reference (some object) :: stack) world = .completes stack later ∧
      fieldsAt later object = some values ∧ library.Keeps world later

def StructLibrary.Refers {library : WideLibrary env} {className : String} {fieldTypes : List Ty}
    (structs : StructLibrary library className fieldTypes) (values : List Value) (world : World)
    (value : Value) : Prop :=
  ∃ object, value = .reference (some object) ∧ structs.fieldsAt world object = some values

@[grind ←] theorem PoolGrows.constructor_reference (className descriptor : String) :
    PoolGrows (constructorReference className descriptor) := by
  grind [constructorReference]

theorem constructor_reference_spec {before after : InternedConstantPool} {className descriptor : String}
    {reference : Nat × Nat}
    (ran : (constructorReference className descriptor).run before = .ok (reference, after)) :
    after.pool.classAt reference.1 = some className ∧
      after.pool.memberAt reference.2 = some ⟨className, "<init>", descriptor⟩ := by
  obtain ⟨classIndex, classed, addedClass, afterClass⟩ := bind_ok ran
  obtain ⟨constructor, referred, addedMethod, returned⟩ := bind_ok afterClass
  obtain ⟨rfl, rfl⟩ := pure_ok returned
  obtain ⟨classAt, -⟩ := add_class_spec addedClass
  obtain ⟨memberAt, grows⟩ := add_method_ref_spec classAt addedMethod
  exact ⟨grows.class_at classAt, memberAt⟩

namespace Grows

variable (parser : WideParser)

@[grind ←] theorem load_constructor_args (relative : Bool) (args : List (Operand × Ty)) :
    Grows (loadConstructorArgs parser relative args) := by
  induction args with
  | nil => exact pure ()
  | cons arg rest ih =>
    have loads : Grows (loadConstructorArg parser relative arg.1 arg.2) := by
      grind [loadConstructorArg]
    exact bind loads fun _ => ih

@[grind ←] theorem construct_object (dataTypes : String → Option (List Ty)) (dest className : String)
    (args : List (Operand × Ty)) :
    Grows (translateConstructObject parser dataTypes dest className args) := by
  grind [translateConstructObject]

@[grind ←] theorem return_operand (ty : Ty) (operand : Option Operand) :
    Grows (translateReturn parser ty operand) := by
  cases operand <;> grind [translateReturn]

end Grows

section Construction

variable {library : WideLibrary env} {parser : WideParser} {table : LocalTable} {locals : Locals}
  {world : World} {stack : List Value} {className dest : String} {fieldTypes : List Ty}
  {dataTypes : String → Option (List Ty)}

/-- Loading an argument pushes its value and changes nothing else. -/
def ArgLoads (env : Environment World) (parser : WideParser) (table : LocalTable) (locals : Locals)
    (world : World) (arg : Operand × Ty) (value : Value) : Prop :=
  ∀ stack, Triple env (At table stack locals world) (loadConstructorArg parser false arg.1 arg.2)
    (At table (value :: stack) locals world)

variable {values : List Value} {name : String} {ty : Ty} {slot : Nat} {value : Value}

theorem load_constructor_args_triple {args : List (Operand × Ty)}
    (loads : List.Forall₂ (ArgLoads env parser table locals world) args values) (stack : List Value) :
    Triple env (At table stack locals world) (loadConstructorArgs parser false args)
      (At table (values.reverse ++ stack) locals world) := by
  induction loads generalizing stack with
  | nil => exact nothing
  | cons loadsFirst _ ih =>
    rw [List.reverse_cons, List.append_assoc]
    exact (loadsFirst stack).seq (ih _)

theorem load_variable_as_triple
    (java : JavaLibrary env) (known : table.getTypedLocalIndex name ty = some slot)
    (held : locals slot = some value) (kind : localKind ty = some value.kind) :
    Triple env (At table stack locals world) (loadWideOperandAs parser (.variable name ty) ty)
      (At table (value :: stack) locals world) := by
  apply of_emitted java (load_wide_operand_as parser _ _)
  rintro state later ran stack locals world ⟨isTable, rfl, rfl, rfl⟩
  have skipped : loadWideOperandAs parser (.variable name ty) ty =
      (do loadOperand (.variable name ty); pure ()) := by
    simp [loadWideOperandAs, loadWideOperand, Operand.getType]
  have loads : Emits table (loadOperand (.variable name ty)) (stack, locals) (value :: stack, locals) := by
    intro before after isBefore loaded
    obtain ⟨_, between, got, loads⟩ := bind_ok loaded
    obtain ⟨rfl, rfl⟩ := get_ok got
    simp only [isBefore, known] at loads
    exact push_load_emits kind held between after isBefore loads
  rw [skipped] at ran
  obtain ⟨isLater, emitted⟩ := loads.seq Emits.nothing state later isTable ran
  exact ⟨_, _, emitted, isLater, rfl, rfl, rfl⟩

theorem variable_arg_loads
    (java : JavaLibrary env) (known : table.getTypedLocalIndex name ty = some slot)
    (held : locals slot = some value) (kind : localKind ty = some value.kind) :
    ArgLoads env parser table locals world (.variable name ty, ty) value := by
  intro stack
  exact (load_variable_as_triple java known held kind).seq nothing

def Allocated (structs : StructLibrary library className fieldTypes) (table : LocalTable)
    (locals : Locals) (world : World) : Assertion World :=
  fun tableAfter stackAfter localsAfter worldAfter =>
    tableAfter = table ∧ localsAfter = locals ∧ library.Keeps world worldAfter ∧
      ∃ object, stackAfter = [.reference (some object)] ∧ structs.fieldsAt worldAfter object = none

def Constructed (structs : StructLibrary library className fieldTypes) (values : List Value)
    (table : LocalTable) (locals : Locals) (world : World) : Assertion World :=
  fun tableAfter stackAfter localsAfter worldAfter =>
    tableAfter = table ∧ localsAfter = locals ∧ library.Keeps world worldAfter ∧
      ∃ value, stackAfter = [value] ∧ structs.Refers values worldAfter value

variable (structs : StructLibrary library className fieldTypes)

theorem constructed_triple {index object : Nat}
    {args : List (Operand × Ty)}
    (isConstructor : env.constants.memberAt index =
      some ⟨className, "<init>", constructorDescriptor false fieldTypes⟩)
    (fresh : structs.fieldsAt world object = none)
    (loads : List.Forall₂ (ArgLoads env parser table locals world) args values)
    (kinds : values.map (fun value => some value.kind) = fieldTypes.map localKind) :
    Triple env (At table [.reference (some object)] locals world)
      (do
        push .dup
        loadConstructorArgs parser false args
        push (.invoke .special index))
      (Constructed structs values table locals world) := by
  have dups : Triple env (At table [.reference (some object)] locals world) (push .dup)
      (At table [.reference (some object), .reference (some object)] locals world) := by
    apply instruction
    rintro _ _ _ _ ⟨rfl, rfl, rfl, rfl⟩
    exact ⟨_, _, fun code pc => execute_done env code _ rfl rfl, rfl, rfl, rfl, rfl⟩
  apply dups.seq
  apply (load_constructor_args_triple loads _).seq
  apply instruction
  rintro _ _ _ _ ⟨rfl, rfl, rfl, rfl⟩
  obtain ⟨later, performed, fields, keeps⟩ :=
    structs.construct index object values [.reference (some object)] _ isConstructor kinds fresh
  exact ⟨_, later, fun code pc => execute_external rfl rfl performed, rfl, rfl, keeps, _, rfl,
    object, rfl, fields⟩

/-- The object is allocated and constructed from the arguments, and the result variable refers to
it. -/
theorem construct_object_triple
    {args : List Operand} (sameLength : args.length = fieldTypes.length)
    (valued : ∀ ty ∈ fieldTypes, ty.hasJvmValue = true)
    (declared : ∀ types, dataTypes className = some types → types.filter Ty.hasJvmValue = fieldTypes)
    (plain : fieldTypes.any isPointerType = false)
    (loads : ∀ worldNow, library.Keeps world worldNow →
      List.Forall₂ (ArgLoads env parser table locals worldNow) (args.zip fieldTypes) values)
    (kinds : values.map (fun value => some value.kind) = fieldTypes.map localKind) :
    Triple env (At table [] locals world)
      (translateConstructObject parser dataTypes dest className (args.zip fieldTypes))
      (Stored library table [] locals world dest (.class className) (structs.Refers values)) := by
  have visible : (args.zip fieldTypes).filter (fun arg => arg.2.hasJvmValue) = args.zip fieldTypes := by
    apply List.filter_eq_self.mpr
    intro arg member
    exact valued _ (List.of_mem_zip member).2
  have types : (args.zip fieldTypes).map Prod.snd = fieldTypes :=
    List.map_snd_zip (by omega)
  have operands : (args.zip fieldTypes).map Prod.fst = args :=
    List.map_fst_zip (by omega)
  have expected : (declaredArgTypes dataTypes className (args.zip fieldTypes)).getD fieldTypes =
      fieldTypes ∧ ((declaredArgTypes dataTypes className (args.zip fieldTypes)).getD []).any
        isPointerType = false := by
    unfold declaredArgTypes
    cases found : dataTypes className with
    | none => exact ⟨rfl, rfl⟩
    | some types =>
      simp [declared types found, sameLength, Option.filter, plain]
  unfold translateConstructObject
  simp only [visible, types, operands, expected.1, expected.2]
  have storing : ∀ worldNow, library.Keeps world worldNow →
      Triple env (Constructed structs values table locals worldNow) (storeResult dest (.class className))
        (Stored library table [] locals world dest (.class className) (structs.Refers values)) := by
    intro worldNow keepsNow
    apply of_emitted library.java (store_result _ _)
    rintro state later ran _ locals worldAfter ⟨isTable, rfl, keeps, _, rfl, object, rfl, fields⟩
    have assigns : Assigns table (storeResult dest (.class className)) dest (.class className)
        ([.reference (some object)], locals) [] locals (.reference (some object)) :=
      store_result_assigns rfl
    obtain ⟨isLater, emitted⟩ := assigns state later isTable ran
    exact ⟨_, _, emitted, isLater, rfl, keepsNow.trans keeps, _, rfl, object, rfl, fields⟩
  have growsArgs := load_constructor_args parser false (args.zip fieldTypes)
  have growsRest : ∀ index, Grows (do
      push .dup
      loadConstructorArgs parser false (args.zip fieldTypes)
      push (.invoke .special index)
      storeResult dest (.class className)) := fun index =>
    bind (push _) fun _ => bind growsArgs fun _ =>
      bind (push _) fun _ => store_result _ _
  apply with_pool (PoolGrows.constructor_reference _ _) fun reference =>
    bind (push _) fun _ => growsRest reference.2
  intro before after reference ran known
  obtain ⟨isClass, isConstructor⟩ := constructor_reference_spec ran
  have allocates : Triple env (At table [] locals world) (push (.new reference.1))
      (Allocated structs table locals world) := by
    apply instruction
    rintro _ _ _ _ ⟨rfl, rfl, rfl, rfl⟩
    obtain ⟨object, later, performed, fresh, keeps⟩ :=
      structs.allocate reference.1 [] _ (known.class_at isClass)
    exact ⟨_, later, fun code pc => execute_external rfl rfl performed, rfl, rfl, keeps, object, rfl, fresh⟩
  apply allocates.seq
  apply of_each (growsRest reference.2)
  rintro _ _ _ worldNow ⟨rfl, rfl, keeps, object, rfl, fresh⟩
  have constructs := constructed_triple structs (known.member_at isConstructor) fresh
    (loads worldNow keeps) kinds
  have both := constructs.seq (storing worldNow keeps)
  simpa only [bind_assoc] using both

/-! ### Returning -/

theorem lift_run {Result : Type} {action : Translate Result} {state : MethodTranslator}
    {later : Translator} {result : Result} (ran : action.run state.toTranslator = .ok (result, later)) :
    (lift action).run state = .ok (result, { state with toTranslator := later }) := by
  simp only [StateT.run] at ran
  simp only [lift, StateT.run, ran]

theorem return_returns {state later final : MethodTranslator} {code : Code}
    (java : JavaLibrary env)
    (ran : (lift (translateReturn parser ty (some (.variable name ty)))).run state = .ok ((), later))
    (wellFormed : state.WellFormed) (extension : later.Extends final) (finished : Finished env final code)
    (known : state.locals.getTypedLocalIndex name ty = some slot) (held : locals slot = some value)
    (kind : localKind ty = some value.kind) :
    Returns env code ⟨state.jvmInstructions.length, [], locals, world⟩ (some value) world := by
  obtain ⟨translator, translated, rfl⟩ := lift_ok ran
  obtain ⟨_, loaded, loads, pushes⟩ := bind_ok translated
  obtain ⟨before, isResolved, same⟩ := finished.resolves
  have loading : MethodTriple env (At state.locals [] locals world)
      (lift (loadWideOperandAs parser (.variable name ty) ty)) (At state.locals [value] locals world)
      (fun _ _ _ _ => False) := MethodTriple.lift (load_variable_as_triple java known held kind)
  have loadedExtends := (loading state { state with toTranslator := loaded } (lift_run loads)).1
  have pushed := push _ _ _ _ pushes
  have pushedExtends : MethodTranslator.Extends { state with toTranslator := loaded }
      { state with toTranslator := translator } := .of_translator pushed rfl rfl
  obtain ⟨_, _, _, steps, -, rfl, rfl, rfl⟩ := loading.falls_through (lift_run loads) wellFormed
    (pushedExtends.trans extension) finished ⟨rfl, rfl, rfl, rfl⟩
  refine ⟨_, steps, (same _).trans ?_⟩
  have holds := isResolved.holds_appended { state with toTranslator := translator }
    (wellFormed.extend loadedExtends) pushed rfl rfl extension
  obtain rfl := modify_ok pushes
  rw [appended_code_eq rfl] at holds
  have present := holds 0 _ rfl
  rw [Nat.add_zero] at present
  simp [step, present, returnInstruction, kind, execute]

end Construction

/-! ### A machine with the class -/

/-- The runtime's heap, and the fields of the struct objects. -/
structure StructHeap where
  heap : Heap
  fieldsAt : Nat → Option (List Value)

namespace StructHeap

def setFields (world : StructHeap) (object : Nat) (fields : Option (List Value)) : StructHeap :=
  ⟨world.heap, fun other => if other = object then fields else world.fieldsAt other⟩

def around (world : StructHeap) : External Heap → External StructHeap
  | .completes stack heap => .completes stack ⟨heap, world.fieldsAt⟩
  | .throws exception heap => .throws exception ⟨heap, world.fieldsAt⟩
  | .stuck => .stuck

def construct (world : StructHeap) (count : Nat) (stack : List Value) : External StructHeap :=
  match stack.drop count with
  | .reference (some object) :: rest =>
    .completes rest (world.setFields object (some (stack.take count).reverse))
  | _ => .stuck

end StructHeap

section StructMachine

variable (className : String) (count : Nat) (constants : ConstantPool)

def structEnvironment : Environment StructHeap where
  constants := constants
  catches _ _ _ := false
  perform instruction stack world :=
    let runtime := world.around ((runtimeEnvironment constants).perform instruction stack world.heap)
    match instruction with
    | .new index =>
      if constants.classAt index = some className then
        .completes (.reference (some world.heap.next) :: stack)
          (StructHeap.setFields ⟨world.heap.reserve, world.fieldsAt⟩ world.heap.next none)
      else runtime
    | .invoke .special index =>
      if (constants.memberAt index).map ConstantPool.Member.owner = some className then
        world.construct count stack
      else runtime
    | _ => runtime

variable {className}

def structWideLibrary (apart : ∀ signed, wideClass signed ≠ className) :
    WideLibrary (structEnvironment className count constants) where
  java :=
    { integerDivRem := fun index left right rest world isRemainder nonzero found => by
        have performed := (runtime_java constants).integerDivRem index left right rest world.heap
          isRemainder nonzero found
        simp [structEnvironment, performed, StructHeap.around]
      longDivRem := fun index left right rest world isRemainder nonzero found => by
        have performed := (runtime_java constants).longDivRem index left right rest world.heap
          isRemainder nonzero found
        simp [structEnvironment, performed, StructHeap.around]
      integerCompare := fun index left right rest world found => by
        have performed := (runtime_java constants).integerCompare index left right rest world.heap found
        simp [structEnvironment, performed, StructHeap.around]
      longCompare := fun index left right rest world found => by
        have performed := (runtime_java constants).longCompare index left right rest world.heap found
        simp [structEnvironment, performed, StructHeap.around] }
  wideAt world := world.heap.wideAt
  allocate index signed stack world found := by
    have isClass : constants.classAt index = some (wideClass signed) := found
    obtain ⟨object, later, performed, free, keeps⟩ :=
      (runtimeLibrary constants).allocate index signed stack world.heap found
    refine ⟨object, ⟨later, world.fieldsAt⟩, ?_, free, keeps⟩
    simp [structEnvironment, isClass, apart signed, performed, StructHeap.around]
  construct index signed object high low rest world found free := by
    have isMember : constants.memberAt index = _ := found
    obtain ⟨later, performed, content, keeps⟩ :=
      (runtimeLibrary constants).construct index signed object high low rest world.heap found free
    refine ⟨⟨later, world.fieldsAt⟩, ?_, content, keeps⟩
    simp [structEnvironment, isMember, apart signed, performed, StructHeap.around]
  binary index signed method left right leftBits rightBits result rest world found isLeft isRight applied := by
    obtain ⟨object, later, performed, content, keeps⟩ := (runtimeLibrary constants).binary index signed
      method left right leftBits rightBits result rest world.heap found isLeft isRight applied
    refine ⟨object, ⟨later, world.fieldsAt⟩, ?_, content, keeps⟩
    simp [structEnvironment, performed, StructHeap.around]
  unary index signed method operand bits rest world found isOperand := by
    obtain ⟨object, later, performed, content, keeps⟩ := (runtimeLibrary constants).unary index signed
      method operand bits rest world.heap found isOperand
    refine ⟨object, ⟨later, world.fieldsAt⟩, ?_, content, keeps⟩
    simp [structEnvironment, performed, StructHeap.around]
  shift index signed op operand bits distance rest world found isOperand := by
    obtain ⟨object, later, performed, content, keeps⟩ := (runtimeLibrary constants).shift index signed
      op operand bits distance rest world.heap found isOperand
    refine ⟨object, ⟨later, world.fieldsAt⟩, ?_, content, keeps⟩
    simp [structEnvironment, performed, StructHeap.around]
  compare index signed left right leftBits rightBits rest world found isLeft isRight := by
    have performed := (runtimeLibrary constants).compare index signed left right leftBits rightBits rest
      world.heap found isLeft isRight
    simp [structEnvironment, performed, StructHeap.around]

def structLibrary (apart : ∀ signed, wideClass signed ≠ className) (fieldTypes : List Ty) :
    StructLibrary (structWideLibrary fieldTypes.length constants apart) className fieldTypes where
  fieldsAt := StructHeap.fieldsAt
  allocate index stack world found := by
    have isClass : constants.classAt index = some className := found
    refine ⟨world.heap.next,
      StructHeap.setFields ⟨world.heap.reserve, world.fieldsAt⟩ world.heap.next none, ?_, if_pos rfl,
      fun _ _ isAt => isAt⟩
    simp [structEnvironment, isClass]
  construct index object values stack world found kinds free := by
    have isMember : constants.memberAt index = _ := found
    have isLength : fieldTypes.length = values.reverse.length := by
      have lengths := congrArg List.length kinds
      simpa using lengths.symm
    refine ⟨world.setFields object (some values), ?_, if_pos rfl, fun _ _ isAt => isAt⟩
    simp [structEnvironment, isMember, StructHeap.construct, isLength]

end StructMachine

end RustcCodegenJvm.Lower2
