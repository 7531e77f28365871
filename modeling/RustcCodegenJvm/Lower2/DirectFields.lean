import RustcCodegenJvm.Lower2.DirectCells

/-!
# Field pointers that are not made

`direct_field_projections` of `lower2/translator.rs`: the pointer variables that
only ever stand for one field, so that the translator accesses the field itself.
It loads the variable the field was projected from again at each access, which
is the object of the projection only if no assignment in between left another
one there.
-/

namespace RustcCodegenJvm.Lower2

open Oomir (Ty Constant Operand pointerClass)
open Program Library Option Retention

/-! ### The analysis -/

inductive DirectFieldSource
  | pointerView
  | deferredPointerView
  | object
deriving DecidableEq

structure TransparentFieldWrapper where
  className : String
  fieldName : String
  innerTy : Ty
deriving DecidableEq

structure DirectFieldProjection where
  source : Operand
  sourceKind : DirectFieldSource
  ownerClass : String
  fieldName : String
  fieldTy : Ty
  viewTy : Ty
  wrappers : List TransparentFieldWrapper

def sameDirectFieldStorage (left right : DirectFieldProjection) : Bool :=
  left.source.same right.source && left.sourceKind == right.sourceKind && left.ownerClass == right.ownerClass &&
    left.fieldName == right.fieldName && decide (left.fieldTy = right.fieldTy)

def DirectFieldProjection.same (left right : DirectFieldProjection) : Bool :=
  sameDirectFieldStorage left right && decide (left.viewTy = right.viewTy) && decide (left.wrappers = right.wrappers)

def toJvmInternalName : Ty → Option String
  | .str => some Oomir.utf8ViewClass
  | .class name | .interface name => some (name.replace "." "/")
  | .pointer _ => some pointerClass
  | .reference inner => toJvmInternalName inner
  | .array element => some (Ty.array element).toJvmDescriptor
  | .mutableReference inner => some (Ty.mutableReference inner).toJvmDescriptor
  | .slice _ => some Oomir.sliceViewClass
  | _ => none

section Analysis

variable (dataTypes : String → Option (List (String × Ty))) (deferredPointers : List String)

def sourceKindOf (operand : Operand) : DirectFieldSource :=
  if operand.getName.any (· ∈ deferredPointers) then .deferredPointerView else .pointerView

def fieldCandidate : Instruction → Option (String × DirectFieldProjection)
  | .invokeVirtual (some dest) className methodName ⟨_, .pointer fieldTy, _⟩
      (.constant (.string ownerClass) :: .constant (.string fieldName) :: rest) operand =>
    if className = pointerClass ∧ methodName = "projectStructField" ∧ rest.length = 3 ∧ fieldTy.hasJvmValue then
      some (dest, ⟨operand, sourceKindOf deferredPointers operand, ownerClass, fieldName, fieldTy, fieldTy, []⟩)
    else none
  | .invokeStatic (some dest) className methodName ⟨_, .pointer fieldTy, _⟩
      (source :: .constant (.string fieldName) :: rest) =>
    match toJvmInternalName source.getType with
    | some ownerClass =>
      if className = pointerClass ∧ methodName = "field" ∧ rest.length = 2 ∧ fieldTy.hasJvmValue ∧
          ownerClass ≠ "java/lang/Object" then
        some (dest, ⟨source, .object, ownerClass, fieldName, fieldTy, fieldTy, []⟩)
      else none
    | none => none
  | _ => none

def pointerRetypePointees (instruction : Instruction) : Option (String × Ty × String × Ty) :=
  match pointerRetype instruction with
  | some (source, .pointer sourcePointee, dest, .pointer resultPointee, _, _) =>
    some (source, sourcePointee, dest, resultPointee)
  | _ => none

/-- A class with one visible field is a view of what is in the field. -/
def adaptDirectFieldView (projection : DirectFieldProjection) (targetView : Ty) : Option DirectFieldProjection :=
  if projection.viewTy = targetView then some projection
  else if projection.viewTy.isJvmReferenceType then
    match targetView with
    | .class className =>
      match (dataTypes className).map (List.filter fun field => field.2.hasJvmValue) with
      | some [(fieldName, innerTy)] =>
        if innerTy = projection.viewTy then
          some { projection with
            wrappers := projection.wrappers ++ [⟨className, fieldName, innerTy⟩]
            viewTy := targetView }
        else none
      | _ => none
    | _ => none
  else none

def fieldAlias : Instruction → Option (String × String × (DirectFieldProjection → Option DirectFieldProjection))
  | .scalar (.move dest (.variable source _)) => some (source, dest, some)
  | instruction => (pointerRetypePointees instruction).map fun (source, sourceView, dest, targetView) =>
    (source, dest, fun projection =>
      if sourceView = projection.viewTy then adaptDirectFieldView dataTypes projection targetView else none)

variable (projections : String → Option DirectFieldProjection)

def projectsField (name : String) : Instruction → Bool
  | .invokeVirtual (some dest) className methodName _ _ _ =>
    dest = name && className = pointerClass && methodName = "projectStructField"
  | .invokeStatic (some dest) className methodName _ _ =>
    dest = name && className = pointerClass && methodName = "field"
  | _ => false

def sharesField (source dest : String) : Instruction → Bool
  | .scalar (.move _ _) => Retention.sameOption DirectFieldProjection.same (projections source) (projections dest)
  | _ => (projections source).isSome && (projections dest).isSome

def isDirectFieldDefinition (instruction : Instruction) (name : String) : Bool :=
  projectsField name instruction ||
    (fieldAlias dataTypes instruction).any fun (source, dest, _) =>
      dest = name && sharesField projections source dest instruction

def isDirectFieldGetter (methodName : String) (args : List Operand) (projection : DirectFieldProjection) : Bool :=
  match args with
  | [] => isPrimitivePointerGetter methodName && projection.viewTy.isJvmPrimitiveLike ||
    methodName = "getObject" && projection.viewTy.isJvmReferenceType
  | [.constant (.string requestedClass)] =>
    methodName = "getObjectAs" && toJvmInternalName projection.viewTy = some requestedClass
  | _ => false

def accessesField (name : String) : Instruction → Bool
  | .invokeVirtual _ className methodName _ args (.variable receiver _) =>
    receiver = name && className = pointerClass && (projections name).any fun projection =>
      isDirectFieldGetter methodName args projection ||
        methodName = "set" && args.map Operand.getType = [projection.viewTy]
  | _ => false

def isAllowedDirectFieldUse (instruction : Instruction) (name : String) : Bool :=
  (projections name).isSome && (accessesField projections name instruction ||
    (fieldAlias dataTypes instruction).any fun (source, dest, _) =>
      source = name && sharesField projections source dest instruction)

def fieldProblem : Retention.Problem Instruction String DirectFieldProjection where
  candidate := fieldCandidate deferredPointers
  handsOn := fieldAlias dataTypes
  same := DirectFieldProjection.same
  invalid projections instruction name :=
    instructionDestination instruction = some name &&
        !isDirectFieldDefinition dataTypes projections instruction name ||
      instructionUsesName instruction name && !isAllowedDirectFieldUse dataTypes projections instruction name

/-- Projections of primitives, of pointers and views, and of what is seen through a wrapper are kept. -/
def keepFields (names : List String) (name : String) : Option DirectFieldProjection :=
  (projections name).filter fun projection =>
    projection.fieldTy.isJvmPrimitiveLike ||
      (match projection.fieldTy with
        | .pointer _ | .slice _ | .str => true
        | _ => false) ||
      (names.filterMap projections).any fun wrapped =>
        !wrapped.wrappers.isEmpty && sameDirectFieldStorage projection wrapped

def directFieldProjections (fuel : Nat) (function : Function) : Option (String → Option DirectFieldProjection) :=
  let problem := fieldProblem dataTypes deferredPointers
  (Retention.follow problem (bodyInstructions function) fuel
    (Retention.gather problem (bodyInstructions function))).bind fun facts =>
      Retention.prune problem (assignedNames function) (bodyInstructions function) fuel
        (keepFields facts.fact (assignedNames function))

end Analysis

/-! ### Accesses -/

/-- The arms of the translator for gets and sets through a projection. -/
def fieldAccess (projections : String → Option DirectFieldProjection) : Instruction → Option DirectFieldProjection
  | .invokeVirtual (some _) className methodName _ args (.variable name _) =>
    if className = pointerClass then (projections name).filter (isDirectFieldGetter methodName args) else none
  | .invokeVirtual none className methodName _ args (.variable name _) =>
    if className = pointerClass ∧ methodName = "set" ∧ args.length = 1 then projections name else none
  | _ => none

section Runs

variable {Value World : Type} (environment : Environment Value World)

/-- `load_direct_field_owner`: what the variable of the projection holds when the field is accessed. -/
def loadDirectFieldOwner (projection : DirectFieldProjection) (store : Store Value) : Option Value :=
  projection.source.getName.bind store

/-- What executing an instruction assigns; a thrown exception is kept where it is caught. -/
def assignment (instruction : Instruction) (state : State Value World) : Option (String × Value) :=
  match execute environment instruction state.store state.world with
  | .next assigned _ => assigned
  | .thrown exception _ => some (unwindExceptionLocal, exception)
  | _ => none

def lastAssigned (name : String) (assigned : Option (String × Value)) (before : Option Value) : Option Value :=
  match assigned with
  | some (dest, value) => if dest = name then some value else before
  | none => before

variable (function : Function) (initial : State Value World)

def RunsAt (steps : Nat) (state : State Value World) (instruction : Instruction) : Prop :=
  ∃ label index instructions, run environment function.body steps initial = .running label index state ∧
    function.body.instructionsOf label = some instructions ∧ instructions[index]? = some instruction

def StaysRunning (steps : Nat) : Prop :=
  ∃ label index state, run environment function.body (steps + 1) initial = .running label index state

variable (dataTypes : String → Option (List (String × Ty))) (deferredPointers : List String)

/-- After the steps, the pointer stands for a field of the owner, which the source held when the
projection was executed, and the last value assigned to the source since then is known. -/
inductive Projected : Nat → String → String → Value → Option Value → Prop
  | project {steps : Nat} {state : State Value World} {instruction : Instruction} {dest source : String}
      {projection : DirectFieldProjection} {ty : Ty} {owner : Value}
      (here : RunsAt environment function initial steps state instruction)
      (goesOn : StaysRunning environment function initial steps)
      (isCandidate : fieldCandidate deferredPointers instruction = some (dest, projection))
      (isSource : projection.source = .variable source ty) (holds : state.store source = some owner) :
    Projected (steps + 1) dest source owner (lastAssigned source (assignment environment instruction state) none)
  | copy {steps : Nat} {state : State Value World} {instruction : Instruction} {copied dest source : String}
      {adapt : DirectFieldProjection → Option DirectFieldProjection} {owner : Value} {last : Option Value}
      (projected : Projected steps copied source owner last)
      (here : RunsAt environment function initial steps state instruction)
      (goesOn : StaysRunning environment function initial steps)
      (isAlias : fieldAlias dataTypes instruction = some (copied, dest, adapt)) :
    Projected (steps + 1) dest source owner (lastAssigned source (assignment environment instruction state) last)
  | keep {steps : Nat} {state : State Value World} {instruction : Instruction} {pointer source : String}
      {owner : Value} {last : Option Value} (projected : Projected steps pointer source owner last)
      (here : RunsAt environment function initial steps state instruction)
      (goesOn : StaysRunning environment function initial steps)
      (kept : (assignment environment instruction state).map Prod.fst ≠ some pointer) :
    Projected (steps + 1) pointer source owner (lastAssigned source (assignment environment instruction state) last)

end Runs

/-- A retype between retained variables keeps the source. -/
def RetypesAgree (function : Function) (projections : String → Option DirectFieldProjection) : Prop :=
  ∀ instruction ∈ bodyInstructions function, ∀ source sourceView dest targetView,
    pointerRetypePointees instruction = some (source, sourceView, dest, targetView) →
      ∀ projection copied, projections source = some projection → projections dest = some copied →
        copied.source = projection.source

/-! ### The source of a retained projection -/

section Sources

variable {dataTypes : String → Option (List (String × Ty))} {deferredPointers : List String} {fuel : Nat}
  {function : Function} {projections : String → Option DirectFieldProjection}
  {projection : DirectFieldProjection} {instruction : Instruction} {name : String}

theorem field_candidate_assigns (isCandidate : fieldCandidate deferredPointers instruction = some (name, projection)) :
    instruction.dest = some name := by
  unfold fieldCandidate at isCandidate
  split at isCandidate
  · split at isCandidate <;> cases isCandidate
    rfl
  · split at isCandidate
    · split at isCandidate <;> cases isCandidate
      rfl
    · cases isCandidate
  · cases isCandidate

variable {source : String} {adapt : DirectFieldProjection → Option DirectFieldProjection}

theorem retype_shape {sourceView targetView : Ty}
    (isRetype : pointerRetypePointees instruction = some (source, sourceView, name, targetView)) :
    ∃ methodTy args, (∃ operand, instruction = .invokeVirtual (some name) pointerClass "retype" methodTy args operand) ∨
      instruction = .invokeStatic (some name) pointerClass "retype" methodTy args := by
  unfold pointerRetypePointees at isRetype
  split at isRetype
  · next isCall =>
    cases isRetype
    obtain ⟨methodTy, -, isVirtual | isStatic⟩ := pointer_retype_shape isCall
    · exact ⟨methodTy, _, .inl ⟨_, isVirtual⟩⟩
    · exact ⟨methodTy, _, .inr isStatic⟩
  · cases isRetype

variable (isAlias : fieldAlias dataTypes instruction = some (source, name, adapt))

include isAlias in
/-- An alias is a move or a retype. -/
theorem field_alias_shape : (∃ ty, instruction = .move name (.variable source ty)) ∨
      ∃ sourceView targetView, pointerRetypePointees instruction = some (source, sourceView, name, targetView) := by
  unfold fieldAlias at isAlias
  split at isAlias
  · cases isAlias
    exact .inl ⟨_, rfl⟩
  · obtain ⟨⟨_, sourceView, _, targetView⟩, isRetype, isEnds⟩ := map_eq_some_iff.mp isAlias
    cases isEnds
    exact .inr ⟨sourceView, targetView, isRetype⟩

include isAlias in
theorem field_alias_assigns
    : instruction.dest = some name := by
  rcases field_alias_shape isAlias with ⟨ty, rfl⟩ | ⟨_, _, isRetype⟩
  · rfl
  · obtain ⟨_, _, ⟨_, rfl⟩ | rfl⟩ := retype_shape isRetype
    · rfl
    · rfl

variable (ran : directFieldProjections dataTypes deferredPointers fuel function = some projections)

include ran in
/-- A candidate has the projection of its variable, and no instruction is invalid for the variable. -/
theorem retained_field (retained : projections name = some projection) :
    (∀ instruction ∈ bodyInstructions function, ∀ found,
      fieldCandidate deferredPointers instruction = some (name, found) → found = projection) ∧
    ∀ instruction ∈ bodyInstructions function,
      (fieldProblem dataTypes deferredPointers).invalid projections instruction name = false := by
  obtain ⟨facts, followed, pruned⟩ := bind_eq_some_iff.mp ran
  obtain ⟨valid, before⟩ := prune_valid pruned
  have gathered : Agrees _ (assignedNames function) (gather (fieldProblem dataTypes deferredPointers) _) :=
    gather_agrees fun _ member _ _ isCandidate =>
      mem_assigned_names member (field_candidate_assigns isCandidate)
  have agrees := follow_agrees (fun _ _ _ _ isAlias member =>
    mem_assigned_names member (field_alias_assigns isAlias)) followed gathered
  have isFact : facts.fact name = some projection := (filter_eq_some_iff.mp (before name projection retained)).1
  have known := agrees.known name (by simp [isFact])
  constructor
  · intro instruction member found isCandidate
    rcases agrees.candidates name found ⟨instruction, member, isCandidate⟩ with isRejected | isFound
    · rw [agrees.rejected name isRejected] at isFact
      cases isFact
    · rw [isFound] at isFact
      cases isFact
      rfl
  · exact fun instruction member => valid instruction member name known (by simp [retained])

theorem same_field_source {left right : DirectFieldProjection} (same : left.same right) {ty : Ty}
    (isSource : left.source = .variable source ty) : right.source = .variable source ty := by
  simp only [DirectFieldProjection.same, sameDirectFieldStorage, Bool.and_eq_true, isSource] at same
  cases isRight : right.source with
  | constant => simp [isRight, Operand.same] at same
  | «variable» other otherTy =>
    simp only [isRight, Operand.same, Bool.and_eq_true, beq_iff_eq, decide_eq_true_eq] at same
    rw [same.1.1.1.1.1.1.1, same.1.1.1.1.1.1.2]

include ran in
/-- What a retained variable is copied from is retained with the same source. -/
theorem copied_source
    (agree : RetypesAgree function projections) (retained : projections name = some projection)
    (member : instruction ∈ bodyInstructions function) {copied : String}
    (isAlias : fieldAlias dataTypes instruction = some (copied, name, adapt)) :
    ∃ before, projections copied = some before ∧
      ∀ source ty, before.source = .variable source ty → projection.source = .variable source ty := by
  have valid := (Bool.or_eq_false_iff.mp ((retained_field ran retained).2 instruction member)).1
  rcases field_alias_shape isAlias with ⟨ty, rfl⟩ | ⟨sourceView, targetView, isRetype⟩
  · have shares : isDirectFieldDefinition dataTypes projections (.move name (.variable copied ty)) name = true := by
      simpa [instructionDestination, Instruction.dest] using valid
    simp only [isDirectFieldDefinition, projectsField, fieldAlias, sharesField, any_some, retained,
      decide_true, Bool.true_and, Bool.false_or] at shares
    obtain ⟨before, isBefore, same⟩ := same_option_some shares
    exact ⟨before, isBefore, fun source ty isSource => same_field_source same isSource⟩
  · have shares : (projections copied).isSome = true := by
      obtain ⟨_, _, ⟨_, rfl⟩ | rfl⟩ := retype_shape isRetype <;>
        · simp [instructionDestination, Instruction.dest, isDirectFieldDefinition, projectsField, isAlias, sharesField]
            at valid
          exact valid.1
    obtain ⟨before, isBefore⟩ := isSome_iff_exists.mp shares
    refine ⟨before, isBefore, ?_⟩
    rw [agree instruction member _ _ _ _ isRetype before projection isBefore retained]
    exact fun _ _ isSource => isSource

end Sources

/-! ### Runs -/

section Runs

variable {Value World : Type} {environment : Environment Value World} {function : Function}
  {initial : State Value World} {dataTypes : String → Option (List (String × Ty))}
  {deferredPointers : List String} {fuel steps : Nat} {projections : String → Option DirectFieldProjection}
  {pointer source : String} {owner : Value} {last : Option Value} {state : State Value World}
  {instruction : Instruction}

theorem RunsAt.member (here : RunsAt environment function initial steps state instruction) :
    instruction ∈ bodyInstructions function := by
  obtain ⟨label, index, instructions, -, isBlock, found⟩ := here
  obtain ⟨block, member, rfl⟩ := CodeBlock.mem_of_instructions_of isBlock
  exact List.mem_flatMap.mpr ⟨_, member, List.mem_of_getElem? found⟩

/-- The next state of a run differs by what the instruction assigns. -/
theorem RunsAt.next_store {after : State Value World} {label : String} {index : Nat}
    (here : RunsAt environment function initial steps state instruction)
    (next : run environment function.body (steps + 1) initial = .running label index after) :
    after.store = assign (assignment environment instruction state) state.store := by
  obtain ⟨_, _, _, isRunning, isBlock, found⟩ := here
  rw [run_succ, isRunning] at next
  obtain ⟨_, _, isBlock', found', moves⟩ := step_running next
  rw [isBlock] at isBlock'
  cases isBlock'
  rw [found] at found'
  cases found'
  unfold assignment
  rcases moves with ⟨assigned, executed, -, -, isStore⟩ | ⟨executed, -, rfl⟩ | ⟨exception, executed, -, -, isStore⟩
  · rw [executed]
    exact isStore
  · rw [executed]
    rfl
  · rw [executed]
    exact isStore

theorem assigned_last (assigned : Option (String × Value)) {store : Store Value}
    (holds : store source = some (last.getD owner)) :
    assign assigned store source = some ((lastAssigned source assigned last).getD owner) := by
  cases assigned with
  | none => exact holds
  | some pair =>
    unfold assign lastAssigned
    by_cases here : pair.1 = source
    · simp [here]
    · simp [here, Ne.symm here, holds]

/-- The source holds the last value assigned to it, or the owner. -/
theorem projected_holds (projected : Projected environment function initial dataTypes deferredPointers steps pointer
    source owner last) : ∀ {label index} {state : State Value World},
      run environment function.body steps initial = .running label index state →
        state.store source = some (last.getD owner) := by
  induction projected with
  | project here goesOn isCandidate isSource holds =>
    intro label index state isRunning
    rw [here.next_store isRunning]
    exact assigned_last _ holds
  | copy projected here goesOn isAlias ih | keep projected here goesOn kept ih =>
    intro label index state isRunning
    rw [here.next_store isRunning]
    obtain ⟨_, _, _, before, -⟩ := here
    exact assigned_last _ (ih before)

/-- The projection that is kept for a pointer has the source of the projection that was executed. -/
theorem projected_source (ran : directFieldProjections dataTypes deferredPointers fuel function = some projections)
    (agree : RetypesAgree function projections)
    (projected : Projected environment function initial dataTypes deferredPointers steps pointer source owner last) :
    ∀ {projection}, projections pointer = some projection → ∃ ty, projection.source = .variable source ty := by
  induction projected with
  | project here goesOn isCandidate isSource holds =>
    intro projection retained
    rw [← (retained_field ran retained).1 _ here.member _ isCandidate]
    exact ⟨_, isSource⟩
  | copy projected here goesOn isAlias ih =>
    intro projection retained
    obtain ⟨before, isBefore, same⟩ := copied_source ran agree retained here.member isAlias
    obtain ⟨ty, isSource⟩ := ih isBefore
    exact ⟨ty, same _ ty isSource⟩
  | keep projected here goesOn kept ih => exact ih

variable {projection : DirectFieldProjection}

theorem access_retained {dest : Option String} {className methodName : String} {methodTy : Oomir.Signature}
    {args : List Operand} {ty : Ty} (accesses : fieldAccess projections
      (.invokeVirtual dest className methodName methodTy args (.variable pointer ty)) = some projection) :
    projections pointer = some projection := by
  cases dest with
  | none => exact (ite_none_right_eq_some.mp accesses).2
  | some => exact (filter_eq_some_iff.mp (ite_none_right_eq_some.mp accesses).2).1

end Runs

/-! ### A source that is assigned again -/

section Reassigned

def projectField : Instruction :=
  .invokeVirtual (some "p") pointerClass "projectStructField" ⟨[], .pointer (.int .i32), false⟩
    [.constant (.string "S"), .constant (.string "f"), .constant (.int .i64 0), .constant (.int .i64 4),
      .constant (.null (.class "Codec"))] (.variable "obj" (.pointer (.class "S")))

def getProjected : Instruction :=
  .invokeVirtual (some "x") pointerClass "getI32" ⟨[], .int .i32, false⟩ [] (.variable "p" (.pointer (.int .i32)))

/-- `p` is projected from `obj` and read, with other instructions in between. -/
def fieldFunction (between : List Instruction) : Function :=
  plainFunction "f" [("entry", ⟨"entry", projectField :: between ++ [getProjected, .return none]⟩)]

/-- Objects are numbers, and calls return 0. -/
def numberedObjects : Environment Nat Unit where
  perform _ _ _ := .value 0 ()
  select _ _ := 0

def twoObjects : State Nat Unit :=
  ⟨fun name => if name = "obj" then some 1 else if name = "other" then some 2 else none, ()⟩

theorem retained_fields (function : Function)
    (found : (directFieldProjections (fun _ => none) [] 2 function).any (fun projections =>
      (fieldAccess projections getProjected).isSome) = true) :
    ∃ projections projection, directFieldProjections (fun _ => none) [] 2 function = some projections ∧
      fieldAccess projections getProjected = some projection := by
  obtain ⟨projections, isProjections, isSome⟩ := (any_eq_true _ _).mp found
  obtain ⟨projection, isProjection⟩ := isSome_iff_exists.mp isSome
  exact ⟨projections, projection, isProjections, isProjection⟩

theorem field_projected (between : List Instruction) :
    Projected numberedObjects (fieldFunction between) twoObjects (fun _ => none) [] 1 "p" "obj" 1 none := by
  have projected : Projected numberedObjects (fieldFunction between) twoObjects (fun _ => none) [] (0 + 1) "p" "obj" 1
      (lastAssigned "obj" (assignment numberedObjects projectField twoObjects) none) :=
    .project ⟨"entry", 0, _, rfl, rfl, rfl⟩ ⟨"entry", 1, _, rfl⟩ rfl rfl rfl
  exact projected

theorem retypes_agree (projections : String → Option DirectFieldProjection) (between : List Instruction)
    (moves : ∀ instruction ∈ between, pointerRetypePointees instruction = none) :
    RetypesAgree (fieldFunction between) projections := by
  intro instruction member source sourceView dest targetView isRetype
  have none : pointerRetypePointees instruction = none := by
    simp only [fieldFunction, plainFunction, bodyInstructions, List.flatMap_cons, List.flatMap_nil, List.append_nil,
      List.mem_cons, List.mem_append, List.not_mem_nil, or_false] at member
    rcases member with (rfl | isMove) | rfl | rfl
    · rfl
    · exact moves instruction isMove
    · rfl
    · rfl
  rw [none] at isRetype
  cases isRetype

end Reassigned

end RustcCodegenJvm.Lower2
