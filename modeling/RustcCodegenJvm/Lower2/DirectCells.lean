import RustcCodegenJvm.Library.Retention
import RustcCodegenJvm.Lower2.FunctionTranslator
import RustcCodegenJvm.Lower2.KnownAdapters
import RustcCodegenJvm.Oomir.ConstantEquality

/-!
# Cells that live in a local

`direct_cell_projections` of `lower2/translator.rs`: the pointer variables that
only ever stand for one cell made by `Pointer.cell`, so that the translator keeps
the value of the cell in a JVM local and makes no pointer. The analysis does not
see every definition and every use of a variable; this module says which ones it
misses.
-/

namespace RustcCodegenJvm.Lower2

open Oomir (Ty Constant Operand pointerClass)
open Program Library Option Retention

/-! ### Pointers to primitives -/

def primitivePointerViewSize : Ty → Option Nat
  | .pointer .boolean | .pointer (.int .i8) | .pointer (.int .u8) => some 1
  | .pointer (.int .i16) | .pointer (.int .u16) | .pointer .f16 => some 2
  | .pointer (.int .i32) | .pointer (.int .u32) | .pointer .char | .pointer .f32 => some 4
  | .pointer (.int .i64) | .pointer (.int .u64) | .pointer .f64 => some 8
  | _ => none

def constantNonnegativeU64 : Operand → Option Nat
  | .constant (.int kind bits) => if kind.value bits < 0 then none else some (kind.value bits).toNat
  | _ => none

def isNullOperand : Operand → Bool
  | .constant (.null _) => true
  | _ => false

/-- A call of `Pointer.retype` on a variable: the source and its type, the destination and its
type, and the two other arguments. -/
def pointerRetype : Instruction → Option (String × Ty × String × Ty × Operand × Operand)
  | .invokeVirtual (some dest) className methodName methodTy [viewSize, codec] (.variable name ty) =>
    if className = pointerClass ∧ methodName = "retype" then some (name, ty, dest, methodTy.ret, viewSize, codec)
    else none
  | .invokeStatic (some dest) className methodName methodTy [.variable name ty, viewSize, codec] =>
    if className = pointerClass ∧ methodName = "retype" then some (name, ty, dest, methodTy.ret, viewSize, codec)
    else none
  | _ => none

/-- The source and destination of a retype that keeps an exact view of a primitive. -/
def primitivePointerRetypeAlias (instruction : Instruction) : Option (String × String) :=
  match pointerRetype instruction with
  | some (source, sourceTy, dest, resultTy, viewSize, codec) =>
    match primitivePointerViewSize sourceTy with
    | some expectedSize =>
      if sourceTy = resultTy ∧ constantNonnegativeU64 viewSize = some expectedSize ∧ isNullOperand codec then
        some (source, dest)
      else none
    | none => none
  | none => none

def isPrimitivePointerGetter (methodName : String) : Bool :=
  methodName ∈ ["getBoolean", "getI8", "getI16", "getI32", "getI64", "getF32", "getF64"]

/-! ### The analysis -/

structure DirectCellProjection where
  root : String
  initialValue : Operand
  valueTy : Ty

def DirectCellProjection.same (left right : DirectCellProjection) : Bool :=
  left.root == right.root && left.initialValue.same right.initialValue && decide (left.valueTy = right.valueTy)

abbrev sameCell : Option DirectCellProjection → Option DirectCellProjection → Bool :=
  Retention.sameOption DirectCellProjection.same

def expectedCellArgs (methodName : String) : Option Nat :=
  if methodName = "cellAligned" then some 4 else if methodName = "cell" then some 3 else none

def cellCandidate : Instruction → Option (String × DirectCellProjection)
  | .invokeStatic (some dest) className methodName ⟨_, .pointer valueTy, _⟩ (initialValue :: rest) =>
    if expectedCellArgs methodName = some (rest.length + 1) ∧ className = pointerClass ∧ valueTy.hasJvmValue ∧
        (isNullOperand initialValue ∨ initialValue.getType = valueTy) then
      some (dest, ⟨dest, initialValue, valueTy⟩)
    else none
  | _ => none

/-- The source and destination of a move or of a retype that keeps the view. -/
def cellAlias : Instruction → Option (String × String)
  | .scalar (.move dest (.variable source _)) => some (source, dest)
  | instruction => primitivePointerRetypeAlias instruction

def isCellMethod (methodName : String) : Bool := methodName = "cell" ∨ methodName = "cellAligned"

/-- A call of `Pointer.cell` or `Pointer.cellAligned`, whatever its arguments. -/
def makesCell (name : String) : Instruction → Bool
  | .invokeStatic (some dest) className methodName _ _ =>
    dest = name ∧ className = pointerClass ∧ isCellMethod methodName
  | _ => false

section Uses

variable (projections : String → Option DirectCellProjection)

def isDirectCellDefinition (instruction : Instruction) (name : String) : Bool :=
  makesCell name instruction ||
    (cellAlias instruction).any fun ends =>
      ends.2 = name && sameCell (projections ends.1) (projections name)

def isDirectCellValueCompatible (value : Operand) (valueTy : Ty) : Bool :=
  isNullOperand value && valueTy.isJvmReferenceType || value.getType = valueTy ||
    valueTy.isJvmReferenceType && value.getType.isJvmReferenceType

def isDirectCellGetter (methodName : String) (args : List Operand) (projection : DirectCellProjection) : Bool :=
  if projection.valueTy.isJvmPrimitiveLike then isPrimitivePointerGetter methodName && args.isEmpty
  else
    projection.valueTy.isJvmReferenceType &&
      (methodName = "getObject" && args.isEmpty || methodName = "getObjectAs" && args.length = 1)

def isDirectCellSetter (methodName : String) (args : List Operand) (projection : DirectCellProjection) : Bool :=
  methodName = "set" &&
    match args with
    | [value] => isDirectCellValueCompatible value projection.valueTy
    | _ => false

/-- A get or a set with the variable as its receiver. -/
def accessesCell (name : String) : Instruction → Bool
  | .invokeVirtual _ className methodName _ args (.variable receiver _) =>
    receiver = name && className = pointerClass &&
      (projections name).any fun projection =>
        isDirectCellGetter methodName args projection || isDirectCellSetter methodName args projection
  | _ => false

def isAllowedDirectCellUse (instruction : Instruction) (name : String) : Bool :=
  accessesCell projections name instruction ||
    (cellAlias instruction).any fun ends =>
      ends.1 = name && sameCell (projections ends.2) (projections name)

/-- `instruction_uses_name`: rethrowing is no use of the variable the exception is in. -/
def instructionUsesName (instruction : Instruction) (name : String) : Bool :=
  match instruction with
  | .rethrow => false
  | _ => name ∈ instruction.reads

end Uses

def cellProblem : Retention.Problem Instruction String DirectCellProjection where
  candidate := cellCandidate
  handsOn instruction := (cellAlias instruction).map fun ends => (ends.1, ends.2, some)
  same := DirectCellProjection.same
  invalid projections instruction name :=
    instructionDestination instruction = some name && !isDirectCellDefinition projections instruction name ||
      instructionUsesName instruction name && !isAllowedDirectCellUse projections instruction name

/-- The names that can have a projection. -/
def assignedNames (function : Function) : List String := (bodyInstructions function).filterMap Instruction.dest

/-- `none` when the fuel of its loops does not suffice. -/
def directCellProjections (fuel : Nat) (function : Function) : Option (String → Option DirectCellProjection) :=
  (Retention.follow cellProblem (bodyInstructions function) fuel
    (Retention.gather cellProblem (bodyInstructions function))).bind fun facts =>
      Retention.prune cellProblem (assignedNames function) (bodyInstructions function) fuel facts.fact

/-! ### What the translator makes of it -/

/-- The code of an instruction on a cell in a local; a copy of the pointer needs none. -/
inductive CellCode
  | init
  | get
  | set
  | nothing
deriving DecidableEq

/-- The arms of the translator for cells; an instruction they do not take loads and stores pointers. -/
def cellCode (projections : String → Option DirectCellProjection) (instruction : Instruction) : Option CellCode :=
  match cellAlias instruction with
  | some (source, dest) =>
    if (projections source).isSome ∧ sameCell (projections source) (projections dest) then some .nothing else none
  | none =>
    match instruction with
    | .invokeStatic (some dest) className methodName _ _ =>
      if className = pointerClass ∧ isCellMethod methodName ∧ (projections dest).isSome then some .init else none
    | .invokeVirtual (some _) className methodName _ args (.variable name _) =>
      if className = pointerClass ∧ (projections name).any (isDirectCellGetter methodName args) then some .get
      else none
    | .invokeVirtual none className methodName _ args (.variable name _) =>
      if className = pointerClass ∧ methodName = "set" ∧ args.length = 1 ∧ (projections name).isSome then some .set
      else none
    | _ => none

/-- The OOMIR names of the parameters that are bound when a function is entered. -/
def parameterNames (function : Function) : List String :=
  let explicit := function.signature.params.zipIdx.filterMap fun param =>
    if function.signature.isStatic = false ∧ param.2 = 0 ∨
        isSyntheticJvmMainArg function.name function.signature.isStatic param.2 param.1.2 then none
    else some (parameterOomirName param.2 param.1.1)
  if function.signature.isStatic then explicit else "_1" :: explicit

/-- No pointer gets into the variable or out of it: it is no parameter, what assigns it makes
the cell or copies it, and what reads it accesses the cell or copies it. -/
structure Confined (function : Function) (projections : String → Option DirectCellProjection)
    (name : String) : Prop where
  notPassed : name ∉ parameterNames function
  definitions : ∀ instruction ∈ bodyInstructions function, instruction.dest = some name →
    cellCode projections instruction = some .init ∨ cellCode projections instruction = some .nothing
  uses : ∀ instruction ∈ bodyInstructions function, name ∈ instruction.reads →
    cellCode projections instruction = some .nothing ∨
      (cellCode projections instruction = some .get ∨ cellCode projections instruction = some .set) ∧
        name ∉ instruction.operands.tail.filterMap Operand.getName

/-- The definitions and uses that the analysis does not see or takes for others do not occur. -/
structure InSight (function : Function) (name : String) : Prop where
  notPassed : name ∉ parameterNames function
  rustCalls : ∀ className methodName methodTy args,
    .invokeRustStatic (some name) className methodName methodTy args ∉ bodyInstructions function
  exceptions : name = unwindExceptionLocal → .rethrow ∉ bodyInstructions function
  calls : ∀ dest className methodName methodTy args ty,
    .invokeVirtual dest className methodName methodTy args (.variable name ty) ∈ bodyInstructions function →
      name ∉ args.filterMap Operand.getName ∧ (dest = none ↔ methodName = "set")

/-! ### Retained cells -/

section Retained

variable {projections : String → Option DirectCellProjection} {name : String}

theorem operand_same_symm {left right : Operand} (same : left.same right) : right.same left := by
  cases left with
  | constant left =>
    cases right with
    | constant right => exact Constant.same_symm same
    | «variable» => cases same
  | «variable» left ty =>
    cases right with
    | constant => cases same
    | «variable» right other =>
      simp only [Operand.same, Bool.and_eq_true, beq_iff_eq, decide_eq_true_eq] at same ⊢
      exact ⟨same.1.symm, same.2.symm⟩

theorem same_cell_symm (left right : DirectCellProjection) (same : left.same right) : right.same left := by
  simp only [DirectCellProjection.same, Bool.and_eq_true, beq_iff_eq, decide_eq_true_eq] at same ⊢
  exact ⟨⟨same.1.1.symm, operand_same_symm same.1.2⟩, same.2.symm⟩

variable {instruction : Instruction} {ty : Ty} {ends : String × String} {dest : Option String}
  {className methodName : String} {methodTy : Oomir.Signature} {args : List Operand}
  {projection : DirectCellProjection} {function : Function}

theorem pointer_retype_shape {source dest : String} {result : Ty} {viewSize codec : Operand}
    (isRetype : pointerRetype instruction = some (source, ty, dest, result, viewSize, codec)) :
    ∃ methodTy : Oomir.Signature, methodTy.ret = result ∧
      (instruction = .invokeVirtual (some dest) pointerClass "retype" methodTy [viewSize, codec] (.variable source ty) ∨
        instruction = .invokeStatic (some dest) pointerClass "retype" methodTy
          [.variable source ty, viewSize, codec]) := by
  unfold pointerRetype at isRetype
  split at isRetype
  · split at isRetype
    · next isMethod =>
      cases isRetype
      exact ⟨_, rfl, .inl (by rw [isMethod.1, isMethod.2])⟩
    · cases isRetype
  · split at isRetype
    · next isMethod =>
      cases isRetype
      exact ⟨_, rfl, .inr (by rw [isMethod.1, isMethod.2])⟩
    · cases isRetype
  · cases isRetype

theorem constant_has_no_name {operand : Operand}
    (isConstant : (constantNonnegativeU64 operand).isSome ∨ isNullOperand operand) : operand.getName = none := by
  cases operand with
  | constant => rfl
  | «variable» => simp [constantNonnegativeU64, isNullOperand] at isConstant

variable (isAlias : cellAlias instruction = some ends)

include isAlias in
theorem cell_alias_shape : (∃ ty, instruction = .move ends.2 (.variable ends.1 ty)) ∨
      ∃ methodTy ty viewSize codec, viewSize.getName = none ∧ codec.getName = none ∧
        (instruction = .invokeVirtual (some ends.2) pointerClass "retype" methodTy [viewSize, codec]
            (.variable ends.1 ty) ∨
          instruction = .invokeStatic (some ends.2) pointerClass "retype" methodTy
            [.variable ends.1 ty, viewSize, codec]) := by
  unfold cellAlias at isAlias
  split at isAlias
  · cases isAlias
    exact .inl ⟨_, rfl⟩
  · right
    unfold primitivePointerRetypeAlias at isAlias
    split at isAlias
    · next isRetype =>
      obtain ⟨methodTy, -, isCall⟩ := pointer_retype_shape isRetype
      split at isAlias
      · split at isAlias
        · next checked =>
          cases isAlias
          exact ⟨methodTy, _, _, _, constant_has_no_name (.inl (by simp [checked.2.1])),
            constant_has_no_name (.inr checked.2.2), isCall⟩
        · cases isAlias
      · cases isAlias
    · cases isAlias

theorem virtual_alias {operand : Operand}
    (isAlias : cellAlias (.invokeVirtual dest className methodName methodTy args operand) = some ends) :
    methodName = "retype" ∧ dest ≠ none ∧ args.filterMap Operand.getName = [] := by
  rcases cell_alias_shape isAlias with ⟨ty, isMove⟩ | ⟨_, _, _, _, noSize, noCodec, isCall | isCall⟩
  · cases isMove
  · cases isCall
    exact ⟨rfl, nofun, by simp [noSize, noCodec]⟩
  · cases isCall

theorem static_alias
    (isAlias : cellAlias (.invokeStatic dest className methodName methodTy args) = some ends) :
    methodName = "retype" := by
  rcases cell_alias_shape isAlias with ⟨ty, isMove⟩ | ⟨_, _, _, _, -, -, isCall | isCall⟩
  · cases isMove
  · cases isCall
  · cases isCall
    rfl

include isAlias in
theorem alias_assigns
    : instruction.dest = some ends.2 := by
  rcases cell_alias_shape isAlias with ⟨ty, rfl⟩ | ⟨_, _, _, _, -, -, rfl | rfl⟩
  · rfl
  · rfl
  · rfl

include isAlias in
theorem cell_code_alias
    (present : (projections ends.1).isSome)
    (same : sameCell (projections ends.1) (projections ends.2)) :
    cellCode projections instruction = some .nothing := by
  unfold cellCode
  rw [isAlias]
  exact if_pos ⟨present, same⟩

theorem definition_code (isProjection : projections name = some projection)
    (isDefinition : isDirectCellDefinition projections instruction name) :
    cellCode projections instruction = some .init ∨ cellCode projections instruction = some .nothing := by
  rw [isDirectCellDefinition, Bool.or_eq_true] at isDefinition
  rcases isDefinition with makes | copies
  · left
    unfold makesCell at makes
    split at makes
    · next dest className methodName methodTy args =>
      simp only [decide_eq_true_eq] at makes
      have noAlias : cellAlias (.invokeStatic (some dest) className methodName methodTy args) = none := by
        by_contra isAlias
        obtain ⟨ends, isEnds⟩ := ne_none_iff_exists'.mp isAlias
        rw [static_alias isEnds] at makes
        exact absurd makes.2.2 (by decide)
      unfold cellCode
      rw [noAlias]
      exact if_pos ⟨makes.2.1, makes.2.2, by simp [makes.1, isProjection]⟩
    · cases makes
  · right
    simp only [any_eq_true, Bool.and_eq_true, decide_eq_true_eq] at copies
    obtain ⟨ends, isEnds, rfl, same⟩ := copies
    have shared := same
    rw [isProjection] at shared
    obtain ⟨fact, isFact, -⟩ := same_option_some shared
    exact cell_code_alias isEnds (by simp [isFact]) same

theorem getter_is_not_set
    (getter : isDirectCellGetter methodName args projection) : methodName ≠ "set" ∧ methodName ≠ "retype" := by
  constructor
  all_goals
    rintro rfl
    simp [isDirectCellGetter, isPrimitivePointerGetter] at getter

theorem access_code (shape : dest = none ↔ methodName = "set")
    (accesses : accessesCell projections name
      (.invokeVirtual dest className methodName methodTy args (.variable name ty))) :
    cellCode projections (.invokeVirtual dest className methodName methodTy args (.variable name ty)) = some .get ∨
      cellCode projections (.invokeVirtual dest className methodName methodTy args (.variable name ty)) =
        some .set := by
  simp only [accessesCell, Bool.and_eq_true, Bool.or_eq_true, decide_eq_true_eq, true_and,
    any_eq_true] at accesses
  obtain ⟨isPointer, projection, isProjection, access⟩ := accesses
  have noAlias : methodName ≠ "retype" →
      cellAlias (.invokeVirtual dest className methodName methodTy args (.variable name ty)) = none := by
    intro notRetype
    by_contra isAlias
    obtain ⟨ends, isEnds⟩ := ne_none_iff_exists'.mp isAlias
    exact notRetype (virtual_alias isEnds).1
  rcases access with getter | setter
  · left
    obtain ⟨notSet, notRetype⟩ := getter_is_not_set getter
    unfold cellCode
    rw [noAlias notRetype]
    cases dest with
    | none => exact absurd (shape.mp rfl) notSet
    | some => exact if_pos ⟨isPointer, by simp [isProjection, getter]⟩
  · right
    simp only [isDirectCellSetter, Bool.and_eq_true, decide_eq_true_eq] at setter
    have isLength : args.length = 1 := by
      rcases args with _ | ⟨value, _ | _⟩
      · cases setter.2
      · rfl
      · cases setter.2
    have notRetype : methodName ≠ "retype" := by
      rw [setter.1]
      decide
    unfold cellCode
    rw [noAlias notRetype, shape.mpr setter.1]
    exact if_pos ⟨isPointer, setter.1, isLength, by simp [isProjection]⟩

theorem candidate_assigns {fact : DirectCellProjection}
    (isCandidate : cellCandidate instruction = some (name, fact)) : instruction.dest = some name := by
  unfold cellCandidate at isCandidate
  split at isCandidate
  · split at isCandidate
    · cases isCandidate
      rfl
    · cases isCandidate
  · cases isCandidate

theorem mem_assigned_names
    (member : instruction ∈ bodyInstructions function) (assigns : instruction.dest = some name) :
    name ∈ assignedNames function :=
  List.mem_filterMap.mpr ⟨instruction, member, assigns⟩

theorem retained_valid {fuel : Nat}
    (ran : directCellProjections fuel function = some projections) (present : projections name ≠ none) :
    ∀ instruction ∈ bodyInstructions function, cellProblem.invalid projections instruction name = false := by
  obtain ⟨facts, followed, pruned⟩ := bind_eq_some_iff.mp ran
  obtain ⟨valid, before⟩ := prune_valid pruned
  have gathered : Agrees _ (assignedNames function) (gather cellProblem _) :=
    gather_agrees fun _ member _ _ isCandidate =>
      mem_assigned_names member (candidate_assigns isCandidate)
  have agrees := follow_agrees (by
    intro instruction source dest adapt isAlias member
    obtain ⟨ends, isEnds, isParts⟩ := map_eq_some_iff.mp isAlias
    cases isParts
    exact mem_assigned_names member (alias_assigns isEnds)) followed gathered
  intro instruction member
  apply valid instruction member name _ present
  apply agrees.known
  obtain ⟨fact, isFact⟩ := ne_none_iff_exists'.mp present
  rw [before name fact isFact]
  nofun

theorem confined_of_in_sight (isProjection : projections name = some projection)
    (valid : ∀ instruction ∈ bodyInstructions function, cellProblem.invalid projections instruction name = false)
    (inSight : InSight function name) : Confined function projections name := by
  refine ⟨inSight.notPassed, ?_, ?_⟩
  · intro instruction member assigns
    have isDestination : instructionDestination instruction = some name := by
      unfold instructionDestination
      split
      · cases assigns
        exact absurd member (inSight.rustCalls _ _ _ _)
      · exact assigns
    apply definition_code isProjection
    simpa [cellProblem, isDestination] using (Bool.or_eq_false_iff.mp (valid instruction member)).1
  · intro instruction member isRead
    have isUse : instructionUsesName instruction name = true := by
      unfold instructionUsesName
      split
      · exact absurd member (inSight.exceptions (List.mem_singleton.mp isRead))
      · exact decide_eq_true isRead
    have allowed : isAllowedDirectCellUse projections instruction name = true := by
      simpa [cellProblem, isUse] using (Bool.or_eq_false_iff.mp (valid instruction member)).2
    rw [isAllowedDirectCellUse, Bool.or_eq_true] at allowed
    rcases allowed with accesses | copies
    · right
      have accessed := accesses
      unfold accessesCell at accessed
      split at accessed
      · next dest className methodName methodTy args receiver ty =>
        simp only [Bool.and_eq_true, decide_eq_true_eq] at accessed
        obtain ⟨⟨rfl, -⟩, -⟩ := accessed
        obtain ⟨notArgument, shape⟩ := inSight.calls _ _ _ _ _ _ member
        exact ⟨access_code shape accesses, notArgument⟩
      · cases accessed
    · left
      simp only [any_eq_true, Bool.and_eq_true, decide_eq_true_eq] at copies
      obtain ⟨ends, isEnds, rfl, same⟩ := copies
      exact cell_code_alias isEnds (by simp [isProjection]) (same_option_symm same_cell_symm same)

theorem cell_code_virtual {code : CellCode}
    (isCode : cellCode projections (.invokeVirtual dest className methodName methodTy args (.variable name ty)) =
      some code) : (code = .nothing → args.filterMap Operand.getName = []) ∧ (dest = none ↔ methodName = "set") := by
  unfold cellCode at isCode
  split at isCode
  · next isAlias =>
    obtain ⟨isRetype, hasDest, noNames⟩ := virtual_alias isAlias
    exact ⟨fun _ => noNames, by simp [hasDest, isRetype]⟩
  · split at isCode
    · next isInstruction => cases isInstruction
    · next isInstruction =>
      cases isInstruction
      split at isCode
      · next getter =>
        cases isCode
        obtain ⟨projection, -, isGetter⟩ := (any_eq_true _ _).mp getter.2
        exact ⟨nofun, by simp [(getter_is_not_set isGetter).1]⟩
      · cases isCode
    · next isInstruction =>
      cases isInstruction
      split at isCode
      · next setter =>
        cases isCode
        exact ⟨nofun, by simp [setter.2.1]⟩
      · cases isCode
    · cases isCode

theorem in_sight_of_confined (confined : Confined function projections name) :
    InSight function name := by
  refine ⟨confined.notPassed, ?_, ?_, ?_⟩
  · intro className methodName methodTy args member
    rcases confined.definitions _ member rfl with isInit | isNothing
    · cases isInit
    · cases isNothing
  · rintro rfl member
    rcases confined.uses _ member (List.mem_singleton.mpr rfl) with isNothing | ⟨isGet | isSet, -⟩
    · cases isNothing
    · cases isGet
    · cases isSet
  · intro dest className methodName methodTy args ty member
    rcases confined.uses _ member (by simp [Instruction.reads, Instruction.operands, Operand.getName]) with
      isNothing | ⟨isGet | isSet, notArgument⟩
    · obtain ⟨noNames, shape⟩ := cell_code_virtual isNothing
      exact ⟨by simp [noNames rfl], shape⟩
    · exact ⟨notArgument, (cell_code_virtual isGet).2⟩
    · exact ⟨notArgument, (cell_code_virtual isSet).2⟩

end Retained

/-- A retained cell is confined to its local exactly if it is no parameter, no call of a Rust function
assigns it, it is not where exceptions are rethrown from, and every call on it has a destination unless
it is a set and does not pass the pointer itself. -/
theorem direct_cells_confined_iff {fuel : Nat} {function : Function}
    {projections : String → Option DirectCellProjection} {name : String}
    (ran : directCellProjections fuel function = some projections) (retained : projections name ≠ none) :
    Confined function projections name ↔ InSight function name := by
  obtain ⟨projection, isProjection⟩ := Option.ne_none_iff_exists'.mp retained
  exact ⟨in_sight_of_confined, confined_of_in_sight isProjection (retained_valid ran retained)⟩

/-! ### A cell that a call replaces -/

section Replaced

def cellPointer : Operand := .variable "p" (.pointer (.int .i32))

def cellFunction (between : List Instruction) : Function :=
  plainFunction "f" [("entry", ⟨"entry",
    [.invokeStatic (some "p") pointerClass "cell" ⟨[], .pointer (.int .i32), true⟩
      [.constant (.int .i32 7), .constant (.int .i64 4), .constant (.null (.class "Codec"))]] ++ between ++
    [.invokeVirtual (some "x") pointerClass "getI32" ⟨[], .int .i32, false⟩ [] cellPointer,
      .return (some (.variable "x" (.int .i32)))]⟩)]

def replacingCall : Instruction := .invokeRustStatic (some "p") "Owner" "make" ⟨[], .pointer (.int .i32), true⟩ []

theorem retained_projections (function : Function) (name : String)
    (found : (directCellProjections 2 function).any (fun projections => (projections name).isSome) = true) :
    ∃ projections, directCellProjections 2 function = some projections ∧ projections name ≠ none := by
  obtain ⟨projections, isProjections, isSome⟩ := (any_eq_true _ _).mp found
  exact ⟨projections, isProjections, isSome_iff_ne_none.mp isSome⟩

theorem direct_cells_confined_without_calls :
    ∃ projections, directCellProjections 2 (cellFunction []) = some projections ∧
      Confined (cellFunction []) projections "p" := by
  obtain ⟨projections, ran, retained⟩ := retained_projections (cellFunction []) "p" (by decide +kernel)
  refine ⟨projections, ran, (direct_cells_confined_iff ran retained).mpr ⟨by decide, ?_, ?_, ?_⟩⟩
  · simp [cellFunction, plainFunction, bodyInstructions]
  · simp [cellFunction, plainFunction, bodyInstructions]
  · simp +contextual [cellFunction, plainFunction, bodyInstructions, cellPointer]

/-- A call of a Rust function that returns a pointer into the variable is not seen, and the read
after it takes the value of the cell. -/
theorem call_replaces_retained_cell :
    ∃ projections, directCellProjections 2 (cellFunction [replacingCall]) = some projections ∧
      projections "p" ≠ none ∧ ¬Confined (cellFunction [replacingCall]) projections "p" := by
  obtain ⟨projections, ran, retained⟩ :=
    retained_projections (cellFunction [replacingCall]) "p" (by decide +kernel)
  refine ⟨projections, ran, retained, ?_⟩
  intro confined
  have called : replacingCall ∈ bodyInstructions (cellFunction [replacingCall]) := by
    simp [cellFunction, plainFunction, bodyInstructions]
  exact (in_sight_of_confined confined).rustCalls _ _ _ _ called

end Replaced

end RustcCodegenJvm.Lower2
