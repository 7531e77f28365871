import RustcCodegenJvm.Library.RoundRobin
import RustcCodegenJvm.Lower2.BlockComponents
import RustcCodegenJvm.Oomir.Execution

/-!
# Live variables of the blocks of a large method

`live_variables` finds the variables a block needs when control enters it, which
become parameters when a large method is split. A block is summed up by what it
reads before it assigns and by what it assigns anywhere. An exception leaves a
block in its middle, before the later assignments, and what its cleanup reads is
then missed.
-/

namespace RustcCodegenJvm.Lower2

open Program Library List Instruction
open Oomir (Operand Ty Signature callerLocationParamName)

structure Variable where
  name : String
  ty : Ty
deriving DecidableEq

/-- The types a name is used with. -/
abbrev VariableTypes := String → Finset Ty

abbrev LiveVariables := String → Finset Variable

def throwableType : Ty := .class "java/lang/Throwable"

/-! ### What instructions use and define -/

def instructionOperands : Instruction → List Operand
  | .scalar (.arithmetic _ _ op1 op2) | .scalar (.comparison _ _ op1 op2) | .scalar (.bitwise _ _ op1 op2)
  | .scalar (.shift _ _ op1 op2) => [op1, op2]
  | .scalar (.not _ src) | .scalar (.neg _ src) | .scalar (.move _ src) => [src]
  | .scalar (.branch condition _ _) => [condition]
  | .scalar (.return operand) => operand.toList
  | .callIndirect _ functionPtr args _ => functionPtr :: args
  | .invokeInterface _ _ _ args _ operand | .invokeVirtual _ _ _ _ args operand => operand :: args
  | .scalar (.switch discr _ _) | .newArray _ _ discr => [discr]
  | .arrayStore _ index value _ => [index, value]
  | .arrayFill _ value _ => [value]
  | .arrayGet _ array index => [array, index]
  | .length _ array => [array]
  | .scalar (.constructObject _ _ args) => args.map Prod.fst
  | .setField _ _ value _ _ => [value]
  | .getField _ object _ _ _ | .cast object _ _ => [object]
  | .invokeStatic _ _ _ _ args | .invokeRustStatic _ _ _ _ args => args
  | _ => []

def instructionDefinitionType : Instruction → Option (String × Ty)
  | .scalar (.arithmetic _ dest op1 _) | .scalar (.bitwise _ dest op1 _) | .scalar (.shift _ dest op1 _) =>
    some (dest, op1.getType)
  | .scalar (.comparison _ dest _ _) => some (dest, .boolean)
  | .scalar (.not dest src) | .scalar (.neg dest src) | .scalar (.move dest src) => some (dest, src.getType)
  | .callIndirect dest _ _ signature | .invokeInterface _ _ signature _ dest _
  | .invokeVirtual dest _ _ signature _ _ | .invokeStatic dest _ _ signature _
  | .invokeRustStatic dest _ _ signature _ => dest.map fun dest => (dest, signature.ret)
  | .createFunctionPointer dest interfaceName _ _ _ => some (dest, .interface interfaceName)
  | .newArray dest elementType _ => some (dest, .array elementType)
  | .arrayGet dest array _ =>
    match array.getType with
    | .array element | .slice element | .mutableReference element | .pointer element => some (dest, element)
    | _ => none
  | .length dest _ => some (dest, .int .i32)
  | .scalar (.constructObject dest className _) => some (dest, .class className)
  | .getField dest _ _ fieldTy _ => some (dest, fieldTy)
  | .cast _ ty dest => some (dest, ty)
  | _ => none

def insertType (types : VariableTypes) (name : String) (ty : Ty) : VariableTypes :=
  if ty.hasJvmValue then Function.update types name (insert ty (types name)) else types

/-- The name of a parameter in the body, which is its position except for the caller's location. -/
def parameterName (index : Nat) (name : String) : String :=
  if name = callerLocationParamName then name else "_" ++ toString (index + 1)

def collectInstructionTypes (types : VariableTypes) (instruction : Instruction) : VariableTypes :=
  let types := (instructionOperands instruction).foldl (fun types operand =>
    match operand with
    | .variable name ty => insertType types name ty
    | .constant _ => types) types
  match instructionDefinitionType instruction with
  | some (name, ty) => insertType types name ty
  | none => types

def collectVariableTypes (function : Function) : VariableTypes :=
  let types := function.signature.params.zipIdx.foldl
    (fun types param => insertType types (parameterName param.2 param.1.1) param.1.2) fun _ => ∅
  let types := insertType types unwindExceptionLocal throwableType
  (function.body.basicBlocks.flatMap fun entry => entry.2.instructions).foldl collectInstructionTypes types

def operandVariable : Operand → Option Variable
  | .variable name ty => if ty.hasJvmValue then some ⟨name, ty⟩ else none
  | .constant _ => none

section Uses

variable (types : VariableTypes)

/-- The object an instruction names directly, with the types it may have. -/
def objectVariables : Instruction → Finset Variable
  | .arrayStore array _ _ _ | .arrayFill array _ _ => (types array).image fun ty => ⟨array, ty⟩
  | .setField object _ _ _ ownerClass => {⟨object, .class ownerClass⟩}
  | .rethrow => {⟨unwindExceptionLocal, throwableType⟩}
  | _ => ∅

def instructionUses (instruction : Instruction) : Finset Variable :=
  ((instructionOperands instruction).filterMap operandVariable).toFinset ∪ objectVariables types instruction

def instructionDefinitions (instruction : Instruction) : Option String :=
  ((instructionDefinitionType instruction).filter fun definition => definition.2.hasJvmValue).map Prod.fst

/-- The uses before definitions and the definitions of a block so far. -/
def blockStep (state : Finset Variable × Finset String) (instruction : Instruction) :
    Finset Variable × Finset String :=
  (state.1 ∪ (instructionUses types instruction).filter (fun needed => needed.name ∉ state.2),
    state.2 ∪ (instructionDefinitions instruction).toFinset)

def blockSummary (instructions : List Instruction) : Finset Variable × Finset String :=
  instructions.foldl (blockStep types) (∅, ∅)

variable (body : CodeBlock)

def summary (label : String) : Finset Variable × Finset String :=
  blockSummary types ((body.instructionsOf label).getD [])

/-- The variables that are live at the start of a block, from those of its successors. -/
def liveIn (successors : List (String × List String)) (live : LiveVariables) (label : String) :
    Finset Variable :=
  (((successorsOf successors label).foldl (fun out successor => out ∪ live successor) ∅).filter
    fun needed => needed.name ∉ (summary types body label).2) ∪ (summary types body label).1

/-- Rounds over the labels from the last to the first; `none` when the fuel does not suffice. -/
def liveVariables (successors : List (String × List String)) (fuel : Nat) : Option LiveVariables :=
  RoundRobin.solve (liveIn types body successors) (sorted (body.basicBlocks.map Prod.fst)).reverse fuel
    fun _ => ∅

end Uses

/-! ### Paths -/

def GoesOn (instruction : Instruction) : Prop :=
  match instruction.role with
  | .goto _ _ | .return | .throw | .rethrow => False
  | _ => True

def gotoTargets (instruction : Instruction) : List String :=
  match instruction.role with
  | .goto targets otherwise => otherwise :: targets
  | _ => []

def Reads (types : VariableTypes) (instruction : Instruction) (needed : Variable) : Prop :=
  (.variable needed.name needed.ty ∈ instruction.operands ∧ needed.ty.hasJvmValue = true) ∨
    needed ∈ objectVariables types instruction

/-- Control may leave a block at an instruction: it jumps, or an exception reaches the cleanup of
the region, which assigns the variable of exceptions. -/
def LeavesTo (instructions : List Instruction) (index : Nat) (instruction : Instruction)
    (needed : Variable) (target : String) : Prop :=
  target ∈ gotoTargets instruction ∨
    (region (instructions.take index) = some target ∧ needed.name ≠ unwindExceptionLocal)

inductive ReadsAhead (types : VariableTypes) (body : CodeBlock) (needed : Variable) : String → Nat → Prop
  | read {label index instructions instruction} (isBlock : body.instructionsOf label = some instructions)
      (isInstruction : instructions[index]? = some instruction) (reads : Reads types instruction needed) :
      ReadsAhead types body needed label index
  | next {label index instructions instruction} (isBlock : body.instructionsOf label = some instructions)
      (isInstruction : instructions[index]? = some instruction) (goesOn : GoesOn instruction)
      (keeps : instruction.dest ≠ some needed.name)
      (ahead : ReadsAhead types body needed label (index + 1)) : ReadsAhead types body needed label index
  | leave {label index instructions instruction target}
      (isBlock : body.instructionsOf label = some instructions)
      (isInstruction : instructions[index]? = some instruction)
      (leaves : LeavesTo instructions index instruction needed target)
      (ahead : ReadsAhead types body needed target 0) : ReadsAhead types body needed label index

variable {index fuel : Nat}

theorem ReadsAhead.exists_block {types : VariableTypes} {body : CodeBlock} {needed : Variable} {label : String}
    (ahead : ReadsAhead types body needed label index) :
    ∃ instructions, body.instructionsOf label = some instructions := by
  cases ahead with
  | read isBlock | next isBlock | leave isBlock => exact ⟨_, isBlock⟩

/-- Where a block is left towards a block that needs a variable, the block assigned it before,
reads it before it assigns it, or does not assign it at all. -/
def ExitsCovered (types : VariableTypes) (body : CodeBlock) : Prop :=
  ∀ label instructions index instruction needed target,
    body.instructionsOf label = some instructions → instructions[index]? = some instruction →
    (∀ earlier ∈ instructions.take index, GoesOn earlier) →
    LeavesTo instructions index instruction needed target →
    ReadsAhead types body needed target 0 →
      (∃ earlier ∈ instructions.take index, earlier.dest = some needed.name) ∨
        needed ∈ (blockSummary types instructions).1 ∨
        needed.name ∉ (blockSummary types instructions).2

/-! ### What a block is summed up by -/

theorem instruction_operands_eq (instruction : Instruction) :
    instructionOperands instruction = instruction.operands := by
  cases instruction with
  | scalar instruction => cases instruction <;> rfl
  | _ => rfl

section Summaries

variable {types : VariableTypes} {instruction : Instruction} {needed : Variable} {name : String}

theorem operand_variable_iff {operand : Operand} : operandVariable operand = some needed ↔
      operand = .variable needed.name needed.ty ∧ needed.ty.hasJvmValue = true := by
  cases operand with
  | constant value => simp [operandVariable]
  | «variable» name ty =>
    simp only [operandVariable]
    split_ifs with hasValue
    · constructor
      · rintro ⟨⟩
        exact ⟨rfl, hasValue⟩
      · rintro ⟨⟨⟩, -⟩
        rfl
    · constructor
      · intro impossible
        cases impossible
      · rintro ⟨⟨⟩, has⟩
        exact absurd has hasValue

theorem mem_instruction_uses : needed ∈ instructionUses types instruction ↔ Reads types instruction needed := by
  rw [instructionUses, Finset.mem_union, mem_toFinset, mem_filterMap, instruction_operands_eq, Reads]
  simp only [operand_variable_iff]
  constructor
  · rintro (⟨operand, member, rfl, hasValue⟩ | isObject)
    · exact .inl ⟨member, hasValue⟩
    · exact .inr isObject
  · rintro (⟨member, hasValue⟩ | isObject)
    · exact .inl ⟨_, member, rfl, hasValue⟩
    · exact .inr isObject

theorem definition_type_dest {ty : Ty} (isDefinition : instructionDefinitionType instruction = some (name, ty)) :
    instruction.dest = some name := by
  cases instruction with
  | scalar instruction => cases instruction <;> simp_all [instructionDefinitionType, Instruction.dest]
  | arrayGet dest array index =>
    simp only [instructionDefinitionType] at isDefinition
    split at isDefinition
    all_goals simp_all [Instruction.dest]
  | callIndirect dest | invokeInterface _ _ _ _ dest | invokeVirtual dest | invokeStatic dest
  | invokeRustStatic dest =>
    cases dest <;> simp_all [instructionDefinitionType, Instruction.dest]
  | _ => simp_all [instructionDefinitionType, Instruction.dest]

theorem definition_dest (defines : instructionDefinitions instruction = some name) :
    instruction.dest = some name := by
  obtain ⟨definition, isDefinition, rfl⟩ := Option.map_eq_some_iff.mp defines
  exact definition_type_dest (Option.filter_eq_some_iff.mp isDefinition).1

theorem mem_fold_uses (instructions : List Instruction) (state : Finset Variable × Finset String) :
    needed ∈ (instructions.foldl (blockStep types) state).1 ↔
      needed ∈ state.1 ∨ needed.name ∉ state.2 ∧ ∃ (index : Nat) (instruction : Instruction),
        instructions[index]? = some instruction ∧ Reads types instruction needed ∧
          ∀ earlier ∈ instructions.take index, instructionDefinitions earlier ≠ some needed.name := by
  induction instructions generalizing state with
  | nil => simp
  | cons instruction rest ih =>
    rw [foldl_cons, ih]
    simp only [blockStep, Finset.mem_union, Finset.mem_filter, mem_instruction_uses, Option.mem_toFinset,
      Option.mem_def, not_or]
    constructor
    · rintro ((known | ⟨reads, fresh⟩) | ⟨⟨fresh, keeps⟩, index, later, isLater, reads, earlier⟩)
      · exact .inl known
      · exact .inr ⟨fresh, 0, instruction, rfl, reads, by simp⟩
      · refine .inr ⟨fresh, index + 1, later, isLater, reads, ?_⟩
        rw [take_succ_cons, forall_mem_cons]
        exact ⟨keeps, earlier⟩
    · rintro (known | ⟨fresh, index, later, isLater, reads, earlier⟩)
      · exact .inl (.inl known)
      · cases index with
        | zero =>
          cases isLater
          exact .inl (.inr ⟨reads, fresh⟩)
        | succ index =>
          rw [take_succ_cons, forall_mem_cons] at earlier
          exact .inr ⟨⟨fresh, earlier.1⟩, index, later, isLater, reads, earlier.2⟩

theorem mem_uses {instructions : List Instruction} :
    needed ∈ (blockSummary types instructions).1 ↔ ∃ (index : Nat) (instruction : Instruction),
      instructions[index]? = some instruction ∧ Reads types instruction needed ∧
        ∀ earlier ∈ instructions.take index, instructionDefinitions earlier ≠ some needed.name := by
  simp [blockSummary, mem_fold_uses]

end Summaries

/-! ### Successors -/

variable {instructions : List Instruction}

theorem region_started {target : String}
    (isRegion : region instructions = some target) : .unwindStart target ∈ instructions := by
  revert isRegion
  apply List.foldlRecOn (motive := fun active => active = some target → .unwindStart target ∈ instructions)
  · exact (nomatch ·)
  · intro active started instruction member isRegion
    unfold afterInstruction at isRegion
    split at isRegion
    · cases isRegion
      exact member
    · cases isRegion
    · exact started isRegion

variable {instruction : Instruction}

theorem goto_named {target : String} (isTarget : target ∈ gotoTargets instruction) :
    target ∈ namedBlocks instruction := by
  cases instruction with
  | scalar instruction =>
    cases instruction with
    | jump | branch | switch => simp_all [gotoTargets, role, namedBlocks, or_comm]
    | move dest src => cases src <;> simp [gotoTargets, role] at isTarget
    | _ => simp [gotoTargets, role] at isTarget
  | _ => simp [gotoTargets, role] at isTarget

theorem leaves_successor {body : CodeBlock} {label target : String} {needed : Variable}
    (isBlock : body.instructionsOf label = some instructions)
    (isInstruction : instructions[index]? = some instruction)
    (leaves : LeavesTo instructions index instruction needed target) :
    target ∈ successorsOf (successorMap body) label := by
  obtain ⟨block, found, rfl⟩ := Option.map_eq_some_iff.mp isBlock
  have isSuccessors : successorsOf (successorMap body) label = blockSuccessors block := by
    have mapped := SortedMap.lookup_map_values (fun _ (block : BasicBlock) => blockSuccessors block) label
      body.basicBlocks
    unfold successorsOf successorMap
    rw [mapped, found]
    rfl
  rw [isSuccessors, mem_block_successors]
  rcases leaves with isTarget | ⟨isRegion, -⟩
  · exact ⟨instruction, mem_of_getElem? isInstruction, goto_named isTarget⟩
  · exact ⟨_, mem_of_mem_take (region_started isRegion), by simp [namedBlocks]⟩

/-! ### The equations are solved -/

section Equations

variable {types : VariableTypes} {body : CodeBlock} {successors : List (String × List String)}
  {live : LiveVariables} {label : String} {needed : Variable}

theorem mem_fold_union {labels : List String} {out : Finset Variable} :
    needed ∈ labels.foldl (fun out successor => out ∪ live successor) out ↔
      needed ∈ out ∨ ∃ successor ∈ labels, needed ∈ live successor := by
  apply foldl_or_iff (needed ∈ ·)
  intro out successor
  exact Finset.mem_union

theorem mem_live_in : needed ∈ liveIn types body successors live label ↔
    ((∃ successor ∈ successorsOf successors label, needed ∈ live successor) ∧
        needed.name ∉ (summary types body label).2) ∨
      needed ∈ (summary types body label).1 := by
  simp [liveIn, mem_fold_union]

variable (types body) in
def usedVariables : Finset Variable :=
  (body.basicBlocks.map Prod.fst).toFinset.biUnion fun label => (summary types body label).1

theorem uses_within (label : String) : (summary types body label).1 ⊆ usedVariables types body := by
  intro needed isUsed
  cases isBlock : body.instructionsOf label with
  | none =>
    rw [summary, isBlock] at isUsed
    cases isUsed
  | some instructions =>
    obtain ⟨block, member, -⟩ := CodeBlock.mem_of_instructions_of isBlock
    rw [usedVariables, Finset.mem_biUnion]
    exact ⟨label, mem_toFinset.mpr (mem_map_of_mem member), isUsed⟩

theorem live_in_bounded : RoundRobin.Bounded (liveIn types body successors) (usedVariables types body) where
  mono := by
    intro lower upper below label needed
    rw [mem_live_in, mem_live_in]
    rintro (⟨⟨successor, isSuccessor, isLive⟩, kept⟩ | isUsed)
    · exact .inl ⟨⟨successor, isSuccessor, below successor isLive⟩, kept⟩
    · exact .inr isUsed
  within := by
    intro facts within label needed
    rw [mem_live_in]
    rintro (⟨⟨successor, -, isLive⟩, -⟩ | isUsed)
    · exact within successor isLive
    · exact uses_within label isUsed

/-- The rounds end, and the equation of every block holds. -/
theorem live_variables_solved
    (enough : body.basicBlocks.length * (usedVariables types body).card < fuel) :
    ∃ live, liveVariables types body successors fuel = some live ∧
      ∀ label instructions, body.instructionsOf label = some instructions →
        liveIn types body successors live label = live label := by
  have start : RoundRobin.Growing (liveIn types body successors) (usedVariables types body) fun _ => ∅ := by
    constructor
    · simp
    · simp
  have fueled : (sorted (body.basicBlocks.map Prod.fst)).reverse.toFinset.card *
      (usedVariables types body).card < fuel + RoundRobin.total
        (sorted (body.basicBlocks.map Prod.fst)).reverse fun _ => (∅ : Finset Variable) := by
    have few := toFinset_card_le (sorted (body.basicBlocks.map Prod.fst)).reverse
    rw [length_reverse, (sorted_perm _).length_eq, length_map] at few
    have less := Nat.mul_le_mul_right (usedVariables types body).card few
    omega
  obtain ⟨live, ran⟩ := RoundRobin.solve_ends live_in_bounded start fueled
  refine ⟨live, ran, ?_⟩
  intro label instructions isBlock
  obtain ⟨block, member, -⟩ := CodeBlock.mem_of_instructions_of isBlock
  apply RoundRobin.solve_solved ran
  rw [mem_reverse, (sorted_perm _).mem_iff]
  exact mem_map_of_mem member

end Equations

/-! ### Completeness -/

section Completeness

variable {types : VariableTypes} {body : CodeBlock} {live : LiveVariables} {needed : Variable}
  (solved : ∀ label instructions, body.instructionsOf label = some instructions →
    liveIn types body (successorMap body) live label = live label)
include solved

variable {label : String} {instructions : List Instruction}

theorem live_iff (isBlock : body.instructionsOf label = some instructions) : needed ∈ live label ↔
      ((∃ successor ∈ successorsOf (successorMap body) label, needed ∈ live successor) ∧
          needed.name ∉ (blockSummary types instructions).2) ∨
        needed ∈ (blockSummary types instructions).1 := by
  rw [← solved label instructions isBlock, mem_live_in, summary, isBlock]
  rfl

/-- What a path from the middle of a block reads is live at the start of the block, if the
block did not assign it before. -/
theorem live_of_reads_ahead (covered : ExitsCovered types body)
    (ahead : ReadsAhead types body needed label index)
    (isBlock : body.instructionsOf label = some instructions)
    (goOn : ∀ earlier ∈ instructions.take index, GoesOn earlier)
    (keep : ∀ earlier ∈ instructions.take index, earlier.dest ≠ some needed.name) : needed ∈ live label := by
  induction ahead generalizing instructions with
  | @read label index instructions instruction isBlock' isInstruction reads =>
    cases isBlock'.symm.trans isBlock
    rw [live_iff solved isBlock, mem_uses]
    refine .inr ⟨index, instruction, isInstruction, reads, ?_⟩
    intro earlier member defines
    exact keep earlier member (definition_dest defines)
  | @next label index instructions instruction isBlock' isInstruction goesOn keeps _ ih =>
    cases isBlock'.symm.trans isBlock
    have isTake : instructions.take (index + 1) = instructions.take index ++ [instruction] := by
      rw [take_add_one, isInstruction]
      rfl
    apply ih isBlock
    · intro earlier member
      rw [isTake, mem_append, mem_singleton] at member
      rcases member with before | rfl
      · exact goOn earlier before
      · exact goesOn
    · intro earlier member
      rw [isTake, mem_append, mem_singleton] at member
      rcases member with before | rfl
      · exact keep earlier before
      · exact keeps
  | @leave label index instructions instruction target isBlock' isInstruction leaves ahead ih =>
    cases isBlock'.symm.trans isBlock
    have isLive : needed ∈ live target := by
      obtain ⟨others, isTarget⟩ := ahead.exists_block
      exact ih isTarget (by simp) (by simp)
    rw [live_iff solved isBlock]
    rcases covered label instructions index instruction needed target isBlock isInstruction goOn leaves ahead
      with ⟨earlier, member, assigns⟩ | isUsed | kept
    · exact absurd assigns (keep earlier member)
    · exact .inr isUsed
    · exact .inl ⟨⟨target, leaves_successor isBlock isInstruction leaves, isLive⟩, kept⟩

omit solved in
theorem reads_ahead_from_start
    (ahead : ReadsAhead types body needed label index) (isBlock : body.instructionsOf label = some instructions)
    (goOn : ∀ earlier ∈ instructions.take index, GoesOn earlier)
    (keep : ∀ earlier ∈ instructions.take index, earlier.dest ≠ some needed.name)
    (bound : index ≤ instructions.length) : ReadsAhead types body needed label 0 := by
  induction index with
  | zero => exact ahead
  | succ index ih =>
    have isInstruction : instructions[index]? = some instructions[index] := List.getElem?_eq_getElem bound
    have isTake : instructions.take (index + 1) = instructions.take index ++ [instructions[index]] := by
      rw [take_add_one, isInstruction]
      rfl
    rw [isTake] at goOn keep
    simp only [mem_append, mem_singleton, or_imp, forall_and, forall_eq] at goOn keep
    exact ih (.next isBlock isInstruction goOn.2 keep.2 ahead) goOn.1 keep.1 (by omega)

end Completeness

/-- A block that assigns a variable after a call that may throw; the cleanup reads the variable. -/
def lateAssignment : Function :=
  plainFunction "lateAssignment" [
    ("entry", ⟨"entry", [.move "_2" (.constant (.int .i32 0)), .jump "work"]⟩),
    ("work", ⟨"work", [.unwindStart "cleanup", .invokeStatic none "Main" "mayThrow" ⟨[], .void, true⟩ [],
      .move "_2" (.constant (.int .i32 1)), .unwindEnd, .jump "done"]⟩),
    ("cleanup", ⟨"cleanup", [.invokeStatic none "Main" "report" ⟨[("value", .int .i32)], .void, true⟩
      [.variable "_2" (.int .i32)], .rethrow]⟩),
    ("done", ⟨"done", [.return (some (.variable "_2" (.int .i32)))]⟩)]

end RustcCodegenJvm.Lower2
