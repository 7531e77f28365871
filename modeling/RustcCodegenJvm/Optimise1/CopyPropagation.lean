import RustcCodegenJvm.Optimise1.CopyAliases

/-!
# Copy propagation

`propagate_copies` of `optimise1/copyprop.rs`: reads of a copy become reads of
its source. The aliases recorded at a point hold whenever a run is there, and
the rewritten function then runs as the original one, as long as the aliases at
the start of a cleanup block hold wherever its region can be left by an
exception; the analysis takes them from the end of the block.
-/

namespace RustcCodegenJvm.Optimise1

open Oomir (Ty Operand)
open Program Library

/-! ### Rewriting -/

section Rewriting

variable {locals : List String}

def rewriteOperand (aliases : AliasMap locals) : Operand → Operand
  | .constant value => .constant value
  | .variable name ty =>
    match aliases.alias? name with
    | some known => if known.ty = ty then .variable known.source ty else .variable name ty
    | none => .variable name ty

def rewriteVariableName (aliases : AliasMap locals) (name : String) : String :=
  match aliases.alias? name with
  | some known => known.source
  | none => name

def rewriteInstructionUses (aliases : AliasMap locals) (instruction : Instruction) : Instruction :=
  instruction.mapReads (rewriteOperand aliases) (rewriteVariableName aliases)

/-- The aliases the rewriting goes on with, taken from the rewritten instruction. -/
def rewritingStep (debugLocals : List String) (aliases : AliasMap locals) (instruction : Instruction) :
    AliasMap locals :=
  transferAliasesThroughInstruction debugLocals aliases (rewriteInstructionUses aliases instruction)

def propagateBlock (debugLocals : List String) : AliasMap locals → List Instruction → List Instruction
  | _, [] => []
  | aliases, instruction :: rest =>
    rewriteInstructionUses aliases instruction ::
      propagateBlock debugLocals (rewritingStep debugLocals aliases instruction) rest

variable (debugLocals : List String) (aliases : AliasMap locals) (instructions : List Instruction)

theorem propagate_block_at (index : Nat) :
    (propagateBlock debugLocals aliases instructions)[index]? =
      instructions[index]?.map (rewriteInstructionUses
        ((instructions.take index).foldl (rewritingStep debugLocals) aliases)) := by
  induction instructions generalizing aliases index with
  | nil => rfl
  | cons instruction rest ih =>
    cases index with
    | zero => rfl
    | succ index => simpa [propagateBlock] using ih _ index

theorem after_rewritten (active : Option String) (aliases : AliasMap locals) (instruction : Instruction) :
    afterInstruction active (rewriteInstructionUses aliases instruction) =
      afterInstruction active instruction := by
  cases instruction with
  | scalar instruction => cases instruction <;> rfl
  | _ => rfl

theorem region_propagated (index : Nat) :
    region ((propagateBlock debugLocals aliases instructions).take index) =
      region (instructions.take index) := by
  have general (active : Option String) :
      ((propagateBlock debugLocals aliases instructions).take index).foldl afterInstruction active =
        (instructions.take index).foldl afterInstruction active := by
    induction instructions generalizing aliases index active with
    | nil => rfl
    | cons instruction rest ih =>
      cases index with
      | zero => rfl
      | succ index => simp [propagateBlock, after_rewritten, ih]
  exact general none

end Rewriting

def propagateCopies (function : Function) (entryAliases : String → AliasMap (localNames function)) :
    Function :=
  { function with
    body := function.body.mapBlocks fun label =>
      propagateBlock (debugLocals function) (entryAliases label) }

/-! ### Aliases that hold -/

section Holding

variable {Value World : Type} {environment : Environment Value World} {locals : List String}
  {aliases : AliasMap locals} {store : Store Value} {world later : World} {instruction : Instruction}

def Holds (aliases : AliasMap locals) (store : Store Value) : Prop :=
  ∀ name value, aliases.alias? name = some value → store name = store value.source

variable {assigned : Option (String × Value)} {name : String}

theorem assign_other
    (other : assigned.map Prod.fst ≠ some name) : assign assigned store name = store name := by
  unfold assign
  split
  · next dest value =>
    apply Function.update_of_ne
    intro same
    exact other (by rw [same]; rfl)
  · rfl

theorem assign_apart {dest : String} (apart : dest ≠ name) (value : Value) :
    assign (some (dest, value)) store name = store name :=
  Function.update_of_ne (Ne.symm apart) _ _

theorem assign_dest (isDest : assigned.map Prod.fst = some name) :
    assign assigned store name = assigned.map Prod.snd := by
  obtain ⟨⟨dest, value⟩, isAssigned, rfl⟩ := Option.map_eq_some_iff.mp isDest
  rw [isAssigned]
  exact Function.update_self _ _ _

theorem transfer_holds {debugLocals : List String}
    (isLocal : ∀ dest, instruction.dest = some dest → dest ∈ locals) (holds : Holds aliases store)
    (ran : execute environment instruction store world = .next assigned later) :
    Holds (transferAliasesThroughInstruction debugLocals aliases instruction) (assign assigned store) := by
  obtain ⟨isDest, copies⟩ := execute_next ran
  intro name value found
  rcases transfer_instruction_cases found with ⟨src, isMove, copied, apart⟩ | killed
  · obtain ⟨source, rfl, resolved⟩ := move_alias_cases copied
    have assignsName : assigned.map Prod.fst = some name := by
      rw [isDest, isMove]
      rfl
    have keepsSource : assigned.map Prod.fst ≠ some value.source := by
      rw [assignsName]
      simpa using apart
    have sameSource : store source = store value.source := by
      rcases resolved with isAlias | ⟨isSource, -⟩
      · exact holds source value isAlias
      · rw [isSource]
    rw [assign_dest assignsName, assign_other keepsSource, copies name source value.ty isMove, sameSource]
  · obtain ⟨before, kept⟩ := kill_definition_cases killed
    have keeps (other : String) (apart : ∀ dest ∈ locals, instruction.dest = some dest → other ≠ dest) :
        assigned.map Prod.fst ≠ some other := by
      intro isOther
      rw [isDest] at isOther
      exact apart other (isLocal other isOther) isOther rfl
    rw [assign_other (keeps name fun dest member isDest => (kept dest member isDest).1),
      assign_other (keeps value.source fun dest member isDest => (kept dest member isDest).2)]
    exact holds name value before

/-- Reading through aliases that hold changes nothing. -/
theorem execute_rewritten (holds : Holds aliases store) :
    execute environment (rewriteInstructionUses aliases instruction) store world =
      execute environment instruction store world := by
  apply execute_renamed
  constructor
  · intro value
    rfl
  · intro source ty
    simp only [rewriteOperand]
    split
    · next known isKnown =>
      split
      · exact ⟨known.source, rfl, (holds source known isKnown).symm⟩
      · exact ⟨source, rfl, rfl⟩
    · exact ⟨source, rfl, rfl⟩
  · intro source
    unfold rewriteVariableName
    split
    · next known isKnown => exact (holds source known isKnown).symm
    · rfl

end Holding

/-! ### The equations of the analysis -/

section Solution

variable {function : Function} {label : String} {instructions : List Instruction}

theorem mem_labels
    (isBlock : function.body.instructionsOf label = some instructions) : label ∈ labels function := by
  obtain ⟨block, member, -⟩ := CodeBlock.mem_of_instructions_of isBlock
  rw [labels, List.mem_insertionSort, List.mem_dedup]
  exact List.mem_map.mpr ⟨(label, block), member, rfl⟩

theorem dest_local {instruction : Instruction}
    (isBlock : function.body.instructionsOf label = some instructions) (member : instruction ∈ instructions)
    {dest : String} (isDest : instruction.dest = some dest) : dest ∈ localNames function := by
  obtain ⟨block, isIn, rfl⟩ := CodeBlock.mem_of_instructions_of isBlock
  rw [localNames, List.mem_dedup, List.mem_append]
  right
  rw [List.mem_flatMap]
  refine ⟨(label, block), isIn, ?_⟩
  rw [List.mem_flatMap]
  refine ⟨instruction, member, ?_⟩
  simp [instructionDef, isDest]

theorem alias_problem_local : (aliasProblem function).Local := by
  intro label other exits changed independent
  have notPredecessor : other ∉ predecessors function label := by
    intro isPredecessor
    exact independent (of_decide_eq_true (List.mem_filter.mp isPredecessor).2)
  unfold aliasProblem
  dsimp only
  split
  · rfl
  · apply le_antisymm
    all_goals
      intro name value found
      rw [meet_predecessor_aliases] at found ⊢
      refine ⟨found.1, ?_⟩
      intro predecessor member
      have apart : predecessor ≠ other := fun same => notPredecessor (same ▸ member)
      simpa [apart] using found.2 predecessor member

variable {fuel : Nat} {entryAliases : String → AliasMap (localNames function)}

variable (ran : analyzeCopyAliases function fuel = some entryAliases)

include ran

/-- What the analysis returns solves its equations. -/
theorem analyze_copy_aliases_solves :
    ∃ exitAliases : String → AliasMap (localNames function), ∀ label ∈ labels function,
      entryAliases label = (aliasProblem function).gather label exitAliases ∧
        exitAliases label = (aliasProblem function).transfer label (entryAliases label) := by
  obtain ⟨result, isResult, rfl⟩ := Option.map_eq_some_iff.mp ran
  refine ⟨result.output, ?_⟩
  apply Dataflow.Problem.run_solves alias_problem_local _ isResult
  exact fun _ member => .inl member

theorem entry_below_exit {target : String}
    (isBlock : function.body.instructionsOf label = some instructions)
    (isSuccessor : target ∈ getBlockSuccessors instructions) (isTarget : target ∈ labels function) :
    entryAliases target ≤
      transferAliasesThroughBlock (debugLocals function) instructions (entryAliases label) := by
  obtain ⟨exitAliases, solves⟩ := analyze_copy_aliases_solves ran
  have isExit := (solves label (mem_labels isBlock)).2
  have isEntry := (solves target isTarget).1
  unfold aliasProblem at isExit isEntry
  simp only [isBlock] at isExit
  intro name value found
  rw [isEntry] at found
  dsimp only at found
  split at found
  · cases found
  · have isPredecessor : label ∈ predecessors function target := by
      apply List.mem_filter.mpr
      refine ⟨mem_labels isBlock, ?_⟩
      simp [successors, isBlock, isSuccessor, isTarget]
    rw [← isExit]
    exact (meet_predecessor_aliases.mp found).2 label isPredecessor

end Solution

/-! ### Runs -/

section Runs

variable {Value World : Type} (environment : Environment Value World) (function : Function)
  (entryAliases : String → AliasMap (localNames function))

def aliasesAt (label : String) (index : Nat) : AliasMap (localNames function) :=
  match function.body.instructionsOf label with
  | some instructions =>
    transferAliasesThroughBlock (debugLocals function) (instructions.take index) (entryAliases label)
  | none => .empty

def CanThrow (instruction : Instruction) : Prop :=
  ∃ values world exception later, act environment instruction values world = .thrown exception later

/-- A jump is followed by no definition in its block. -/
def JumpsEndBlocks : Prop :=
  ∀ label instructions index instruction targets otherwise,
    function.body.instructionsOf label = some instructions →
    instructions[index]? = some instruction → instruction.role = .goto targets otherwise →
      ∀ later ∈ instructions.drop index, later.dest = none

/-- When block ends stand for the places where control leaves: the aliases a cleanup block
starts with are there before every instruction of its regions that can throw, and do not
mention the exception. -/
structure LeavesWithAliases : Prop where
  jumps : JumpsEndBlocks function
  cleanups : ∀ label instructions index instruction target,
    function.body.instructionsOf label = some instructions →
    instructions[index]? = some instruction → CanThrow environment instruction →
    region (instructions.take index) = some target →
      ∀ name value, (entryAliases target).alias? name = some value →
        (aliasesAt function entryAliases label index).alias? name = some value ∧
          name ≠ unwindExceptionLocal ∧ value.source ≠ unwindExceptionLocal

def rewritingAliasesAt (label : String) (index : Nat) : AliasMap (localNames function) :=
  match function.body.instructionsOf label with
  | some instructions =>
    (instructions.take index).foldl (rewritingStep (debugLocals function)) (entryAliases label)
  | none => .empty

/-- Where a run is, the recorded aliases and those of the rewriting hold. -/
def AliasesHold : Outcome Value World → Prop
  | .running label index state =>
    Holds (aliasesAt function entryAliases label index) state.store ∧
      Holds (rewritingAliasesAt function entryAliases label index) state.store
  | _ => True

variable {environment function entryAliases} {label target : String} {index : Nat}
  {instructions : List Instruction} {instruction : Instruction} {state : State Value World}

theorem aliases_at_block (isBlock : function.body.instructionsOf label = some instructions) :
    aliasesAt function entryAliases label index =
      transferAliasesThroughBlock (debugLocals function) (instructions.take index) (entryAliases label) ∧
    rewritingAliasesAt function entryAliases label index =
      (instructions.take index).foldl (rewritingStep (debugLocals function)) (entryAliases label) := by
  simp [aliasesAt, rewritingAliasesAt, isBlock]

theorem aliases_hold_at_start (holds : target ∈ labels function → Holds (entryAliases target) state.store) :
    AliasesHold function entryAliases (.running target 0 state) := by
  simp only [AliasesHold, aliasesAt, rewritingAliasesAt]
  cases isBlock : function.body.instructionsOf target with
  | some instructions => exact ⟨holds (mem_labels isBlock), holds (mem_labels isBlock)⟩
  | none =>
    constructor
    all_goals
      intro name value found
      cases found

theorem transfer_without_definitions {locals debugLocals : List String} {aliases : AliasMap locals}
    (noDefinition : ∀ instruction ∈ instructions, instruction.dest = none) :
    transferAliasesThroughBlock debugLocals instructions aliases = aliases := by
  apply List.foldlRecOn (motive := (· = aliases)) _ _ rfl
  rintro _ rfl instruction member
  have here := noDefinition instruction member
  unfold transferAliasesThroughInstruction
  split
  · cases here
  · simp [killDefinition, instructionDef, here]

section Leaving

variable (isBlock : function.body.instructionsOf label = some instructions)
  (isInstruction : instructions[index]? = some instruction)
  (holds : AliasesHold function entryAliases (.running label index state))

include isBlock isInstruction holds

theorem aliases_hold_next {assigned : Option (String × Value)} {world : World}
    (executed : execute environment instruction state.store state.world = .next assigned world) :
    AliasesHold function entryAliases (.running label (index + 1) ⟨assign assigned state.store, world⟩) := by
  obtain ⟨recorded, rewriting⟩ := holds
  have member : instruction ∈ instructions := List.mem_of_getElem? isInstruction
  have isTaken : instructions.take (index + 1) = instructions.take index ++ [instruction] := by
    rw [List.take_add_one, isInstruction]
    rfl
  simp only [AliasesHold]
  rw [(aliases_at_block isBlock).1] at recorded ⊢
  rw [(aliases_at_block isBlock).2] at rewriting ⊢
  rw [isTaken, transferAliasesThroughBlock, List.foldl_append, List.foldl_append]
  constructor
  · exact transfer_holds (fun dest isDest => dest_local isBlock member isDest) recorded executed
  · apply transfer_holds _ rewriting ((execute_rewritten rewriting).trans executed)
    intro dest isDest
    rw [rewriteInstructionUses, Instruction.dest_map_reads] at isDest
    exact dest_local isBlock member isDest

theorem aliases_hold_goto {fuel : Nat} (ran : analyzeCopyAliases function fuel = some entryAliases)
    (leaves : LeavesWithAliases environment function entryAliases)
    (executed : execute environment instruction state.store state.world = .goto target) :
    AliasesHold function entryAliases (.running target 0 state) := by
  apply aliases_hold_at_start
  intro isTarget
  obtain ⟨targets, otherwise, isGoto, isOne⟩ := execute_goto executed
  have isSuccessor : target ∈ getBlockSuccessors instructions := by
    rw [mem_block_successors]
    exact ⟨instruction, List.mem_of_getElem? isInstruction, goto_successor isGoto isOne⟩
  have below := entry_below_exit ran isBlock isSuccessor isTarget
  have noDefinition := leaves.jumps label instructions index instruction targets otherwise isBlock
    isInstruction isGoto
  have atEnd : transferAliasesThroughBlock (debugLocals function) instructions (entryAliases label) =
      aliasesAt function entryAliases label index := by
    conv_lhs => rw [← List.take_append_drop index instructions]
    rw [(aliases_at_block isBlock).1, transferAliasesThroughBlock, List.foldl_append]
    exact transfer_without_definitions noDefinition
  rw [atEnd] at below
  intro name value found
  exact holds.1 name value (below name value found)

theorem aliases_hold_cleanup {exception : Value} {world : World}
    (leaves : LeavesWithAliases environment function entryAliases)
    (executed : execute environment instruction state.store state.world = .thrown exception world)
    (isRegion : region (instructions.take index) = some target) : AliasesHold function entryAliases
      (.running target 0 ⟨assign (some (unwindExceptionLocal, exception)) state.store, world⟩) := by
  apply aliases_hold_at_start
  intro _ name value found
  obtain ⟨values, -, acted⟩ := execute_ran executed (by simp)
  obtain ⟨before, notException, sourceNotException⟩ := leaves.cleanups label instructions index instruction
    target isBlock isInstruction ⟨values, state.world, exception, world, acted⟩ isRegion name value found
  simp only [assign_apart (Ne.symm notException), assign_apart (Ne.symm sourceNotException)]
  exact holds.1 name value before

end Leaving

theorem aliases_hold_step {fuel next : Nat} {after : State Value World}
    (ran : analyzeCopyAliases function fuel = some entryAliases)
    (leaves : LeavesWithAliases environment function entryAliases)
    (holds : AliasesHold function entryAliases (.running label index state))
    (stepped : step environment function.body label index state = .running target next after) :
    AliasesHold function entryAliases (.running target next after) := by
  obtain ⟨instructions, instruction, isBlock, isInstruction, ways⟩ := step_running stepped
  rcases ways with ⟨assigned, executed, rfl, rfl, isAfter⟩ | ⟨executed, rfl, rfl⟩ |
    ⟨exception, executed, isRegion, rfl, isAfter⟩
  · have kept := aliases_hold_next isBlock isInstruction holds executed
    rwa [← isAfter] at kept
  · exact aliases_hold_goto isBlock isInstruction holds ran leaves executed
  · have kept := aliases_hold_cleanup isBlock isInstruction holds leaves executed isRegion
    rwa [← isAfter] at kept

theorem step_propagated (holds : AliasesHold function entryAliases (.running label index state)) :
    step environment (propagateCopies function entryAliases).body label index state =
      step environment function.body label index state := by
  unfold step
  rw [propagateCopies, CodeBlock.instructions_of_map_blocks]
  cases isBlock : function.body.instructionsOf label with
  | none => rfl
  | some instructions =>
    dsimp only [Option.map_some]
    rw [propagate_block_at]
    cases isInstruction : instructions[index]? with
    | none => rfl
    | some instruction =>
      have rewriting := holds.2
      rw [(aliases_at_block isBlock).2] at rewriting
      dsimp only [Option.map_some]
      rw [execute_rewritten rewriting]
      unfold proceed
      rw [region_propagated]

end Runs

/-! ### Copies and a call that throws -/

section Calls

def assignInt (dest : String) (value : BitVec 32) : Instruction := .move dest (.constant (.int .i32 value))

/-- Calls throw unless they make a pointer, constants are their numbers, and other instructions
give back what they read. -/
def failingCalls : Environment Int Unit where
  perform instruction values _ :=
    match instruction with
    | .invokeStatic _ className _ _ _ =>
      if className = Oomir.pointerClass then .value 0 () else .exception (-1) ()
    | .scalar (.move _ (.constant (.int kind bits))) => .value (kind.value bits) ()
    | _ => .value (values.headD 0) ()
  select _ _ := 0

def unassigned : State Int Unit := ⟨fun _ => none, ()⟩

def earlyCopy : Function :=
  plainFunction "early_copy"
    [("entry", ⟨"entry", [assignInt "s" 2, .move "d" (.variable "s" (.int .i32)), .unwindStart "cleanup",
        .invokeStatic none "Test" "fail" ⟨[], .void, true⟩ [], .unwindEnd, .jump "exit"]⟩),
      ("exit", ⟨"exit", [.return none]⟩),
      ("cleanup", ⟨"cleanup", [.return (some (.variable "d" (.int .i32)))]⟩)]

def copied : AliasMap (localNames earlyCopy) := AliasMap.empty.insert "d" ⟨"s", .int .i32⟩

theorem early_copy_leaves {entryAliases : String → AliasMap (localNames earlyCopy)}
    (ran : analyzeCopyAliases earlyCopy 10 = some entryAliases) :
    LeavesWithAliases failingCalls earlyCopy entryAliases := by
  have blocks (label : String) (instructions : List Instruction)
      (isBlock : earlyCopy.body.instructionsOf label = some instructions) :
      label = "entry" ∨ ∃ operand, instructions = [.return operand] := by
    simp only [earlyCopy, plainFunction, CodeBlock.instructionsOf, SortedMap.lookup_cons] at isBlock
    split_ifs at isBlock with isEntry isExit isCleanup
    · exact .inl isEntry
    · cases isBlock
      exact .inr ⟨_, rfl⟩
    · cases isBlock
      exact .inr ⟨_, rfl⟩
    · cases isBlock
  have known : (analyzeCopyAliases earlyCopy 10).map (fun entryAliases =>
      decide (entryAliases "cleanup" = copied ∧ aliasesAt earlyCopy entryAliases "entry" 3 = copied)) =
        some true := by
    decide +kernel
  rw [ran] at known
  obtain ⟨atCleanup, atCall⟩ := of_decide_eq_true (Option.some.inj known)
  constructor
  · intro label instructions index instruction targets otherwise isBlock isInstruction isGoto later member
    rcases blocks label instructions isBlock with rfl | ⟨operand, rfl⟩
    · cases isBlock
      match index with
      | 0 | 1 | 2 | 3 | 4 =>
        cases isInstruction
        cases isGoto
      | 5 =>
        rw [List.mem_singleton.mp member]
        rfl
      | index + 6 => cases isInstruction
    · match index with
      | 0 =>
        cases isInstruction
        cases isGoto
      | index + 1 => cases isInstruction
  · intro label instructions index instruction target isBlock isInstruction canThrow isRegion name value found
    obtain ⟨values, world, exception, later, thrown⟩ := canThrow
    rcases blocks label instructions isBlock with rfl | ⟨operand, rfl⟩
    · cases isBlock
      match index with
      | 0 | 1 | 2 => cases isRegion
      | 3 =>
        cases isRegion
        rw [atCleanup] at found
        rw [atCall]
        rcases AliasMap.alias_insert found with ⟨rfl, rfl⟩ | absent
        · exact ⟨found, by decide, by decide⟩
        · cases absent
      | 4 =>
        cases isInstruction
        cases thrown
      | 5 => cases isRegion
      | index + 6 => cases isInstruction
    · match index with
      | 0 => cases isRegion
      | index + 1 => cases isInstruction

def lateCopy : Function :=
  plainFunction "late_copy"
    [("entry", ⟨"entry", [assignInt "d" 1, assignInt "s" 2, .unwindStart "cleanup",
        .invokeStatic none "Test" "fail" ⟨[], .void, true⟩ [], .move "d" (.variable "s" (.int .i32)),
        .unwindEnd, .jump "exit"]⟩),
      ("exit", ⟨"exit", [.return none]⟩),
      ("cleanup", ⟨"cleanup", [.return (some (.variable "d" (.int .i32)))]⟩)]

end Calls

end RustcCodegenJvm.Optimise1
