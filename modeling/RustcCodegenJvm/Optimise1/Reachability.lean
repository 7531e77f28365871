import RustcCodegenJvm.Library.Dataflow
import RustcCodegenJvm.Oomir.Execution

/-!
# Successors of blocks

`get_instruction_successors` and `get_block_successors` of
`optimise1/reachability.rs`, and that control leaves a block only to them.
-/

namespace RustcCodegenJvm.Optimise1

open Program Library.Dataflow

def getInstructionSuccessors : Instruction → List String
  | .scalar (.jump target) => [target]
  | .unwindStart target => [target]
  | .scalar (.branch _ trueBlock falseBlock) => [trueBlock, falseBlock]
  | .scalar (.switch _ targets otherwise) => targets.map Prod.snd ++ [otherwise]
  | _ => []

def getBlockSuccessors (instructions : List Instruction) : List String :=
  instructions.foldl (fun successors instruction =>
    (getInstructionSuccessors instruction).foldl pushAbsent successors) []

section Successors

variable {successor : String} {instructions : List Instruction}

theorem mem_block_successors : successor ∈ getBlockSuccessors instructions ↔
      ∃ instruction ∈ instructions, successor ∈ getInstructionSuccessors instruction := by
  have each (found : List String) (instruction : Instruction) :
      successor ∈ (getInstructionSuccessors instruction).foldl pushAbsent found ↔
        successor ∈ found ∨ successor ∈ getInstructionSuccessors instruction := mem_push_all_absent
  rw [getBlockSuccessors, Library.foldl_or_iff (successor ∈ ·) each]
  simp

theorem goto_successor {instruction : Instruction} {targets : List String} {otherwise : String}
    (isGoto : instruction.role = .goto targets otherwise) (member : successor ∈ otherwise :: targets) :
    successor ∈ getInstructionSuccessors instruction := by
  unfold Instruction.role at isGoto
  split at isGoto
  all_goals cases isGoto
  all_goals simp only [getInstructionSuccessors, List.mem_append, List.mem_cons, List.not_mem_nil] at member ⊢
  all_goals tauto

end Successors

end RustcCodegenJvm.Optimise1
