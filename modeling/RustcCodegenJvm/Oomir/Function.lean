import RustcCodegenJvm.Oomir.Interpret

/-!
# OOMIR functions

The instructions of `oomir.rs` on scalars, the ones that transfer control, and
the construction of an object. Instructions that emit no code (source
locations, variable scopes) are left out.
-/

namespace RustcCodegenJvm.Oomir

inductive Instruction
  | arithmetic (op : ArithmeticOp) (dest : String) (op1 op2 : Operand)
  | bitwise (op : BitwiseOp) (dest : String) (op1 op2 : Operand)
  | comparison (op : ComparisonOp) (dest : String) (op1 op2 : Operand)
  | shift (op : ShiftOp) (dest : String) (op1 op2 : Operand)
  | not (dest : String) (src : Operand)
  | neg (dest : String) (src : Operand)
  | move (dest : String) (src : Operand)
  | jump (target : String)
  | branch (condition : Operand) (trueBlock falseBlock : String)
  | switch (discr : Operand) (targets : List (Constant × String)) (otherwise : String)
  | label (name : String)
  | constructObject (dest className : String) (args : List (Operand × Ty))
  | return (operand : Option Operand)

structure BasicBlock where
  label : String
  instructions : List Instruction

structure CodeBlock where
  basicBlocks : List (String × BasicBlock)
  entry : String

structure Signature where
  params : List (String × Ty)
  ret : Ty
  isStatic : Bool

structure Function where
  name : String
  ownerClass : Option String
  signature : Signature
  body : CodeBlock

def callerLocationParamName : String := "__caller_location"

/-- The blocks control can reach from a block, in the order they are laid out. -/
def layoutSuccessors (block : BasicBlock) : List String :=
  match block.instructions.getLast? with
  | some (.jump target) => [target]
  | some (.branch _ trueBlock falseBlock) => [falseBlock, trueBlock].eraseDups
  | some (.switch _ targets otherwise) => (otherwise :: targets.map Prod.snd).eraseDups
  | _ => []

end RustcCodegenJvm.Oomir
