import RustcCodegenJvm.Oomir.ConstantEquality
import RustcCodegenJvm.Oomir.Execution

/-!
# Equality of instructions

The derived `==` of instructions compares all parts, and so compares float
constants as numbers. Equal instructions differ at most in the bits of their
constants; in particular they name the same targets.
-/

namespace RustcCodegenJvm.Oomir

deriving instance DecidableEq for Signature

namespace Operand

def sameOption : Option Operand → Option Operand → Bool
  | some operand, some operand' => operand.same operand'
  | none, none => true
  | _, _ => false

def sameList : List Operand → List Operand → Bool
  | [], [] => true
  | operand :: rest, operand' :: rest' => operand.same operand' && sameList rest rest'
  | _, _ => false

def sameTyped : List (Operand × Ty) → List (Operand × Ty) → Bool
  | [], [] => true
  | (operand, ty) :: rest, (operand', ty') :: rest' =>
    operand.same operand' && decide (ty = ty') && sameTyped rest rest'
  | _, _ => false

end Operand

def sameTargets : List (Constant × String) → List (Constant × String) → Bool
  | [], [] => true
  | (value, target) :: rest, (value', target') :: rest' =>
    value.same value' && target == target' && sameTargets rest rest'
  | _, _ => false

def Instruction.same : Instruction → Instruction → Bool
  | .arithmetic op dest op1 op2, .arithmetic op' dest' op1' op2' =>
    decide (op = op') && dest == dest' && op1.same op1' && op2.same op2'
  | .bitwise op dest op1 op2, .bitwise op' dest' op1' op2' =>
    decide (op = op') && dest == dest' && op1.same op1' && op2.same op2'
  | .comparison op dest op1 op2, .comparison op' dest' op1' op2' =>
    decide (op = op') && dest == dest' && op1.same op1' && op2.same op2'
  | .shift op dest op1 op2, .shift op' dest' op1' op2' =>
    decide (op = op') && dest == dest' && op1.same op1' && op2.same op2'
  | .not dest src, .not dest' src' => dest == dest' && src.same src'
  | .neg dest src, .neg dest' src' => dest == dest' && src.same src'
  | .move dest src, .move dest' src' => dest == dest' && src.same src'
  | .jump target, .jump target' => target == target'
  | .branch condition trueBlock falseBlock, .branch condition' trueBlock' falseBlock' =>
    condition.same condition' && trueBlock == trueBlock' && falseBlock == falseBlock'
  | .switch discr targets otherwise, .switch discr' targets' otherwise' =>
    discr.same discr' && sameTargets targets targets' && otherwise == otherwise'
  | .label name, .label name' => name == name'
  | .constructObject dest className args, .constructObject dest' className' args' =>
    dest == dest' && className == className' && Operand.sameTyped args args'
  | .return operand, .return operand' => Operand.sameOption operand operand'
  | _, _ => false

end RustcCodegenJvm.Oomir

namespace RustcCodegenJvm.Program

open Oomir (Operand)

namespace Instruction

def same : Instruction → Instruction → Bool
  | .scalar instruction, .scalar instruction' => instruction.same instruction'
  | .sourceLocation location, .sourceLocation location' => decide (location = location')
  | .localVariableScope active, .localVariableScope active' => active == active'
  | .unwindStart target, .unwindStart target' => target == target'
  | .unwindEnd, .unwindEnd => true
  | .rethrow, .rethrow => true
  | .callIndirect dest functionPtr args signature, .callIndirect dest' functionPtr' args' signature' =>
    dest == dest' && functionPtr.same functionPtr' && Operand.sameList args args' &&
      decide (signature = signature')
  | .createFunctionPointer dest interfaceName signature targetClassName targetMethodName,
    .createFunctionPointer dest' interfaceName' signature' targetClassName' targetMethodName' =>
    dest == dest' && interfaceName == interfaceName' && decide (signature = signature') &&
      targetClassName == targetClassName' && targetMethodName == targetMethodName'
  | .invokeInterface className methodName methodTy args dest operand,
    .invokeInterface className' methodName' methodTy' args' dest' operand' =>
    className == className' && methodName == methodName' && decide (methodTy = methodTy') &&
      Operand.sameList args args' && dest == dest' && operand.same operand'
  | .throwNewWithMessage exceptionClass message, .throwNewWithMessage exceptionClass' message' =>
    exceptionClass == exceptionClass' && message == message'
  | .newArray dest elementType size, .newArray dest' elementType' size' =>
    dest == dest' && decide (elementType = elementType') && size.same size'
  | .arrayStore array index value copyValue, .arrayStore array' index' value' copyValue' =>
    array == array' && index.same index' && value.same value' && copyValue == copyValue'
  | .arrayFill array value copyValue, .arrayFill array' value' copyValue' =>
    array == array' && value.same value' && copyValue == copyValue'
  | .arrayGet dest array index, .arrayGet dest' array' index' =>
    dest == dest' && array.same array' && index.same index'
  | .length dest array, .length dest' array' => dest == dest' && array.same array'
  | .setField object fieldName value fieldTy ownerClass,
    .setField object' fieldName' value' fieldTy' ownerClass' =>
    object == object' && fieldName == fieldName' && value.same value' &&
      decide (fieldTy = fieldTy') && ownerClass == ownerClass'
  | .getField dest object fieldName fieldTy ownerClass,
    .getField dest' object' fieldName' fieldTy' ownerClass' =>
    dest == dest' && object.same object' && fieldName == fieldName' &&
      decide (fieldTy = fieldTy') && ownerClass == ownerClass'
  | .cast op ty dest, .cast op' ty' dest' => op.same op' && decide (ty = ty') && dest == dest'
  | .invokeVirtual dest className methodName methodTy args operand,
    .invokeVirtual dest' className' methodName' methodTy' args' operand' =>
    dest == dest' && className == className' && methodName == methodName' &&
      decide (methodTy = methodTy') && Operand.sameList args args' && operand.same operand'
  | .invokeStatic dest className methodName methodTy args,
    .invokeStatic dest' className' methodName' methodTy' args' =>
    dest == dest' && className == className' && methodName == methodName' &&
      decide (methodTy = methodTy') && Operand.sameList args args'
  | .invokeRustStatic dest className methodName methodTy args,
    .invokeRustStatic dest' className' methodName' methodTy' args' =>
    dest == dest' && className == className' && methodName == methodName' &&
      decide (methodTy = methodTy') && Operand.sameList args args'
  | _, _ => false

def sameList : List Instruction → List Instruction → Bool
  | [], [] => true
  | instruction :: rest, instruction' :: rest' => instruction.same instruction' && sameList rest rest'
  | _, _ => false

def retarget (rename : String → String) : Instruction → Instruction
  | .scalar (.jump target) => .scalar (.jump (rename target))
  | .unwindStart target => .unwindStart (rename target)
  | .scalar (.branch condition trueBlock falseBlock) =>
    .scalar (.branch condition (rename trueBlock) (rename falseBlock))
  | .scalar (.switch discr targets otherwise) =>
    .scalar (.switch discr (targets.map fun target => (target.1, rename target.2)) (rename otherwise))
  | instruction => instruction

def targets : Instruction → List String
  | .scalar (.jump target) | .unwindStart target => [target]
  | .scalar (.branch _ trueBlock falseBlock) => [trueBlock, falseBlock]
  | .scalar (.switch _ targets otherwise) => otherwise :: targets.map Prod.snd
  | _ => []

theorem targets_retarget (rename : String → String) (instruction : Instruction) :
    (instruction.retarget rename).targets = instruction.targets.map rename := by
  cases instruction with
  | scalar instruction => cases instruction <;> simp [retarget, targets]
  | _ => rfl

theorem retarget_of_fixed {rename : String → String} {instruction : Instruction}
    (fixed : ∀ target ∈ instruction.targets, rename target = target) :
    instruction.retarget rename = instruction := by
  cases instruction with
  | scalar instruction =>
    cases instruction with
    | jump target => simpa [retarget, targets] using fixed
    | branch condition trueBlock falseBlock => simpa [retarget, targets] using fixed
    | switch discr cases' otherwise =>
      simp only [targets, List.mem_cons, List.mem_map, forall_eq_or_imp] at fixed
      have same : (cases'.map fun target => (target.1, rename target.2)) = cases' := by
        conv_rhs => rw [← List.map_id cases']
        apply List.map_congr_left
        intro target member
        rw [fixed.2 target.2 ⟨target, member, rfl⟩]
        rfl
      simp [retarget, same, fixed.1]
    | _ => rfl
  | unwindStart target => simpa [retarget, targets] using fixed
  | _ => rfl

section Same

variable {first second : Instruction}

theorem same_targets_names {targets targets' : List (Oomir.Constant × String)}
    (equal : Oomir.sameTargets targets targets' = true) :
    targets.map Prod.snd = targets'.map Prod.snd := by
  induction targets generalizing targets' with
  | nil =>
    cases targets' with
    | nil => rfl
    | cons => cases equal
  | cons target rest ih =>
    cases targets' with
    | nil => cases equal
    | cons target' rest' =>
      simp only [Oomir.sameTargets, Bool.and_eq_true, beq_iff_eq] at equal
      rw [List.map_cons, List.map_cons, equal.1.2, ih equal.2]

theorem same_targets (equal : first.same second = true) : first.targets = second.targets := by
  unfold same at equal
  split at equal
  case h_1 instruction instruction' =>
    unfold Oomir.Instruction.same at equal
    split at equal
    case h_8 => simpa [targets] using equal
    case h_9 =>
      simp only [Bool.and_eq_true, beq_iff_eq] at equal
      simp [targets, equal]
    case h_10 =>
      simp only [Bool.and_eq_true, beq_iff_eq] at equal
      simp [targets, equal.2, same_targets_names equal.1.2]
    all_goals first | rfl | cases equal
  case h_4 => simpa [targets] using equal
  all_goals first | rfl | cases equal

theorem same_after (active : Option String) (equal : first.same second = true) :
    afterInstruction active first = afterInstruction active second := by
  unfold same at equal
  split at equal
  case h_4 => simpa [afterInstruction] using equal
  all_goals first | rfl | cases equal

end Same

end Instruction

end RustcCodegenJvm.Program
