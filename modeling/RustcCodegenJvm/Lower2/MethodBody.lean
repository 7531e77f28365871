import RustcCodegenJvm.Jvm.Machine

/-!
# Method bodies under construction

The instruction list of a method with the metadata of each instruction and its
exception table, as the translator and the passes over its code hold it.
-/

namespace RustcCodegenJvm.Lower2

open Jvm

def u16Max : Nat := 65535

def i32Max : Int := 2147483647

structure MethodBody (Metadata : Type) where
  instructions : List Instruction
  metadata : List Metadata
  exceptionTable : List ExceptionTableEntry
  matched : metadata.length = instructions.length

def MethodBody.code {Metadata : Type} (body : MethodBody Metadata) : Code :=
  ⟨body.instructions, body.exceptionTable⟩

variable {Metadata : Type}

namespace MethodBody

def replace (body : MethodBody Metadata) (index : Nat) (instruction : Instruction) :
    MethodBody Metadata where
  instructions := body.instructions.set index instruction
  metadata := body.metadata
  exceptionTable := body.exceptionTable
  matched := by rw [List.length_set, body.matched]

def duplicateMetadata (metadata : List Metadata) (index : Nat) : List Metadata :=
  match metadata[index]? with
  | some own => metadata.insertIdx (index + 1) own
  | none => metadata

def insertAfter (body : MethodBody Metadata) (index : Nat) (instruction : Instruction) :
    MethodBody Metadata where
  instructions := body.instructions.insertIdx (index + 1) instruction
  metadata := duplicateMetadata body.metadata index
  exceptionTable := body.exceptionTable
  matched := by
    unfold duplicateMetadata
    rw [List.length_insertIdx, ← body.matched]
    by_cases inside : index < body.metadata.length
    · rw [List.getElem?_eq_getElem inside, List.length_insertIdx]
    · rw [List.getElem?_eq_none (by omega), if_neg (by omega)]

end MethodBody

def invertConditionalBranch : Condition → Condition
  | .ifeq => .ifne
  | .ifne => .ifeq
  | .iflt => .ifge
  | .ifge => .iflt
  | .ifgt => .ifle
  | .ifle => .ifgt
  | .ifIcmpeq => .ifIcmpne
  | .ifIcmpne => .ifIcmpeq
  | .ifIcmplt => .ifIcmpge
  | .ifIcmpge => .ifIcmplt
  | .ifIcmpgt => .ifIcmple
  | .ifIcmple => .ifIcmpgt
  | .ifAcmpeq => .ifAcmpne
  | .ifAcmpne => .ifAcmpeq
  | .ifnull => .ifnonnull
  | .ifnonnull => .ifnull

end RustcCodegenJvm.Lower2
