import RustcCodegenJvm.Lower2.MethodBody

/-!
# What the bytecode optimiser reads off an instruction

The locals an instruction reads and writes, the instructions it can lead to and
the ones it names, of `lower2/optimise2.rs`. The source adds relative offsets in
`i32`; the indices of a method body are far below its bounds.
-/

namespace RustcCodegenJvm.Optimise2

open Jvm

/-! ### Locals -/

structure LocalRef where
  index : Nat
  width : Nat
deriving DecidableEq

def localAccess (kind : LocalKind) (index : Nat) : LocalKind × LocalRef := (kind, ⟨index, kind.width⟩)

def localLoad : Instruction → Option (LocalKind × LocalRef)
  | .load kind form => some (localAccess kind form.slot)
  | _ => none

def localStore : Instruction → Option (LocalKind × LocalRef)
  | .store kind form => some (localAccess kind form.slot)
  | _ => none

def localReads (instruction : Instruction) : Option LocalRef :=
  match localLoad instruction with
  | some (_, accessed) => some accessed
  | none =>
    match instruction with
    | .iinc slot _ | .ret slot | .iincW slot _ | .retW slot => some ⟨slot, 1⟩
    | _ => none

def localWrites (instruction : Instruction) : Option LocalRef :=
  match localStore instruction with
  | some (_, accessed) => some accessed
  | none =>
    match instruction with
    | .iinc slot _ | .iincW slot _ => some ⟨slot, 1⟩
    | _ => none

def localAccesses (instruction : Instruction) : List LocalRef :=
  (localReads instruction).toList ++ (localWrites instruction).toList

theorem read_accessed {instruction : Instruction} {accessed : LocalRef}
    (reads : localReads instruction = some accessed) : accessed ∈ localAccesses instruction := by
  simp [localAccesses, reads]

/-! ### Control flow -/

/-- The indices an instruction names, as far as they are not negative. -/
def absoluteTargets (targets : List Int) : List Nat :=
  (targets.filter fun target => 0 ≤ target).map Int.toNat

def switchTargets (index : Nat) (offsets : List Int) : List Int := offsets.map fun offset => index + offset

def visitBranchTargets (index : Nat) : Instruction → List Int
  | .branch _ target | .goto target | .jsr target => [(target : Int)]
  | .gotoW target | .jsrW target => [target]
  | .tableswitch default _ _ offsets => switchTargets index (default :: offsets)
  | .lookupswitch default pairs => switchTargets index (default :: pairs.map Prod.snd)
  | _ => []

def instructionSuccessors (index : Nat) (instruction : Instruction) (instructionCount : Nat) : List Nat :=
  let next := if index + 1 < instructionCount then [index + 1] else []
  match instruction with
  | .branch _ target => target :: next
  | .goto target => [target]
  | .gotoW target => if 0 ≤ target then [target.toNat] else next
  | .tableswitch default _ _ offsets => absoluteTargets (switchTargets index (default :: offsets))
  | .lookupswitch default pairs =>
    absoluteTargets (switchTargets index (default :: pairs.map Prod.snd))
  | .valueReturn _ | .voidReturn | .athrow => []
  | _ => next

end RustcCodegenJvm.Optimise2
