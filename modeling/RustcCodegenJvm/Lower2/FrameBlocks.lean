import RustcCodegenJvm.Lower2.FrameState
import RustcCodegenJvm.Library.Dataflow

/-!
# Blocks of an instruction list

The control-flow helpers of `lower2/stackmaps.rs`: branch targets, the
boundaries that split an instruction list into blocks, and the handlers that
protect an instruction. A `BTreeSet` is the list it iterates over.
-/

namespace RustcCodegenJvm.Lower2

open Jvm List

def orderedSet (elements : List Nat) : List Nat := elements.dedup.insertionSort (· ≤ ·)

variable {element start position block finish : Nat} {elements : List Nat}

theorem mem_ordered_set :
    element ∈ orderedSet elements ↔ element ∈ elements := by
  rw [orderedSet, mem_insertionSort, mem_dedup]

theorem ordered_set_increasing (elements : List Nat) : (orderedSet elements).Pairwise (· < ·) := by
  have sorted : (orderedSet elements).Pairwise (· ≤ ·) := pairwise_insertionSort _ _
  have distinct : (orderedSet elements).Nodup :=
    (perm_insertionSort _ _).nodup_iff.mpr (nodup_dedup _)
  exact sorted.imp₂ (fun _ _ below different => lt_of_le_of_ne below different) distinct

def relativeSwitchTargetOpt (instructionIndex : Nat) (offset : Int) : Option Nat :=
  let target := instructionIndex + offset
  if 0 ≤ target then some target.toNat else none

def relativeSwitchTarget (context : String) (instructionIndex : Nat) (offset : Int) :
    Except JvmError Nat :=
  match relativeSwitchTargetOpt instructionIndex offset with
  | some target => .ok target
  | none => .error (.verificationError context
      ("Invalid switch target offset " ++ toString offset ++ " at instruction " ++
        toString instructionIndex))

def asU16 (number : Nat) : Nat := number % 65536

def instructionBranchTargets (instructionIndex : Nat) : Instruction → List Nat
  | .branch _ target | .goto target => [target]
  | .gotoW target => if 0 ≤ target then [asU16 target.toNat] else []
  | .tableswitch default _ _ offsets =>
    ((default :: offsets).filterMap (relativeSwitchTargetOpt instructionIndex)).map asU16
  | .lookupswitch default pairs =>
    ((default :: pairs.map Prod.snd).filterMap (relativeSwitchTargetOpt instructionIndex)).map asU16
  | _ => []

def branchTargets (instructions : List Instruction) : List Nat :=
  orderedSet (instructions.zipIdx.flatMap fun (instruction, index) =>
    instructionBranchTargets index instruction)

def instructionEndsBlock : Instruction → Bool
  | .branch _ _ | .goto _ | .gotoW _ | .tableswitch _ _ _ _ | .lookupswitch _ _
  | .jsr _ | .jsrW _ | .ret _ | .retW _ | .valueReturn _ | .voidReturn | .athrow => true
  | _ => false

def blockBoundaries (instructions : List Instruction) (exceptionTable : List ExceptionTableEntry) :
    List Nat :=
  0 :: branchTargets instructions ++
    exceptionTable.flatMap (fun entry => [entry.rangeStart, entry.rangeEnd, entry.handlerPc]) ++
    (instructions.zipIdx.filter fun (instruction, _) => instructionEndsBlock instruction).map
      fun (_, index) => index + 1

/-- `block_starts` of `frame_blocks`: the boundaries inside the list, and zero. -/
def blockStarts (instructions : List Instruction) (exceptionTable : List ExceptionTableEntry) :
    List Nat :=
  orderedSet ((blockBoundaries instructions exceptionTable).filter fun boundary =>
    boundary = 0 ∨ boundary < instructions.length)

def blockEnds (instructions : List Instruction) (exceptionTable : List ExceptionTableEntry) :
    List Nat :=
  (blockStarts instructions exceptionTable).drop 1 ++ [instructions.length]

/-! ### The shape of blocks -/

section Shape

variable {instructions : List Instruction} {exceptionTable : List ExceptionTableEntry}

theorem block_starts_increasing : (blockStarts instructions exceptionTable).Pairwise (· < ·) :=
  ordered_set_increasing _

theorem zero_mem_block_starts : 0 ∈ blockStarts instructions exceptionTable := by
  rw [blockStarts, mem_ordered_set, mem_filter]
  simp [blockBoundaries]

theorem block_start_inside (nonempty : instructions ≠ [])
    (member : start ∈ blockStarts instructions exceptionTable) : start < instructions.length := by
  rw [blockStarts, mem_ordered_set, mem_filter] at member
  have some : 0 < instructions.length := length_pos_iff.mpr nonempty
  rcases of_decide_eq_true member.2 with rfl | inside
  · exact some
  · exact inside

theorem first_block_start : (blockStarts instructions exceptionTable)[0]? = some 0 := by
  have increasing := pairwise_iff_getElem.mp
    (block_starts_increasing : (blockStarts instructions exceptionTable).Pairwise (· < ·))
  obtain ⟨position, inside, isZero⟩ := getElem_of_mem
    (zero_mem_block_starts : 0 ∈ blockStarts instructions exceptionTable)
  rcases Nat.eq_zero_or_pos position with rfl | positive
  · rw [List.getElem?_eq_getElem inside, isZero]
  · have below := increasing 0 position (by omega) inside positive
    omega

theorem length_block_ends :
    (blockEnds instructions exceptionTable).length = (blockStarts instructions exceptionTable).length := by
  have some : 0 < (blockStarts instructions exceptionTable).length :=
    length_pos_of_mem zero_mem_block_starts
  simp only [blockEnds, length_append, length_drop, length_singleton]
  omega

theorem gap_of_increasing (increasing : elements.Pairwise (· < ·))
    {low : Nat} (isLow : elements[position]? = some low) (high : Nat)
    (isHigh : elements[position + 1]? = some high) :
    low < high ∧ ∀ element, low < element → element < high → element ∉ elements := by
  have ordered := pairwise_iff_getElem.mp increasing
  obtain ⟨lowInside, rfl⟩ := List.getElem?_eq_some_iff.mp isLow
  obtain ⟨highInside, rfl⟩ := List.getElem?_eq_some_iff.mp isHigh
  refine ⟨ordered _ _ lowInside highInside (by omega), fun element above below member => ?_⟩
  obtain ⟨other, otherInside, rfl⟩ := getElem_of_mem member
  rcases lt_trichotomy other position with before | rfl | after
  · have := ordered _ _ otherInside lowInside before
    omega
  · omega
  · rcases Nat.lt_or_ge (position + 1) other with further | next
    · have := ordered _ _ highInside otherInside further
      omega
    · have : other = position + 1 := by omega
      subst this
      omega

theorem last_of_increasing (increasing : elements.Pairwise (· < ·))
    {last : Nat} (isLast : elements[position]? = some last)
    (atEnd : position + 1 = elements.length) (member : element ∈ elements) :
    element ≤ last := by
  have ordered := pairwise_iff_getElem.mp increasing
  obtain ⟨lastInside, rfl⟩ := List.getElem?_eq_some_iff.mp isLast
  obtain ⟨other, otherInside, rfl⟩ := getElem_of_mem member
  rcases Nat.lt_or_ge other position with before | here
  · exact le_of_lt (ordered _ _ otherInside lastInside before)
  · have : other = position := by omega
    subst this
    exact le_refl _

theorem ends_cases (isFinish : (blockEnds instructions exceptionTable)[block]? = some finish) :
    (blockStarts instructions exceptionTable)[block + 1]? = some finish ∨
      (block + 1 = (blockStarts instructions exceptionTable).length ∧
        finish = instructions.length) := by
  have inside : block < (blockEnds instructions exceptionTable).length :=
    (List.getElem?_eq_some_iff.mp isFinish).1
  rw [length_block_ends] at inside
  unfold blockEnds at isFinish
  rcases Nat.lt_or_ge (block + 1) (blockStarts instructions exceptionTable).length with more | last
  · rw [List.getElem?_append_left (by rw [length_drop]; omega), List.getElem?_drop] at isFinish
    rw [Nat.add_comm] at isFinish
    exact .inl isFinish
  · have atEnd : block + 1 = (blockStarts instructions exceptionTable).length := by omega
    rw [List.getElem?_append_right (by rw [length_drop]; omega), length_drop,
      ← atEnd, Nat.add_sub_cancel, Nat.sub_self] at isFinish
    exact .inr ⟨atEnd, (Option.some.inj isFinish).symm⟩

/-- Blocks are not empty, end at the next block or at the end of the list, and no other
block starts inside. -/
theorem block_bounds (nonempty : instructions ≠ [])
    (isStart : (blockStarts instructions exceptionTable)[block]? = some start)
    (isFinish : (blockEnds instructions exceptionTable)[block]? = some finish) : start < finish ∧
      (finish ∈ blockStarts instructions exceptionTable ∨ finish = instructions.length) ∧
      ∀ index, start < index → index < finish → index ∉ blockStarts instructions exceptionTable := by
  have inside : start < instructions.length :=
    block_start_inside nonempty (mem_of_getElem? isStart)
  have ordered := gap_of_increasing (block_starts_increasing) isStart
  rcases ends_cases isFinish with isNext | ⟨isLast, rfl⟩
  · exact ⟨(ordered _ isNext).1, .inl (mem_of_getElem? isNext), (ordered _ isNext).2⟩
  · refine ⟨inside, .inr rfl, fun index after _ member => ?_⟩
    exact absurd (last_of_increasing block_starts_increasing isStart isLast member) (by omega)

end Shape

/-- `handlers_by_instruction`: the handlers of the ranges that hold the instruction, each once. -/
def handlersOf (exceptionTable : List ExceptionTableEntry) (index : Nat) : List Nat :=
  ((exceptionTable.filter fun entry => entry.covers index).map (·.handlerPc)).foldl
    (fun handlers target => if target ∈ handlers then handlers else handlers ++ [target]) []

theorem mem_handlers_of {exceptionTable : List ExceptionTableEntry} {index target : Nat} :
    target ∈ handlersOf exceptionTable index ↔
      ∃ entry ∈ exceptionTable, entry.covers index ∧ entry.handlerPc = target := by
  refine Library.Dataflow.mem_push_all_absent.trans ?_
  simp [mem_filter, and_assoc]

end RustcCodegenJvm.Lower2
