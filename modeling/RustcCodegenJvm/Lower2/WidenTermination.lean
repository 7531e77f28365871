import RustcCodegenJvm.Lower2.WidenedRuns

/-!
# Branch widening ends

An inverted branch and the wide jump it skips are eight bytes, so the branch is
never widened again. Each round makes such a pair, or replaces a jump by a wide
one, and splits no pair that is there: the instructions that can still be
widened get fewer.
-/

namespace RustcCodegenJvm.Lower2

open Jvm Library StateExcept

/-! ### Byte offsets -/

variable {byteOffset pc fuel : Nat} {byteOffsets : List Nat}

section Offsets

variable {encoded : EncodedLength} {instructions : List Instruction}
  (ran : offsetsFrom encoded byteOffset instructions = .ok byteOffsets)

include ran in
theorem offsets_from_head : byteOffsets[0]? = some byteOffset := by
  cases instructions with
  | nil =>
    cases ran
    rfl
  | cons instruction rest =>
    obtain ⟨size, -, ran⟩ := except_bind_ok ran
    obtain ⟨others, -, ran⟩ := except_bind_ok ran
    cases ran
    rfl

include ran in
theorem offsets_from_step {index : Nat} {instruction : Instruction}
    (found : instructions[index]? = some instruction) :
    ∃ origin size, byteOffsets[index]? = some origin ∧
      instructionSizeAt encoded instruction origin = .ok size ∧
        byteOffsets[index + 1]? = some (origin + size) := by
  induction instructions generalizing byteOffset index byteOffsets with
  | nil => cases found
  | cons first rest ih =>
    obtain ⟨size, isSize, ran⟩ := except_bind_ok ran
    obtain ⟨others, isOthers, ran⟩ := except_bind_ok ran
    cases ran
    cases index with
    | zero =>
      cases found
      exact ⟨byteOffset, size, rfl, isSize, offsets_from_head isOthers⟩
    | succ index =>
      simpa only [List.getElem?_cons_succ] using ih isOthers found

end Offsets

/-! ### Pairs -/

def SkipsWideJump (instructions : List Instruction) (index : Nat) : Prop :=
  ∃ condition target, instructions[index]? = some (.branch condition (index + 2)) ∧
    instructions[index + 1]? = some (.gotoW target)

def isShortJump : Instruction → Bool
  | .branch _ _ | .goto _ => true
  | _ => false

structure Widenable (instructions : List Instruction) (index : Nat) : Prop where
  short : instructions[index]?.any isShortJump
  unpaired : ¬SkipsWideJump instructions index

@[simp] theorem is_short_jump_relocate (place : Nat → Nat) (index : Nat) (instruction : Instruction) :
    isShortJump (instruction.relocate place index) = isShortJump instruction := by
  cases instruction <;> rfl

theorem skipping_branch_fits {encoded : EncodedLength} {instructions : List Instruction}
    {index target : Nat} {instruction : Instruction}
    (offsets : instructionByteOffsets encoded instructions = .ok byteOffsets)
    (skips : SkipsWideJump instructions index) (found : instructions[index]? = some instruction)
    (isTarget : instruction.shortTarget = some target) :
    branchOffsetFitsI16 byteOffsets index target = true := by
  obtain ⟨condition, wide, isBranch, isWide⟩ := skips
  obtain ⟨origin, size, atBranch, isSize, behindBranch⟩ := offsets_from_step offsets isBranch
  obtain ⟨middle, wideSize, atWide, isWideSize, behindWide⟩ := offsets_from_step offsets isWide
  rw [isBranch] at found
  cases found
  cases isTarget
  cases isSize
  cases isWideSize
  rw [behindBranch] at atWide
  cases atWide
  simp only [branchOffsetFitsI16, atBranch, behindWide, decide_eq_true_eq]
  omega

/-! ### Progress -/

section Progress

variable {index : Nat} {place : Nat → Nat} {before after : Code}

section

variable (widening : Widening index place before after)

include widening

theorem Widening.skips_moved (other : pc ≠ index)
    (skips : SkipsWideJump before.instructions pc) : SkipsWideJump after.instructions (place pc) := by
  obtain ⟨condition, target, isBranch, isWide⟩ := skips
  have apart : pc + 1 ≠ index := by
    intro same
    rw [same] at isWide
    cases widening.widened with
    | conditional _ _ found => cases found.symm.trans isWide
    | unconditional _ found => cases found.symm.trans isWide
  have next := widening.place_succ other
  have afterNext := widening.place_succ apart
  have movedBranch := widening.kept pc other
  have movedWide := widening.kept (pc + 1) apart
  rw [isBranch] at movedBranch
  rw [isWide, next] at movedWide
  refine ⟨condition, relocateTarget place target, ?_, movedWide⟩
  rw [movedBranch, Option.map_some, Instruction.relocate, afterNext, next]

theorem Widening.widenable_moved
    (other : pc ≠ index) (widenable : Widenable after.instructions (place pc)) :
    Widenable before.instructions pc := by
  constructor
  case short =>
    have short := widenable.short
    rw [widening.kept pc other, Option.any_map] at short
    simpa [Function.comp_def] using short
  case unpaired =>
    intro skips
    exact widenable.unpaired (widening.skips_moved other skips)

theorem Widening.widenable_before {position : Nat}
    (widenable : Widenable after.instructions position) :
    ∃ pc, pc ≠ index ∧ place pc = position ∧ Widenable before.instructions pc := by
  have found : ∃ pc, pc ≠ index ∧ place pc = position := by
    cases widening.widened with
    | conditional condition target _ moves inverted wide =>
      have notPair : position ≠ index := by
        rintro rfl
        exact widenable.unpaired ⟨_, _, inverted, wide⟩
      have notWide : position ≠ index + 1 := by
        rintro rfl
        have short := widenable.short
        rw [wide] at short
        cases short
      by_cases behind : index + 1 < position
      · refine ⟨position - 1, by omega, ?_⟩
        rw [moves, after_insert_of_le (by omega)]
        omega
      · refine ⟨position, notPair, ?_⟩
        rw [moves, after_insert_of_lt (by omega)]
    | unconditional target _ stays wide =>
      refine ⟨position, ?_, by rw [stays, id]⟩
      rintro rfl
      have short := widenable.short
      rw [wide] at short
      cases short
  obtain ⟨pc, other, rfl⟩ := found
  exact ⟨pc, other, rfl, widening.widenable_moved other widenable⟩

end

open Classical in
noncomputable def widenables (instructions : List Instruction) : Finset Nat :=
  (Finset.range instructions.length).filter (Widenable instructions)

theorem mem_widenables (instructions : List Instruction) (index : Nat) :
    index ∈ widenables instructions ↔ Widenable instructions index := by
  classical
  simp only [widenables, Finset.mem_filter, Finset.mem_range, and_iff_right_iff_imp]
  intro widenable
  have short := widenable.short
  by_contra outside
  rw [List.getElem?_eq_none (by omega)] at short
  cases short

theorem Widening.widenables_fewer (widening : Widening index place before after)
    (widenable : Widenable before.instructions index) :
    (widenables after.instructions).card < (widenables before.instructions).card := by
  have covered : widenables after.instructions ⊆ ((widenables before.instructions).erase index).image place := by
    intro position member
    rw [mem_widenables] at member
    obtain ⟨pc, other, isPlace, isWidenable⟩ := widening.widenable_before member
    rw [Finset.mem_image]
    exact ⟨pc, Finset.mem_erase.mpr ⟨other, (mem_widenables _ _).mpr isWidenable⟩, isPlace⟩
  calc (widenables after.instructions).card
    _ ≤ (((widenables before.instructions).erase index).image place).card := Finset.card_le_card covered
    _ ≤ ((widenables before.instructions).erase index).card := Finset.card_image_le
    _ < (widenables before.instructions).card :=
      Finset.card_erase_lt_of_mem ((mem_widenables _ _).mpr widenable)

end Progress

/-! ### The loop -/

section Loop

variable {Metadata : Type} {encoded : EncodedLength} {functionName : String}

theorem widen_round_progress {body widened : MethodBody Metadata}
    (ran : widenRound encoded functionName body = .ok (some widened)) :
    (widenables widened.instructions).card < (widenables body.instructions).card := by
  obtain ⟨byteOffsets, index, instruction, target, place, offsets, found, isTarget, far, widening⟩ :=
    widen_round_ok ran
  apply widening.widenables_fewer
  constructor
  case short =>
    cases widening.widened with
    | conditional _ _ isBranch => simp [isBranch, isShortJump]
    | unconditional _ isGoto => simp [isGoto, isShortJump]
  case unpaired =>
    intro skips
    rw [skipping_branch_fits offsets skips found isTarget] at far
    cases far

theorem widen_branches_ends (fuel : Nat) (body : MethodBody Metadata)
    (enough : (widenables body.instructions).card < fuel) :
    (widenBranches encoded functionName fuel body).isSome := by
  induction fuel generalizing body with
  | zero => omega
  | succ fuel ih =>
    unfold widenBranches
    split
    · rfl
    · rfl
    · next widened ran =>
      have progress := widen_round_progress ran
      exact ih widened (by omega)

/-- The last round finds all branches and jumps in reach. -/
theorem widen_round_none {body : MethodBody Metadata}
    (ran : widenRound encoded functionName body = .ok none) :
    ∃ byteOffsets, instructionByteOffsets encoded body.instructions = .ok byteOffsets ∧
      firstLongJump byteOffsets body.instructions = none := by
  obtain ⟨byteOffsets, offsets, ran⟩ := except_bind_ok ran
  refine ⟨byteOffsets, offsets, ?_⟩
  split at ran
  · obtain ⟨result, -, returned⟩ := except_bind_ok ran
    cases returned
  · cases ran
  · assumption

end Loop

/-! ### What widening keeps -/

section Result

variable {Metadata : Type} {encoded : EncodedLength} {functionName : String}
  {body widened : MethodBody Metadata}
  (ran : widenBranches encoded functionName fuel body = some (.ok widened))

include ran in
theorem widen_branches_executes_as : ∃ place, ExecutesAs place body.code widened.code := by
  induction fuel generalizing body with
  | zero => cases ran
  | succ fuel ih =>
    unfold widenBranches at ran
    split at ran
    · cases ran
    · cases ran
      exact ⟨id, ExecutesAs.refl _⟩
    · next middle round =>
      obtain ⟨_, _, _, _, first, _, _, _, _, widening⟩ := widen_round_ok round
      obtain ⟨rest, executes⟩ := ih ran
      have widened : ExecutesAs first _ _ :=
        ⟨widening.increasing, widening.start, widening.table, widening.runs_as⟩
      exact ⟨rest ∘ first, widened.trans executes⟩

def InReach (byteOffsets : List Nat) (index target : Nat) : Prop :=
  ∃ origin destination : Nat, byteOffsets[index]? = some origin ∧ byteOffsets[target]? = some destination ∧
    -2 ^ 15 ≤ (destination : Int) - origin ∧ (destination : Int) - origin < 2 ^ 15

theorem fits_iff_in_reach (byteOffsets : List Nat) (index target : Nat) :
    branchOffsetFitsI16 byteOffsets index target = true ↔ InReach byteOffsets index target := by
  unfold branchOffsetFitsI16 InReach
  cases byteOffsets[index]? with
  | none => simp
  | some origin =>
    cases byteOffsets[target]? with
    | none => simp
    | some destination => simp

/-- The 16-bit displacements of the counted instructions are in range. -/
def DisplacementsFit (encoded : EncodedLength) (counted : Instruction → Bool)
    (instructions : List Instruction) : Prop :=
  ∃ byteOffsets, instructionByteOffsets encoded instructions = .ok byteOffsets ∧
    ∀ index instruction target, instructions[index]? = some instruction → counted instruction →
      instruction.shortTarget = some target → InReach byteOffsets index target

include ran in
theorem widen_branches_fit : DisplacementsFit encoded isShortJump widened.instructions := by
  induction fuel generalizing body with
  | zero => cases ran
  | succ fuel ih =>
    unfold widenBranches at ran
    split at ran
    · cases ran
    · next last =>
      cases ran
      obtain ⟨byteOffsets, offsets, noLong⟩ := widen_round_none last
      refine ⟨byteOffsets, offsets, ?_⟩
      intro index instruction target found short isTarget
      rw [firstLongJump, List.findSome?_eq_none_iff] at noLong
      have near := noLong (instruction, index) (List.mem_zipIdx_iff_getElem?.mpr found)
      rw [← fits_iff_in_reach]
      cases instruction with
      | branch condition target | goto target =>
        cases isTarget
        simpa [longJumpAt] using near
      | _ => cases short
    · exact ih ran

/-- Widening ends. The widened code executes exactly like the code before, and all
branches and jumps that are left have their targets in reach. -/
theorem widened_branches_execute_alike (encoded : EncodedLength) (functionName : String)
    (body : MethodBody Metadata) :
    (∃ enough, ∀ fuel, enough ≤ fuel → (widenBranches encoded functionName fuel body).isSome) ∧
      ∀ fuel widened, widenBranches encoded functionName fuel body = some (.ok widened) →
        (∃ place, ExecutesAs place body.code widened.code) ∧
          (∀ {World : Type} (env : Environment World) (frame : Frame World) (outcome : Outcome World),
            frame.pc = 0 → (Ends env body.code frame outcome ↔ Ends env widened.code frame outcome)) ∧
            DisplacementsFit encoded isShortJump widened.instructions := by
  constructor
  · exact ⟨(widenables body.instructions).card + 1, fun fuel => widen_branches_ends fuel body⟩
  · intro fuel widened ran
    obtain ⟨place, executes⟩ := widen_branches_executes_as ran
    refine ⟨⟨place, executes⟩, ?_, widen_branches_fit ran⟩
    intro World env frame outcome atStart
    have unmoved : frame.moved place = frame := by
      rw [Frame.moved, atStart, executes.start, ← atStart]
    rw [RunsAs.ends_iff executes.runs env frame outcome, unmoved]

def beforeLargeSwitch (first : Instruction) : MethodBody Unit where
  instructions := [first, .tableswitch 1 0 8199 (List.replicate 8200 1), .voidReturn]
  metadata := [(), (), ()]
  exceptionTable := []
  matched := rfl

theorem short_before_large_switch {first : Instruction}
    (short : ∀ byteOffset, instructionSizeAt (fun _ => .ok 1) first byteOffset = .ok 3) :
    instructionByteOffsets (fun _ => .ok 1) (beforeLargeSwitch first).instructions =
      .ok [0, 3, 32816, 32817] := by
  simp only [instructionByteOffsets, beforeLargeSwitch, offsetsFrom, short]
  simp only [instructionSizeAt, List.length_replicate]
  rfl

theorem wide_before_large_switch :
    widenRound (fun _ => .ok 1) "f" (beforeLargeSwitch (.gotoW 2)) = .ok none := by
  rfl

theorem widened_branches_execute_alike_before_large_switch :
    widenBranches (fun _ => .ok 1) "f" 2 (beforeLargeSwitch (.goto 2)) =
        some (.ok (beforeLargeSwitch (.gotoW 2))) ∧
      ∃ place, ExecutesAs place (beforeLargeSwitch (.goto 2)).code (beforeLargeSwitch (.gotoW 2)).code := by
  have first : widenRound (fun _ => .ok 1) "f" (beforeLargeSwitch (.goto 2)) =
      .ok (some (beforeLargeSwitch (.gotoW 2))) := by
    unfold widenRound
    rw [short_before_large_switch fun _ => rfl]
    rfl
  have ran : widenBranches (fun _ => .ok 1) "f" 2 (beforeLargeSwitch (.goto 2)) =
      some (.ok (beforeLargeSwitch (.gotoW 2))) := by
    simp only [widenBranches, first, wide_before_large_switch]
  exact ⟨ran, ((widened_branches_execute_alike (fun _ => .ok 1) "f" _).2 2 _ ran).1⟩

/-- The target of a `jsr` stays out of reach. -/
theorem far_subroutine_stays_far :
    widenBranches (fun _ => .ok 1) "f" 1 (beforeLargeSwitch (.jsr 2)) =
        some (.ok (beforeLargeSwitch (.jsr 2))) ∧
      ¬DisplacementsFit (fun _ => .ok 1) (fun _ => true) (beforeLargeSwitch (.jsr 2)).instructions := by
  have byteOffsets : instructionByteOffsets (fun _ => .ok 1) (beforeLargeSwitch (.jsr 2)).instructions =
      .ok [0, 3, 32816, 32817] := short_before_large_switch fun _ => rfl
  constructor
  · have last : widenRound (fun _ => .ok 1) "f" (beforeLargeSwitch (.jsr 2)) = .ok none := by
      rfl
    simp only [widenBranches, last]
  · rintro ⟨found, isFound, fit⟩
    rw [byteOffsets] at isFound
    cases isFound
    obtain ⟨origin, destination, isOrigin, isDestination, -, bound⟩ := fit 0 _ 2 rfl rfl rfl
    cases isOrigin
    cases isDestination
    omega

end Result

end RustcCodegenJvm.Lower2
