import RustcCodegenJvm.Lower2.WidenBranches

/-!
# Widened code runs as before

A round of `widen_branches` moves the instructions behind the one it widens and
retargets all of them. The widened instruction takes one step or two, to the new
place of where it went before.
-/

namespace RustcCodegenJvm.Lower2

open Jvm Library StateExcept

/-! ### Places after an insertion -/

section Places

variable {insertAt : Nat}

theorem after_insert_of_lt {index : Nat} (before : index < insertAt) : afterInsert insertAt index = index := by
  unfold afterInsert
  rw [if_neg (by omega)]

theorem after_insert_of_le {index : Nat} (behind : insertAt ≤ index) :
    afterInsert insertAt index = index + 1 := by
  unfold afterInsert
  rw [if_pos behind]

theorem after_insert_strict_mono (insertAt : Nat) : StrictMono (afterInsert insertAt) := by
  intro first second less
  unfold afterInsert
  split_ifs <;> omega

end Places

/-! ### Retargeting is relocation -/

variable {bound value result pc source : Nat} {instructions : List Instruction}

section Retargeting

variable {context : String} {insertAt index : Nat}

theorem bump_checked_ok {overflow : JvmError} {moves : Bool}
    (ran : bumpChecked bound overflow moves value = .ok result) :
    result = if moves then value + 1 else value := by
  unfold bumpChecked at ran
  split_ifs at ran ⊢
  · cases ran
    rfl
  · cases ran
    rfl

theorem bump_after_insert {overflow : JvmError}
    (ran : bumpChecked bound overflow (insertAt ≤ value) value = .ok result) :
    result = afterInsert insertAt value := by
  have bumped := bump_checked_ok ran
  simpa [afterInsert] using bumped

theorem bump_wide_ok {target result : Int} (ran : bumpWideTarget context insertAt target = .ok result) :
    result = relocateTarget (afterInsert insertAt) target := by
  unfold bumpWideTarget at ran
  unfold relocateTarget afterInsert
  split_ifs at ran ⊢ <;> cases ran <;> omega

theorem bump_switch_ok {target result : Int}
    (ran : bumpI32RelativeSwitchTarget context insertAt index target = .ok result) :
    result = relocateOffset (afterInsert insertAt) index target := by
  unfold bumpI32RelativeSwitchTarget at ran
  dsimp only at ran
  unfold relocateOffset relocateTarget afterInsert
  split_ifs at ran ⊢ <;> cases ran <;> omega

theorem retarget_instruction_ok {instruction result : Instruction}
    (ran : retargetInstruction context insertAt index instruction = .ok result) :
    result = instruction.relocate (afterInsert insertAt) index := by
  cases instruction with
  | branch condition target | goto target =>
    obtain ⟨bumped, isBumped, isResult⟩ := except_bind_ok ran
    cases isResult
    rw [bump_after_insert isBumped]
    rfl
  | gotoW target =>
    obtain ⟨bumped, isBumped, isResult⟩ := except_bind_ok ran
    cases isResult
    rw [bump_wide_ok isBumped]
    rfl
  | tableswitch default low high offsets =>
    obtain ⟨other, isOther, rest⟩ := except_bind_ok ran
    obtain ⟨bumped, isBumped, isResult⟩ := except_bind_ok rest
    cases isResult
    rw [bump_switch_ok isOther, except_map_eq isBumped fun value result => bump_switch_ok]
    rfl
  | lookupswitch default pairs =>
    obtain ⟨other, isOther, rest⟩ := except_bind_ok ran
    obtain ⟨bumped, isBumped, isResult⟩ := except_bind_ok rest
    cases isResult
    have each : bumped = pairs.map fun pair =>
        (pair.1, relocateOffset (afterInsert insertAt) index pair.2) := by
      apply except_map_eq isBumped
      intro pair result bumps
      obtain ⟨moved, isMoved, isPair⟩ := except_bind_ok bumps
      cases isPair
      rw [bump_switch_ok isMoved]
    rw [bump_switch_ok isOther, each]
    rfl
  | _ =>
    cases ran
    rfl

theorem retarget_instructions_ok {retargeted : List Instruction}
    (ran : retargetInstructions context insertAt instructions = .ok retargeted) (pc : Nat) :
    retargeted[pc]? = instructions[pc]?.map (Instruction.relocate (afterInsert insertAt) pc) := by
  rw [except_map_eq ran fun entry result => retarget_instruction_ok, List.getElem?_map,
    List.getElem?_zipIdx, Option.map_map]
  cases instructions[pc]? with
  | none => rfl
  | some instruction => simp

theorem shift_entry_ok {entry result : ExceptionTableEntry} (ran : shiftEntry insertAt entry = .ok result) :
    entry.Moved (afterInsert insertAt) result := by
  obtain ⟨rangeStart, isStart, ran⟩ := except_bind_ok ran
  obtain ⟨rangeEnd, isEnd, ran⟩ := except_bind_ok ran
  obtain ⟨handlerPc, isHandler, ran⟩ := except_bind_ok ran
  cases ran
  have bumpedEnd : rangeEnd = if insertAt < entry.rangeEnd then entry.rangeEnd + 1 else entry.rangeEnd := by
    simpa using bump_checked_ok isEnd
  constructor
  case covers =>
    intro pc
    have reaches : rangeStart ≤ afterInsert insertAt pc ↔ entry.rangeStart ≤ pc := by
      rw [bump_after_insert isStart, (after_insert_strict_mono insertAt).le_iff_le]
    -- a range that ends at the insertion keeps its end
    have stops : afterInsert insertAt pc < rangeEnd ↔ pc < entry.rangeEnd := by
      rw [bumpedEnd]
      unfold afterInsert
      split_ifs <;> omega
    simp only [ExceptionTableEntry.covers, reaches, stops]
  case handler => exact bump_after_insert isHandler
  case catchType => rfl

end Retargeting

/-! ### One widened instruction -/

inductive WidenedAt (index : Nat) (place : Nat → Nat) (before after : Code) : Prop
  | conditional (condition : Condition) (target : Nat)
      (found : before.instructions[index]? = some (.branch condition target))
      (moves : place = afterInsert (index + 1))
      (inverted : after.instructions[index]? =
        some (.branch (invertConditionalBranch condition) (index + 2)))
      (wide : after.instructions[index + 1]? = some (.gotoW (place target)))
  | unconditional (target : Nat) (found : before.instructions[index]? = some (.goto target))
      (stays : place = id) (wide : after.instructions[index]? = some (.gotoW target))

structure Widening (index : Nat) (place : Nat → Nat) (before after : Code) : Prop where
  widened : WidenedAt index place before after
  kept : ∀ pc, pc ≠ index →
    after.instructions[place pc]? = before.instructions[pc]?.map (Instruction.relocate place pc)
  table : TableMoved place before after

namespace Widening

variable {index : Nat} {place : Nat → Nat} {before after : Code}
  (widening : Widening index place before after)

include widening

theorem increasing : StrictMono place := by
  cases widening.widened with
  | conditional _ _ _ moves =>
    rw [moves]
    exact after_insert_strict_mono (index + 1)
  | unconditional _ _ stays =>
    rw [stays]
    exact strictMono_id

theorem start : place 0 = 0 := by
  cases widening.widened with
  | conditional _ _ _ moves => rw [moves, after_insert_of_lt (by omega)]
  | unconditional _ _ stays => rw [stays, id]

theorem place_succ (other : pc ≠ index) :
    place (pc + 1) = place pc + 1 := by
  cases widening.widened with
  | conditional _ _ _ moves =>
    rw [moves]
    unfold afterInsert
    split_ifs <;> omega
  | unconditional _ _ stays => rw [stays, id, id]

end Widening

theorem invert_conditional_branch_test (condition : Condition) (stack : List Value) :
    (invertConditionalBranch condition).test stack =
      (condition.test stack).map fun tested => (!tested.1, tested.2) := by
  match stack with
  | [] => cases condition <;> rfl
  | [top] => cases condition <;> cases top <;> simp [Condition.test, invertConditionalBranch, bne]
  | top :: second :: rest =>
    cases condition <;> cases top <;> first
      | rfl
      | simp [Condition.test, invertConditionalBranch, bne]; done
      | cases second <;> simp [Condition.test, invertConditionalBranch, bne]

section Runs

variable {World : Type} (env : Environment World) {index : Nat} {place : Nat → Nat} {before after : Code}

theorem step_moved (widening : Widening index place before after) (frame : Frame World)
    (other : frame.pc ≠ index) :
    step env after (frame.moved place) = (step env before frame).moved place := by
  unfold step
  rw [Frame.moved_pc, widening.kept frame.pc other]
  cases before.instructions[frame.pc]? with
  | none => rfl
  | some instruction => exact execute_moved env widening.table (widening.place_succ other) instruction

/-- The widened instruction leads where the instruction led. -/
theorem step_widened (widened : WidenedAt index place before after) (frame : Frame World)
    (same : frame.pc = index) :
    ∃ count, (Outcome.next env after)^[count + 1] (.running (frame.moved place)) =
      (step env before frame).moved place := by
  cases widened with
  | conditional condition target found moves inverted wide =>
    have here : place index = index := by rw [moves, after_insert_of_lt (by omega)]
    have behind : place (index + 1) = index + 2 := by rw [moves, after_insert_of_le (by omega)]
    have opposite := invert_conditional_branch_test condition frame.stack
    cases tested : condition.test frame.stack with
    | none =>
      refine ⟨0, ?_⟩
      simp [Outcome.next, step, same, here, found, inverted, execute, tested, opposite, Outcome.moved]
    | some result =>
      obtain ⟨taken, rest⟩ := result
      cases taken with
      | true =>
        -- the inverted branch falls through to the wide jump
        refine ⟨1, ?_⟩
        simp [Outcome.next, step, same, here, found, inverted, wide, execute, tested, opposite,
          wideTarget, Frame.jump, Outcome.moved, Frame.moved]
      | false =>
        refine ⟨0, ?_⟩
        simp [Outcome.next, step, same, here, behind, found, inverted, execute, tested, opposite,
          Outcome.moved, Frame.moved]
  | unconditional target found stays wide =>
    refine ⟨0, ?_⟩
    simp [Outcome.next, step, same, found, stays, wide, execute, wideTarget, Frame.jump, Outcome.moved,
      Frame.moved]

end Runs

theorem Widening.runs_as {index : Nat} {place : Nat → Nat} {before after : Code}
    (widening : Widening index place before after) : RunsAs place before after := by
  intro World env state
  cases state with
  | running frame =>
    by_cases same : frame.pc = index
    · exact step_widened env widening.widened frame same
    · exact ⟨0, step_moved env widening frame same⟩
  | _ => exact ⟨0, rfl⟩

/-! ### One round -/

section Round

variable {Metadata : Type} {encoded : EncodedLength} {functionName : String}
  {body widened : MethodBody Metadata}

theorem retarget_after_insert_ok {insertAt : Nat}
    (ran : retargetAfterInsert functionName body insertAt = .ok widened) :
    (∀ pc, widened.instructions[pc]? =
      body.instructions[pc]?.map (Instruction.relocate (afterInsert insertAt) pc)) ∧
      TableMoved (afterInsert insertAt) body.code widened.code := by
  obtain ⟨table, isTable, rest⟩ := except_bind_ok ran
  split at rest
  · next instructions isRetargeted =>
    cases rest
    exact ⟨retarget_instructions_ok isRetargeted, (except_map_ok isTable).imp fun _ _ => shift_entry_ok⟩
  · cases rest

theorem get_inserted_elsewhere {index : Nat} (other : pc ≠ index) (first second : Instruction) :
    ((instructions.set index first).insertIdx (index + 1) second)[afterInsert (index + 1) pc]? =
      instructions[pc]? := by
  rw [List.getElem?_insertIdx]
  by_cases behind : index + 1 ≤ pc
  · rw [after_insert_of_le behind, if_neg (by omega), if_neg (by omega), Nat.add_sub_cancel,
      List.getElem?_set_ne other.symm]
  · rw [after_insert_of_lt (by omega), if_pos (by omega), List.getElem?_set_ne other.symm]

theorem widen_conditional_ok {index target : Nat} {condition : Condition}
    (found : body.instructions[index]? = some (.branch condition target))
    (ran : widenConditional functionName body index condition target = .ok widened) :
    Widening index (afterInsert (index + 1)) body.code widened.code := by
  obtain ⟨retargeted, isRetargeted, ran⟩ := except_bind_ok ran
  obtain ⟨adjustedTarget, isAdjusted, ran⟩ := except_bind_ok ran
  obtain ⟨moved, table⟩ := retarget_after_insert_ok isRetargeted
  have inside : index < retargeted.instructions.length := by
    have present := moved index
    rw [found] at present
    exact (List.getElem?_eq_some_iff.mp present).1
  split_ifs at ran
  cases ran
  constructor
  case table => exact table
  case widened =>
    apply WidenedAt.conditional condition target found rfl
    · simp [MethodBody.code, MethodBody.insertAfter, MethodBody.replace, List.getElem?_insertIdx, inside]
    · simp [MethodBody.code, MethodBody.insertAfter, MethodBody.replace, List.getElem?_insertIdx,
        Nat.succ_le_of_lt inside, bump_after_insert isAdjusted]
  case kept =>
    intro pc other
    exact (get_inserted_elsewhere other _ _).trans (moved pc)

theorem replace_goto_widens {index target : Nat} (found : body.instructions[index]? = some (.goto target)) :
    Widening index id body.code (body.replace index (.gotoW target)).code := by
  have inside : index < body.instructions.length := (List.getElem?_eq_some_iff.mp found).1
  constructor
  case table =>
    apply List.forall₂_same.mpr
    intro entry _
    exact ⟨fun _ => rfl, rfl, rfl⟩
  case widened =>
    apply WidenedAt.unconditional target found rfl
    simp [MethodBody.code, MethodBody.replace, inside]
  case kept =>
    intro pc other
    simp [MethodBody.code, MethodBody.replace, List.getElem?_set_ne other.symm]

section LongJumps

variable {byteOffsets : List Nat} {index target : Nat} {instruction : Instruction}

theorem first_long_jump_found {jump : LongJump}
    (found : firstLongJump byteOffsets instructions = some jump) :
    ∃ source instruction, instructions[source]? = some instruction ∧
      longJumpAt byteOffsets source instruction = some jump := by
  obtain ⟨entry, member, isJump⟩ := List.exists_of_findSome?_eq_some found
  exact ⟨entry.2, entry.1, List.mem_zipIdx_iff_getElem?.mp member, isJump⟩

end LongJumps

theorem widen_round_ok (ran : widenRound encoded functionName body = .ok (some widened)) :
    ∃ byteOffsets index instruction target place,
      instructionByteOffsets encoded body.instructions = .ok byteOffsets ∧
        body.instructions[index]? = some instruction ∧ instruction.shortTarget = some target ∧
          branchOffsetFitsI16 byteOffsets index target = false ∧
            Widening index place body.code widened.code := by
  obtain ⟨byteOffsets, isOffsets, ran⟩ := except_bind_ok ran
  refine ⟨byteOffsets, ?_⟩
  split at ran
  · next index condition target isFirst =>
    obtain ⟨source, instruction, found, isJump⟩ := first_long_jump_found isFirst
    obtain ⟨rfl, rfl, far⟩ : index = source ∧ instruction = .branch condition target ∧
        branchOffsetFitsI16 byteOffsets source target = false := by
      cases instruction <;> simp only [longJumpAt] at isJump <;> grind
    obtain ⟨result, isResult, returned⟩ := except_bind_ok ran
    cases returned
    exact ⟨index, _, target, _, isOffsets, found, rfl, far, widen_conditional_ok found isResult⟩
  · next index target isFirst =>
    obtain ⟨source, instruction, found, isJump⟩ := first_long_jump_found isFirst
    obtain ⟨rfl, rfl, far⟩ : index = source ∧ instruction = .goto target ∧
        branchOffsetFitsI16 byteOffsets source target = false := by
      cases instruction <;> simp only [longJumpAt] at isJump <;> grind
    cases ran
    exact ⟨index, _, target, _, isOffsets, found, rfl, far, replace_goto_widens found⟩
  · cases ran

end Round

end RustcCodegenJvm.Lower2
