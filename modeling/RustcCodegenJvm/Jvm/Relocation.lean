import RustcCodegenJvm.Jvm.Machine
import RustcCodegenJvm.Library.Following

/-!
# Moving code

A method whose instructions stand at other places, with all targets and
exception ranges moved along, runs as before: a step at the new place of an
instruction leads to the new place of where the step led to.
-/

namespace RustcCodegenJvm.Jvm

open Library Outcome Instruction

section Moved

variable {World : Type} (place : Nat → Nat)

def Frame.moved (frame : Frame World) : Frame World := { frame with pc := place frame.pc }

def Outcome.moved : Outcome World → Outcome World
  | .running frame => .running (frame.moved place)
  | outcome => outcome

variable (frame : Frame World)

@[simp] theorem Frame.moved_pc : (frame.moved place).pc = place frame.pc := rfl

@[simp] theorem Frame.moved_stack : (frame.moved place).stack = frame.stack := rfl

@[simp] theorem Frame.moved_world : (frame.moved place).world = frame.world := rfl

@[simp] theorem Outcome.moved_id (outcome : Outcome World) : outcome.moved id = outcome := by
  cases outcome <;> rfl

theorem Outcome.moved_comp (first second : Nat → Nat) :
    (moved second ∘ moved first : Outcome World → Outcome World) =
      moved (second ∘ first) := by
  funext outcome
  cases outcome <;> rfl

end Moved

section Runs

variable {World : Type} (env : Environment World) (code : Code)

def Outcome.next : Outcome World → Outcome World
  | .running frame => step env code frame
  | outcome => outcome

def Outcome.isFinal : Outcome World → Bool
  | .running _ => false
  | _ => true

def Ends (frame : Frame World) (outcome : Outcome World) : Prop :=
  outcome.isFinal ∧ ∃ count, (Outcome.next env code)^[count] (.running frame) = outcome

end Runs

/-- The second method runs as the first, with instructions at other places. -/
def RunsAs (place : Nat → Nat) (before after : Code) : Prop :=
  ∀ {World : Type} (env : Environment World),
    Follows (Outcome.next env before) (Outcome.next env after) (Outcome.moved place)

theorem RunsAs.refl (code : Code) : RunsAs id code code := by
  intro World env state
  exact ⟨0, by simp⟩

variable {first second : Nat → Nat} {before middle after : Code}

theorem RunsAs.trans (head : RunsAs first before middle) (tail : RunsAs second middle after) :
    RunsAs (second ∘ first) before after := by
  intro World env
  rw [← moved_comp]
  exact (head env).comp (tail env)

theorem RunsAs.ends_iff {place : Nat → Nat} (runs : RunsAs place before after)
    {World : Type} (env : Environment World) (frame : Frame World) (outcome : Outcome World) :
    Ends env before frame outcome ↔ Ends env after (frame.moved place) outcome := by
  apply and_congr_right
  intro final
  have fixed : outcome.moved place = outcome := by
    cases outcome with
    | running => cases final
    | _ => rfl
  have stops : next env after (outcome.moved place) = outcome.moved place := by
    cases outcome with
    | running => cases final
    | _ => rfl
  have only (state : Outcome World) (same : state.moved place = outcome.moved place) : state = outcome := by
    rw [fixed] at same
    cases state with
    | running =>
      rw [← same] at final
      cases final
    | _ => exact same
  rw [(runs env).reaches_iff stops only, fixed]
  rfl

/-! ### Targets -/

/-- The target of an instruction that has 16 bits for its displacement. -/
def Instruction.shortTarget : Instruction → Option Nat
  | branch _ target | goto target | jsr target => some target
  | _ => none

def relocateTarget (place : Nat → Nat) (target : Int) : Int :=
  if 0 ≤ target then place target.toNat else target

def relocateOffset (place : Nat → Nat) (index : Nat) (offset : Int) : Int :=
  relocateTarget place (index + offset) - place index

namespace Instruction

/-- The instruction of the index with its targets moved. -/
def relocate (place : Nat → Nat) (index : Nat) : Instruction → Instruction
  | branch condition target => branch condition (place target)
  | goto target => goto (place target)
  | gotoW target => gotoW (relocateTarget place target)
  | tableswitch default low high offsets =>
    tableswitch (relocateOffset place index default) low high (offsets.map (relocateOffset place index))
  | lookupswitch default pairs =>
    lookupswitch (relocateOffset place index default)
      (pairs.map fun pair => (pair.1, relocateOffset place index pair.2))
  | instruction => instruction

end Instruction

variable (index : Nat)

section Targets

variable {place : Nat → Nat}

@[simp] theorem relocate_target_id (target : Int) : relocateTarget id target = target := by
  unfold relocateTarget
  split_ifs <;> simp [*]

@[simp] theorem relocate_offset_id : relocateOffset id index = id := by
  funext offset
  simp [relocateOffset]

@[simp] theorem Instruction.relocate_id : relocate id index = id := by
  funext instruction
  cases instruction <;> simp [relocate]

theorem wide_target_relocate (target : Int) :
    wideTarget (relocateTarget place target) = (wideTarget target).map place := by
  unfold wideTarget relocateTarget
  by_cases inside : 0 ≤ target
  · simp [inside]
  · simp [inside]

theorem relative_target_relocate (offset : Int) :
    relativeTarget (place index) (relocateOffset place index offset) =
      (relativeTarget index offset).map place := by
  unfold relativeTarget relocateOffset
  rw [add_sub_cancel, wide_target_relocate]

theorem table_offset_relocate (default low high : Int) (offsets : List Int) (key : Int) :
    tableOffset (relocateOffset place index default) low high (offsets.map (relocateOffset place index)) key =
      relocateOffset place index (tableOffset default low high offsets key) := by
  unfold tableOffset
  split_ifs
  · rw [List.getElem?_map]
    cases offsets[(key - low).toNat]? <;> rfl
  · rfl

theorem lookup_offset_relocate (default : Int) (pairs : List (Int × Int)) (key : Int) :
    lookupOffset (relocateOffset place index default)
        (pairs.map fun pair => (pair.1, relocateOffset place index pair.2)) key =
      relocateOffset place index (lookupOffset default pairs key) := by
  unfold lookupOffset
  induction pairs with
  | nil => rfl
  | cons pair rest ih =>
    rw [List.map_cons, List.lookup_cons, List.lookup_cons]
    split
    · rfl
    · exact ih

end Targets

/-! ### Exception tables -/

structure ExceptionTableEntry.Moved (place : Nat → Nat) (before after : ExceptionTableEntry) : Prop where
  covers : ∀ pc, after.covers (place pc) = before.covers pc
  handler : after.handlerPc = place before.handlerPc
  catchType : after.catchType = before.catchType

theorem ExceptionTableEntry.Moved.trans {before middle after : ExceptionTableEntry}
    (head : before.Moved first middle) (tail : middle.Moved second after) :
    before.Moved (second ∘ first) after where
  covers pc := by rw [Function.comp_apply, tail.covers, head.covers]
  handler := by rw [tail.handler, head.handler, Function.comp_apply]
  catchType := tail.catchType.trans head.catchType

def TableMoved (place : Nat → Nat) (before after : Code) : Prop :=
  List.Forall₂ (ExceptionTableEntry.Moved place) before.exceptionTable after.exceptionTable

theorem TableMoved.refl (code : Code) : TableMoved id code code := by
  apply List.forall₂_same.mpr
  intro entry _
  exact ⟨fun _ => rfl, rfl, rfl⟩

theorem TableMoved.trans
    (head : TableMoved first before middle) (tail : TableMoved second middle after) :
    TableMoved (second ∘ first) before after := by
  unfold TableMoved at head tail ⊢
  generalize before.exceptionTable = entries, middle.exceptionTable = middleEntries,
    after.exceptionTable = newEntries at head tail ⊢
  induction head generalizing newEntries with
  | nil =>
    cases tail
    exact .nil
  | cons moved _ ih =>
    cases tail with
    | cons movedOn rest => exact .cons (moved.trans movedOn) (ih _ rest)

/-- The instructions stand in the same order, the exception ranges cover the same
ones, and each step leads to the new place of where it led to. -/
structure ExecutesAs (place : Nat → Nat) (before after : Code) : Prop where
  increasing : StrictMono place
  start : place 0 = 0
  table : TableMoved place before after
  runs : RunsAs place before after

theorem ExecutesAs.refl (code : Code) : ExecutesAs id code code :=
  ⟨strictMono_id, rfl, TableMoved.refl code, RunsAs.refl code⟩

theorem ExecutesAs.trans
    (head : ExecutesAs first before middle) (tail : ExecutesAs second middle after) :
    ExecutesAs (second ∘ first) before after where
  increasing := tail.increasing.comp head.increasing
  start := by rw [Function.comp_apply, head.start, tail.start]
  table := head.table.trans tail.table
  runs := RunsAs.trans head.runs tail.runs

section Execution

variable {World : Type} (env : Environment World) {place : Nat → Nat} {before after : Code}
  (table : TableMoved place before after)

include table

theorem raise_moved (frame : Frame World) (exception : Nat) (world : World) :
    raise env after (frame.moved place) exception world =
      (raise env before frame exception world).moved place := by
  unfold raise findHandler
  obtain ⟨instructions, entries⟩ := before
  obtain ⟨newInstructions, newEntries⟩ := after
  dsimp only [TableMoved] at table ⊢
  induction table with
  | nil => rfl
  | @cons entry newEntry rest newRest moved _ ih =>
    have same : (newEntry.covers (frame.moved place).pc &&
        (newEntry.catchType == 0 || env.catches newEntry.catchType exception world)) =
          (entry.covers frame.pc && (entry.catchType == 0 || env.catches entry.catchType exception world)) := by
      rw [moved.catchType, Frame.moved_pc, moved.covers]
    rw [List.find?_cons, List.find?_cons, same]
    cases entry.covers frame.pc && (entry.catchType == 0 || env.catches entry.catchType exception world) with
    | true => simp [Outcome.moved, Frame.moved, moved.handler]
    | false => exact ih

theorem perform_external_moved {frame : Frame World}
    (next : place (frame.pc + 1) = place frame.pc + 1) (instruction : Instruction) :
    performExternal env after (frame.moved place) instruction =
      (performExternal env before frame instruction).moved place := by
  unfold performExternal
  rw [Frame.moved_stack, Frame.moved_world]
  cases env.perform instruction frame.stack frame.world with
  | completes stack world => simp [Frame.moved, moved, next]
  | throws exception world => exact raise_moved env table frame exception world
  | stuck => rfl

theorem execute_moved {frame : Frame World}
    (next : place (frame.pc + 1) = place frame.pc + 1) (instruction : Instruction) :
    execute env after (frame.moved place) (instruction.relocate place frame.pc) =
      (execute env before frame instruction).moved place := by
  have jumps (stack : List Value) (target : Option Nat) :
      (frame.moved place).jump stack (target.map place) = (frame.jump stack target).moved place := by
    cases target <;> rfl
  by_cases plain : instruction.isPlain
  · have same : instruction.relocate place frame.pc = instruction := by
      cases instruction <;> first | rfl | cases plain
    rw [same, execute_plain env after _ plain, execute_plain env before _ plain]
    rw [Frame.moved_stack]
    split
    · simp [Frame.moved, moved, next]
    · exact perform_external_moved env table next instruction
    · rfl
  · cases instruction with
    | load kind form =>
      simp only [relocate, execute, Frame.moved]
      split
      · simp [Frame.moved, moved, next]
      · rfl
    | store kind form =>
      simp only [relocate, execute, Frame.moved]
      split
      · split_ifs
        · simp [Frame.moved, moved, next]
        · rfl
      · rfl
    | iinc slot amount | iincW slot amount =>
      simp only [relocate, execute, increment, Frame.moved]
      split
      · simp [Frame.moved, moved, next]
      · rfl
    | branch condition target =>
      simp only [relocate, execute, Frame.moved]
      split
      · next taken rest _ => cases taken <;> simp [Frame.moved, moved, next]
      · rfl
    | goto target => rfl
    | gotoW target =>
      simp only [relocate, execute, wide_target_relocate]
      exact jumps frame.stack (wideTarget target)
    | tableswitch default low high offsets =>
      simp only [relocate, execute, Frame.moved_stack, table_offset_relocate]
      split
      · next key rest _ =>
        rw [Frame.moved_pc, relative_target_relocate]
        exact jumps rest _
      · rfl
    | lookupswitch default pairs =>
      simp only [relocate, execute, Frame.moved_stack, lookup_offset_relocate]
      split
      · next key rest _ =>
        rw [Frame.moved_pc, relative_target_relocate]
        exact jumps rest _
      · rfl
    | valueReturn kind =>
      simp only [relocate, execute, Frame.moved]
      split
      · split_ifs <;> rfl
      · rfl
    | voidReturn | jsr | jsrW | ret | retW => rfl
    | athrow =>
      simp only [relocate, execute, Frame.moved_stack]
      split
      · exact raise_moved env table frame _ frame.world
      · exact perform_external_moved env table next .athrow
    | _ => exact absurd rfl plain

end Execution

end RustcCodegenJvm.Jvm
