import RustcCodegenJvm.Library.SortedMap
import RustcCodegenJvm.Oomir.Program

/-!
# Running OOMIR functions

What an instruction computes from the values it reads is a parameter: it gives a
value or throws, and may change the world, but it sees neither the variables nor
their names. This module says which variables are read and assigned and where
control goes. A region of a block from `UnwindStart` to `UnwindEnd` catches what
is thrown inside it, keeps the exception in a variable, and goes on at its
target.
-/

namespace RustcCodegenJvm.Program

open Oomir (Operand)
open Library

inductive Effect (Value World : Type)
  | value (result : Value) (world : World)
  | exception (thrown : Value) (world : World)

/-- What instructions compute, and which of its targets a branch takes. -/
structure Environment (Value World : Type) where
  perform : Instruction → List Value → World → Effect Value World
  select : Instruction → List Value → Nat

/-- A variable has no value until it is assigned. -/
abbrev Store (Value : Type) := String → Option Value

structure State (Value World : Type) where
  store : Store Value
  world : World

/-- What one instruction does: it goes on with at most one assignment, or leaves its place. -/
inductive Result (Value World : Type)
  | next (assigned : Option (String × Value)) (world : World)
  | goto (target : String)
  | returned (value : Value) (world : World)
  | thrown (exception : Value) (world : World)
  | stuck

inductive Outcome (Value World : Type)
  | running (label : String) (index : Nat) (state : State Value World)
  | returned (value : Value) (world : World)
  | unwound (exception : Value) (world : World)
  | stuck

namespace Instruction

inductive Role
  /-- Nothing happens. -/
  | skip
  /-- Control goes to the chosen target, or to the last one. -/
  | goto (targets : List String) (otherwise : String)
  | return
  /-- A new exception is thrown. -/
  | throw
  | rethrow
  | copy (dest src : String)
  | compute

def role : Instruction → Role
  | sourceLocation _ | localVariableScope _ | unwindStart _ | unwindEnd | scalar (.label _) => .skip
  | scalar (.jump target) => .goto [] target
  | scalar (.branch _ trueBlock falseBlock) => .goto [trueBlock] falseBlock
  | scalar (.switch _ targets otherwise) => .goto (targets.map Prod.snd) otherwise
  | scalar (.return _) => .return
  | throwNewWithMessage _ _ => .throw
  | rethrow => .rethrow
  | scalar (.move dest (.variable src _)) => .copy dest src
  | _ => .compute

def eraseOperand : Operand → Operand
  | .variable _ ty => .variable "" ty
  | .constant value => .constant value

def erase (instruction : Instruction) : Instruction := instruction.mapReads eraseOperand fun _ => ""

variable {instruction : Instruction}

theorem role_copy {dest src : String} (isCopy : instruction.role = .copy dest src) :
    ∃ ty, instruction = .move dest (.variable src ty) := by
  unfold role at isCopy
  split at isCopy
  all_goals cases isCopy
  exact ⟨_, rfl⟩

theorem role_assigns (assigns : instruction.dest ≠ none) :
    instruction.role = .compute ∨ ∃ dest src, instruction.role = .copy dest src := by
  cases instruction with
  | scalar instruction =>
    cases instruction with
    | move dest src =>
      cases src with
      | «variable» src ty => exact .inr ⟨dest, src, rfl⟩
      | constant value => exact .inl rfl
    | _ => simp [dest, role] at assigns ⊢
  | _ => simp [dest, role] at assigns ⊢

end Instruction

variable {label target : String}

namespace CodeBlock

variable (body : CodeBlock)

def instructionsOf (label : String) : Option (List Instruction) :=
  (body.basicBlocks.lookup label).map BasicBlock.instructions

def mapBlocks (change : String → List Instruction → List Instruction) : CodeBlock where
  entry := body.entry
  basicBlocks := body.basicBlocks.map fun entry =>
    (entry.1, { entry.2 with instructions := change entry.1 entry.2.instructions })

theorem instructions_of_map_blocks (change : String → List Instruction → List Instruction) (label : String) :
    (body.mapBlocks change).instructionsOf label = (body.instructionsOf label).map (change label) := by
  have changed := SortedMap.lookup_map_values (fun label (block : BasicBlock) =>
    { block with instructions := change label block.instructions }) label body.basicBlocks
  unfold instructionsOf mapBlocks
  rw [changed]
  cases body.basicBlocks.lookup label <;> rfl

theorem mem_of_instructions_of {body : CodeBlock} {instructions : List Instruction}
    (isBlock : body.instructionsOf label = some instructions) :
    ∃ block, (label, block) ∈ body.basicBlocks ∧ block.instructions = instructions := by
  obtain ⟨block, found, isInstructions⟩ := Option.map_eq_some_iff.mp isBlock
  exact ⟨block, SortedMap.mem_of_lookup found, isInstructions⟩

end CodeBlock

section Semantics

variable {Value World : Type} (environment : Environment Value World)

def assign (assigned : Option (String × Value)) (store : Store Value) : Store Value :=
  match assigned with
  | some (dest, value) => Function.update store dest (some value)
  | none => store

def act (instruction : Instruction) (values : List Value) (world : World) : Result Value World :=
  match instruction.role with
  | .skip => .next none world
  | .goto targets otherwise =>
    .goto (targets.getD (environment.select instruction.erase values) otherwise)
  | .return =>
    match environment.perform instruction.erase values world with
    | .value result world => .returned result world
    | .exception thrown world => .thrown thrown world
  | .throw =>
    match environment.perform instruction.erase values world with
    | .value result world => .thrown result world
    | .exception thrown world => .thrown thrown world
  | .rethrow =>
    match values with
    | exception :: _ => .thrown exception world
    | [] => .stuck
  | .copy dest _ =>
    match values with
    | value :: _ => .next (some (dest, value)) world
    | [] => .stuck
  | .compute =>
    match environment.perform instruction.erase values world with
    | .value result world => .next (instruction.dest.map fun dest => (dest, result)) world
    | .exception thrown world => .thrown thrown world

/-- An instruction that reads a variable without a value is stuck. -/
def execute (instruction : Instruction) (store : Store Value) (world : World) : Result Value World :=
  match instruction.reads.mapM store with
  | some values => act environment instruction values world
  | none => .stuck

def afterInstruction (active : Option String) : Instruction → Option String
  | .unwindStart target => some target
  | .unwindEnd => none
  | _ => active

/-- The target of the region that is open after some instructions of a block. -/
def region (instructions : List Instruction) : Option String :=
  instructions.foldl afterInstruction none

def proceed (instructions : List Instruction) (label : String) (index : Nat)
    (state : State Value World) : Result Value World → Outcome Value World
  | .next assigned world => .running label (index + 1) ⟨assign assigned state.store, world⟩
  | .goto target => .running target 0 state
  | .returned value world => .returned value world
  | .thrown exception world =>
    match region (instructions.take index) with
    | some target =>
      .running target 0 ⟨assign (some (unwindExceptionLocal, exception)) state.store, world⟩
    | none => .unwound exception world
  | .stuck => .stuck

variable (body : CodeBlock)

/-- Control that leaves the blocks, or runs over the end of one, is stuck. -/
def step (label : String) (index : Nat) (state : State Value World) : Outcome Value World :=
  match body.instructionsOf label with
  | some instructions =>
    match instructions[index]? with
    | some instruction =>
      proceed instructions label index state (execute environment instruction state.store state.world)
    | none => .stuck
  | none => .stuck

def advance : Outcome Value World → Outcome Value World
  | .running label index state => step environment body label index state
  | finished => finished

def run (steps : Nat) (state : State Value World) : Outcome Value World :=
  (advance environment body)^[steps] (.running body.entry 0 state)

/-- A test of the place and the variables of a run that goes on. -/
def Outcome.shows (test : String → Nat → Store Value → Bool) : Outcome Value World → Bool
  | .running label index state => test label index state.store
  | _ => false

theorem Outcome.shows_running {test : String → Nat → Store Value → Bool} {outcome : Outcome Value World}
    (shown : outcome.shows test = true) :
    ∃ label index state, outcome = .running label index state ∧ test label index state.store = true := by
  cases outcome with
  | running label index state => exact ⟨label, index, state, rfl, shown⟩
  | _ => cases shown

theorem run_succ (steps : Nat) (state : State Value World) :
    run environment body (steps + 1) state = advance environment body (run environment body steps state) :=
  Function.iterate_succ_apply' _ _ _

end Semantics

/-! ### What an instruction can do -/

section Effects

variable {Value World : Type} {environment : Environment Value World} {instruction : Instruction}
  {store : Store Value} {world later : World}

theorem execute_ran {result : Result Value World} (ran : execute environment instruction store world = result)
    (notStuck : result ≠ .stuck) : ∃ values, instruction.reads.mapM store = some values ∧
      act environment instruction values world = result := by
  unfold execute at ran
  split at ran
  · next values isValues => exact ⟨values, isValues, ran⟩
  · exact absurd ran.symm notStuck

variable {assigned : Option (String × Value)}

theorem act_next {values : List Value}
    (ran : act environment instruction values world = .next assigned later) :
    assigned.map Prod.fst = instruction.dest ∧
      ∀ dest src, instruction.role = .copy dest src → assigned.map Prod.snd = values.head? := by
  unfold act at ran
  split at ran
  case h_1 isSkip =>
    cases ran
    have noDest : instruction.dest = none := by
      by_contra assigns
      rcases Instruction.role_assigns assigns with isCompute | ⟨dest, src, isCopy⟩
      · rw [isSkip] at isCompute
        cases isCompute
      · rw [isSkip] at isCopy
        cases isCopy
    rw [noDest, isSkip]
    exact ⟨rfl, by simp⟩
  case h_6 dest src isCopy =>
    obtain ⟨ty, rfl⟩ := Instruction.role_copy isCopy
    split at ran
    · cases ran
      exact ⟨rfl, by simp⟩
    · cases ran
  case h_7 isCompute =>
    split at ran
    · cases ran
      rw [isCompute]
      constructor
      · cases instruction.dest <;> rfl
      · simp
    · cases ran
  all_goals try split at ran
  all_goals cases ran

/-- Going on, an instruction assigns its destination, and a move of a variable assigns
what the variable holds. -/
theorem execute_next (ran : execute environment instruction store world = .next assigned later) :
    assigned.map Prod.fst = instruction.dest ∧
      ∀ dest src ty, instruction = .move dest (.variable src ty) → assigned.map Prod.snd = store src := by
  obtain ⟨values, isValues, acted⟩ := execute_ran ran (by simp)
  obtain ⟨isDest, copies⟩ := act_next acted
  constructor
  · exact isDest
  · intro dest src ty isMove
    subst isMove
    rw [copies dest src rfl]
    cases isSrc : store src with
    | none => simp [Instruction.reads, Instruction.object, Instruction.operands, Operand.getName, isSrc] at isValues
    | some value =>
      simp [Instruction.reads, Instruction.object, Instruction.operands, Operand.getName, isSrc] at isValues
      simp [← isValues]

theorem execute_goto (ran : execute environment instruction store world = .goto target) :
    ∃ targets otherwise, instruction.role = .goto targets otherwise ∧ target ∈ otherwise :: targets := by
  obtain ⟨values, -, acted⟩ := execute_ran ran (by simp)
  unfold act at acted
  split at acted
  case h_2 targets otherwise isGoto =>
    cases acted
    refine ⟨targets, otherwise, isGoto, ?_⟩
    rw [List.getD_eq_getElem?_getD]
    cases found : targets[environment.select instruction.erase values]? with
    | none => simp
    | some target => simp [List.mem_of_getElem? found]
  all_goals try split at acted
  all_goals cases acted

/-- The three ways a step leads to a place. -/
theorem step_running {body : CodeBlock} {index next : Nat}
    {state after : State Value World} (ran : step environment body label index state = .running target next after) :
    ∃ instructions instruction, body.instructionsOf label = some instructions ∧
      instructions[index]? = some instruction ∧
      ((∃ assigned, execute environment instruction state.store state.world = .next assigned after.world ∧
          target = label ∧ next = index + 1 ∧ after.store = assign assigned state.store) ∨
        (execute environment instruction state.store state.world = .goto target ∧ next = 0 ∧ after = state) ∨
        ∃ exception, execute environment instruction state.store state.world = .thrown exception after.world ∧
          region (instructions.take index) = some target ∧ next = 0 ∧
            after.store = assign (some (unwindExceptionLocal, exception)) state.store) := by
  unfold step at ran
  split at ran
  · next instructions isBlock =>
    split at ran
    · next instruction isInstruction =>
      refine ⟨instructions, instruction, isBlock, isInstruction, ?_⟩
      unfold proceed at ran
      split at ran
      · next assigned world executed =>
        cases ran
        exact .inl ⟨assigned, executed, rfl, rfl, rfl⟩
      · next goal executed =>
        cases ran
        exact .inr (.inl ⟨executed, rfl, rfl⟩)
      · cases ran
      · next exception world executed =>
        split at ran
        · next cleanup isRegion =>
          cases ran
          exact .inr (.inr ⟨exception, executed, isRegion, rfl, rfl⟩)
        · cases ran
      · cases ran
    · cases ran
  · cases ran

end Effects

/-! ### Reading through other names -/

section Renaming

variable {Value World : Type} {environment : Environment Value World} {instruction : Instruction}
  {store : Store Value} {world : World} {operand : Operand → Operand} {name : String → String}

/-- The renaming of operands changes names of variables only. -/
structure Renames (operand : Operand → Operand) (name : String → String) (store : Store Value) : Prop where
  constant : ∀ value, operand (.constant value) = .constant value
  «variable» : ∀ source ty, ∃ other, operand (.variable source ty) = .variable other ty ∧ store other = store source
  object : ∀ source, store (name source) = store source

variable (renames : Renames operand name store)

include renames

theorem erase_renamed :
    (instruction.mapReads operand name).erase = instruction.erase := by
  have same : Instruction.eraseOperand ∘ operand = Instruction.eraseOperand := by
    funext source
    cases source with
    | constant value => simp [renames.constant]
    | «variable» source ty =>
      obtain ⟨other, isOther, -⟩ := renames.variable source ty
      simp [isOther, Instruction.eraseOperand]
  rw [Instruction.erase, Instruction.erase, Instruction.map_reads_map_reads, same]
  rfl

theorem reads_renamed :
    (instruction.mapReads operand name).reads.mapM store = instruction.reads.mapM store := by
  have objects : (instruction.mapReads operand name).object.toList.mapM store =
      instruction.object.toList.mapM store := by
    cases instruction with
    | scalar instruction => cases instruction <;> rfl
    | arrayStore | arrayFill | setField =>
      simp [Instruction.mapReads, Instruction.object, renames.object]
    | _ => rfl
  have operands (sources : List Operand) :
      (sources.filterMap (Operand.getName ∘ operand)).mapM store =
        (sources.filterMap Operand.getName).mapM store := by
    induction sources with
    | nil => rfl
    | cons source rest ih =>
      cases source with
      | constant value => simp [List.filterMap_cons, renames.constant, Operand.getName, ih]
      | «variable» source ty =>
        obtain ⟨other, isOther, same⟩ := renames.variable source ty
        simp [isOther, Operand.getName, same, ih]
  rw [Instruction.reads, Instruction.reads, List.mapM_append, List.mapM_append, objects,
    Instruction.operands_map_reads, List.filterMap_map, operands]

theorem act_renamed (values : List Value) :
    act environment (instruction.mapReads operand name) values world =
      act environment instruction values world := by
  have sameRole : (∀ dest source, instruction ≠ .move dest source) →
      (instruction.mapReads operand name).role = instruction.role := by
    intro notMove
    cases instruction with
    | scalar instruction =>
      cases instruction with
      | move dest source => exact absurd rfl (notMove dest source)
      | _ => rfl
    | _ => rfl
  by_cases isMove : ∃ dest source, instruction = .move dest source
  · obtain ⟨dest, source, rfl⟩ := isMove
    cases source with
    | constant value =>
      have same : (Instruction.move dest (.constant value)).mapReads operand name =
          .move dest (.constant value) := by
        simp [Instruction.mapReads, renames.constant]
      rw [same]
    | «variable» source ty =>
      obtain ⟨other, isOther, -⟩ := renames.variable source ty
      simp only [Instruction.mapReads, isOther]
      rfl
  · have notMove : ∀ dest source, instruction ≠ .move dest source :=
      fun dest source same => isMove ⟨dest, source, same⟩
    simp only [act, sameRole notMove, erase_renamed renames, Instruction.dest_map_reads]

theorem execute_renamed : execute environment (instruction.mapReads operand name) store world =
      execute environment instruction store world := by
  simp only [execute, reads_renamed renames, act_renamed renames]

end Renaming

end RustcCodegenJvm.Program
