import RustcCodegenJvm.Library.ForwardTermination
import RustcCodegenJvm.Optimise1.ConstantPropagation

/-!
# Termination of constant propagation

A map is below the maps that bind its variables to equal constants. When no
block is given fewer constants and puts out more, the loop ends, also in the
presence of constants that are not equal to themselves. A division can break
this: a quotient of zero is known when the divisor is not.
-/

namespace RustcCodegenJvm.Optimise1

open Library Option
open Oomir hiding Instruction BasicBlock CodeBlock Function
open Program (Instruction BasicBlock CodeBlock Function)

/-! ### The order of maps -/

/-- Identical, or equal: a NaN is only the former. -/
def Alike (first second : Constant) : Prop := first = second ∨ first.same second

variable {first second : Constant}

theorem Alike.trans {third : Constant} (left : Alike first second)
    (right : Alike second third) : Alike first third := by
  rcases left with rfl | left
  · exact right
  · rcases right with rfl | right
    · exact .inr left
    · exact .inr (Constant.same_trans left right)

theorem Alike.same {third : Constant} (alike : Alike first second)
    (equal : first.same third) : second.same third := by
  rcases alike with rfl | also
  · exact equal
  · exact Constant.same_trans (Constant.same_symm also) equal

/-- A map is below those that bind all its variables alike. -/
instance : Preorder ConstantMap where
  le lower upper := ∀ name constant, lower.get name = some constant →
    ∃ other, upper.get name = some other ∧ Alike constant other
  le_refl _ _ constant found := ⟨constant, found, .inl rfl⟩
  le_trans first second third below above name constant found := by
    obtain ⟨other, isOther, alike⟩ := below name constant found
    obtain ⟨more, isMore, alsoAlike⟩ := above name other isOther
    exact ⟨more, isMore, alike.trans alsoAlike⟩

section Meet

variable {first second : ConstantMap} {name : String} {constant : Constant}

theorem get_meet : (meetConstants first second).get name = some constant ↔
    first.get name = some constant ∧ ∃ other, second.get name = some other ∧ constant.same other := by
  simp [meetConstants, any_eq_true]

theorem meet_le_left (first second : ConstantMap) : meetConstants first second ≤ first :=
  fun _ constant found => ⟨constant, (get_meet.mp found).1, .inl rfl⟩

theorem meet_le_right (first second : ConstantMap) : meetConstants first second ≤ second := by
  intro name constant found
  obtain ⟨-, other, isOther, equal⟩ := get_meet.mp found
  exact ⟨other, isOther, .inr equal⟩

theorem meet_mono {lowerFirst lowerSecond : ConstantMap} (belowFirst : lowerFirst ≤ first)
    (belowSecond : lowerSecond ≤ second) :
    meetConstants lowerFirst lowerSecond ≤ meetConstants first second := by
  intro name constant found
  obtain ⟨inFirst, other, inSecond, equal⟩ := get_meet.mp found
  obtain ⟨above, isAbove, alike⟩ := belowFirst name constant inFirst
  obtain ⟨otherAbove, isOtherAbove, otherAlike⟩ := belowSecond name other inSecond
  have equalAbove := alike.same (Constant.same_symm (otherAlike.same (Constant.same_symm equal)))
  exact ⟨above, get_meet.mpr ⟨isAbove, otherAbove, isOtherAbove, equalAbove⟩, alike⟩

theorem le_size {lower upper : ConstantMap} (below : lower ≤ upper) : lower.size ≤ upper.size := by
  apply FiniteMap.size_le
  intro name isKnown
  obtain ⟨constant, found⟩ := isSome_iff_exists.mp isKnown
  obtain ⟨other, isOther, -⟩ := below name constant found
  simp [isOther]

/-- A meet is equal to every map of its size above it. -/
theorem meet_settles {fact : ConstantMap} (below : meetConstants first second ≤ fact)
    (noLarger : fact.size ≤ (meetConstants first second).size) :
    ConstantMap.same fact (meetConstants first second) := by
  have covers (name : String) (isKnown : ((meetConstants first second).get name).isSome) :
      (fact.get name).isSome := by
    obtain ⟨constant, found⟩ := isSome_iff_exists.mp isKnown
    obtain ⟨other, isOther, -⟩ := below name constant found
    simp [isOther]
  unfold ConstantMap.same
  rw [Bool.and_eq_true, beq_iff_eq, List.all_eq_true]
  refine ⟨le_antisymm noLarger (le_size below), ?_⟩
  rintro ⟨name, constant⟩ member
  have found := FiniteMap.mem_entries.mp member
  obtain ⟨met, isMet⟩ := isSome_iff_exists.mp
    (FiniteMap.covered covers noLarger (by simp [found] : (fact.get name).isSome))
  obtain ⟨other, isOther, alike⟩ := below name met isMet
  obtain ⟨-, partner, -, equal⟩ := get_meet.mp isMet
  rw [found] at isOther
  cases isOther
  rw [isMet, any_some]
  exact Constant.same_trans (alike.same equal) (Constant.same_symm equal)

end Meet

/-! ### Runs end -/

section Ends

variable (library : FoldLibrary) (entry : String) (cfg : Cfg)

/-- No block panics, and none puts out more constants when it is given fewer. -/
def MonotoneConstants : Prop :=
  ∀ label instructions, cfg.instructionsOf label = some instructions →
    (∀ inState, (calculateBlockOutputState library instructions inState).isSome) ∧
      ∀ lower upper lowerOut upperOut, lower ≤ upper →
        calculateBlockOutputState library instructions lower = some lowerOut →
          calculateBlockOutputState library instructions upper = some upperOut → lowerOut ≤ upperOut

variable {library entry cfg}

theorem mem_cfg_labels {label : String} (member : label ∈ cfg.labels) :
    (cfg.blocks.lookup label).isSome := by
  obtain ⟨⟨_, info⟩, isBlock, rfl⟩ := List.mem_map.mp member
  generalize cfg.blocks = blocks at isBlock
  induction blocks with
  | nil => cases isBlock
  | cons head rest ih =>
    rw [SortedMap.lookup_cons]
    rcases List.mem_cons.mp isBlock with here | later
    · simp [← here]
    · split_ifs
      · rfl
      · exact ih later

theorem cfg_label {label : String} {info : BasicBlockInfo} (found : cfg.blocks.lookup label = some info) :
    label ∈ cfg.labels :=
  List.mem_map_of_mem (SortedMap.mem_of_lookup found)

theorem successor_cfg_label {label successor : String} (member : successor ∈ successorsOf cfg.blocks label) :
    successor ∈ cfg.labels := by
  have isPredecessor := (cfg.edges label successor).mp member
  unfold predecessorsOf at isPredecessor
  cases found : cfg.blocks.lookup successor with
  | none => simp [found] at isPredecessor
  | some info => exact cfg_label found

theorem constant_problem_descending (monotone : MonotoneConstants library cfg)
    (isBlock : (cfg.blocks.lookup entry).isSome) :
    ForwardFlow.Problem.Descending cfg.labels FiniteMap.size (constantProblem library entry cfg) where
  total label isLabel inState := by
    obtain ⟨info, found⟩ := isSome_iff_exists.mp (mem_cfg_labels isLabel)
    have isInstructions : cfg.instructionsOf label = some info.originalBlock.instructions := by
      simp [Cfg.instructionsOf, found]
    simpa [constantProblem, isInstructions] using (monotone label _ isInstructions).1 inState
  mono label isLabel lower upper lowerOut upperOut below lowerRan upperRan := by
    obtain ⟨instructions, isInstructions, lowerRan⟩ := bind_eq_some_iff.mp lowerRan
    obtain ⟨others, isOthers, upperRan⟩ := bind_eq_some_iff.mp upperRan
    rw [isInstructions] at isOthers
    cases isOthers
    exact (monotone label instructions isInstructions).2 lower upper lowerOut upperOut below lowerRan upperRan
  meetLeft := meet_le_left
  meetRight := meet_le_right
  meetMono _ _ _ _ := meet_mono
  sizeMono _ _ := le_size
  settles _ _ _ := meet_settles
  edges label successor member := (cfg.edges label successor).mp member
  closed _ _ _ := successor_cfg_label
  entry := by
    obtain ⟨info, found⟩ := isSome_iff_exists.mp isBlock
    exact cfg_label found

end Ends

/-! ### Blocks that fold nothing -/

/-- Moves, calls, stores and jumps. -/
def foldsNothing : Instruction → Bool
  | .scalar (.move ..) | .scalar (.jump _) | .scalar (.branch ..) | .scalar (.switch ..)
  | .scalar (.label _) | .scalar (.constructObject ..) | .scalar (.return _) => true
  | .scalar _ | .arrayGet .. | .length .. | .getField .. | .cast .. => false
  | _ => true

theorem Alike.type (alike : Alike first second) :
    Ty.fromConstant first = Ty.fromConstant second := by
  rcases alike with rfl | equal
  · rfl
  · exact Constant.same_type equal

theorem Alike.propagatable (alike : Alike first second) :
    first.isPropagatable = second.isPropagatable := by
  rcases alike with rfl | equal
  · rfl
  · exact Constant.same_propagatable equal

theorem Alike.immutable (alike : Alike first second) :
    isImmutable first = isImmutable second := by
  rcases alike with rfl | equal
  · rfl
  · by_cases leaf : first.isLeaf
    · rw [(Constant.same_leaf (.inl leaf)).mp equal]
    · cases first <;> cases second <;> first | rfl | cases equal | exact absurd rfl leaf

section Monotone

variable {lower upper : ConstantMap} (below : lower ≤ upper)

include below

theorem lookup_mono {operand : Operand} {constant : Constant}
    (found : lookupConst operand lower = some constant) :
    ∃ other, lookupConst operand upper = some other ∧ Alike constant other := by
  obtain ⟨isFound, isPropagatable⟩ := filter_eq_some_iff.mp found
  cases operand with
  | constant known => exact ⟨constant, found, .inl rfl⟩
  | «variable» name ty =>
    obtain ⟨isKnown, isType⟩ := filter_eq_some_iff.mp isFound
    obtain ⟨other, isOther, alike⟩ := below name constant isKnown
    refine ⟨other, ?_, alike⟩
    rw [alike.propagatable] at isPropagatable
    rw [alike.type] at isType
    exact filter_eq_some_iff.mpr ⟨filter_eq_some_iff.mpr ⟨isOther, isType⟩, isPropagatable⟩

theorem assign_mono {dest : String} {lowerValue upperValue : Option Constant}
    (value : ∀ constant, lowerValue = some constant →
      ∃ other, upperValue = some other ∧ Alike constant other) :
    assignConstant lower dest lowerValue ≤ assignConstant upper dest upperValue := by
  have assigned (state : ConstantMap) (value : Option Constant) (name : String) :
      (assignConstant state dest value).get name = if name = dest then value else state.get name := by
    cases value with
    | none => exact FiniteMap.get_remove
    | some constant => exact FiniteMap.get_insert
  intro name constant found
  rw [assigned] at found ⊢
  split_ifs at found ⊢
  · exact value constant found
  · exact below name constant found

theorem remove_mono (dest : String) : lower.remove dest ≤ upper.remove dest := by
  have assigned : assignConstant lower dest none ≤ assignConstant upper dest none :=
    assign_mono below (by simp)
  exact assigned

theorem retain_immutable_mono : (lower.retain fun _ constant => isImmutable constant) ≤
      upper.retain fun _ constant => isImmutable constant := by
  intro name constant found
  obtain ⟨isKnown, immutable⟩ := FiniteMap.get_retain.mp found
  obtain ⟨other, isOther, alike⟩ := below name constant isKnown
  exact ⟨other, FiniteMap.get_retain.mpr ⟨isOther, alike.immutable ▸ immutable⟩, alike⟩

omit below in
theorem propagated_type (state : ConstantMap) (operand : Operand) :
    (propagated state operand).getType = operand.getType := by
  unfold propagated
  cases found : lookupConst operand state with
  | none => rfl
  | some constant =>
    obtain ⟨isFound, -⟩ := filter_eq_some_iff.mp found
    cases operand with
    | constant known =>
      cases isFound
      rfl
    | «variable» name ty => exact of_decide_eq_true (filter_eq_some_iff.mp isFound).2

theorem after_call_mono (mayMutate : Ty → Bool) (dest : Option String) (args : List Operand) :
    afterCall lower mayMutate dest args ≤ afterCall upper mayMutate dest args := by
  have assigned : dest.elim lower lower.remove ≤ dest.elim upper upper.remove := by
    cases dest with
    | none => exact below
    | some dest => exact remove_mono below dest
  simp only [afterCall, List.any_map, Function.comp_def, propagated_type]
  split_ifs
  · exact retain_immutable_mono assigned
  · exact assigned

omit below in
theorem before_store_state (state : ConstantMap) (object name : String) :
    (beforeStore state object).1.get name = if name = object then none else state.get name := by
  unfold beforeStore
  split
  · exact FiniteMap.get_remove
  · next unknown =>
    split_ifs with here
    · rw [here, unknown]
    · rfl

theorem before_store_mono (object : String) :
    (beforeStore lower object).1 ≤ (beforeStore upper object).1 := by
  intro name constant found
  rw [before_store_state] at found ⊢
  split_ifs at found ⊢
  exact below name constant found

theorem process_mono (library : FoldLibrary) (lowerInitial upperInitial : ConstantMap)
    {instruction : Instruction} (plain : foldsNothing instruction) : ∃ lowerResult upperResult,
      processInstruction library lowerInitial lower false instruction = some lowerResult ∧
      processInstruction library upperInitial upper false instruction = some upperResult ∧
      lowerResult.1 ≤ upperResult.1 := by
  cases instruction with
  | scalar instruction =>
    refine ⟨_, _, rfl, rfl, ?_⟩
    cases instruction with
    | move dest src => exact assign_mono below fun _ found => lookup_mono below found
    | constructObject dest => exact remove_mono below dest
    | jump | branch | «switch» | label | «return» => exact below
    | arithmetic | bitwise | comparison | shift | not | neg => cases plain
  | callIndirect | invokeStatic | invokeRustStatic => exact ⟨_, _, rfl, rfl, after_call_mono below _ _ _⟩
  | arrayStore | arrayFill | setField => exact ⟨_, _, rfl, rfl, before_store_mono below _⟩
  | newArray | createFunctionPointer => exact ⟨_, _, rfl, rfl, remove_mono below _⟩
  | arrayGet | length | getField | cast => cases plain
  | _ => exact ⟨_, _, rfl, rfl, below⟩

end Monotone

theorem process_from_mono (library : FoldLibrary) (lowerInitial upperInitial : ConstantMap)
    {instructions : List Instruction} (plain : instructions.all foldsNothing) {lower upper : ConstantMap}
    (below : lower ≤ upper) : ∃ lowerResult upperResult,
      processFrom library lowerInitial false lower instructions = some lowerResult ∧
      processFrom library upperInitial false upper instructions = some upperResult ∧
      lowerResult.1 ≤ upperResult.1 := by
  induction instructions generalizing lower upper with
  | nil => exact ⟨_, _, rfl, rfl, below⟩
  | cons instruction rest ih =>
    rw [List.all_cons, Bool.and_eq_true] at plain
    obtain ⟨lowerNext, upperNext, lowerStep, upperStep, nextBelow⟩ :=
      process_mono below library lowerInitial upperInitial plain.1
    obtain ⟨lowerResult, upperResult, lowerRest, upperRest, resultBelow⟩ := ih plain.2 nextBelow
    refine ⟨_, _, ?_, ?_, resultBelow⟩
    · simp [processFrom, lowerStep, lowerRest]
    · simp [processFrom, upperStep, upperRest]

/-- Blocks of moves, calls, stores and jumps put out no more constants for fewer. -/
theorem plain_blocks_monotone (library : FoldLibrary) {cfg : Cfg}
    (plain : cfg.blocks.all fun block => block.2.originalBlock.instructions.all foldsNothing) :
    MonotoneConstants library cfg := by
  intro label instructions isBlock
  obtain ⟨info, found, rfl⟩ := map_eq_some_iff.mp isBlock
  have plainBlock := List.all_eq_true.mp plain _ (SortedMap.mem_of_lookup found)
  have process {lower upper : ConstantMap} (below : lower ≤ upper) :=
    process_from_mono library lower upper plainBlock below
  constructor
  · intro inState
    obtain ⟨result, _, ran, -⟩ := process (le_refl inState)
    simp [calculateBlockOutputState, processBlockInstructions, ran]
  · intro lower upper lowerOut upperOut below lowerRan upperRan
    obtain ⟨lowerResult, upperResult, lowerIs, upperIs, resultBelow⟩ := process below
    simp only [calculateBlockOutputState, processBlockInstructions, lowerIs, upperIs] at lowerRan upperRan
    cases lowerRan
    cases upperRan
    exact resultBelow

/-! ### The worklist -/

def FoldLibrary.integral : FoldLibrary where
  toNumerics := .integral
  roundSingle _ := 0
  roundDouble _ := 0

def intConstant (value : Int) : Constant := .int .i32 (BitVec.ofInt 32 value)

def copyingLoop : CodeBlock where
  entry := "entry"
  basicBlocks :=
    [("entry", ⟨"entry", [.move "a" (.constant (intConstant 0)), .jump "loop"]⟩),
      ("loop", ⟨"loop", [.move "b" (.variable "a" (.int .i32)), .jump "loop"]⟩)]

/-- The first round divides by zero and knows nothing of the quotient; the next, with an
unknown divisor, takes it to be zero. -/
def dividingLoop : CodeBlock where
  entry := "entry"
  basicBlocks :=
    [("entry", ⟨"entry", [.move "a" (.constant (intConstant 0)), .jump "loop"]⟩),
      ("loop", ⟨"loop",
        [.scalar (.arithmetic .div "d" (.constant (intConstant 0)) (.variable "a" (.int .i32))),
          .move "a" (.variable "d" (.int .i32)), .jump "loop"]⟩)]

def zeroKnown : ConstantMap := FiniteMap.empty.insert "a" (intConstant 0)

def bothKnown : ConstantMap := zeroKnown.insert "d" (intConstant 0)

def dividingProblem : ForwardFlow.Problem String ConstantMap :=
  constantProblem .integral "entry" (buildCfg dividingLoop)

/-- The loop waits, and is given the zero or nothing by turns. -/
def DivisionAlternates (progress : ForwardFlow.Progress String ConstantMap) : Prop :=
  progress.pending = ["loop"] ∧ progress.output "entry" = some zeroKnown ∧
    (progress.input "loop" = some zeroKnown ∧
        (progress.output "loop" = none ∨ progress.output "loop" = some bothKnown) ∨
      progress.input "loop" = some .empty ∧ progress.output "loop" = some .empty)

theorem dividing_visit {progress : ForwardFlow.Progress String ConstantMap} (given result merged : ConstantMap)
    (entryOutput : progress.output "entry" = some zeroKnown) (isGiven : progress.input "loop" = some given)
    (transferred : dividingProblem.transfer "loop" given = some result)
    (changesOutput : dividingProblem.unchanged (progress.output "loop") result = false)
    (meets : meetConstants zeroKnown result = merged) (changesInput : ConstantMap.same given merged = false) :
    dividingProblem.visit progress "loop" [] =
      some ⟨Function.update progress.input "loop" (some merged),
        Function.update progress.output "loop" (some result), ["loop"]⟩ := by
  have isSuccessors : dividingProblem.successors "loop" = ["loop"] := by decide +kernel
  have isPredecessors : dividingProblem.predecessors "loop" = ["entry", "loop"] := by decide +kernel
  have notEntry : "loop" ≠ dividingProblem.entry := by decide
  have gathers : dividingProblem.merged (Function.update progress.output "loop" (some result)) "loop" =
      some merged := by
    simp [ForwardFlow.Problem.merged, ForwardFlow.Problem.withOutput, isPredecessors, entryOutput]
    exact meets
  have changed : dividingProblem.unchanged (progress.input "loop") merged = false := by
    rw [isGiven]
    exact changesInput
  simp only [ForwardFlow.Problem.visit, isGiven, transferred, map_some, changesOutput, isSuccessors,
    List.foldl_cons, List.foldl_nil, ForwardFlow.Problem.relax, if_neg notEntry, gathers]
  rw [if_neg (by simp), if_neg (by simp [← isGiven, changed])]
  rfl

theorem division_goes_on (progress : ForwardFlow.Progress String ConstantMap)
    (alternates : DivisionAlternates progress) : ∃ node rest next, progress.pending = node :: rest ∧
      dividingProblem.visit progress node rest = some next ∧ DivisionAlternates next := by
  obtain ⟨isPending, entryOutput, ⟨isGiven, isOutput⟩ | ⟨isGiven, isOutput⟩⟩ := alternates
  · have changesOutput : dividingProblem.unchanged (progress.output "loop") .empty = false := by
      rcases isOutput with isOutput | isOutput
      · rw [isOutput]
        rfl
      · rw [isOutput]
        decide +kernel
    have visited := dividing_visit zeroKnown .empty .empty entryOutput isGiven rfl changesOutput rfl
      (by decide +kernel)
    refine ⟨"loop", [], _, isPending, visited, rfl, ?_, .inr ⟨?_, ?_⟩⟩
    · simpa using entryOutput
    · simp
    · simp
  · have changesOutput : dividingProblem.unchanged (progress.output "loop") bothKnown = false := by
      rw [isOutput]
      decide +kernel
    have visited := dividing_visit .empty bothKnown zeroKnown entryOutput isGiven rfl changesOutput rfl
      (by decide +kernel)
    refine ⟨"loop", [], _, isPending, visited, rfl, ?_, .inl ⟨?_, .inr ?_⟩⟩
    · simpa using entryOutput
    · simp
    · simp

end RustcCodegenJvm.Optimise1
