import RustcCodegenJvm.Optimise1.CopyPropagation

/-!
# Dead moves

`eliminate_dead_moves` of `optimise1/copyprop.rs`: liveness of the variables at
the ends of the blocks, and rounds that delete moves and new pointer cells whose
destination is not live. Sets of names stand for the bit sets of the source;
every name of the function has a number there.
-/

namespace RustcCodegenJvm.Optimise1

open Oomir (Ty Operand)
open Program Library

/-! ### Liveness -/

def visitBlock (sets : Finset String × Finset String) (instruction : Instruction) :
    Finset String × Finset String :=
  ((visitInstructionUses instruction).foldl (fun uses used =>
      if used ∈ sets.2 then uses else insert used uses) sets.1,
    match instructionDef instruction with
    | some defined => insert defined sets.2
    | none => sets.2)

def useDefSets (function : Function) (label : String) : Finset String × Finset String :=
  match function.body.instructionsOf label with
  | some instructions => instructions.foldl visitBlock (∅, ∅)
  | none => (∅, ∅)

def livenessProblem (function : Function) : Dataflow.Problem String (Finset String) where
  gather label liveIn :=
    (successors function label).foldl (fun out successor => out ∪ liveIn successor) ∅
  transfer label out := (useDefSets function label).1 ∪ (out \ (useDefSets function label).2)
  dependents := predecessors function

def livenessStart (function : Function) : Dataflow.Progress String (Finset String) where
  input _ := ∅
  output _ := ∅
  pending := (labels function).reverse

/-- The variables that are live at the end of each block; `none` when the fuel does not suffice. -/
def blockLiveOut (function : Function) (fuel : Nat) : Option (String → Finset String) :=
  ((livenessProblem function).run fuel (livenessStart function)).map Dataflow.Progress.input

/-! ### Deleting -/

/-- The destination of a move or of a new cell. -/
def removableDeadDefinition : Instruction → Option String
  | .scalar (.move dest _) => some dest
  | .invokeStatic (some dest) className methodName _ _ =>
    if className = Oomir.pointerClass ∧ (methodName = "cell" ∨ methodName = "cellAligned") then some dest
    else none
  | _ => none

/-- The destination is not live after the instruction, and not shown by a debugger. -/
def isDead (debugLocals : List String) (live : Finset String) (instruction : Instruction) : Bool :=
  match removableDeadDefinition instruction with
  | some dest => dest ∉ live ∧ dest ∉ debugLocals
  | none => false

def liveBefore (instruction : Instruction) (live : Finset String) : Finset String :=
  (match instructionDef instruction with
    | some defined => live.erase defined
    | none => live) ∪ (visitInstructionUses instruction).toFinset

/-- A scan from the end of a block: the instructions that stay, and what is live before them. -/
def scanBlock (debugLocals : List String) (liveOut : Finset String) :
    List Instruction → List Instruction × Finset String
  | [] => ([], liveOut)
  | instruction :: rest =>
    let (kept, live) := scanBlock debugLocals liveOut rest
    if isDead debugLocals live instruction then (kept, live)
    else (instruction :: kept, liveBefore instruction live)

def eliminateRound (function : Function) (liveOut : String → Finset String) : Function :=
  { function with
    body := function.body.mapBlocks fun label instructions =>
      (scanBlock (debugLocals function) (liveOut label) instructions).1 }

def removedAny (function : Function) (liveOut : String → Finset String) : Bool :=
  function.body.basicBlocks.any fun block =>
    (scanBlock (debugLocals function) (liveOut block.1) block.2.instructions).1.length <
      block.2.instructions.length

/-- Rounds until nothing is deleted. -/
def eliminateDeadMoves : Nat → Function → Option Function
  | 0, _ => none
  | fuel + 1, function =>
    match blockLiveOut function fuel with
    | none => none
    | some liveOut =>
      if removedAny function liveOut then eliminateDeadMoves fuel (eliminateRound function liveOut)
      else some (eliminateRound function liveOut)

/-! ### The scan and the sets -/

section Scan

variable {debugLocals : List String} {liveOut : Finset String} {instructions : List Instruction}

def liveThrough (liveOut : Finset String) (instructions : List Instruction) : Finset String :=
  instructions.foldr liveBefore liveOut

theorem live_through_cons (instruction : Instruction) (rest : List Instruction) :
    liveThrough liveOut (instruction :: rest) = liveBefore instruction (liveThrough liveOut rest) := rfl

variable {instruction : Instruction} {live : Finset String}

theorem live_before_mono {larger : Finset String} (below : live ⊆ larger) :
    liveBefore instruction live ⊆ liveBefore instruction larger := by
  apply Finset.union_subset_union_left
  split
  · exact Finset.erase_subset_erase _ below
  · exact below

theorem removable_def {dest : String}
    (removable : removableDeadDefinition instruction = some dest) : instruction.dest = some dest := by
  unfold removableDeadDefinition at removable
  split at removable
  · cases removable
    rfl
  · split at removable
    · cases removable
      rfl
    · cases removable
  · cases removable

theorem is_dead_cases (dead : isDead debugLocals live instruction) :
    ∃ dest, removableDeadDefinition instruction = some dest ∧ instruction.dest = some dest ∧ dest ∉ live := by
  unfold isDead at dead
  split at dead
  · next dest removable => exact ⟨dest, removable, removable_def removable, (of_decide_eq_true dead).1⟩
  · cases dead

theorem dead_live_before
    (dead : isDead debugLocals live instruction) : live ⊆ liveBefore instruction live := by
  obtain ⟨dest, -, isDest, notLive⟩ := is_dead_cases dead
  simp only [liveBefore, instructionDef, isDest]
  rw [Finset.erase_eq_of_notMem notLive]
  exact Finset.subset_union_left

theorem scan_live_subset : (scanBlock debugLocals liveOut instructions).2 ⊆ liveThrough liveOut instructions := by
  induction instructions with
  | nil => exact Finset.Subset.refl _
  | cons instruction rest ih =>
    rw [scanBlock, live_through_cons]
    dsimp only
    have below : liveBefore instruction _ ⊆ liveBefore instruction _ := live_before_mono ih
    split
    · next dead => exact (dead_live_before dead).trans below
    · exact below

theorem visit_uses (defined uses : Finset String) (used : List String) :
    used.foldl (fun uses used => if used ∈ defined then uses else insert used uses) uses =
      uses ∪ (used.toFinset \ defined) := by
  induction used generalizing uses with
  | nil => simp
  | cons first rest ih =>
    rw [List.foldl_cons, ih, List.toFinset_cons]
    by_cases isDefined : first ∈ defined
    · rw [if_pos isDefined, Finset.insert_sdiff_of_mem _ isDefined]
    · rw [if_neg isDefined, Finset.insert_sdiff_of_notMem _ isDefined, Finset.insert_union,
        Finset.union_insert]

theorem use_def_sets_live (uses defined : Finset String) :
    (instructions.foldl visitBlock (uses, defined)).1 ∪
        (liveOut \ (instructions.foldl visitBlock (uses, defined)).2) =
      uses ∪ (liveThrough liveOut instructions \ defined) := by
  induction instructions generalizing uses defined with
  | nil => rfl
  | cons instruction rest ih =>
    rw [List.foldl_cons, visitBlock, ih, visit_uses, live_through_cons, liveBefore]
    ext name
    cases instructionDef instruction with
    | none =>
      simp only [Finset.mem_union, Finset.mem_sdiff]
      tauto
    | some dest =>
      simp only [Finset.mem_union, Finset.mem_sdiff, Finset.mem_insert, Finset.mem_erase]
      tauto

theorem live_out_subset (noDefinition : ∀ instruction ∈ instructions, instruction.dest = none) :
    liveOut ⊆ (scanBlock debugLocals liveOut instructions).2 := by
  induction instructions with
  | nil => exact Finset.Subset.refl _
  | cons instruction rest ih =>
    have here := noDefinition instruction List.mem_cons_self
    have later := ih fun other member => noDefinition other (List.mem_cons_of_mem _ member)
    rw [scanBlock]
    dsimp only
    split
    · exact later
    · simp only [liveBefore, instructionDef, here]
      exact later.trans Finset.subset_union_left

end Scan

/-! ### The equations of the analysis -/

section Solution

variable {function : Function}

theorem mem_gather {label name : String} {liveIn : String → Finset String} :
    name ∈ (livenessProblem function).gather label liveIn ↔
      ∃ successor ∈ successors function label, name ∈ liveIn successor := by
  have gathered := foldl_or_iff (name ∈ ·) (fun found successor => @Finset.mem_union _ _ found (liveIn successor) name)
    (successors function label) ∅
  simpa [livenessProblem] using gathered

theorem liveness_problem_local : (livenessProblem function).Local := by
  intro label other liveIn changed independent
  have notSuccessor : ∀ successor ∈ successors function label, successor ≠ other := by
    intro successor member same
    apply independent
    apply List.mem_filter.mpr
    have isBlock : label ∈ labels function := by
      unfold successors at member
      split at member
      · next instructions isBlock => exact mem_labels isBlock
      · cases member
    exact ⟨isBlock, by simpa [same] using member⟩
  ext name
  rw [mem_gather, mem_gather]
  constructor
  all_goals
    rintro ⟨successor, member, live⟩
    refine ⟨successor, member, ?_⟩
    simpa [notSuccessor successor member] using live

variable {fuel : Nat} {liveOut : String → Finset String}

theorem start_live_at_end (ran : blockLiveOut function fuel = some liveOut) {label target : String}
    {instructions following : List Instruction}
    (isBlock : function.body.instructionsOf label = some instructions)
    (isTarget : function.body.instructionsOf target = some following)
    (isSuccessor : target ∈ getBlockSuccessors instructions) :
    (scanBlock (debugLocals function) (liveOut target) following).2 ⊆ liveOut label := by
  obtain ⟨result, isResult, rfl⟩ := Option.map_eq_some_iff.mp ran
  have solves := Dataflow.Problem.run_solves liveness_problem_local
    (fun label (member : label ∈ labels function) => .inl (List.mem_reverse.mpr member)) isResult
  have atTarget := (solves target (mem_labels isTarget)).2
  have atLabel := (solves label (mem_labels isBlock)).1
  have liveIn : result.output target = liveThrough (result.input target) following := by
    have sets := @use_def_sets_live (result.input target) following ∅ ∅
    rw [Finset.empty_union, Finset.sdiff_empty] at sets
    rw [atTarget, ← sets]
    simp [livenessProblem, useDefSets, isTarget]
  intro name live
  rw [atLabel, mem_gather]
  refine ⟨target, ?_, ?_⟩
  · simp [successors, isBlock, isSuccessor, mem_labels isTarget]
  · rw [liveIn]
    exact scan_live_subset live

end Solution

end RustcCodegenJvm.Optimise1
