import RustcCodegenJvm.Optimise1.CopyAliases

/-!
# Termination of the alias analysis

The analysis iterates from empty maps. Its rounds end when the blocks keep the
order of alias maps, which they do when no copy is copied again. Resolving a
move through an alias can break this: a block may lose an entry by being given
one, and around a loop the two maps then follow each other forever.
-/

namespace RustcCodegenJvm.Optimise1

open Oomir (Ty Operand)
open Program Library

section Ends

variable (function : Function)

def IsCopy (dest : String) : Prop :=
  ∃ label instructions, function.body.instructionsOf label = some instructions ∧
    ∃ src ty, Instruction.move dest (.variable src ty) ∈ instructions

/-- Only destinations of moves have aliases. -/
def OfCopies (aliases : AliasMap (localNames function)) : Prop :=
  ∀ name value, aliases.alias? name = some value → IsCopy function name

/-- Blocks put out more aliases when they are given more. -/
def MonotoneBlocks : Prop :=
  ∀ label instructions, function.body.instructionsOf label = some instructions →
    ∀ aliases larger : AliasMap (localNames function), OfCopies function aliases →
      OfCopies function larger → aliases ≤ larger →
        transferAliasesThroughBlock (debugLocals function) instructions aliases ≤
          transferAliasesThroughBlock (debugLocals function) instructions larger

variable {function} {instruction : Instruction}

variable {aliases : AliasMap (localNames function)}

theorem transfer_instruction_copies (copies : OfCopies function aliases)
    (isCopy : ∀ dest src ty, instruction = .move dest (.variable src ty) → IsCopy function dest) :
    OfCopies function (transferAliasesThroughInstruction (debugLocals function) aliases instruction) := by
  intro name value found
  rcases transfer_instruction_cases found with ⟨src, isMove, copied, -⟩ | killed
  · obtain ⟨source, rfl, -⟩ := move_alias_cases copied
    exact isCopy name source value.ty isMove
  · exact copies name value (kill_definition_cases killed).1

variable {label : String}

theorem transfer_block_copies {instructions : List Instruction}
    (isBlock : function.body.instructionsOf label = some instructions)
    (copies : OfCopies function aliases) :
    OfCopies function (transferAliasesThroughBlock (debugLocals function) instructions aliases) := by
  have general (later : List Instruction) (inside : ∀ instruction ∈ later, instruction ∈ instructions)
      (aliases : AliasMap (localNames function)) (copies : OfCopies function aliases) :
      OfCopies function (transferAliasesThroughBlock (debugLocals function) later aliases) := by
    induction later generalizing aliases with
    | nil => exact copies
    | cons instruction rest ih =>
      apply ih
      · intro other member
        exact inside other (List.mem_cons_of_mem _ member)
      · apply transfer_instruction_copies copies
        intro dest src ty isMove
        exact ⟨label, instructions, isBlock, src, ty, isMove ▸ inside instruction List.mem_cons_self⟩
  exact general instructions (fun _ member => member) aliases copies

theorem alias_gather_mono {exits larger : String → AliasMap (localNames function)}
    (below : ∀ other, exits other ≤ larger other) :
    (aliasProblem function).gather label exits ≤ (aliasProblem function).gather label larger := by
  intro name value found
  unfold aliasProblem at found ⊢
  dsimp only at found ⊢
  split
  · next isEntry =>
    rw [if_pos isEntry] at found
    cases found
  · next notEntry =>
    rw [if_neg notEntry, meet_predecessor_aliases] at found
    rw [meet_predecessor_aliases]
    exact ⟨found.1, fun predecessor member => below predecessor name value (found.2 predecessor member)⟩

theorem alias_gather_copies {exits : String → AliasMap (localNames function)}
    (copies : ∀ other, OfCopies function (exits other)) :
    OfCopies function ((aliasProblem function).gather label exits) := by
  intro name value found
  unfold aliasProblem at found
  dsimp only at found
  split at found
  · cases found
  · obtain ⟨some, everywhere⟩ := meet_predecessor_aliases.mp found
    obtain ⟨predecessor, member⟩ := List.exists_mem_of_ne_nil _ some
    exact copies predecessor name value (everywhere predecessor member)

theorem successor_label {successor : String} (member : successor ∈ successors function label) :
    successor ∈ labels function := by
  unfold successors at member
  split at member
  · exact of_decide_eq_true (List.mem_filter.mp member).2
  · cases member

theorem alias_problem_monotone (monotone : MonotoneBlocks function) :
    Dataflow.Problem.Monotone (labels function) (OfCopies function) AliasMap.size
      (localNames function).length (aliasProblem function) where
  mono := by
    intro label exits larger copies largerCopies below
    have gathered := @alias_gather_mono function label exits larger below
    have gatheredCopies := @alias_gather_copies function label exits copies
    have largerGathered := @alias_gather_copies function label larger largerCopies
    simp only [Dataflow.Problem.next]
    unfold aliasProblem at gathered gatheredCopies largerGathered ⊢
    dsimp only at gathered gatheredCopies largerGathered ⊢
    split
    · next instructions isBlock =>
      exact monotone label instructions isBlock _ _ gatheredCopies largerGathered gathered
    · exact le_rfl
  keepsValid := by
    intro label exits copies
    have gathered := @alias_gather_copies function label exits copies
    simp only [Dataflow.Problem.next]
    unfold aliasProblem at gathered ⊢
    dsimp only at gathered ⊢
    split
    · next instructions isBlock => exact transfer_block_copies isBlock gathered
    · intro name value found
      cases found
  grows _ _ := AliasMap.size_lt
  bounded aliases _ := aliases.size_le
  dependentsInNodes _ _ _ member := successor_label member

/-! ### Moves that do not chain -/

/-- No copy is copied again. -/
def NoChains (function : Function) : Prop :=
  ∀ label instructions, function.body.instructionsOf label = some instructions →
    ∀ dest src ty, Instruction.move dest (.variable src ty) ∈ instructions → ¬IsCopy function src

theorem kill_definition_mono {aliases larger : AliasMap (localNames function)}
    (below : aliases ≤ larger) : killDefinition instruction aliases ≤ killDefinition instruction larger := by
  intro name value found
  unfold killDefinition at found ⊢
  split
  · next defined isDefined =>
    rw [isDefined] at found
    dsimp only at found
    split
    · next isLocal =>
      rw [if_pos isLocal] at found
      obtain ⟨before, kept⟩ := AliasMap.alias_retain.mp found
      exact AliasMap.alias_retain.mpr ⟨below name value before, kept⟩
    · next notLocal =>
      rw [if_neg notLocal] at found
      exact below name value found
  · next noDefinition =>
    rw [noDefinition] at found
    exact below name value found

variable {aliases larger : AliasMap (localNames function)}

theorem insert_mono {dest : String} {value : AliasValue}
    (below : aliases ≤ larger) : aliases.insert dest value ≤ larger.insert dest value := by
  intro name found isFound
  unfold AliasMap.insert at isFound ⊢
  dsimp only at isFound ⊢
  split
  · next here =>
    rw [if_pos here] at isFound
    exact isFound
  · next elsewhere =>
    rw [if_neg elsewhere] at isFound
    exact below name found isFound

theorem move_alias_no_chain {src : String} {ty : Ty} (notCopy : ¬IsCopy function src)
    (copies : OfCopies function aliases) :
    moveAlias (.variable src ty) aliases = if src ∈ localNames function then some ⟨src, ty⟩ else none := by
  have unknown : aliases.alias? src = none := by
    apply Option.eq_none_iff_forall_not_mem.mpr
    intro value found
    exact notCopy (copies src value found)
  simp [moveAlias, unknown]

theorem transfer_instruction_mono
    (copies : OfCopies function aliases) (largerCopies : OfCopies function larger)
    (noChain : ∀ dest src ty, instruction = .move dest (.variable src ty) → ¬IsCopy function src)
    (below : aliases ≤ larger) :
    transferAliasesThroughInstruction (debugLocals function) aliases instruction ≤
      transferAliasesThroughInstruction (debugLocals function) larger instruction := by
  have killed := @kill_definition_mono function instruction aliases larger below
  unfold transferAliasesThroughInstruction
  split
  · next dest src =>
    have same : moveAlias src aliases = moveAlias src larger := by
      cases src with
      | constant => rfl
      | «variable» src ty =>
        have notCopy := noChain dest src ty rfl
        rw [move_alias_no_chain notCopy copies, move_alias_no_chain notCopy largerCopies]
    rw [same]
    split
    · split
      · exact insert_mono killed
      · exact killed
    · exact killed
  · exact killed

/-- Moves that do not chain keep the order of alias maps. -/
theorem no_chains_monotone (noChains : NoChains function) : MonotoneBlocks function := by
  intro label instructions isBlock
  have general (later : List Instruction) (inside : ∀ instruction ∈ later, instruction ∈ instructions)
      (aliases larger : AliasMap (localNames function)) (copies : OfCopies function aliases)
      (largerCopies : OfCopies function larger) (below : aliases ≤ larger) :
      transferAliasesThroughBlock (debugLocals function) later aliases ≤
        transferAliasesThroughBlock (debugLocals function) later larger := by
    induction later generalizing aliases larger with
    | nil => exact below
    | cons instruction rest ih =>
      have here := inside instruction List.mem_cons_self
      have isCopy : ∀ dest src ty, instruction = .move dest (.variable src ty) → IsCopy function dest :=
        fun dest src ty isMove => ⟨label, instructions, isBlock, src, ty, isMove ▸ here⟩
      apply ih
      · intro other member
        exact inside other (List.mem_cons_of_mem _ member)
      · exact transfer_instruction_copies copies isCopy
      · exact transfer_instruction_copies largerCopies isCopy
      · apply transfer_instruction_mono copies largerCopies _ below
        intro dest src ty isMove
        exact noChains label instructions isBlock dest src ty (isMove ▸ here)
  exact general instructions fun _ member => member

/-! ### Returning -/

end Ends

def copyOf (dest src : String) : Instruction := .move dest (.variable src (.int .i32))

def fresh (dest : String) : Instruction := .move dest (.constant (.int .i32 0))

def singleCopy : Function :=
  plainFunction "single_copy"
    [("entry", ⟨"entry", [fresh "a", copyOf "b" "a", .return (some (.variable "b" (.int .i32)))]⟩)]

section Alternating

/-- The loop carries the copy of `y` in `v` to the next round only if it was not given one:
through `x` and `z`, a copy of `v` becomes a copy of `y`, and a copy of `y` is lost. -/
def alternatingCopies : Function :=
  plainFunction "alternating_copies"
    [("entry", ⟨"entry", [copyOf "v" "y", .jump "loop"]⟩),
      ("loop", ⟨"loop", [copyOf "x" "v", fresh "y", copyOf "y" "x", fresh "v", copyOf "z" "y", fresh "x",
        copyOf "v" "z", fresh "z", .jump "loop"]⟩)]

def carried : AliasMap (localNames alternatingCopies) :=
  AliasMap.empty.insert "v" ⟨"y", .int .i32⟩

/-- The loop waits, and has put out one of the two maps. -/
def Alternates (progress : Dataflow.Progress String (AliasMap (localNames alternatingCopies))) : Prop :=
  progress.pending = ["loop"] ∧ progress.output "entry" = carried ∧
    (progress.output "loop" = .empty ∨ progress.output "loop" = carried)

theorem loop_from_empty : (aliasProblem alternatingCopies).transfer "loop" .empty = carried := by
  decide +kernel

theorem loop_from_carried : (aliasProblem alternatingCopies).transfer "loop" carried = .empty := by
  decide +kernel

theorem meet_below {output : String → AliasMap (localNames alternatingCopies)}
    (atEntry : output "entry" = carried) (atLoop : output "loop" ≤ carried) :
    meetPredecessorAliases ["entry", "loop"] output = output "loop" := by
  apply le_antisymm
  · intro name value found
    exact (meet_predecessor_aliases.mp found).2 "loop" (by simp)
  · intro name value found
    apply meet_predecessor_aliases.mpr
    constructor
    · simp
    · intro predecessor member
      simp only [List.mem_cons, List.not_mem_nil, or_false] at member
      rcases member with rfl | rfl
      · rw [atEntry]
        exact atLoop name value found
      · exact found

theorem empty_ne_carried : (AliasMap.empty : AliasMap (localNames alternatingCopies)) ≠ carried := by
  decide +kernel

theorem loop_successors : (aliasProblem alternatingCopies).dependents "loop" = ["loop"] := by
  decide +kernel

theorem alternates_visit {progress : Dataflow.Progress String (AliasMap (localNames alternatingCopies))}
    (alternates : Alternates progress) :
    Alternates ((aliasProblem alternatingCopies).visit progress "loop" []) := by
  obtain ⟨-, atEntry, atLoop⟩ := alternates
  have meets : (aliasProblem alternatingCopies).gather "loop" progress.output = progress.output "loop" := by
    apply meet_below atEntry
    rcases atLoop with isEmpty | isCarried
    · rw [isEmpty]
      intro name value found
      cases found
    · rw [isCarried]
  have turns : (aliasProblem alternatingCopies).next "loop" progress.output ≠ progress.output "loop" ∧
      ((aliasProblem alternatingCopies).next "loop" progress.output = .empty ∨
        (aliasProblem alternatingCopies).next "loop" progress.output = carried) := by
    rw [Dataflow.Problem.next, meets]
    rcases atLoop with isEmpty | isCarried
    · rw [isEmpty, loop_from_empty]
      exact ⟨empty_ne_carried.symm, .inr rfl⟩
    · rw [isCarried, loop_from_carried]
      exact ⟨empty_ne_carried, .inl rfl⟩
  rw [Dataflow.Problem.visit, if_neg turns.1.symm, loop_successors]
  refine ⟨rfl, ?_, ?_⟩
  · simpa using atEntry
  · simpa using turns.2

end Alternating

end RustcCodegenJvm.Optimise1
