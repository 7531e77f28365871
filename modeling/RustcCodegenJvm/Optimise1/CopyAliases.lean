import RustcCodegenJvm.Optimise1.Reachability

/-!
# Copy aliases

`analyze_copy_aliases` of `optimise1/copyprop.rs`: which variables are copies of
which others at the start of each block. Names and labels stand for the numbers
the source interns them to, and whether a block waits in the queue is read off
the queue instead of a flag.
-/

namespace RustcCodegenJvm.Optimise1

open Oomir (Ty Operand)
open Program Library

/-! ### Uses and definitions -/

def visitOperandUse : Operand → List String
  | .variable name _ => [name]
  | .constant _ => []

def visitOperandUses (operands : List Operand) : List String := operands.flatMap visitOperandUse

/-- The names `visit_instruction_uses` calls its visitor with. -/
def visitInstructionUses : Instruction → List String
  | .scalar (.arithmetic _ _ op1 op2) | .scalar (.comparison _ _ op1 op2)
  | .scalar (.bitwise _ _ op1 op2) | .scalar (.shift _ _ op1 op2) =>
    visitOperandUse op1 ++ visitOperandUse op2
  | .scalar (.not _ src) | .scalar (.neg _ src) | .scalar (.move _ src) => visitOperandUse src
  | .scalar (.branch condition _ _) => visitOperandUse condition
  | .scalar (.return operand) => operand.elim [] visitOperandUse
  | .invokeStatic _ _ _ _ args | .invokeRustStatic _ _ _ _ args => visitOperandUses args
  | .callIndirect _ functionPtr args _ => visitOperandUse functionPtr ++ visitOperandUses args
  | .invokeInterface _ _ _ args _ operand | .invokeVirtual _ _ _ _ args operand =>
    visitOperandUse operand ++ visitOperandUses args
  | .scalar (.switch discr _ _) => visitOperandUse discr
  | .newArray _ _ size | .length _ size => visitOperandUse size
  | .arrayStore array index value _ => array :: (visitOperandUse index ++ visitOperandUse value)
  | .arrayFill array value _ => array :: visitOperandUse value
  | .arrayGet _ array index => visitOperandUse array ++ visitOperandUse index
  | .scalar (.constructObject _ _ args) => args.flatMap fun arg => visitOperandUse arg.1
  | .setField object _ value _ _ => object :: visitOperandUse value
  | .getField _ object _ _ _ | .cast object _ _ => visitOperandUse object
  | .sourceLocation _ | .localVariableScope _ | .unwindStart _ | .unwindEnd | .rethrow
  | .createFunctionPointer .. | .scalar (.jump _) | .throwNewWithMessage _ _ | .scalar (.label _) => []

def instructionDef (instruction : Instruction) : Option String := instruction.dest

theorem visit_operand_uses (operands : List Operand) :
    visitOperandUses operands = operands.filterMap Operand.getName := by
  induction operands with
  | nil => rfl
  | cons operand rest ih =>
    rw [visitOperandUses, List.flatMap_cons, ← visitOperandUses, ih]
    cases operand <;> rfl

variable {instruction : Instruction}

/-- The visitor sees what the instruction reads, except the exception of a rethrow. -/
theorem visit_instruction_uses (noRethrow : instruction ≠ .rethrow) :
    visitInstructionUses instruction = instruction.reads := by
  have pair (first second : Operand) : visitOperandUse first ++ visitOperandUse second =
      [first, second].filterMap Operand.getName := by
    rw [← visit_operand_uses]
    simp [visitOperandUses]
  have single (operand : Operand) : visitOperandUse operand = [operand].filterMap Operand.getName := by
    rw [← visit_operand_uses]
    simp [visitOperandUses]
  have several (operand : Operand) (operands : List Operand) :
      visitOperandUse operand ++ visitOperandUses operands =
        (operand :: operands).filterMap Operand.getName := by
    rw [← visit_operand_uses]
    simp [visitOperandUses]
  have constructorArgs (args : List (Operand × Ty)) : (args.flatMap fun arg => visitOperandUse arg.1) =
      (args.map Prod.fst).filterMap Operand.getName := by
    rw [← visit_operand_uses, visitOperandUses, List.flatMap_map]
  cases instruction with
  | scalar instruction =>
    cases instruction with
    | arithmetic | bitwise | comparison | shift => exact pair _ _
    | constructObject => exact constructorArgs _
    | jump | label => rfl
    | «return» operand =>
      cases operand with
      | none => rfl
      | some operand => exact single operand
    | _ => exact single _
  | rethrow => exact absurd rfl noRethrow
  | callIndirect | invokeInterface | invokeVirtual => exact several _ _
  | invokeStatic | invokeRustStatic => exact visit_operand_uses _
  | arrayGet => exact pair _ _
  | newArray | length | getField | cast => exact single _
  | arrayStore array index value => exact congrArg (array :: ·) (pair index value)
  | arrayFill array value => exact congrArg (array :: ·) (single value)
  | setField object name value => exact congrArg (object :: ·) (single value)
  | _ => rfl

/-! ### Alias maps -/

structure AliasValue where
  source : String
  ty : Ty
deriving DecidableEq

structure AliasMap (locals : List String) where
  alias? : String → Option AliasValue
  interned : ∀ name, name ∉ locals → alias? name = none

namespace AliasMap

variable {locals : List String} {first second aliases : AliasMap locals}

@[ext] theorem ext
    (same : ∀ name ∈ locals, first.alias? name = second.alias? name) : first = second := by
  have sameAlias : first.alias? = second.alias? := by
    funext name
    by_cases isLocal : name ∈ locals
    · exact same name isLocal
    · rw [first.interned name isLocal, second.interned name isLocal]
  cases first
  cases second
  cases sameAlias
  rfl

instance : DecidableEq (AliasMap locals) := fun first second =>
  decidable_of_iff (∀ name ∈ locals, first.alias? name = second.alias? name)
    ⟨ext, fun same _ _ => congrArg (fun aliases : AliasMap locals => aliases.alias? _) same⟩

def empty : AliasMap locals := ⟨fun _ => none, fun _ _ => rfl⟩

def insert (dest : String) (value : AliasValue) (aliases : AliasMap locals) : AliasMap locals where
  alias? name := if name = dest ∧ name ∈ locals then some value else aliases.alias? name
  interned := by
    intro name absent
    simp [absent, aliases.interned name absent]

def retain (keep : String → AliasValue → Bool) (aliases : AliasMap locals) : AliasMap locals where
  alias? name := (aliases.alias? name).filter (keep name)
  interned := by
    intro name absent
    simp [aliases.interned name absent]

def size (aliases : AliasMap locals) : Nat :=
  (locals.toFinset.filter fun name => (aliases.alias? name).isSome).card

@[simp] theorem alias_empty (name : String) : (empty : AliasMap locals).alias? name = none := rfl

theorem alias_insert {dest name : String} {value found : AliasValue}
    (isFound : (aliases.insert dest value).alias? name = some found) :
    (name = dest ∧ found = value) ∨ aliases.alias? name = some found := by
  unfold insert at isFound
  dsimp only at isFound
  split at isFound
  · next here =>
    cases isFound
    exact .inl ⟨here.1, rfl⟩
  · exact .inr isFound

@[simp] theorem alias_retain {keep : String → AliasValue → Bool}
    {name : String} {value : AliasValue} :
    (aliases.retain keep).alias? name = some value ↔ aliases.alias? name = some value ∧ keep name value := by
  simp [retain, Option.filter_eq_some_iff]

/-- A map is below the maps that have all its entries. -/
instance : PartialOrder (AliasMap locals) where
  le first second := ∀ name value, first.alias? name = some value → second.alias? name = some value
  le_refl _ _ _ found := found
  le_trans _ _ _ below above name value found := above name value (below name value found)
  le_antisymm first second below above := by
    apply ext
    intro name _
    apply Option.ext
    intro value
    exact ⟨below name value, above name value⟩

theorem size_lt (below : first ≤ second) (different : first ≠ second) :
    first.size < second.size := by
  apply Finset.card_lt_card
  rw [Finset.ssubset_iff_of_subset]
  · by_contra none
    apply different
    apply ext
    intro name isLocal
    cases found : first.alias? name with
    | some value => exact (below name value found).symm
    | none =>
      by_contra isSome
      apply none
      refine ⟨name, ?_, ?_⟩
      · simpa [isLocal, Option.isSome_iff_ne_none] using Ne.symm isSome
      · simp [found]
  · intro name member
    simp only [Finset.mem_filter, Option.isSome_iff_exists] at member ⊢
    obtain ⟨isLocal, value, found⟩ := member
    exact ⟨isLocal, value, below name value found⟩

theorem size_le (aliases : AliasMap locals) : aliases.size ≤ locals.length :=
  (Finset.card_filter_le _ _).trans (List.toFinset_card_le _)

end AliasMap

/-! ### Transfer -/

section Transfer

variable {locals : List String}

/-- What a move of the operand copies: the source of an alias of the same type, or the
variable itself. -/
def moveAlias (operand : Operand) (aliases : AliasMap locals) : Option AliasValue :=
  match operand with
  | .constant _ => none
  | .variable name ty =>
    match aliases.alias? name with
    | some known =>
      if known.ty = ty then some known else if name ∈ locals then some ⟨name, ty⟩ else none
    | none => if name ∈ locals then some ⟨name, ty⟩ else none

def killAliasesTouching (name : String) (aliases : AliasMap locals) : AliasMap locals :=
  aliases.retain fun dest value => dest ≠ name && value.source ≠ name

def killDefinition (instruction : Instruction) (aliases : AliasMap locals) : AliasMap locals :=
  match instructionDef instruction with
  | some name => if name ∈ locals then killAliasesTouching name aliases else aliases
  | none => aliases

def transferAliasesThroughInstruction (debugLocals : List String) (aliases : AliasMap locals)
    (instruction : Instruction) : AliasMap locals :=
  let killed := killDefinition instruction aliases
  match instruction with
  | .scalar (.move dest src) =>
    match moveAlias src aliases with
    | some value =>
      if dest ≠ value.source ∧ dest ∉ debugLocals then killed.insert dest value else killed
    | none => killed
  | _ => killed

variable {aliases : AliasMap locals} {name : String} {value : AliasValue}

theorem kill_definition_cases
    (found : (killDefinition instruction aliases).alias? name = some value) :
    aliases.alias? name = some value ∧
      ∀ defined ∈ locals, instructionDef instruction = some defined →
        name ≠ defined ∧ value.source ≠ defined := by
  unfold killDefinition at found
  split at found
  · next defined isDefined =>
    split at found
    · obtain ⟨before, kept⟩ := AliasMap.alias_retain.mp found
      refine ⟨before, ?_⟩
      intro other _ same
      rw [isDefined] at same
      cases same
      simpa using kept
    · next notLocal =>
      refine ⟨found, ?_⟩
      intro other isLocal same
      rw [isDefined] at same
      cases same
      exact absurd isLocal notLocal
  · next noDefinition =>
    refine ⟨found, ?_⟩
    intro other _ same
    rw [noDefinition] at same
    cases same

/-- An entry after an instruction is what a move copies, or survived the definition. -/
theorem transfer_instruction_cases {debugLocals : List String}
    (found : (transferAliasesThroughInstruction debugLocals aliases instruction).alias? name = some value) :
    (∃ src, instruction = .move name src ∧ moveAlias src aliases = some value ∧ name ≠ value.source) ∨
      (killDefinition instruction aliases).alias? name = some value := by
  unfold transferAliasesThroughInstruction at found
  split at found
  · next dest src =>
    split at found
    · next copied isCopied =>
      split at found
      · next apart =>
        rcases AliasMap.alias_insert found with ⟨rfl, rfl⟩ | before
        · exact .inl ⟨src, rfl, isCopied, apart.1⟩
        · exact .inr before
      · exact .inr found
    · exact .inr found
  · exact .inr found

theorem move_alias_cases {src : Operand} (found : moveAlias src aliases = some value) :
    ∃ name, src = .variable name value.ty ∧
      (aliases.alias? name = some value ∨ value.source = name ∧ name ∈ locals) := by
  unfold moveAlias at found
  split at found
  · cases found
  · next name ty =>
    split at found
    · next known isKnown =>
      split at found
      · next sameTy =>
        cases found
        exact ⟨name, by rw [sameTy], .inl isKnown⟩
      · split at found
        · next isLocal =>
          cases found
          exact ⟨name, rfl, .inr ⟨rfl, isLocal⟩⟩
        · cases found
    · split at found
      · next isLocal =>
        cases found
        exact ⟨name, rfl, .inr ⟨rfl, isLocal⟩⟩
      · cases found

def transferAliasesThroughBlock (debugLocals : List String) (instructions : List Instruction)
    (aliases : AliasMap locals) : AliasMap locals :=
  instructions.foldl (transferAliasesThroughInstruction debugLocals) aliases

/-- The entries that all predecessors put out, read off the one with the fewest. -/
def meetPredecessorAliases (predecessors : List String) (exitAliases : String → AliasMap locals) :
    AliasMap locals :=
  match predecessors.argmin fun predecessor => (exitAliases predecessor).size with
  | none => .empty
  | some first =>
    predecessors.foldl (fun aliases predecessor =>
      if predecessor = first then aliases
      else aliases.retain fun dest value => (exitAliases predecessor).alias? dest = some value)
      (exitAliases first)

theorem meet_predecessor_aliases {predecessors : List String} {exitAliases : String → AliasMap locals}
    : (meetPredecessorAliases predecessors exitAliases).alias? name = some value ↔
      predecessors ≠ [] ∧
        ∀ predecessor ∈ predecessors, (exitAliases predecessor).alias? name = some value := by
  have fold (first : String) (others : List String) (aliases : AliasMap locals) :
      (others.foldl (fun aliases predecessor =>
        if predecessor = first then aliases
        else aliases.retain fun dest value => (exitAliases predecessor).alias? dest = some value)
        aliases).alias? name = some value ↔ aliases.alias? name = some value ∧
          ∀ predecessor ∈ others, predecessor ≠ first →
            (exitAliases predecessor).alias? name = some value := by
    apply foldl_and_iff (fun aliases : AliasMap locals => aliases.alias? name = some value)
    intro aliases other
    by_cases isFirst : other = first <;> simp [isFirst]
  unfold meetPredecessorAliases
  split
  · next noFirst =>
    rw [List.argmin_eq_none] at noFirst
    simp [noFirst]
  · next first isFirst =>
    have member := List.argmin_mem isFirst
    rw [fold]
    constructor
    · rintro ⟨atFirst, atOthers⟩
      refine ⟨List.ne_nil_of_mem member, ?_⟩
      intro predecessor isPredecessor
      by_cases same : predecessor = first
      · rwa [same]
      · exact atOthers predecessor isPredecessor same
    · rintro ⟨-, everywhere⟩
      exact ⟨everywhere first member, fun predecessor isPredecessor _ =>
        everywhere predecessor isPredecessor⟩

end Transfer

/-! ### The analysis -/

section Analysis

variable (function : Function)

def localNames : List String :=
  (function.debugVariables.map DebugVariable.oomirName ++
    function.body.basicBlocks.flatMap fun block =>
      block.2.instructions.flatMap fun instruction =>
        visitInstructionUses instruction ++ (instructionDef instruction).toList).dedup

def debugLocals : List String := function.debugVariables.map DebugVariable.oomirName

def labels : List String := (function.body.basicBlocks.map Prod.fst).dedup.insertionSort (· ≤ ·)

def successors (label : String) : List String :=
  match function.body.instructionsOf label with
  | some instructions => (getBlockSuccessors instructions).filter (· ∈ labels function)
  | none => []

def predecessors (label : String) : List String :=
  (labels function).filter fun predecessor => label ∈ successors function predecessor

def aliasProblem : Dataflow.Problem String (AliasMap (localNames function)) where
  gather label exitAliases :=
    if label = function.body.entry then .empty
    else meetPredecessorAliases (predecessors function label) exitAliases
  transfer label aliases :=
    match function.body.instructionsOf label with
    | some instructions => transferAliasesThroughBlock (debugLocals function) instructions aliases
    | none => .empty
  dependents := successors function

def aliasStart : Dataflow.Progress String (AliasMap (localNames function)) where
  input _ := .empty
  output _ := .empty
  pending := labels function

/-- The aliases at the start of each block; `none` when the fuel does not suffice. -/
def analyzeCopyAliases (fuel : Nat) : Option (String → AliasMap (localNames function)) :=
  ((aliasProblem function).run fuel (aliasStart function)).map Dataflow.Progress.input

end Analysis

end RustcCodegenJvm.Optimise1
