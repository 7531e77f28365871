import RustcCodegenJvm.Library.Dataflow
import RustcCodegenJvm.Oomir.Execution

/-!
# Known function-pointer adapters

`known_function_pointer_adapters` of `lower2/translator.rs`: the variables of a
function that can only hold one adapter, so that an indirect call through them
names its class. Sets of adapters are lists without duplicates.
-/

namespace RustcCodegenJvm.Lower2

open Oomir (Ty Constant Operand)
open Program Library.Dataflow List Option

/-- The destination of every instruction except a call of a Rust function. -/
def instructionDestination : Instruction → Option String
  | .invokeRustStatic .. => none
  | instruction => instruction.dest

structure AdapterFacts where
  adapters : String → List String
  moves : List (String × String)
  invalid : List String

def collectDefinition (facts : AdapterFacts) (dest : String) : Instruction → AdapterFacts
  | .scalar (.move _ (.constant (.functionPointer adapterClass _))) =>
    { facts with adapters := Function.update facts.adapters dest (pushAbsent (facts.adapters dest) adapterClass) }
  | .scalar (.move _ (.variable name _)) => { facts with moves := facts.moves ++ [(dest, name)] }
  | _ => { facts with invalid := pushAbsent facts.invalid dest }

def collectInstruction (facts : AdapterFacts) (instruction : Instruction) : AdapterFacts :=
  match instructionDestination instruction with
  | some dest => collectDefinition facts dest instruction
  | none => facts

def bodyInstructions (function : Function) : List Instruction :=
  function.body.basicBlocks.flatMap fun block => block.2.instructions

def collectFacts (function : Function) : AdapterFacts :=
  (bodyInstructions function).foldl collectInstruction ⟨fun _ => [], [], []⟩

def handOn (adapters : String → List String) (move : String × String) : String → List String :=
  Function.update adapters move.1 ((adapters move.2).foldl pushAbsent (adapters move.1))

def roundChanges : (String → List String) → List (String × String) → Bool
  | _, [] => false
  | adapters, move :: rest =>
    (handOn adapters move move.1).length ≠ (adapters move.1).length || roundChanges (handOn adapters move) rest

/-- Rounds over the moves until nothing changes; `none` when the fuel does not suffice. -/
def closeMoves (moves : List (String × String)) : Nat → (String → List String) → Option (String → List String)
  | 0, _ => none
  | fuel + 1, adapters =>
    if roundChanges adapters moves then closeMoves moves fuel (moves.foldl handOn adapters)
    else some (moves.foldl handOn adapters)

def invalidMoves (adapters : String → List String) (moves : List (String × String)) : List String :=
  (moves.filter fun move => (adapters move.2).length ≠ 1).map Prod.fst

def onlyAdapter (facts : AdapterFacts) (adapters : String → List String) (name : String) : Option String :=
  if name ∈ facts.invalid ++ invalidMoves adapters facts.moves then none
  else
    match adapters name with
    | [adapter] => some adapter
    | _ => none

def knownFunctionPointerAdapters (fuel : Nat) (function : Function) : Option (String → Option String) :=
  let facts := collectFacts function
  (closeMoves facts.moves fuel facts.adapters).map (onlyAdapter facts)

/-! ### What is collected -/

section Collected

def Recorded (facts : AdapterFacts) (instruction : Instruction) : Prop :=
  ∀ dest, instructionDestination instruction = some dest →
    (∃ adapter interface, instruction = .move dest (.constant (.functionPointer adapter interface)) ∧
      adapter ∈ facts.adapters dest) ∨
    (∃ name ty, instruction = .move dest (.variable name ty) ∧ (dest, name) ∈ facts.moves) ∨
    dest ∈ facts.invalid

structure Includes (facts earlier : AdapterFacts) : Prop where
  adapters : ∀ name adapter, adapter ∈ earlier.adapters name → adapter ∈ facts.adapters name
  moves : ∀ move ∈ earlier.moves, move ∈ facts.moves
  invalid : ∀ name ∈ earlier.invalid, name ∈ facts.invalid

variable {facts later : AdapterFacts} {instruction : Instruction}

theorem recorded_included (recorded : Recorded facts instruction) (includes : Includes later facts) :
    Recorded later instruction := by
  intro dest isDest
  rcases recorded dest isDest with ⟨adapter, interface, isMove, member⟩ | ⟨name, ty, isMove, member⟩ | member
  · exact .inl ⟨adapter, interface, isMove, includes.adapters dest adapter member⟩
  · exact .inr (.inl ⟨name, ty, isMove, includes.moves _ member⟩)
  · exact .inr (.inr (includes.invalid dest member))

theorem collect_includes (facts : AdapterFacts) (instruction : Instruction) :
    Includes (collectInstruction facts instruction) facts := by
  unfold collectInstruction collectDefinition
  split
  · next dest isDest =>
    split
    · constructor
      · intro name adapter member
        by_cases here : name = dest
        · subst here
          simp [member]
        · simpa [here] using member
      · exact fun _ member => member
      · exact fun _ member => member
    · constructor
      · exact fun _ _ member => member
      · intro move member
        simp [member]
      · exact fun _ member => member
    · constructor
      · exact fun _ _ member => member
      · exact fun _ member => member
      · intro name member
        simp [member]
  · exact ⟨fun _ _ member => member, fun _ member => member, fun _ member => member⟩

theorem collect_records (facts : AdapterFacts) (instruction : Instruction) :
    Recorded (collectInstruction facts instruction) instruction := by
  intro dest isDest
  unfold collectInstruction
  rw [isDest]
  dsimp only
  unfold collectDefinition
  split
  · next other adapter interface =>
    cases isDest
    exact .inl ⟨adapter, interface, rfl, by simp⟩
  · next other name ty =>
    cases isDest
    exact .inr (.inl ⟨name, ty, rfl, by simp⟩)
  · exact .inr (.inr (by simp))

theorem collected (function : Function) (instruction : Instruction)
    (member : instruction ∈ bodyInstructions function) : Recorded (collectFacts function) instruction :=
  Library.foldl_establishes (Recorded · instruction) member (collect_records · instruction)
    (fun facts other recorded => recorded_included recorded (collect_includes facts other)) _

end Collected

/-! ### Closing over the moves -/

variable {name adapter label : String}

section Closing

variable {moves : List (String × String)} {adapters closed : String → List String}

theorem push_all_absent_appends (found added : List String) :
    ∃ more, added.foldl pushAbsent found = found ++ more := by
  apply foldlRecOn (motive := fun later => ∃ more, later = found ++ more) _ _ ⟨[], by simp⟩
  rintro _ ⟨more, rfl⟩ first _
  unfold pushAbsent
  split
  · exact ⟨more, rfl⟩
  · exact ⟨more ++ [first], by simp⟩

theorem hand_on_includes (move : String × String) (member : adapter ∈ adapters name) :
    adapter ∈ handOn adapters move name := by
  unfold handOn
  by_cases here : name = move.1
  · subst here
    simp [member]
  · simpa [here] using member

theorem hand_on_all_includes (member : adapter ∈ adapters name) :
    adapter ∈ moves.foldl handOn adapters name :=
  foldlRecOn (motive := (adapter ∈ · name)) moves handOn member fun _ member move _ =>
    hand_on_includes move member

/-- A move that enlarges nothing has nothing to hand on. -/
theorem hand_on_unchanged {move : String × String}
    (sameLength : (handOn adapters move move.1).length = (adapters move.1).length) :
    handOn adapters move = adapters ∧ ∀ adapter ∈ adapters move.2, adapter ∈ adapters move.1 := by
  obtain ⟨more, isMore⟩ := push_all_absent_appends (adapters move.1) (adapters move.2)
  have nothing : more = [] := by
    simpa [handOn, isMore] using sameLength
  rw [nothing, append_nil] at isMore
  constructor
  · rw [handOn, isMore, Function.update_eq_self]
  · intro adapter member
    rw [← isMore]
    simp [member]

theorem round_unchanged (unchanged : roundChanges adapters moves = false) :
    moves.foldl handOn adapters = adapters ∧
      ∀ move ∈ moves, ∀ adapter ∈ adapters move.2, adapter ∈ adapters move.1 := by
  induction moves with
  | nil => simp
  | cons move rest ih =>
    simp only [roundChanges, Bool.or_eq_false_iff, decide_eq_false_iff_not, ne_eq, not_not] at unchanged
    obtain ⟨same, subset⟩ := hand_on_unchanged unchanged.1
    rw [same] at unchanged
    obtain ⟨rest, subsets⟩ := ih unchanged.2
    rw [foldl_cons, same]
    refine ⟨rest, ?_⟩
    intro other member
    rcases mem_cons.mp member with rfl | inRest
    · exact subset
    · exact subsets other inRest

theorem close_moves_closed {fuel : Nat} (ran : closeMoves moves fuel adapters = some closed) :
    (∀ name adapter, adapter ∈ adapters name → adapter ∈ closed name) ∧
      ∀ move ∈ moves, ∀ adapter ∈ closed move.2, adapter ∈ closed move.1 := by
  induction fuel generalizing adapters with
  | zero => cases ran
  | succ fuel ih =>
    unfold closeMoves at ran
    split at ran
    · obtain ⟨includes, isClosed⟩ := ih ran
      exact ⟨fun name adapter member => includes name adapter (hand_on_all_includes member), isClosed⟩
    · next unchanged =>
      obtain ⟨same, isClosed⟩ := round_unchanged (by simpa using unchanged)
      rw [same] at ran
      cases ran
      exact ⟨fun _ _ member => member, isClosed⟩

end Closing

/-! ### Definitions of known variables -/

section Known

variable {function : Function} {fuel : Nat} {known : String → Option String}

theorem only_adapter {facts : AdapterFacts} {adapters : String → List String}
    (isOnly : onlyAdapter facts adapters name = some adapter) :
    name ∉ facts.invalid ∧ adapters name = [adapter] := by
  unfold onlyAdapter at isOnly
  split at isOnly
  · cases isOnly
  · next valid =>
    split at isOnly
    · next only isList =>
      cases isOnly
      exact ⟨fun invalid => valid (mem_append_left _ invalid), isList⟩
    · cases isOnly

/-- A known variable is defined only by moves of its adapter and by moves of variables
with its adapter; a call of a Rust function may still assign it. -/
theorem known_definition (ran : knownFunctionPointerAdapters fuel function = some known)
    (isKnown : known name = some adapter) {instruction : Instruction}
    (member : instruction ∈ bodyInstructions function)
    (isDest : instructionDestination instruction = some name) :
    (∃ interface, instruction = .move name (.constant (.functionPointer adapter interface))) ∨
      ∃ source ty, instruction = .move name (.variable source ty) ∧
        ∀ other, known source = some other → other = adapter := by
  obtain ⟨adapters, closed, rfl⟩ := map_eq_some_iff.mp ran
  obtain ⟨includes, isClosed⟩ := close_moves_closed closed
  obtain ⟨valid, isSingle⟩ := only_adapter isKnown
  rcases collected function instruction member name isDest with
    ⟨collectedAdapter, interface, isMove, inAdapters⟩ | ⟨source, ty, isMove, inMoves⟩ | invalid
  · left
    have inClosed := includes name collectedAdapter inAdapters
    rw [isSingle, mem_singleton] at inClosed
    exact ⟨interface, inClosed ▸ isMove⟩
  · right
    refine ⟨source, ty, isMove, ?_⟩
    intro other sourceKnown
    have inClosed := isClosed (name, source) inMoves other (by simp [(only_adapter sourceKnown).2])
    rwa [isSingle, mem_singleton] at inClosed
  · exact absurd invalid valid

end Known

/-! ### Runs -/

section Runs

variable {Value World : Type} (environment : Environment Value World)
  (isAdapter : String → Value → Prop)

def LoadsAdapters : Prop :=
  ∀ dest adapter interface values world result later,
    environment.perform (Instruction.move dest (.constant (.functionPointer adapter interface))).erase
      values world = .value result later → isAdapter adapter result

/-- The definitions the analysis does not see: no call of a Rust function and no caught exception
assigns a known variable, and what a known variable is copied from is known. -/
structure SeesDefinitions (function : Function) (known : String → Option String) : Prop where
  rustCalls : ∀ name className methodName methodTy args,
    Instruction.invokeRustStatic (some name) className methodName methodTy args ∈ bodyInstructions function →
      known name = none
  exceptions : known unwindExceptionLocal = none
  sources : ∀ name source ty, Instruction.move name (.variable source ty) ∈ bodyInstructions function →
    known name ≠ none → known source ≠ none

/-- Known variables that have a value hold their adapter. -/
def HoldAdapters (known : String → Option String) (store : Store Value) : Prop :=
  ∀ name adapter value, known name = some adapter → store name = some value → isAdapter adapter value

variable {environment isAdapter} {function : Function} {known : String → Option String} {fuel : Nat}
  {assigned : Option (String × Value)}

theorem hold_adapters_assign {store : Store Value} (holds : HoldAdapters isAdapter known store)
    (assigns : ∀ name adapter value, assigned = some (name, value) → known name = some adapter →
      isAdapter adapter value) : HoldAdapters isAdapter known (assign assigned store) := by
  intro name adapter value isKnown isValue
  cases assigned with
  | none => exact holds name adapter value isKnown isValue
  | some pair =>
    obtain ⟨dest, result⟩ := pair
    by_cases here : name = dest
    · subst here
      have same : result = value := by
        simpa [assign] using isValue
      exact assigns name adapter value (by rw [same]) isKnown
    · apply holds name adapter value isKnown
      simpa [assign, here] using isValue

variable {instruction : Instruction}

theorem execute_holds_adapters (ran : knownFunctionPointerAdapters fuel function = some known)
    (loads : LoadsAdapters environment isAdapter) (sees : SeesDefinitions function known)
    (member : instruction ∈ bodyInstructions function) {store : Store Value}
    {world later : World} (holds : HoldAdapters isAdapter known store)
    (executed : execute environment instruction store world = .next assigned later) :
    HoldAdapters isAdapter known (assign assigned store) := by
  obtain ⟨isDest, copies⟩ := execute_next executed
  apply hold_adapters_assign holds
  intro name adapter value isAssigned isKnown
  rw [isAssigned] at isDest copies
  have notRust : ∀ className methodName methodTy args,
      instruction ≠ .invokeRustStatic (some name) className methodName methodTy args := by
    intro className methodName methodTy args isCall
    subst isCall
    rw [sees.rustCalls name className methodName methodTy args member] at isKnown
    cases isKnown
  have isDestination : instructionDestination instruction = some name := by
    unfold instructionDestination
    split
    · cases isDest
      exact absurd rfl (notRust _ _ _ _)
    · exact isDest.symm
  rcases known_definition ran isKnown member isDestination with
    ⟨interface, rfl⟩ | ⟨source, ty, rfl, sameAdapter⟩
  · obtain ⟨values, -, acted⟩ := execute_ran executed (by simp)
    simp only [act, Instruction.role] at acted
    split at acted
    · next result laterWorld performed =>
      rw [isAssigned] at acted
      cases acted
      exact loads name adapter interface values world value later performed
    · cases acted
  · have isValue : store source = some value := (copies name source ty rfl).symm
    obtain ⟨other, sourceKnown⟩ := ne_none_iff_exists'.mp
      (sees.sources name source ty member (by simp [isKnown]))
    rw [← sameAdapter other sourceKnown]
    exact holds source other value sourceKnown isValue

/-- In a run that starts with no other values in them, known variables hold their adapters. -/
theorem run_holds_adapters (ran : knownFunctionPointerAdapters fuel function = some known)
    (loads : LoadsAdapters environment isAdapter) (sees : SeesDefinitions function known)
    {start : State Value World} (holds : HoldAdapters isAdapter known start.store) {steps : Nat}
    {index : Nat} {state : State Value World}
    (isNow : run environment function.body steps start = .running label index state) :
    HoldAdapters isAdapter known state.store := by
  induction steps generalizing label index state with
  | zero =>
    cases isNow
    exact holds
  | succ steps ih =>
    rw [run_succ] at isNow
    cases isBefore : run environment function.body steps start with
    | running before beforeIndex beforeState =>
      rw [isBefore] at isNow
      have held := ih isBefore
      obtain ⟨instructions, instruction, isBlock, isInstruction, ways⟩ := step_running isNow
      obtain ⟨block, isIn, rfl⟩ := CodeBlock.mem_of_instructions_of isBlock
      have member : instruction ∈ bodyInstructions function :=
        mem_flatMap.mpr ⟨_, isIn, mem_of_getElem? isInstruction⟩
      rcases ways with ⟨assigned, executed, -, -, isAfter⟩ | ⟨-, -, rfl⟩ | ⟨exception, -, -, -, isAfter⟩
      · rw [isAfter]
        exact execute_holds_adapters ran loads sees member held executed
      · exact held
      · rw [isAfter]
        apply hold_adapters_assign held
        intro name adapter value isAssigned isKnown
        cases isAssigned
        rw [sees.exceptions] at isKnown
        cases isKnown
    | returned | unwound | stuck =>
      rw [isBefore] at isNow
      cases isNow

end Runs

/-! ### A parameter that is assigned later -/

section Parameters

/-- Values are the names of adapters, and other instructions give back what they read. -/
def namedAdapters : Environment String Unit where
  perform instruction values _ :=
    match instruction with
    | .scalar (.move _ (.constant (.functionPointer adapter _))) => .value adapter ()
    | _ => .value (values.headD "") ()
  select _ _ := 0

theorem named_adapters_load : LoadsAdapters namedAdapters fun adapter value => value = adapter := by
  intro dest adapter interface values world result later performed
  cases performed
  rfl

def callback : Ty := .interface "Callback"

def loadPointer (dest adapter : String) : Instruction :=
  .move dest (.constant (.functionPointer adapter "Callback"))

def callPointer (name : String) : Instruction :=
  .callIndirect none (.variable name callback) [] ⟨[], .void, true⟩

/-- The pointer is loaded, copied and called. -/
def calledAfterLoad : Function :=
  plainFunction "called_after_load"
    [("entry", ⟨"entry", [loadPointer "_2" "AdapterH", .move "_3" (.variable "_2" callback), callPointer "_3",
      .return none]⟩)]

/-- `_2` is a copy of the parameter when it is called; the parameter is assigned afterwards. -/
def assignedAfterCall : Function :=
  plainFunction "assigned_after_call"
    [("entry", ⟨"entry", [.move "_2" (.variable "_1" callback), callPointer "_2", loadPointer "_1" "AdapterH",
      .return none]⟩)]

end Parameters

end RustcCodegenJvm.Lower2
