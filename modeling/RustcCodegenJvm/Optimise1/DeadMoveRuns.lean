import RustcCodegenJvm.Optimise1.DeadMoves

/-!
# Runs without dead moves

A definition that `eliminate_dead_moves` deletes is not read later, provided
that the variables a cleanup block reads are live before the instructions its
regions can be left at. The scan of a block starts from its end, where a later
definition may already have ended their lives.
-/

namespace RustcCodegenJvm.Optimise1

open Oomir (Ty Operand)
open Program Library

section Runs

variable {Value World : Type} (environment : Environment Value World)

/-- The relation of worlds that no instruction can tell apart: results agree in them, and a
deletable instruction, which evaluates a constant or makes a new cell, gives a value and leads
to such a world. -/
structure Unobserved (same : World → World → Prop) : Prop where
  refl : ∀ world, same world world
  trans : ∀ first second third, same first second → same second third → same first third
  value : ∀ instruction values world other result later, same world other →
    environment.perform instruction values world = .value result later →
      ∃ otherLater, environment.perform instruction values other = .value result otherLater ∧
        same later otherLater
  exception : ∀ instruction values world other thrown later, same world other →
    environment.perform instruction values world = .exception thrown later →
      ∃ otherLater, environment.perform instruction values other = .exception thrown otherLater ∧
        same later otherLater
  removed : ∀ instruction values world other, removableDeadDefinition instruction ≠ none →
    same world other → ∃ result later,
      environment.perform instruction.erase values world = .value result later ∧ same later other

abbrev Entry (Value : Type) := Instruction × List (Option Value)

def reading (body : CodeBlock) : Outcome Value World → List (Entry Value)
  | .running label index state =>
    match (body.instructionsOf label).bind fun instructions => instructions[index]? with
    | some instruction => [(instruction, instruction.reads.map state.store)]
    | none => []
  | _ => []

def trace (body : CodeBlock) (steps : Nat) (start : State Value World) : List (Entry Value) :=
  (List.range steps).flatMap fun step => reading body (run environment body step start)

theorem trace_succ (body : CodeBlock) (steps : Nat) (start : State Value World) :
    trace environment body (steps + 1) start =
      trace environment body steps start ++ reading body (run environment body steps start) := by
  simp [trace, List.range_succ]

/-- Both go on in the same block, or both have ended the same way. -/
def Outcome.Alike (same : World → World → Prop) : Outcome Value World → Outcome Value World → Prop
  | .running label _ state, .running other _ reduced => label = other ∧ same state.world reduced.world
  | .returned value world, .returned other reduced => value = other ∧ same world reduced
  | .unwound exception world, .unwound other reduced => exception = other ∧ same world reduced
  | _, _ => False

def staysAlways (entry : Entry Value) : Bool := (removableDeadDefinition entry.1).isNone

/-- The second body does what the first does, except that deletable instructions are left
out: every instruction it executes reads what it read before. -/
structure SameReads (same : World → World → Prop) (body reduced : CodeBlock) (start : State Value World)
    (steps fewer : Nat) : Prop where
  outcome : Outcome.Alike same (run environment body steps start) (run environment reduced fewer start)
  sublist : (trace environment reduced fewer start).Sublist (trace environment body steps start)
  stays : (trace environment reduced fewer start).filter staysAlways =
    (trace environment body steps start).filter staysAlways

end Runs

/-! ### One round -/

variable {fuel : Nat}

section Round

variable {Value World : Type} (environment : Environment Value World) (same : World → World → Prop)
  (function : Function) (liveOut : String → Finset String)

def liveAt (label : String) (index : Nat) : Finset String :=
  match function.body.instructionsOf label with
  | some instructions =>
    (scanBlock (debugLocals function) (liveOut label) (instructions.drop index)).2
  | none => ∅

/-- When block ends stand for the places where control leaves: what is live at the start of a
cleanup block is live before every instruction of its regions that can throw. -/
structure LeavesLive : Prop where
  jumps : JumpsEndBlocks function
  cleanups : ∀ label instructions index instruction target,
    function.body.instructionsOf label = some instructions →
    instructions[index]? = some instruction → CanThrow environment instruction →
    region (instructions.take index) = some target →
      ∀ name ∈ liveAt function liveOut target 0, name ≠ unwindExceptionLocal →
        name ∈ liveAt function liveOut label index
  exceptions : ∀ label instructions instruction, function.body.instructionsOf label = some instructions →
    instruction ∈ instructions → removableDeadDefinition instruction ≠ some unwindExceptionLocal

structure Related (instructions : List Instruction) (label : String) (index fewer : Nat)
    (state reduced : State Value World) : Prop where
  remaining : (scanBlock (debugLocals function) (liveOut label) instructions).1.drop fewer =
    (scanBlock (debugLocals function) (liveOut label) (instructions.drop index)).1
  sameRegion : region (instructions.take index) =
    region ((scanBlock (debugLocals function) (liveOut label) instructions).1.take fewer)
  agrees : ∀ name ∈ (scanBlock (debugLocals function) (liveOut label) (instructions.drop index)).2,
    state.store name = reduced.store name
  exception : state.store unwindExceptionLocal = reduced.store unwindExceptionLocal
  worlds : same state.world reduced.world

def Matches : Outcome Value World → Outcome Value World → Prop
  | .running label index state, .running other fewer reduced => label = other ∧ same state.world reduced.world ∧
    ∀ instructions, function.body.instructionsOf label = some instructions →
      Related same function liveOut instructions label index fewer state reduced
  | .returned value world, .returned other reduced => value = other ∧ same world reduced
  | .unwound exception world, .unwound other reduced => exception = other ∧ same world reduced
  | _, _ => False

variable {environment same function liveOut}

theorem matches_alike {outcome reduced : Outcome Value World}
    (isMatch : Matches same function liveOut outcome reduced) : Outcome.Alike same outcome reduced := by
  unfold Matches at isMatch
  split at isMatch
  · exact ⟨isMatch.1, isMatch.2.1⟩
  · exact isMatch
  · exact isMatch
  · exact isMatch.elim

variable {store reduced : Store Value} {instruction : Instruction}

theorem reads_agree {live : Finset String}
    (agrees : ∀ name ∈ liveBefore instruction live, store name = reduced name)
    (exception : store unwindExceptionLocal = reduced unwindExceptionLocal) :
    ∀ name ∈ instruction.reads, store name = reduced name := by
  intro name isRead
  by_cases isRethrow : instruction = .rethrow
  · subst isRethrow
    have isException : name = unwindExceptionLocal := by
      simpa [Instruction.reads, Instruction.object, Instruction.operands] using isRead
    rw [isException]
    exact exception
  · apply agrees
    rw [liveBefore, Finset.mem_union, List.mem_toFinset, visit_instruction_uses isRethrow]
    exact .inr isRead

theorem step_at {body : CodeBlock} {label : String} {index : Nat} {state : State Value World}
    {instructions : List Instruction}
    (isBlock : body.instructionsOf label = some instructions)
    (isInstruction : instructions[index]? = some instruction) :
    step environment body label index state =
      proceed instructions label index state (execute environment instruction state.store state.world) := by
  simp [step, isBlock, isInstruction]

/-- Results that agree up to worlds that cannot be told apart. -/
def Result.Alike (same : World → World → Prop) : Result Value World → Result Value World → Prop
  | .next assigned world, .next other reduced => assigned = other ∧ same world reduced
  | .goto target, .goto other => target = other
  | .returned value world, .returned other reduced => value = other ∧ same world reduced
  | .thrown exception world, .thrown other reduced => exception = other ∧ same world reduced
  | .stuck, .stuck => True
  | _, _ => False

variable (unobserved : Unobserved environment same) {world other later : World}

include unobserved in
theorem perform_alike {values : List Value}
    (alike : same world other) (onValue onException : Value → World → Result Value World)
    (value : ∀ result later otherLater, same later otherLater →
      Result.Alike same (onValue result later) (onValue result otherLater))
    (exception : ∀ thrown later otherLater, same later otherLater →
      Result.Alike same (onException thrown later) (onException thrown otherLater)) :
    Result.Alike same
      (match environment.perform instruction values world with
        | .value result later => onValue result later
        | .exception thrown later => onException thrown later)
      (match environment.perform instruction values other with
        | .value result later => onValue result later
        | .exception thrown later => onException thrown later) := by
  cases performed : environment.perform instruction values world with
  | value result later =>
    obtain ⟨otherLater, isOther, alikeLater⟩ := unobserved.value _ _ _ _ _ _ alike performed
    rw [isOther]
    exact value result later otherLater alikeLater
  | exception thrown later =>
    obtain ⟨otherLater, isOther, alikeLater⟩ := unobserved.exception _ _ _ _ _ _ alike performed
    rw [isOther]
    exact exception thrown later otherLater alikeLater

include unobserved in
theorem act_alike {values : List Value} (alike : same world other) :
    Result.Alike same (act environment instruction values world) (act environment instruction values other) := by
  unfold act
  split
  · exact ⟨rfl, alike⟩
  · rfl
  · exact perform_alike unobserved alike _ _ (fun _ _ _ later => ⟨rfl, later⟩) fun _ _ _ later => ⟨rfl, later⟩
  · exact perform_alike unobserved alike _ _ (fun _ _ _ later => ⟨rfl, later⟩) fun _ _ _ later => ⟨rfl, later⟩
  · split
    · exact ⟨rfl, alike⟩
    · trivial
  · split
    · exact ⟨rfl, alike⟩
    · trivial
  · exact perform_alike unobserved alike _ _ (fun _ _ _ later => ⟨rfl, later⟩) fun _ _ _ later => ⟨rfl, later⟩

theorem map_m_agree {names : List String}
    (agrees : ∀ name ∈ names, store name = reduced name) : names.mapM store = names.mapM reduced := by
  induction names with
  | nil => rfl
  | cons name rest ih =>
    rw [List.mapM_cons, List.mapM_cons, agrees name List.mem_cons_self,
      ih fun other member => agrees other (List.mem_cons_of_mem _ member)]

include unobserved in
theorem execute_alike
    (agrees : ∀ name ∈ instruction.reads, store name = reduced name) (alike : same world other) :
    Result.Alike same (execute environment instruction store world)
      (execute environment instruction reduced other) := by
  unfold execute
  rw [map_m_agree agrees]
  split
  · exact act_alike unobserved alike
  · trivial

include unobserved in
theorem execute_removable {dest : String} {store : Store Value}
    (removable : removableDeadDefinition instruction = some dest)
    (alike : same world other) (notStuck : execute environment instruction store world ≠ .stuck) :
    ∃ value later, execute environment instruction store world = .next (some (dest, value)) later ∧
      same later other := by
  unfold execute at notStuck ⊢
  split at notStuck
  · next values isValues =>
    have isDest := removable_def removable
    have assigns : instruction.dest ≠ none := by simp [isDest]
    rcases Instruction.role_assigns assigns with isCompute | ⟨copyDest, src, isCopy⟩
    · obtain ⟨result, later, performed, alikeLater⟩ :=
        unobserved.removed instruction values world other (by simp [removable]) alike
      refine ⟨result, later, ?_, alikeLater⟩
      simp [act, isCompute, performed, isDest]
    · obtain ⟨ty, rfl⟩ := Instruction.role_copy isCopy
      cases removable
      cases values with
      | nil => exact absurd rfl notStuck
      | cons value rest => exact ⟨value, world, rfl, alike⟩
  · exact absurd rfl notStuck

/-! ### One step -/

section Step

variable {label target : String} {index fewer : Nat} {state reduced : State Value World}
  {instructions : List Instruction} {instruction : Instruction}

theorem drop_at (isInstruction : instructions[index]? = some instruction) :
    instructions.drop index = instruction :: instructions.drop (index + 1) := by
  obtain ⟨inside, isAt⟩ := List.getElem?_eq_some_iff.mp isInstruction
  rw [List.drop_eq_getElem_cons inside, isAt]

theorem region_take (isInstruction : instructions[index]? = some instruction) :
    region (instructions.take (index + 1)) = afterInstruction (region (instructions.take index)) instruction := by
  rw [region, region, List.take_add_one, isInstruction, List.foldl_append]
  rfl

theorem after_removable {dest : String} (removable : removableDeadDefinition instruction = some dest)
    (active : Option String) : afterInstruction active instruction = active := by
  unfold afterInstruction
  split
  · cases removable
  · cases removable
  · rfl

theorem matches_at_start {start reducedStart : State Value World}
    (agrees : ∀ following, function.body.instructionsOf target = some following →
      ∀ name ∈ (scanBlock (debugLocals function) (liveOut target) following).2,
        start.store name = reducedStart.store name)
    (exception : start.store unwindExceptionLocal = reducedStart.store unwindExceptionLocal)
    (alike : same start.world reducedStart.world) :
    Matches same function liveOut (.running target 0 start) (.running target 0 reducedStart) :=
  ⟨rfl, alike, fun following isTarget => ⟨rfl, rfl, agrees following isTarget, exception, alike⟩⟩

variable (isBlock : function.body.instructionsOf label = some instructions)

include isBlock in
theorem live_at_block : liveAt function liveOut label index =
      (scanBlock (debugLocals function) (liveOut label) (instructions.drop index)).2 := by
  simp [liveAt, isBlock]

include isBlock in
theorem reduced_block : (eliminateRound function liveOut).body.instructionsOf label =
      some (scanBlock (debugLocals function) (liveOut label) instructions).1 := by
  simp [eliminateRound, CodeBlock.instructions_of_map_blocks, isBlock]

variable (isInstruction : instructions[index]? = some instruction)
  (related : Related same function liveOut instructions label index fewer state reduced)

include isInstruction related

/-- Past a dead instruction, the reduced run need not move. -/
theorem related_dead {value : Value} {dest : String}
    (leaves : LeavesLive environment function liveOut)
    (isBlock : function.body.instructionsOf label = some instructions)
    (dead : isDead (debugLocals function)
      (scanBlock (debugLocals function) (liveOut label) (instructions.drop (index + 1))).2 instruction)
    (removable : removableDeadDefinition instruction = some dest) (alike : same later reduced.world) :
    Related same function liveOut instructions label (index + 1) fewer
      ⟨assign (some (dest, value)) state.store, later⟩ reduced := by
  obtain ⟨remaining, sameRegion, agrees, exception, -⟩ := related
  rw [drop_at isInstruction, scanBlock] at remaining agrees
  simp only [dead, if_true] at remaining agrees
  obtain ⟨otherDest, otherRemovable, -, notLive⟩ := is_dead_cases dead
  rw [removable] at otherRemovable
  cases otherRemovable
  have notException : dest ≠ unwindExceptionLocal := by
    intro isException
    apply leaves.exceptions label instructions instruction isBlock (List.mem_of_getElem? isInstruction)
    rw [removable, isException]
  constructor
  · exact remaining
  · rw [region_take isInstruction, after_removable removable, sameRegion]
  · intro name live
    have apart : dest ≠ name := fun isDest => notLive (isDest ▸ live)
    rw [← agrees name live]
    exact assign_apart apart value
  · rw [← exception]
    exact assign_apart notException value
  · exact alike

variable (stays : isDead (debugLocals function) (scanBlock (debugLocals function) (liveOut label) (instructions.drop (index + 1))).2 instruction = false)

include stays

theorem related_kept :
    (scanBlock (debugLocals function) (liveOut label) instructions).1.drop fewer = instruction ::
        (scanBlock (debugLocals function) (liveOut label) (instructions.drop (index + 1))).1 ∧
      (scanBlock (debugLocals function) (liveOut label) instructions).1[fewer]? = some instruction ∧
      ∀ name ∈ liveBefore instruction
        (scanBlock (debugLocals function) (liveOut label) (instructions.drop (index + 1))).2,
        state.store name = reduced.store name := by
  obtain ⟨remaining, -, agrees, -, -⟩ := related
  rw [drop_at isInstruction, scanBlock] at remaining agrees
  simp only [stays, Bool.false_eq_true, if_false] at remaining agrees
  refine ⟨remaining, ?_, agrees⟩
  rw [← List.head?_drop, remaining]
  rfl

theorem related_next {assigned : Option (String × Value)} {reducedLater : World}
    (isDest : assigned.map Prod.fst = instruction.dest) (alike : same later reducedLater) :
    Related same function liveOut instructions label (index + 1) (fewer + 1)
      ⟨assign assigned state.store, later⟩ ⟨assign assigned reduced.store, reducedLater⟩ := by
  obtain ⟨remaining, isKept, agrees⟩ := related_kept isInstruction related stays
  have assigns (name : String) (before : assigned.map Prod.fst ≠ some name →
      state.store name = reduced.store name) :
      assign assigned state.store name = assign assigned reduced.store name := by
    by_cases isAssigned : assigned.map Prod.fst = some name
    · rw [assign_dest isAssigned, assign_dest isAssigned]
    · rw [assign_other isAssigned, assign_other isAssigned, before isAssigned]
  constructor
  · rw [← List.tail_drop, remaining]
    rfl
  · rw [region_take isInstruction, region_take isKept, related.sameRegion]
  · intro name live
    apply assigns
    intro notAssigned
    apply agrees
    rw [isDest] at notAssigned
    unfold liveBefore instructionDef
    apply Finset.mem_union_left
    split
    · next defined isDefined =>
      apply Finset.mem_erase_of_ne_of_mem _ live
      intro isName
      exact notAssigned (by rw [isDefined, isName])
    · exact live
  · exact assigns _ fun _ => related.exception
  · exact alike

omit stays

theorem proceed_matches {result other : Result Value World}
    (ran : blockLiveOut function fuel = some liveOut) (leaves : LeavesLive environment function liveOut)
    (isBlock : function.body.instructionsOf label = some instructions)
    (stays : isDead (debugLocals function)
      (scanBlock (debugLocals function) (liveOut label) (instructions.drop (index + 1))).2 instruction = false)
    (executed : execute environment instruction state.store state.world = result)
    (alike : Result.Alike same result other) (notStuck : result ≠ .stuck) :
    Matches same function liveOut (proceed instructions label index state result)
      (proceed (scanBlock (debugLocals function) (liveOut label) instructions).1 label fewer reduced other) := by
  unfold Result.Alike at alike
  split at alike
  · obtain ⟨rfl, alikeLater⟩ := alike
    refine ⟨rfl, alikeLater, ?_⟩
    intro found isFound
    rw [isBlock] at isFound
    cases isFound
    exact related_next isInstruction related stays (execute_next executed).1 alikeLater
  · subst alike
    rename_i target
    obtain ⟨targets, otherwise, isGoto, isOne⟩ := execute_goto executed
    have isSuccessor : target ∈ getBlockSuccessors instructions := by
      rw [mem_block_successors]
      exact ⟨instruction, List.mem_of_getElem? isInstruction, goto_successor isGoto isOne⟩
    apply matches_at_start _ related.exception related.worlds
    intro following isTarget name live
    apply related.agrees
    apply live_out_subset
    · exact leaves.jumps label instructions index instruction targets otherwise isBlock isInstruction isGoto
    · exact start_live_at_end ran isBlock isTarget isSuccessor live
  · exact alike
  · obtain ⟨rfl, alikeLater⟩ := alike
    rename_i exception world otherWorld
    simp only [proceed, ← related.sameRegion]
    split
    · next target isRegion =>
      obtain ⟨values, -, acted⟩ := execute_ran executed (by simp)
      have sameException : assign (some (unwindExceptionLocal, exception)) state.store unwindExceptionLocal =
          assign (some (unwindExceptionLocal, exception)) reduced.store unwindExceptionLocal := by
        rw [assign_dest rfl, assign_dest rfl]
      apply matches_at_start _ sameException alikeLater
      intro following isTarget name live
      by_cases isException : name = unwindExceptionLocal
      · rw [isException]
        exact sameException
      · simp only [assign_apart (Ne.symm isException)]
        apply related.agrees
        rw [← live_at_block isBlock]
        apply leaves.cleanups label instructions index instruction target isBlock isInstruction
          ⟨values, state.world, exception, world, acted⟩ isRegion name _ isException
        rw [live_at_block isTarget]
        exact live
    · exact ⟨rfl, alikeLater⟩
  · exact absurd rfl notStuck
  · exact alike.elim

include unobserved in
/-- A step of the original function is one of the reduced function, or none when its
instruction was deleted. -/
theorem step_matches (ran : blockLiveOut function fuel = some liveOut)
    (leaves : LeavesLive environment function liveOut)
    (isBlock : function.body.instructionsOf label = some instructions)
    (notStuck : step environment function.body label index state ≠ .stuck) :
    (removableDeadDefinition instruction ≠ none ∧
      Matches same function liveOut (step environment function.body label index state)
        (.running label fewer reduced)) ∨
    ((scanBlock (debugLocals function) (liveOut label) instructions).1[fewer]? = some instruction ∧
      (∀ name ∈ instruction.reads, state.store name = reduced.store name) ∧
      Matches same function liveOut (step environment function.body label index state)
        (step environment (eliminateRound function liveOut).body label fewer reduced)) := by
  rw [step_at isBlock isInstruction] at notStuck ⊢
  cases stays : isDead (debugLocals function)
    (scanBlock (debugLocals function) (liveOut label) (instructions.drop (index + 1))).2 instruction with
  | true =>
    left
    obtain ⟨dest, removable, -, -⟩ := is_dead_cases stays
    refine ⟨by simp [removable], ?_⟩
    have notStuckHere : execute environment instruction state.store state.world ≠ .stuck := by
      intro isStuck
      rw [isStuck] at notStuck
      exact notStuck rfl
    obtain ⟨value, later, executed, alike⟩ :=
      execute_removable unobserved removable related.worlds notStuckHere
    rw [executed]
    refine ⟨rfl, alike, ?_⟩
    intro other isOther
    rw [isBlock] at isOther
    cases isOther
    exact related_dead isInstruction related leaves isBlock stays removable alike
  | false =>
    right
    obtain ⟨-, isKept, agrees⟩ := related_kept isInstruction related stays
    have sameReads := reads_agree agrees related.exception
    refine ⟨isKept, sameReads, ?_⟩
    rw [step_at (reduced_block isBlock) isKept]
    apply proceed_matches isInstruction related ran leaves isBlock stays rfl
      (execute_alike unobserved sameReads related.worlds)
    intro isStuck
    rw [isStuck] at notStuck
    exact notStuck rfl

end Step

/-! ### Whole runs -/

theorem reading_at {body : CodeBlock} {label : String} {index : Nat} {state : State Value World}
    {instructions : List Instruction} {instruction : Instruction}
    (isBlock : body.instructionsOf label = some instructions)
    (isInstruction : instructions[index]? = some instruction) :
    reading body (.running label index state) = [(instruction, instruction.reads.map state.store)] := by
  simp [reading, isBlock, isInstruction]

/-- What the next step of two runs that match reads. -/
inductive NextReads (environment : Environment Value World) (same : World → World → Prop)
    (function : Function) (liveOut : String → Finset String) (now reduced : Outcome Value World) : Prop
  | ended (none : reading function.body now = [])
      (still : Matches same function liveOut (advance environment function.body now) reduced)
  | deleted (entry : Entry Value) (isEntry : reading function.body now = [entry])
      (deletable : staysAlways entry = false)
      (still : Matches same function liveOut (advance environment function.body now) reduced)
  | both (sameReading : reading (eliminateRound function liveOut).body reduced = reading function.body now)
      (next : Matches same function liveOut (advance environment function.body now)
        (advance environment (eliminateRound function liveOut).body reduced))

include unobserved in
theorem next_reads (ran : blockLiveOut function fuel = some liveOut)
    (leaves : LeavesLive environment function liveOut) {now reduced : Outcome Value World}
    (isMatch : Matches same function liveOut now reduced)
    (notStuck : advance environment function.body now ≠ .stuck) :
    NextReads environment same function liveOut now reduced := by
  unfold Matches at isMatch
  split at isMatch
  · next label index state other reducedIndex reduced =>
    obtain ⟨rfl, -, isRelated⟩ := isMatch
    change step environment function.body label index state ≠ .stuck at notStuck
    cases isBlock : function.body.instructionsOf label with
    | none => exact absurd (by simp [step, isBlock]) notStuck
    | some instructions =>
      cases isInstruction : instructions[index]? with
      | none => exact absurd (by simp [step, isBlock, isInstruction]) notStuck
      | some instruction =>
        have isReading := @reading_at _ _ _ label index state _ _ isBlock isInstruction
        rcases step_matches unobserved isInstruction (isRelated instructions isBlock) ran leaves isBlock
          notStuck with ⟨removable, still⟩ | ⟨isKept, sameReads, next⟩
        · apply NextReads.deleted _ isReading _ still
          simpa [staysAlways, Option.isSome_iff_ne_none] using removable
        · have sameValues : instruction.reads.map reduced.store = instruction.reads.map state.store := by
            apply List.map_congr_left
            intro name isRead
            exact (sameReads name isRead).symm
          apply NextReads.both _ next
          rw [isReading, reading_at (reduced_block isBlock) isKept, sameValues]
  · exact .ended rfl isMatch
  · exact .ended rfl isMatch
  · exact isMatch.elim

include unobserved in
/-- A round deletes instructions from the trace of a run, and nothing else. -/
theorem round_matches (ran : blockLiveOut function fuel = some liveOut)
    (leaves : LeavesLive environment function liveOut) (start : State Value World) (steps : Nat)
    (notStuck : run environment function.body steps start ≠ .stuck) :
    ∃ fewer, Matches same function liveOut (run environment function.body steps start)
        (run environment (eliminateRound function liveOut).body fewer start) ∧
      (trace environment (eliminateRound function liveOut).body fewer start).Sublist
        (trace environment function.body steps start) ∧
      (trace environment (eliminateRound function liveOut).body fewer start).filter staysAlways =
        (trace environment function.body steps start).filter staysAlways := by
  induction steps with
  | zero =>
    refine ⟨0, ?_, List.Sublist.refl _, rfl⟩
    exact matches_at_start (fun _ _ _ _ => rfl) rfl (unobserved.refl _)
  | succ steps ih =>
    rw [run_succ] at notStuck ⊢
    have notStuckBefore : run environment function.body steps start ≠ .stuck := by
      intro isStuck
      rw [isStuck] at notStuck
      exact notStuck rfl
    obtain ⟨fewer, isMatch, sublist, stays⟩ := ih notStuckBefore
    rw [trace_succ]
    cases next_reads unobserved ran leaves isMatch notStuck with
    | ended none still =>
      refine ⟨fewer, still, ?_, ?_⟩
      · rw [none, List.append_nil]
        exact sublist
      · rw [none, List.append_nil]
        exact stays
    | deleted entry isEntry deletable still =>
      refine ⟨fewer, still, sublist.trans (List.sublist_append_left _ _), ?_⟩
      rw [isEntry, List.filter_append, ← stays]
      simp [deletable]
    | both sameReading next =>
      refine ⟨fewer + 1, ?_, ?_, ?_⟩
      · rw [run_succ]
        exact next
      · rw [trace_succ, sameReading]
        exact List.Sublist.append sublist (List.Sublist.refl _)
      · rw [trace_succ, sameReading, List.filter_append, List.filter_append, stays]

end Round

/-! ### All rounds -/

section Rounds

variable {Value World : Type} (environment : Environment Value World)

/-- Every round finds its function in order. -/
def RoundsLeaveLive : Nat → Function → Prop
  | 0, _ => True
  | fuel + 1, function =>
    ∀ liveOut, blockLiveOut function fuel = some liveOut →
      LeavesLive environment function liveOut ∧
        (removedAny function liveOut → RoundsLeaveLive fuel (eliminateRound function liveOut))

variable {environment} {same : World → World → Prop}

theorem alike_trans (unobserved : Unobserved environment same) {first second third : Outcome Value World}
    (alike : Outcome.Alike same first second) (alikeLater : Outcome.Alike same second third) :
    Outcome.Alike same first third := by
  cases first <;> cases second <;> cases third <;> simp only [Outcome.Alike] at alike alikeLater ⊢
  all_goals exact ⟨alike.1.trans alikeLater.1, unobserved.trans _ _ _ alike.2 alikeLater.2⟩

theorem alike_not_stuck {outcome reduced : Outcome Value World} (alike : Outcome.Alike same outcome reduced) :
    reduced ≠ .stuck := by
  intro isStuck
  rw [isStuck] at alike
  cases outcome <;> exact alike

/-- Without jumps and regions, and with the exception left alone, nothing leaves a block early. -/
def StraightLine (function : Function) : Prop :=
  ∀ label instructions, function.body.instructionsOf label = some instructions →
    ∀ instruction ∈ instructions, (∀ targets otherwise, instruction.role ≠ .goto targets otherwise) ∧
      (∀ target, instruction ≠ .unwindStart target) ∧
      removableDeadDefinition instruction ≠ some unwindExceptionLocal

theorem no_region {instructions : List Instruction}
    (noStart : ∀ instruction ∈ instructions, ∀ target, instruction ≠ .unwindStart target) :
    region instructions = none := by
  apply List.foldlRecOn (motive := (· = none)) _ _ rfl
  rintro _ rfl instruction member
  unfold afterInstruction
  split
  · next target => exact absurd rfl (noStart _ member target)
  · rfl
  · rfl

theorem straight_line_leaves {function : Function} (straight : StraightLine function)
    (liveOut : String → Finset String) : LeavesLive environment function liveOut where
  jumps label instructions index instruction targets otherwise isBlock isInstruction isGoto :=
    absurd isGoto ((straight label instructions isBlock instruction
      (List.mem_of_getElem? isInstruction)).1 targets otherwise)
  cleanups label instructions index instruction target isBlock isInstruction _ isRegion := by
    rw [no_region fun other member =>
      (straight label instructions isBlock other (List.mem_of_mem_take member)).2.1] at isRegion
    cases isRegion
  exceptions label instructions instruction isBlock member :=
    (straight label instructions isBlock instruction member).2.2

theorem scan_sublist {debugLocals : List String} {liveOut : Finset String} (instructions : List Instruction) :
    (scanBlock debugLocals liveOut instructions).1.Sublist instructions := by
  induction instructions with
  | nil => exact List.Sublist.refl _
  | cons instruction rest ih =>
    rw [scanBlock]
    dsimp only
    split
    · exact ih.cons instruction
    · exact ih.cons_cons instruction

theorem straight_line_rounds {function : Function} (straight : StraightLine function) (fuel : Nat) :
    RoundsLeaveLive environment fuel function := by
  induction fuel generalizing function with
  | zero => trivial
  | succ fuel ih =>
    intro liveOut _
    refine ⟨straight_line_leaves straight liveOut, ?_⟩
    intro _
    apply ih
    intro label kept isKept instruction member
    rw [eliminateRound, CodeBlock.instructions_of_map_blocks] at isKept
    obtain ⟨instructions, isBlock, rfl⟩ := Option.map_eq_some_iff.mp isKept
    exact straight label instructions isBlock instruction ((scan_sublist instructions).subset member)

end Rounds

/-! ### A definition before a call that throws -/

section Calls

theorem failing_calls_unobserved : Unobserved failingCalls fun _ _ => True where
  refl _ := trivial
  trans _ _ _ _ _ := trivial
  value instruction values world other result later _ performed := ⟨later, performed, trivial⟩
  exception instruction values world other thrown later _ performed := ⟨later, performed, trivial⟩
  removed := by
    intro instruction values world other removable _
    unfold removableDeadDefinition at removable
    split at removable
    · next dest src =>
      cases src with
      | constant value => cases value <;> exact ⟨_, _, rfl, trivial⟩
      | «variable» => exact ⟨_, _, rfl, trivial⟩
    · split at removable
      · next isCell => exact ⟨0, (), by simp [failingCalls, Instruction.erase, Instruction.mapReads, isCell.1],
          trivial⟩
      · exact absurd rfl removable
    · exact absurd rfl removable

def unreadMove : Function :=
  plainFunction "unread_move"
    [("entry", ⟨"entry", [assignInt "x" 1, assignInt "y" 2, .return (some (.variable "x" (.int .i32)))]⟩)]

/-- The call leaves the block between the two definitions of `_1`. -/
def redefinedLater : Function :=
  plainFunction "redefined_later"
    [("entry", ⟨"entry", [.unwindStart "cleanup", assignInt "_1" 1,
        .invokeStatic none "Test" "fail" ⟨[], .void, true⟩ [], assignInt "_1" 2, .unwindEnd, .jump "exit"]⟩),
      ("exit", ⟨"exit", [.return (some (.variable "_1" (.int .i32)))]⟩),
      ("cleanup", ⟨"cleanup", [.return (some (.variable "_1" (.int .i32)))]⟩)]

def seven : State Int Unit := ⟨fun name => if name = "_1" then some 7 else none, ()⟩

end Calls

end RustcCodegenJvm.Optimise1
