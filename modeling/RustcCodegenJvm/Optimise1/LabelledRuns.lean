import RustcCodegenJvm.Optimise1.LabelSplitting

/-!
# Runs of split blocks

Before the split control falls through a label, and a jump to a label goes on
behind it. Every place of the body has a place in the segments, and runs go
through corresponding places step by step. A region that is open at a label does
not reach into the next segment, so labels have to stand outside of regions.
-/

namespace RustcCodegenJvm.Optimise1

open Program Library AssociationList List

/-! ### Runs with labels -/

section Labelled

variable {Value World : Type} (environment : Environment Value World) (body : CodeBlock)

/-- Where a name leads: to the start of a block, or behind a label. -/
def locate (name : String) : Option (String × Nat) :=
  if (body.instructionsOf name).isSome then some (name, 0)
  else body.basicBlocks.findSome? fun entry =>
    (entry.2.instructions.findIdx? fun instruction => labelName instruction = some name).map
      fun index => (entry.1, index + 1)

/-- Control that was sent to a name is where the name leads. -/
def resolve : Outcome Value World → Outcome Value World
  | .running name 0 state =>
    match locate body name with
    | some (label, index) => .running label index state
    | none => .running name 0 state
  | outcome => outcome

/-- The outcome after a number of steps, where names of labels can be targets. -/
def labelledRun (steps : Nat) (state : State Value World) : Outcome Value World :=
  (fun outcome => resolve body (advance environment body outcome))^[steps]
    (resolve body (.running body.entry 0 state))

end Labelled

/-! ### Places -/

def track (place : String × Nat) (instruction : Instruction) : String × Nat :=
  match labelName instruction with
  | some next => (next, 0)
  | none => (place.1, place.2 + 1)

/-- Where a place of the body is after the split. -/
def placeOf (body : CodeBlock) (label : String) (index : Nat) : String × Nat :=
  match body.instructionsOf label with
  | some instructions => (instructions.take index).foldl track (label, 0)
  | none => (label, index)

def relocateOutcome {Value World : Type} (body : CodeBlock) :
    Outcome Value World → Outcome Value World
  | .running label index state =>
    .running (placeOf body label index).1 (placeOf body label index).2 state
  | outcome => outcome

/-- No region is open at a label. -/
def ClosedAtLabels (active : Option String) (instructions : List Instruction) : Prop :=
  ∀ done instruction rest, instructions = done ++ instruction :: rest →
    (labelName instruction).isSome → done.foldl afterInstruction active = none

def RegionsClosedAtLabels (body : CodeBlock) : Prop :=
  ∀ entry ∈ body.basicBlocks, ClosedAtLabels none entry.2.instructions

theorem ClosedAtLabels.tail {active : Option String} {instruction : Instruction}
    {rest : List Instruction} (closed : ClosedAtLabels active (instruction :: rest)) :
    ClosedAtLabels (afterInstruction active instruction) rest := by
  intro done label later isRest isLabel
  exact closed (instruction :: done) label later (by rw [isRest, cons_append]) isLabel

variable {instruction : Instruction}

variable (current instructions : List Instruction)

theorem first_segment_extends : ∃ tail, (cutUp current instructions).1 = current ++ tail := by
  induction instructions generalizing current with
  | nil => exact ⟨[], by simp [cutUp]⟩
  | cons instruction rest ih =>
    cases isLabel : labelName instruction with
    | none =>
      obtain ⟨tail, extends'⟩ := ih (current ++ [instruction])
      exact ⟨instruction :: tail, by rw [cut_up_other _ _ isLabel, extends']; simp⟩
    | some next =>
      obtain ⟨added, isSegment, -⟩ := close_segment_keeps current next
      exact ⟨added, by rw [cut_up_label _ _ isLabel, isSegment]⟩

/-- What the split body has at the place behind some instructions of a block. -/
structure SegmentAt (current instructions : List Instruction) (index : Nat) (segment : List Instruction)
    (offset : Nat) : Prop where
  plain : ∀ instruction, instructions[index]? = some instruction → labelName instruction = none →
    segment[offset]? = some instruction
  label : ∀ instruction next, instructions[index]? = some instruction →
    labelName instruction = some next →
    isTerminator (current ++ instructions.take index).getLast? = false →
    segment[offset]? = some (.jump next)
  finish : instructions.length ≤ index → segment.length ≤ offset
  region : ClosedAtLabels (region current) instructions →
    region (segment.take offset) = (instructions.take index).foldl afterInstruction (region current)

theorem segment_at_start :
    SegmentAt current instructions 0 (cutUp current instructions).1 current.length where
  plain := by
    intro instruction found notLabel
    cases instructions with
    | nil => cases found
    | cons first rest =>
      cases found
      obtain ⟨tail, extends'⟩ := first_segment_extends (current ++ [instruction]) rest
      rw [cut_up_other _ _ notLabel, extends']
      simp
  label := by
    intro instruction next found isLabel notTerminator
    cases instructions with
    | nil => cases found
    | cons first rest =>
      cases found
      rw [take_zero, append_nil] at notTerminator
      rw [cut_up_label _ _ isLabel, Cutting.closeSegment, notTerminator]
      simp
  finish := by
    intro short
    rw [length_eq_zero_iff.mp (Nat.le_zero.mp short)]
    simp [cutUp]
  region := by
    intro _
    obtain ⟨tail, extends'⟩ := first_segment_extends current instructions
    rw [extends']
    simp

theorem not_terminator_of_append (first : List Instruction) {second : List Instruction}
    (notTerminator : isTerminator (first ++ second).getLast? = false) :
    isTerminator second.getLast? = false := by
  cases second with
  | nil => rfl
  | cons instruction rest =>
    rwa [List.getLast?_append_of_ne_nil _ (by simp)] at notTerminator

/-- Behind every instruction of a block there is a place in one of its segments. -/
theorem segment_at (label : String) (current instructions : List Instruction) (index : Nat) :
    ∃ segment : List Instruction,
      (((instructions.take index).foldl track (label, current.length)).1, segment) ∈
        (label, (cutUp current instructions).1) :: (cutUp current instructions).2 ∧
      SegmentAt current instructions index segment
        ((instructions.take index).foldl track (label, current.length)).2 := by
  induction instructions generalizing label current index with
  | nil =>
    refine ⟨current, by simp [cutUp], ?_⟩
    simp only [take_nil, foldl_nil]
    exact ⟨by simp, by simp, fun _ => le_refl _, by simp⟩
  | cons instruction rest ih =>
    cases index with
    | zero => exact ⟨_, mem_cons_self, segment_at_start current (instruction :: rest)⟩
    | succ index =>
      rw [take_succ_cons, foldl_cons]
      cases isLabel : labelName instruction with
      | none =>
        have tracked : track (label, current.length) instruction =
            (label, (current ++ [instruction]).length) := by
          simp [track, isLabel]
        obtain ⟨segment, member, atSegment⟩ := ih label (current ++ [instruction]) index
        rw [tracked, cut_up_other _ _ isLabel]
        refine ⟨segment, member, ?_⟩
        have regions : region (current ++ [instruction]) =
            afterInstruction (region current) instruction := by
          simp [region]
        refine ⟨atSegment.plain, ?_, fun short => atSegment.finish (by simpa using short), ?_⟩
        · intro other next found otherLabel notTerminator
          apply atSegment.label other next found otherLabel
          simpa using notTerminator
        · intro closed
          rw [take_succ_cons, foldl_cons, ← regions]
          apply atSegment.region
          rw [regions]
          exact closed.tail
      | some next =>
        have tracked : track (label, current.length) instruction = (next, ([] : List Instruction).length) := by
          simp [track, isLabel]
        obtain ⟨segment, member, atSegment⟩ := ih next [] index
        rw [tracked, cut_up_label _ _ isLabel]
        refine ⟨segment, mem_cons_of_mem _ member, atSegment.plain, ?_,
          fun short => atSegment.finish (by simpa using short), ?_⟩
        · intro other target found otherLabel notTerminator
          apply atSegment.label other target found otherLabel
          apply not_terminator_of_append (current ++ [instruction])
          simpa using notTerminator
        · intro closed
          have noRegion : region current = none :=
            closed [] instruction rest rfl (by rw [isLabel]; rfl)
          have kept : afterInstruction (region current) instruction = none := by
            rw [noRegion, label_of_name isLabel]
            rfl
          rw [take_succ_cons, foldl_cons, kept]
          apply atSegment.region
          change ClosedAtLabels none rest
          rw [← kept]
          exact closed.tail

/-! ### Places of runs -/

section Runs

variable {Value World : Type} {environment : Environment Value World} {body later : CodeBlock}

/-- The split body, as far as runs are concerned. -/
structure SplitInto (body later : CodeBlock) : Prop where
  distinct : DistinctNames body
  closed : RegionsClosedAtLabels body
  entry : later.entry = body.entry
  blocks : ∀ name, later.instructionsOf name = (allSegments body).lookup name

def Reachable (body : CodeBlock) (label : String) (index : Nat) : Prop :=
  (∃ instructions, body.instructionsOf label = some instructions ∧
      isTerminator (instructions.take index).getLast? = false) ∨
    (index = 0 ∧ locate body label = none)

variable {label name : String} {instructions : List Instruction}

theorem entry_of_instructions (isBlock : body.instructionsOf label = some instructions) :
    ∃ entry ∈ body.basicBlocks, entry.1 = label ∧ entry.2.instructions = instructions := by
  obtain ⟨block, member, isInstructions⟩ := CodeBlock.mem_of_instructions_of isBlock
  exact ⟨(label, block), member, rfl, isInstructions⟩

variable (split : SplitInto body later)

include split in
theorem SplitInto.segment (member : (name, instructions) ∈ allSegments body) :
    later.instructionsOf name = some instructions := by
  rw [split.blocks, lookup_iff_mem]
  · exact member
  · rw [all_segment_names]
    exact split.distinct.nodup

variable {entry : String × BasicBlock}

theorem segments_in_all (isEntry : entry ∈ body.basicBlocks)
    (member : (name, instructions) ∈ segments entry.1 entry.2.instructions) :
    (name, instructions) ∈ allSegments body := by
  rcases mem_cons.mp member with isFirst | isLater
  · apply mem_append_left
    rw [isFirst]
    exact mem_map.mpr ⟨entry, isEntry, rfl⟩
  · apply mem_append_right
    exact mem_flatMap.mpr ⟨entry, isEntry, isLater⟩

include split in
theorem SplitInto.at (isBlock : body.instructionsOf label = some instructions) (index : Nat) :
    ∃ segment, later.instructionsOf (placeOf body label index).1 = some segment ∧
      SegmentAt [] instructions index segment (placeOf body label index).2 ∧
      region (segment.take (placeOf body label index).2) = region (instructions.take index) := by
  obtain ⟨entry, isEntry, rfl, rfl⟩ := entry_of_instructions isBlock
  obtain ⟨segment, member, atSegment⟩ := segment_at entry.1 [] entry.2.instructions index
  have isPlace : placeOf body entry.1 index =
      (entry.2.instructions.take index).foldl track (entry.1, 0) := by
    rw [placeOf, isBlock]
  rw [isPlace]
  refine ⟨segment, split.segment (segments_in_all isEntry member), atSegment, ?_⟩
  exact atSegment.region (split.closed entry isEntry)

theorem instructions_of_entry (distinct : DistinctNames body) (isEntry : entry ∈ body.basicBlocks) :
    body.instructionsOf entry.1 = some entry.2.instructions := by
  have keys := (nodup_append'.mp distinct.nodup).1
  rw [CodeBlock.instructionsOf, (lookup_iff_mem keys).mpr isEntry]
  rfl

theorem locate_place (distinct : DistinctNames body) {index : Nat}
    (located : locate body name = some (label, index)) :
    Reachable body label index ∧ placeOf body label index = (name, 0) := by
  unfold locate at located
  split at located
  · rename_i isBlock
    cases located
    obtain ⟨instructions, isBlock⟩ := Option.isSome_iff_exists.mp isBlock
    refine ⟨.inl ⟨instructions, isBlock, rfl⟩, ?_⟩
    rw [placeOf, isBlock]
    rfl
  · obtain ⟨entry, isEntry, found⟩ := exists_of_findSome?_eq_some located
    obtain ⟨position, isPosition, isPlace⟩ := Option.map_eq_some_iff.mp found
    cases isPlace
    obtain ⟨inside, isLabel, -⟩ := List.findIdx?_eq_some_iff_getElem.mp isPosition
    have isLabel : labelName entry.2.instructions[position] = some name := by simpa using isLabel
    have isBlock := instructions_of_entry distinct isEntry
    have taken : entry.2.instructions.take (position + 1) =
        entry.2.instructions.take position ++ [entry.2.instructions[position]] :=
      (take_append_getElem inside).symm
    constructor
    · refine .inl ⟨_, isBlock, ?_⟩
      rw [taken, List.getLast?_append_of_ne_nil _ (by simp), List.getLast?_singleton, label_of_name isLabel]
      rfl
    · rw [placeOf, isBlock]
      simp only
      rw [taken, foldl_append, foldl_cons, foldl_nil, track, isLabel]

include split in
theorem SplitInto.nowhere (located : locate body name = none) :
    body.instructionsOf name = none ∧ later.instructionsOf name = none := by
  unfold locate at located
  split at located
  · cases located
  · rename_i noBlock
    rw [Option.not_isSome_iff_eq_none] at noBlock
    refine ⟨noBlock, ?_⟩
    rw [split.blocks]
    apply lookup_absent
    rw [all_segment_names, mem_append]
    rintro (isKey | isLabel)
    · obtain ⟨block, found⟩ := lookup_present isKey
      rw [CodeBlock.instructionsOf, found] at noBlock
      cases noBlock
    · obtain ⟨entry, isEntry, isLabelOf⟩ := mem_flatMap.mp isLabel
      obtain ⟨instruction, isInstruction, isName⟩ := mem_filterMap.mp isLabelOf
      have noPosition := List.findSome?_eq_none_iff.mp located entry isEntry
      rw [Option.map_eq_none_iff, List.findIdx?_eq_none_iff] at noPosition
      have notName := noPosition instruction isInstruction
      simp [isName] at notName

def OutcomeReachable (body : CodeBlock) : Outcome Value World → Prop
  | .running label index _ => Reachable body label index
  | _ => True

variable (state : State Value World)

theorem resolve_next (label : String) (index : Nat) (state : State Value World) :
    resolve body (.running label (index + 1) state) = .running label (index + 1) state := rfl

theorem place_of_nowhere (noBlock : body.instructionsOf name = none) (index : Nat) :
    placeOf body name index = (name, index) := by
  rw [placeOf, noBlock]

include split in
/-- Control sent to a name is at corresponding places before and after the split. -/
theorem SplitInto.resolved (name : String) (state : State Value World) :
    relocateOutcome body (resolve body (.running name 0 state)) = .running name 0 state ∧
      OutcomeReachable body (resolve body (.running name 0 state)) := by
  cases located : locate body name with
  | none =>
    simp only [resolve, located]
    refine ⟨?_, .inr ⟨rfl, located⟩⟩
    rw [relocateOutcome, place_of_nowhere (split.nowhere located).1]
  | some place =>
    obtain ⟨reachable, isPlace⟩ := locate_place split.distinct located
    simp only [resolve, located]
    refine ⟨?_, reachable⟩
    rw [relocateOutcome, isPlace]

theorem terminator_leaves {store : Store Value} {world after : World}
    {assigned : Option (String × Value)}
    (ran : execute environment instruction store world = .next assigned after) :
    isTerminator (some instruction) = false := by
  obtain ⟨values, -, acted⟩ := execute_ran ran (by simp)
  unfold isTerminator
  split
  case h_6 => rfl
  all_goals
    rename_i isLast
    cases isLast
    simp only [act, Instruction.role] at acted
    first | cases acted | (split at acted <;> cases acted)

section Step

variable {label : String} {index : Nat} {instructions : List Instruction} {instruction : Instruction}
  {state : State Value World}

theorem take_next (isInstruction : instructions[index]? = some instruction) :
    instructions.take (index + 1) = instructions.take index ++ [instruction] := by
  rw [take_add_one, isInstruction, Option.toList_some]

/-- A step of the split body from the place of a place goes to the place of where the body goes. -/
def StepMatches (environment : Environment Value World) (body later : CodeBlock) (label : String) (index : Nat)
    (state : State Value World) : Prop :=
  step environment later (placeOf body label index).1 (placeOf body label index).2 state =
      relocateOutcome body (resolve body (step environment body label index state)) ∧
    OutcomeReachable body (resolve body (step environment body label index state))

section

variable (isBlock : body.instructionsOf label = some instructions)
  (isInstruction : instructions[index]? = some instruction)

include isBlock isInstruction

theorem place_next :
    placeOf body label (index + 1) = track (placeOf body label index) instruction := by
  simp only [placeOf, isBlock]
  rw [take_next isInstruction, foldl_append]
  rfl

theorem reachable_next (goesOn : isTerminator (some instruction) = false) : Reachable body label (index + 1) := by
  refine .inl ⟨instructions, isBlock, ?_⟩
  rw [take_next isInstruction, List.getLast?_append_of_ne_nil _ (by simp), List.getLast?_singleton]
  exact goesOn

include split in
/-- A label is a jump to the segment behind it. -/
theorem SplitInto.step_label {next : String} (isLabel : labelName instruction = some next)
    (notTerminator : isTerminator (instructions.take index).getLast? = false) :
    StepMatches environment body later label index state := by
  obtain ⟨segment, isSegment, atSegment, -⟩ := split.at isBlock index
  have isJump := atSegment.label instruction next isInstruction isLabel notTerminator
  have before : step environment body label index state = .running label (index + 1) state := by
    simp only [step, isBlock, isInstruction, label_of_name isLabel]
    rfl
  have after : step environment later (placeOf body label index).1 (placeOf body label index).2
      state = .running next 0 state := by
    simp only [step, isSegment, isJump]
    rfl
  rw [StepMatches, before, after, resolve_next, relocateOutcome, place_next isBlock isInstruction, track, isLabel]
  refine ⟨rfl, reachable_next isBlock isInstruction ?_⟩
  rw [label_of_name isLabel]
  rfl

include split in
/-- Any other instruction is the same in its segment. -/
theorem SplitInto.step_plain (notLabel : labelName instruction = none) :
    StepMatches environment body later label index state := by
  obtain ⟨segment, isSegment, atSegment, regions⟩ := split.at isBlock index
  have same := atSegment.plain instruction isInstruction notLabel
  simp only [StepMatches, step, isBlock, isInstruction, isSegment, same]
  cases ran : execute environment instruction state.store state.world with
  | next assigned world =>
    simp only [proceed]
    rw [resolve_next, relocateOutcome, place_next isBlock isInstruction, track, notLabel]
    exact ⟨rfl, reachable_next isBlock isInstruction (terminator_leaves ran)⟩
  | goto target =>
    obtain ⟨isPlace, reachable⟩ := split.resolved target state
    exact ⟨isPlace.symm, reachable⟩
  | returned value world => exact ⟨rfl, trivial⟩
  | thrown exception world =>
    simp only [proceed, regions]
    cases region (instructions.take index) with
    | none => exact ⟨rfl, trivial⟩
    | some target =>
      obtain ⟨isPlace, reachable⟩ := split.resolved target
        ⟨assign (some (unwindExceptionLocal, exception)) state.store, world⟩
      exact ⟨isPlace.symm, reachable⟩
  | stuck => exact ⟨rfl, trivial⟩

end

theorem SplitInto.step (split : SplitInto body later) (reachable : Reachable body label index) :
    StepMatches environment body later label index state := by
  rcases reachable with ⟨instructions, isBlock, notTerminator⟩ | ⟨rfl, located⟩
  · cases isInstruction : instructions[index]? with
    | none =>
      obtain ⟨segment, isSegment, atSegment, -⟩ := split.at isBlock index
      have finished : segment[(placeOf body label index).2]? = none :=
        List.getElem?_eq_none (atSegment.finish (List.getElem?_eq_none_iff.mp isInstruction))
      simp only [StepMatches, Program.step, isBlock, isInstruction, isSegment, finished]
      exact ⟨rfl, trivial⟩
    | some instruction =>
      cases isLabel : labelName instruction with
      | none => exact split.step_plain isBlock isInstruction isLabel
      | some next => exact split.step_label isBlock isInstruction isLabel notTerminator
  · obtain ⟨noBlock, noSegment⟩ := split.nowhere located
    simp only [StepMatches, place_of_nowhere noBlock, Program.step, noBlock, noSegment]
    exact ⟨rfl, trivial⟩

end Step

include split in
/-- Runs of the split body go through the places of the labelled runs. -/
theorem SplitInto.run (steps : Nat) (state : State Value World) :
    run environment later steps state =
        relocateOutcome body (labelledRun environment body steps state) ∧
      OutcomeReachable body (labelledRun environment body steps state) := by
  induction steps with
  | zero =>
    obtain ⟨isPlace, reachable⟩ := split.resolved body.entry state
    refine ⟨?_, reachable⟩
    rw [Program.run, Function.iterate_zero, id, split.entry]
    exact isPlace.symm
  | succ steps ih =>
    obtain ⟨same, reachable⟩ := ih
    have labelled : labelledRun environment body (steps + 1) state =
        resolve body (advance environment body (labelledRun environment body steps state)) :=
      Function.iterate_succ_apply' _ _ _
    rw [run_succ, same, labelled]
    cases outcome : labelledRun environment body steps state with
    | running label index current =>
      rw [outcome] at reachable
      exact split.step reachable
    | _ => exact ⟨rfl, trivial⟩

end Runs

/-! ### The pass -/

/-- The blocks after the split. -/
structure SplitsLabels (body later : CodeBlock) : Prop where
  /-- No label is left. -/
  unlabelled : Unlabelled later
  /-- The blocks are the old ones and one for each label. -/
  names : (later.basicBlocks.map Prod.fst).Perm (body.basicBlocks.map Prod.fst ++ inlineLabels body)
  /-- Each block is cut into parts, with at most a jump added to each. -/
  keeps : ∀ entry ∈ body.basicBlocks, ∃ parts : List (List Instruction),
    parts.flatten = plainInstructions entry.2.instructions ∧
    List.Forall₂ (fun name part => ∃ segment, later.instructionsOf name = some segment ∧
      KeepsPart segment part) (entry.1 :: labelsOf entry) parts
  /-- Every run is matched step by step. -/
  runs : ∀ (Value World : Type) (environment : Environment Value World) (steps : Nat)
    (state : State Value World), run environment later steps state =
      relocateOutcome body (labelledRun environment body steps state)

theorem new_block_names {newBlocks : FiniteMap String BasicBlock}
    {added : List (String × List Instruction)} (adds : Cutting.Adds .empty newBlocks added)
    (distinct : (added.map Prod.fst).Nodup) :
    newBlocks.keys.Perm (added.map Prod.fst) := by
  rw [perm_ext_iff_of_nodup FiniteMap.keys_nodup distinct]
  intro name
  rw [FiniteMap.mem_keys, ← lookup_is_some, adds name]
  cases added.lookup name <;> simp

theorem closed_without_regions {instructions : List Instruction}
    (noRegions : ∀ instruction ∈ instructions, afterInstruction none instruction = none) :
    ClosedAtLabels none instructions := by
  rintro done label rest rfl -
  apply List.foldlRecOn (motive := (· = none)) _ _ rfl
  rintro _ rfl instruction member
  exact noRegions instruction (mem_append_left _ member)

def labelledLoop : CodeBlock :=
  ⟨"entry", [("entry", ⟨"entry", [.move "_1" (.constant .unit), .scalar (.label "again"),
    .scalar (.branch (.variable "_1" .boolean) "again" "done")]⟩), ("done", ⟨"done", [.return none]⟩)]⟩

def call (name : String) : Instruction := .invokeStatic none "Main" name ⟨[], .void, true⟩ []

def labelledRegion : CodeBlock :=
  ⟨"entry", [("entry", ⟨"entry", [.unwindStart "cleanup", .scalar (.label "inside"), call "work",
    .unwindEnd, .return none]⟩), ("cleanup", ⟨"cleanup", [call "drop", .jump "inside"]⟩)]⟩

def splitRegion : CodeBlock :=
  ⟨"entry", [("entry", ⟨"entry", [.unwindStart "cleanup", .jump "inside"]⟩),
    ("cleanup", ⟨"cleanup", [call "drop", .jump "inside"]⟩),
    ("inside", ⟨"inside", [call "work", .unwindEnd, .return none]⟩)]⟩

def throwing : Environment Unit Unit := ⟨fun _ _ world => .exception () world, fun _ _ => 0⟩

end RustcCodegenJvm.Optimise1
