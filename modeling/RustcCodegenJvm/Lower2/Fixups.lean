import RustcCodegenJvm.Lower2.MethodTranslator

/-!
# Control flow of emitted code

Pre- and postconditions for steps that place jumps. Such a step either runs into
the code that follows it or jumps to a label, and where a label lies is known
only when the method is finished: the rules are about the finished method, with
every fixup applied, of which the step's code is a part.
-/

namespace RustcCodegenJvm.Lower2

open Jvm Oomir Library TranslateMethod StateExcept List

/-! ### Fixups belong to the step that placed them -/

structure Within (indices : List Nat) (low high : Nat) : Prop where
  increasing : indices.Pairwise (· < ·)
  bounds : ∀ index ∈ indices, low ≤ index ∧ index < high

theorem Within.nil (low high : Nat) : Within [] low high :=
  ⟨.nil, fun _ member => (not_mem_nil member).elim⟩

theorem Within.singleton (index : Nat) : Within [index] index (index + 1) := by
  refine ⟨List.pairwise_singleton _ _, fun other member => ?_⟩
  rw [mem_singleton.mp member]
  omega

theorem Within.append {first second : List Nat} {low middle high : Nat} (head : Within first low middle)
    (tail : Within second middle high) (lower : low ≤ middle) (upper : middle ≤ high) :
    Within (first ++ second) low high := by
  constructor
  · refine pairwise_append.mpr ⟨head.increasing, tail.increasing, fun left inFirst right inSecond => ?_⟩
    have leftBound := head.bounds left inFirst
    have rightBound := tail.bounds right inSecond
    omega
  · intro index member
    rcases mem_append.mp member with inFirst | inSecond
    · have bound := head.bounds index inFirst
      omega
    · have bound := tail.bounds index inSecond
      omega

namespace MethodTranslator

def branchIndices (state : MethodTranslator) : List Nat := state.branchFixups.map Prod.fst

def switchIndices (state : MethodTranslator) : List Nat :=
  state.switchFixups.map SwitchFixup.instructionIndex

structure WellFormed (state : MethodTranslator) : Prop where
  branches : Within state.branchIndices 0 state.jvmInstructions.length
  switches : Within state.switchIndices 0 state.jvmInstructions.length

/-- A later state of the same method: more pool entries, code and slots, and fixups for the new code. -/
structure Extends (state later : MethodTranslator) : Prop where
  translator : state.toTranslator.Extends later.toTranslator
  branches : ∃ added, later.branchFixups = state.branchFixups ++ added ∧
    Within (added.map Prod.fst) state.jvmInstructions.length later.jvmInstructions.length
  switches : ∃ added, later.switchFixups = state.switchFixups ++ added ∧
    Within (added.map SwitchFixup.instructionIndex) state.jvmInstructions.length
      later.jvmInstructions.length

variable {state later : MethodTranslator}

theorem Extends.length_le (extension : state.Extends later) :
    state.jvmInstructions.length ≤ later.jvmInstructions.length := by
  obtain ⟨instructions, appended⟩ := extension.translator.code
  rw [appended, length_append]
  exact Nat.le_add_right _ _

theorem Extends.of_translator (translator : state.toTranslator.Extends later.toTranslator)
    (branches : later.branchFixups = state.branchFixups)
    (switches : later.switchFixups = state.switchFixups) : state.Extends later where
  translator := translator
  branches := ⟨[], by rw [branches, append_nil], Within.nil _ _⟩
  switches := ⟨[], by rw [switches, append_nil], Within.nil _ _⟩

theorem Extends.refl (state : MethodTranslator) : state.Extends state :=
  .of_translator (Translator.Extends.refl _) rfl rfl

theorem Extends.trans {middle : MethodTranslator} (head : state.Extends middle)
    (tail : middle.Extends later) : state.Extends later := by
  obtain ⟨firstBranches, isFirstBranches, firstBranchesWithin⟩ := head.branches
  obtain ⟨secondBranches, isSecondBranches, secondBranchesWithin⟩ := tail.branches
  obtain ⟨firstSwitches, isFirstSwitches, firstSwitchesWithin⟩ := head.switches
  obtain ⟨secondSwitches, isSecondSwitches, secondSwitchesWithin⟩ := tail.switches
  refine ⟨head.translator.trans tail.translator, ⟨firstBranches ++ secondBranches, ?_, ?_⟩,
    ⟨firstSwitches ++ secondSwitches, ?_, ?_⟩⟩
  · rw [isSecondBranches, isFirstBranches, append_assoc]
  · rw [map_append]
    exact firstBranchesWithin.append secondBranchesWithin head.length_le tail.length_le
  · rw [isSecondSwitches, isFirstSwitches, append_assoc]
  · rw [map_append]
    exact firstSwitchesWithin.append secondSwitchesWithin head.length_le tail.length_le

theorem WellFormed.extend (wellFormed : state.WellFormed)
    (extension : state.Extends later) : later.WellFormed := by
  obtain ⟨branches, isBranches, branchesWithin⟩ := extension.branches
  obtain ⟨switches, isSwitches, switchesWithin⟩ := extension.switches
  refine ⟨?_, ?_⟩
  · rw [branchIndices, isBranches, map_append]
    exact wellFormed.branches.append branchesWithin (Nat.zero_le _) extension.length_le
  · rw [switchIndices, isSwitches, map_append]
    exact wellFormed.switches.append switchesWithin (Nat.zero_le _) extension.length_le

theorem Extends.found (extension : state.Extends later) {index : Nat}
    {instruction : Jvm.Instruction} (found : state.jvmInstructions[index]? = some instruction) :
    later.jvmInstructions[index]? = some instruction := by
  obtain ⟨instructions, appended⟩ := extension.translator.code
  have inside : index < state.jvmInstructions.length := (List.getElem?_eq_some_iff.mp found).1
  rw [appended, List.getElem?_append_left inside, found]

end MethodTranslator

open MethodTranslator

/-! ### The finished method -/

/-- The code of a method with every fixup applied, on a machine that knows its constants. -/
structure Resolved {World : Type} (env : Environment World) (final : MethodTranslator) (code : Code) :
    Prop where
  wellFormed : final.WellFormed
  resolved : final.applyFixups = .ok code.instructions
  known : env.constants.Includes final.constantPool.pool

/-- The code of a finished method, where jumps to the next instruction are dropped as well. -/
structure Finished {World : Type} (env : Environment World) (final : MethodTranslator) (code : Code) :
    Prop where
  wellFormed : final.WellFormed
  finished : ∃ resolved, final.applyFixups = .ok resolved ∧
    code.instructions = dropFallthroughJumps resolved
  known : env.constants.Includes final.constantPool.pool

section Resolved

variable {World : Type} {env : Environment World} {final : MethodTranslator} {code : Code}
  {index : Nat} {instruction : Jvm.Instruction}

section

variable (isResolved : Resolved env final code)

include isResolved

section

variable (found : final.jvmInstructions[index]? = some instruction)

include found

theorem Resolved.patched :
    ∃ branched, Patching.PatchedAt (applyBranchFixup final.functionName final.labelToInstrIndex)
        final.branchFixups index instruction (some branched) ∧
      Patching.PatchedAt (applySwitchFixup final.functionName final.labelToInstrIndex)
        (final.switchFixups.map fun fixup => (fixup.instructionIndex, fixup)) index branched
        code.instructions[index]? := by
  obtain ⟨middle, branches, switches⟩ := except_bind_ok isResolved.resolved
  have branchesApart : final.branchFixups.Pairwise fun first second => first.1 ≠ second.1 :=
    (pairwise_map.mp isResolved.wellFormed.branches.increasing).imp fun below => Nat.ne_of_lt below
  have switchesApart : (final.switchFixups.map fun fixup => (fixup.instructionIndex, fixup)).Pairwise
      fun first second => first.1 ≠ second.1 := by
    refine pairwise_map.mpr ?_
    exact (pairwise_map.mp isResolved.wellFormed.switches.increasing).imp fun below =>
      Nat.ne_of_lt below
  have atBranches := Patching.patch_all_at branchesApart branches found
  -- a patched entry is always there
  have present : ∃ branched, middle[index]? = some branched := by
    by_cases touched : ∃ label, (index, label) ∈ final.branchFixups
    · obtain ⟨label, member⟩ := touched
      obtain ⟨entry, -, isEntry⟩ := atBranches.patched label member
      exact ⟨entry, isEntry⟩
    · exact ⟨instruction, atBranches.untouched fun label member => touched ⟨label, member⟩⟩
  obtain ⟨branched, isBranched⟩ := present
  refine ⟨branched, isBranched ▸ atBranches, Patching.patch_all_at switchesApart switches isBranched⟩

theorem Resolved.plain
    (noBranch : index ∉ final.branchIndices) (noSwitch : index ∉ final.switchIndices) :
    code.instructions[index]? = some instruction := by
  obtain ⟨branched, atBranch, atSwitch⟩ := isResolved.patched found
  have same : some branched = some instruction := atBranch.untouched fun label member =>
    noBranch (mem_map.mpr ⟨_, member, rfl⟩)
  cases same
  refine atSwitch.untouched fun fixup member => noSwitch ?_
  obtain ⟨other, isOther, isPair⟩ := mem_map.mp member
  exact mem_map.mpr ⟨other, isOther, congrArg Prod.fst isPair⟩

theorem Resolved.branch {label : String} (member : (index, label) ∈ final.branchFixups) :
    ∃ target resolved, final.labelToInstrIndex.lookup label = some target ∧
      retarget target instruction = some resolved ∧ code.instructions[index]? = some resolved := by
  obtain ⟨branched, atBranch, atSwitch⟩ := isResolved.patched found
  obtain ⟨resolved, applied, isResolved⟩ := atBranch.patched label member
  cases isResolved
  unfold applyBranchFixup at applied
  split at applied
  · cases applied
  rename_i target isTarget
  split at applied
  · rename_i other retargeted
    cases applied
    refine ⟨target, branched, isTarget, retargeted, atSwitch.untouched fun fixup inSwitches => ?_⟩
    -- a switch fixup would have failed on a jump
    obtain ⟨entry, patched, -⟩ := atSwitch.patched fixup inSwitches
    have isJump : (∃ target, branched = .goto target) ∨
        ∃ condition target, branched = .branch condition target := by
      cases instruction with
      | goto _ =>
        cases retargeted
        exact .inl ⟨_, rfl⟩
      | branch _ _ =>
        cases retargeted
        exact .inr ⟨_, _, rfl⟩
      | _ => cases retargeted
    obtain ⟨default, -, afterDefault⟩ := except_bind_ok patched
    split at afterDefault
    all_goals
      obtain ⟨offsets, -, last⟩ := except_bind_ok afterDefault
      rcases isJump with ⟨_, rfl⟩ | ⟨_, _, rfl⟩
      all_goals cases last
  · cases applied

theorem Resolved.switch {fixup : SwitchFixup}
    (notJump : ∀ target, retarget target instruction = none) (isIndex : fixup.instructionIndex = index)
    (member : fixup ∈ final.switchFixups) :
    ∃ resolved, applySwitchFixup final.functionName final.labelToInstrIndex index fixup
        (some instruction) = .ok resolved ∧ code.instructions[index]? = some resolved := by
  obtain ⟨branched, atBranch, atSwitch⟩ := isResolved.patched found
  have same : some branched = some instruction := atBranch.untouched fun label inBranches => by
    obtain ⟨entry, applied, -⟩ := atBranch.patched label inBranches
    unfold applyBranchFixup at applied
    split at applied
    · cases applied
    · rw [Option.bind_some, notJump] at applied
      cases applied
  cases same
  exact atSwitch.patched fixup (mem_map.mpr ⟨fixup, member, by rw [isIndex]⟩)

end

/-- The code of a step that places no fixup stands in the finished method as it was emitted. -/
theorem Resolved.holds_appended {state : MethodTranslator}
    (later : MethodTranslator) (wellFormed : state.WellFormed) (appends : state.toTranslator.Extends later.toTranslator)
    (sameBranches : later.branchFixups = state.branchFixups)
    (sameSwitches : later.switchFixups = state.switchFixups) (extension : later.Extends final) :
    code.Holds state.jvmInstructions.length
      (appendedCode state.toTranslator later.toTranslator) := by
  intro offset instruction found
  obtain ⟨instructions, appended⟩ := appends.code
  rw [appended_code_eq appended] at found
  have inside : offset < instructions.length := (List.getElem?_eq_some_iff.mp found).1
  have isLater : later.jvmInstructions[state.jvmInstructions.length + offset]? = some instruction := by
    rw [appended, List.getElem?_append_right (by omega), Nat.add_sub_cancel_left, found]
  have laterLength : later.jvmInstructions.length = state.jvmInstructions.length + instructions.length := by
    rw [appended, length_append]
  obtain ⟨branches, isBranches, branchesWithin⟩ := extension.branches
  obtain ⟨switches, isSwitches, switchesWithin⟩ := extension.switches
  refine isResolved.plain (extension.found isLater) (fun member => ?_) (fun member => ?_)
  · rw [branchIndices, isBranches, sameBranches, map_append] at member
    rcases mem_append.mp member with before | after
    · have bound := wellFormed.branches.bounds _ before
      omega
    · have bound := branchesWithin.bounds _ after
      omega
  · rw [switchIndices, isSwitches, sameSwitches, map_append] at member
    rcases mem_append.mp member with before | after
    · have bound := wellFormed.switches.bounds _ before
      omega
    · have bound := switchesWithin.bounds _ after
      omega

end

/-- Dropping jumps to the next instruction changes no step. -/
theorem drop_fallthrough_step (instructions : List Jvm.Instruction) (table : List ExceptionTableEntry)
    (frame : Frame World) :
    step env ⟨dropFallthroughJumps instructions, table⟩ frame = step env ⟨instructions, table⟩ frame := by
  unfold step
  simp only [dropFallthroughJumps, List.getElem?_mapIdx]
  cases found : instructions[frame.pc]? with
  | none => rfl
  | some instruction =>
    simp only [Option.map_some]
    split
    · rename_i isJump
      subst isJump
      rfl
    · rfl

theorem steps_of_same {before : Code} (same : ∀ frame, step env code frame = step env before frame)
    {first last : Frame World} (steps : Steps env before first last) : Steps env code first last :=
  Relation.ReflTransGen.mono (fun frame _ stepped => (same frame).trans stepped) _ _ steps

/-- A finished method runs as the method before its jumps were dropped. -/
theorem Finished.resolves (finished : Finished env final code) :
    ∃ before, Resolved env final before ∧ ∀ frame, step env code frame = step env before frame := by
  obtain ⟨resolved, applied, isCode⟩ := finished.finished
  obtain ⟨instructions, table⟩ := code
  subst isCode
  exact ⟨⟨resolved, table⟩, ⟨finished.wellFormed, applied, finished.known⟩,
    drop_fallthrough_step resolved table⟩

end Resolved

/-! ### Steps that place jumps -/

theorem lift_ok {Result : Type} {action : Translate Result} {state later : MethodTranslator}
    {result : Result} (ran : (lift action).run state = .ok (result, later)) :
    ∃ translator, action.run state.toTranslator = .ok (result, translator) ∧
      later = { state with toTranslator := translator } := by
  simp only [lift, StateT.run] at ran
  split at ran
  · rename_i translator actionRan
    cases ran
    exact ⟨translator, actionRan, rfl⟩
  · cases ran

def MethodGrows {Result : Type} (action : TranslateMethod Result) : Prop :=
  ∀ state later result, action.run state = .ok (result, later) → state.Extends later

namespace MethodGrows

variable {Result Next : Type}

@[grind ←] theorem pure (result : Result) : MethodGrows (Pure.pure result) := by
  intro state later _ ran
  obtain ⟨-, rfl⟩ := pure_ok ran
  exact Extends.refl _

@[grind ←] theorem throw (error : JvmError) : MethodGrows (MonadExcept.throw error : TranslateMethod Result) :=
  fun _ _ _ ran => (throw_ok ran).elim

@[grind ←] theorem get : MethodGrows (MonadState.get : TranslateMethod MethodTranslator) := by
  intro state later _ ran
  obtain ⟨-, rfl⟩ := get_ok ran
  exact Extends.refl _

@[grind ←] theorem bind {action : TranslateMethod Result} {rest : Result → TranslateMethod Next}
    (head : MethodGrows action) (tail : ∀ result, MethodGrows (rest result)) :
    MethodGrows (action >>= rest) := by
  intro state later next ran
  obtain ⟨result, middle, first, second⟩ := bind_ok ran
  exact (head state middle result first).trans (tail result middle later next second)

@[grind ←] theorem lift {action : Translate Result} (grows : Grows action) :
    MethodGrows (TranslateMethod.lift action) := by
  intro state later result ran
  obtain ⟨translator, actionRan, rfl⟩ := lift_ok ran
  exact .of_translator (grows _ _ _ actionRan) rfl rfl

variable (instruction : Jvm.Instruction)

@[grind ←] theorem push_branch (label : String) : MethodGrows (pushBranch instruction label) := by
  intro state later _ ran
  obtain rfl := modify_ok ran
  refine ⟨⟨InternedConstantPool.Includes.refl _, ⟨[instruction], rfl⟩, LocalTable.Extends.refl _⟩,
    ⟨[(state.jvmInstructions.length, label)], rfl, ?_⟩, ⟨[], (append_nil _).symm, Within.nil _ _⟩⟩
  rw [length_append]
  exact Within.singleton _

@[grind ←] theorem push_switch (defaultLabel : String) (kind : SwitchFixupKind) :
    MethodGrows (pushSwitch instruction defaultLabel kind) := by
  intro state later _ ran
  obtain rfl := modify_ok ran
  refine ⟨⟨InternedConstantPool.Includes.refl _, ⟨[instruction], rfl⟩, LocalTable.Extends.refl _⟩,
    ⟨[], (append_nil _).symm, Within.nil _ _⟩,
    ⟨[⟨state.jvmInstructions.length, defaultLabel, kind⟩], rfl, ?_⟩⟩
  rw [length_append]
  exact Within.singleton _

end MethodGrows

def Never {World : Type} : Assertion World := fun _ _ _ _ => False

abbrev JumpAssertion (World : Type) := String → List Value → Locals → World → Prop

/-- A step only appends, and in every finished method its code is part of, it runs from its start
either to its end, with the postcondition, or to a label, with what is said of jumps to it. -/
def MethodTriple {World : Type} (env : Environment World) (pre : Assertion World)
    (action : TranslateMethod Unit) (post : Assertion World) (jumps : JumpAssertion World) : Prop :=
  ∀ state later, action.run state = .ok ((), later) → state.Extends later ∧ (state.WellFormed →
    ∀ final code, later.Extends final → Finished env final code →
      ∀ stack locals world, pre state.locals stack locals world →
        ∃ pc stackAfter localsAfter worldAfter,
          Steps env code ⟨state.jvmInstructions.length, stack, locals, world⟩
            ⟨pc, stackAfter, localsAfter, worldAfter⟩ ∧
          ((pc = later.jvmInstructions.length ∧ post later.locals stackAfter localsAfter worldAfter) ∨
            ∃ label, final.labelToInstrIndex.lookup label = some pc ∧
              jumps label stackAfter localsAfter worldAfter))

/-- The code runs from a state to the instruction at `pc`, where `post` holds. -/
def Reaches {World : Type} (env : Environment World) (code : Code) (start : Frame World) (pc : Nat)
    (post : List Value → Locals → World → Prop) : Prop :=
  ∃ stack locals world, Steps env code start ⟨pc, stack, locals, world⟩ ∧ post stack locals world

theorem Reaches.after {World : Type} {env : Environment World} {code : Code} {first second : Frame World}
    {pc : Nat} {post : List Value → Locals → World → Prop} (reaches : Reaches env code second pc post)
    (steps : Steps env code first second) : Reaches env code first pc post := by
  obtain ⟨stack, locals, world, rest, holds⟩ := reaches
  exact ⟨stack, locals, world, steps.trans rest, holds⟩

namespace MethodTriple

variable {World : Type} {env : Environment World} {pre middle post : Assertion World}
  {jumps : JumpAssertion World}

variable {action : TranslateMethod Unit} {state later final : MethodTranslator} {code : Code}
  {label : String}

theorem falls_through {stack : List Value} {locals : Locals}
    {world : World} (triple : MethodTriple env pre action post (fun _ _ _ _ => False))
    (ran : action.run state = .ok ((), later)) (wellFormed : state.WellFormed)
    (extension : later.Extends final) (finished : Finished env final code)
    (holds : pre state.locals stack locals world) :
    Reaches env code ⟨state.jvmInstructions.length, stack, locals, world⟩ later.jvmInstructions.length
      (post later.locals) := by
  obtain ⟨_, stackAfter, localsAfter, worldAfter, steps, exits⟩ :=
    (triple state later ran).2 wellFormed final code extension finished stack locals world holds
  obtain ⟨rfl, after⟩ := exits.resolve_right fun ⟨_, _, never⟩ => never
  exact ⟨stackAfter, localsAfter, worldAfter, steps, after⟩

theorem lift {action : Translate Unit} (triple : Triple env pre action post) :
    MethodTriple env pre (TranslateMethod.lift action) post jumps := by
  intro state later ran
  obtain ⟨translator, actionRan, rfl⟩ := lift_ok ran
  obtain ⟨appends, runs⟩ := triple _ _ actionRan
  refine ⟨.of_translator appends rfl rfl, ?_⟩
  intro wellFormed final code extension finished stack locals world holdsPre
  obtain ⟨resolved, isResolved, same⟩ := finished.resolves
  have known : env.constants.Includes translator.constantPool.pool :=
    ConstantPool.Includes.trans finished.known extension.translator.pool
  have holds : resolved.Holds state.jvmInstructions.length
      (appendedCode state.toTranslator translator) :=
    isResolved.holds_appended { state with toTranslator := translator } wellFormed appends rfl rfl
      extension
  obtain ⟨stackAfter, localsAfter, worldAfter, steps, holdsPost⟩ :=
    runs known resolved stack locals world holds holdsPre
  exact ⟨_, stackAfter, localsAfter, worldAfter, steps_of_same same steps, .inl ⟨rfl, holdsPost⟩⟩

theorem seq {first second : TranslateMethod Unit} (head : MethodTriple env pre first middle jumps)
    (tail : MethodTriple env middle second post jumps) :
    MethodTriple env pre (first >>= fun _ => second) post jumps := by
  intro state later ran
  obtain ⟨_, between, firstRan, secondRan⟩ := bind_ok ran
  obtain ⟨firstExtends, firstRuns⟩ := head state between firstRan
  obtain ⟨secondExtends, secondRuns⟩ := tail between later secondRan
  refine ⟨firstExtends.trans secondExtends, ?_⟩
  intro wellFormed final code extension finished stack locals world holdsPre
  obtain ⟨pc, stackNow, localsNow, worldNow, firstSteps, exits⟩ := firstRuns wellFormed final code
    (secondExtends.trans extension) finished stack locals world holdsPre
  rcases exits with ⟨rfl, holdsMiddle⟩ | jumped
  · obtain ⟨pc, stackAfter, localsAfter, worldAfter, secondSteps, exits⟩ :=
      secondRuns (wellFormed.extend firstExtends) final code extension finished stackNow localsNow
        worldNow holdsMiddle
    exact ⟨pc, stackAfter, localsAfter, worldAfter, firstSteps.trans secondSteps, exits⟩
  · exact ⟨pc, stackNow, localsNow, worldNow, firstSteps, .inr jumped⟩

theorem consequence {stronger weaker : Assertion World}
    {widerJumps : JumpAssertion World} (triple : MethodTriple env pre action post jumps)
    (before : ∀ table stack locals world, stronger table stack locals world →
      pre table stack locals world)
    (after : ∀ table stack locals world, post table stack locals world →
      weaker table stack locals world)
    (atLabels : ∀ label stack locals world, jumps label stack locals world →
      widerJumps label stack locals world) :
    MethodTriple env stronger action weaker widerJumps := by
  intro state later ran
  obtain ⟨grown, runs⟩ := triple state later ran
  refine ⟨grown, ?_⟩
  intro wellFormed final code extension finished stack locals world holdsPre
  obtain ⟨pc, stackAfter, localsAfter, worldAfter, steps, exits⟩ := runs wellFormed final code extension
    finished stack locals world (before _ _ _ _ holdsPre)
  refine ⟨pc, stackAfter, localsAfter, worldAfter, steps, exits.imp (fun fallen => ?_) fun jumped => ?_⟩
  · exact ⟨fallen.1, after _ _ _ _ fallen.2⟩
  · obtain ⟨label, isTarget, holdsJumps⟩ := jumped
    exact ⟨label, isTarget, atLabels _ _ _ _ holdsJumps⟩

theorem frame {fact : Prop} (triple : MethodTriple env pre action post jumps) :
    MethodTriple env (fun table stack locals world => fact ∧ pre table stack locals world) action
      (fun table stack locals world => fact ∧ post table stack locals world)
      (fun label stack locals world => fact ∧ jumps label stack locals world) := by
  intro state later ran
  refine ⟨(triple state later ran).1, ?_⟩
  rintro wellFormed final code extension finished stack locals world ⟨isFact, holdsPre⟩
  have framed := triple.consequence (fun _ _ _ _ holds => holds) (fun _ _ _ _ holds => And.intro isFact holds)
    fun _ _ _ _ holds => And.intro isFact holds
  exact (framed state later ran).2 wellFormed final code extension finished stack locals world holdsPre

theorem nothing : MethodTriple env pre (Pure.pure ()) pre jumps := by
  intro state later ran
  obtain ⟨-, rfl⟩ := pure_ok ran
  exact ⟨Extends.refl _, fun _ _ _ _ _ stack locals world holdsPre =>
    ⟨_, stack, locals, world, .refl, .inl ⟨rfl, holdsPre⟩⟩⟩

theorem of_each (grows : MethodGrows action)
    (each : ∀ table stack locals world, pre table stack locals world →
      MethodTriple env (At table stack locals world) action post jumps) :
    MethodTriple env pre action post jumps := by
  intro state later ran
  refine ⟨grows state later () ran, ?_⟩
  intro wellFormed final code extension finished stack locals world holdsPre
  exact (each _ _ _ _ holdsPre state later ran).2 wellFormed final code extension finished stack locals
    world ⟨rfl, rfl, rfl, rfl⟩

theorem get {rest : MethodTranslator → TranslateMethod Unit}
    (tail : ∀ state, MethodTriple env pre (rest state) post jumps) :
    MethodTriple env pre (MonadState.get >>= rest) post jumps := by
  intro state later ran
  obtain ⟨_, between, got, restRan⟩ := bind_ok ran
  obtain ⟨rfl, rfl⟩ := get_ok got
  exact tail _ _ later restRan

theorem assign {table : LocalTable} {name : String} {ty : Ty} {rest : Nat → TranslateMethod Unit}
    (valued : 0 < ty.size)
    (fixed : ∀ other stack locals world, pre other stack locals world → other = table)
    (tail : ∀ slot, MethodTriple env
      (fun other stack locals world => slot = (table.getOrAssignLocal name ty).1 ∧
        other = (table.getOrAssignLocal name ty).2 ∧ pre table stack locals world)
      (rest slot) post jumps) :
    MethodTriple env pre (TranslateMethod.lift (assignSlot name ty) >>= rest) post jumps := by
  intro state later ran
  obtain ⟨slot, between, assigned, restRan⟩ := bind_ok ran
  obtain ⟨translator, assignRan, rfl⟩ := lift_ok assigned
  obtain ⟨isSlot, rfl⟩ := assign_slot_ok assignRan
  obtain ⟨restExtends, runs⟩ := tail slot _ later restRan
  have assignExtends : state.Extends { state with
      locals := (state.locals.getOrAssignLocal name ty).2 } :=
    .of_translator (Grows.assign_slot name valued _ _ _ assignRan) rfl rfl
  refine ⟨assignExtends.trans restExtends, ?_⟩
  intro wellFormed final code extension finished stack locals world holdsPre
  have isTable := fixed _ _ _ _ holdsPre
  refine runs (wellFormed.extend assignExtends) final code extension finished stack locals world ?_
  rw [← isTable]
  exact ⟨isSlot, rfl, holdsPre⟩

variable {instruction : Jvm.Instruction}

theorem placed (ran : (pushBranch instruction label).run state = .ok ((), later))
    (extension : later.Extends final) (isResolved : Resolved env final code) :
    ∃ target resolved, final.labelToInstrIndex.lookup label = some target ∧
      retarget target instruction = some resolved ∧
      code.instructions[state.jvmInstructions.length]? = some resolved ∧
      later.jvmInstructions.length = state.jvmInstructions.length + 1 ∧ later.locals = state.locals := by
  obtain rfl := modify_ok ran
  obtain ⟨branches, isBranches, -⟩ := extension.branches
  have member : (state.jvmInstructions.length, label) ∈ final.branchFixups := by
    rw [isBranches]
    simp
  have found : final.jvmInstructions[state.jvmInstructions.length]? = some instruction :=
    extension.found (List.getElem?_concat_length)
  obtain ⟨target, resolved, isTarget, retargeted, inCode⟩ := isResolved.branch found member
  exact ⟨target, resolved, isTarget, retargeted, inCode, length_append, rfl⟩

theorem placed_switch {defaultLabel : String} {kind : SwitchFixupKind}
    (ran : (pushSwitch instruction defaultLabel kind).run state = .ok ((), later))
    (notJump : ∀ target, retarget target instruction = none)
    (extension : later.Extends final) (isResolved : Resolved env final code) :
    ∃ resolved, applySwitchFixup final.functionName final.labelToInstrIndex state.jvmInstructions.length
        ⟨state.jvmInstructions.length, defaultLabel, kind⟩ (some instruction) = .ok resolved ∧
      code.instructions[state.jvmInstructions.length]? = some resolved := by
  obtain rfl := modify_ok ran
  obtain ⟨switches, isSwitches, -⟩ := extension.switches
  have member : (⟨state.jvmInstructions.length, defaultLabel, kind⟩ : SwitchFixup) ∈
      final.switchFixups := by
    rw [isSwitches]
    simp
  have found : final.jvmInstructions[state.jvmInstructions.length]? = some instruction :=
    extension.found (List.getElem?_concat_length)
  exact isResolved.switch found notJump rfl member

theorem branch {condition : Condition}
    (tests : ∀ table stack locals world, pre table stack locals world →
      ∃ taken rest, condition.test stack = some (taken, rest) ∧
        if taken then jumps label rest locals world else post table rest locals world) :
    MethodTriple env pre (pushBranch (.branch condition 0) label) post jumps := by
  intro state later ran
  refine ⟨MethodGrows.push_branch _ _ _ _ _ ran, ?_⟩
  intro _ final code extension finished stack locals world holdsPre
  obtain ⟨before, isResolved, same⟩ := finished.resolves
  obtain ⟨target, resolved, isTarget, retargeted, inCode, length, sameTable⟩ :=
    placed ran extension isResolved
  cases retargeted
  obtain ⟨taken, rest, tested, exits⟩ := tests _ _ _ _ holdsPre
  have stepped : step env before ⟨state.jvmInstructions.length, stack, locals, world⟩ =
      .running ⟨if taken then target else state.jvmInstructions.length + 1, rest, locals, world⟩ := by
    simp only [step, inCode, execute, tested]
  refine ⟨_, rest, locals, world, steps_of_same same (.single stepped), ?_⟩
  cases taken with
  | true => exact .inr ⟨label, isTarget, exits⟩
  | false => exact .inl ⟨length.symm, sameTable ▸ exits⟩

theorem goto
    (jumped : ∀ table stack locals world, pre table stack locals world → jumps label stack locals world) :
    MethodTriple env pre (pushBranch (.goto 0) label) post jumps := by
  intro state later ran
  refine ⟨MethodGrows.push_branch _ _ _ _ _ ran, ?_⟩
  intro _ final code extension finished stack locals world holdsPre
  obtain ⟨before, isResolved, same⟩ := finished.resolves
  obtain ⟨target, resolved, isTarget, retargeted, inCode, -, -⟩ := placed ran extension isResolved
  cases retargeted
  have stepped : step env before ⟨state.jvmInstructions.length, stack, locals, world⟩ =
      .running ⟨target, stack, locals, world⟩ := by
    simp only [step, inCode, execute]
  exact ⟨target, stack, locals, world, steps_of_same same (.single stepped), .inr ⟨label, isTarget, jumped _ _ _ _ holdsPre⟩⟩

end MethodTriple

end RustcCodegenJvm.Lower2
