import RustcCodegenJvm.Jvm.StackMap
import RustcCodegenJvm.Lower2.ConstantPool
import RustcCodegenJvm.Lower2.FrameSoundness

/-!
# Writing the StackMapTable

`build_stack_map_attributes_from_analysis` writes each recorded frame as the
difference to the one before. Reading the entries back by the class-file rules
gives the recorded targets, locals and stacks again. The frame at instruction
zero is the one the method starts with, and no entry is written for it.
-/

namespace RustcCodegenJvm.Lower2

open Jvm Library InternedConstantPool StateExcept List

/-- The pool and `verification_class_cache`, which only holds indices of the pool. -/
structure StackMapWriter where
  constantPool : InternedConstantPool
  verificationClassCache : List (String × Nat)
  cached : ∀ name index, verificationClassCache.lookup name = some index →
    constantPool.pool.classAt index = some name

abbrev WriteStackMap := StateT StackMapWriter (Except JvmError)

namespace StackMapWriter

def start (constantPool : InternedConstantPool) : StackMapWriter where
  constantPool := constantPool
  verificationClassCache := []
  cached := fun _ _ found => by cases found

def Includes (later earlier : StackMapWriter) : Prop :=
  later.constantPool.Includes earlier.constantPool

theorem cache_added {writer : StackMapWriter} {className : String} {index : Nat}
    {later : InternedConstantPool}
    (added : (addClass className).run writer.constantPool = .ok (index, later)) :
    ∀ name found, ((className, index) :: writer.verificationClassCache).lookup name = some found →
      later.pool.classAt found = some name := by
  obtain ⟨present, grows⟩ := add_class_spec added
  intro name found looked
  rw [lookup_cons] at looked
  split at looked
  · rename_i same
    cases looked
    rw [eq_of_beq same]
    exact present
  · exact grows.class_at (writer.cached _ _ looked)

def classIndex (className : String) : WriteStackMap Nat := fun writer =>
  match writer.verificationClassCache.lookup className with
  | some index => .ok (index, writer)
  | none =>
    match added : (addClass className).run writer.constantPool with
    | .ok (index, later) => .ok (index,
        ⟨later, (className, index) :: writer.verificationClassCache, cache_added added⟩)
    | .error error => .error error

end StackMapWriter

open StackMapWriter

def toVerificationType (value : FrameValue) : WriteStackMap VerificationType :=
  match value with
  | .top => return .top
  | .integer => return .integer
  | .float => return .float
  | .long => return .long
  | .double => return .double
  | .null => return .null
  | .object className => do return .object (← classIndex className)
  | .uninitializedThis => return .uninitializedThis
  | .uninitialized offset => return .uninitialized offset

def withoutTrailingTops (locals : List FrameValue) : List FrameValue :=
  locals.rdropWhile (· = .top)

/-- Slots as class-file entries: the second slot of a `long` or `double` has none. -/
def localEntries : List FrameValue → List FrameValue
  | [] => []
  | value :: rest => value :: if value.isCategory2 then skipSlot rest else localEntries rest
where
  skipSlot : List FrameValue → List FrameValue
    | [] => []
    | _ :: rest => localEntries rest

def localsForStackMap (locals : List FrameValue) : WriteStackMap (List VerificationType) :=
  (localEntries (withoutTrailingTops locals)).mapM toVerificationType

def stackForStackMap (stack : List FrameValue) : WriteStackMap (List VerificationType) :=
  stack.mapM toVerificationType

def compactStackFrame (offsetDelta : Nat) (previousLocals locals stack : List VerificationType) :
    StackFrame :=
  if locals = previousLocals then
    match stack.length with
    | 0 => .sameFrameExtended 251 offsetDelta
    | 1 => .sameLocals1StackItemFrameExtended 247 offsetDelta stack
    | _ => .fullFrame 255 offsetDelta locals stack
  else if stack = [] ∧ previousLocals.isPrefixOf locals ∧
      1 ≤ locals.length - previousLocals.length ∧ locals.length - previousLocals.length ≤ 3 then
    .appendFrame (251 + (locals.length - previousLocals.length)) offsetDelta
      (locals.drop previousLocals.length)
  else if stack = [] ∧ locals.isPrefixOf previousLocals ∧
      1 ≤ previousLocals.length - locals.length ∧ previousLocals.length - locals.length ≤ 3 then
    .chopFrame (251 - (previousLocals.length - locals.length)) offsetDelta
  else .fullFrame 255 offsetDelta locals stack

structure RecordedFrame where
  target : Nat
  state : FrameState
deriving DecidableEq

def instructionDelta (previous : Option Nat) (target : Nat) : Nat :=
  match previous with
  | some offset => target - offset - 1
  | none => target

/-- The loop of `build_stack_map_attributes_from_analysis`, with the offset and the locals
of the entry written before. -/
def writeFrames (previous : Option Nat) (previousLocals : List VerificationType) :
    List RecordedFrame → WriteStackMap (List StackFrame)
  | [] => return []
  | frame :: rest => do
    if frame.target = 0 then writeFrames previous previousLocals rest
    else
      let locals ← localsForStackMap frame.state.locals
      let stack ← stackForStackMap frame.state.stack
      let entry := compactStackFrame (instructionDelta previous frame.target) previousLocals locals stack
      let entries ← writeFrames (some frame.target) locals rest
      return entry :: entries

def stackMapEntries (initialLocals : List FrameValue) (frames : List RecordedFrame) :
    WriteStackMap (List StackFrame) := do
  writeFrames none (← localsForStackMap initialLocals) frames

/-! ### One entry -/

section Entry

variable {Ty : Type} {resolve : VerificationType → Option Ty}

/-- Decoding a compacted frame gives its locals and stack back. -/
theorem decode_compact_stack_frame {previousLocals locals stack : List VerificationType}
    {previousTypes localTypes stackTypes : List Ty} (offsetDelta : Nat)
    (previousResolves : previousLocals.mapM resolve = some previousTypes)
    (localsResolve : locals.mapM resolve = some localTypes)
    (stackResolves : stack.mapM resolve = some stackTypes) :
    decodeEntry resolve previousTypes (compactStackFrame offsetDelta previousLocals locals stack) =
      some (offsetDelta, localTypes, stackTypes) := by
  have stackLength := (resolve_all_iff.mp stackResolves).length_eq
  have full : decodeEntry resolve previousTypes (.fullFrame 255 offsetDelta locals stack) =
      some (offsetDelta, localTypes, stackTypes) := by
    simp [decodeEntry, localsResolve, stackResolves]
  unfold compactStackFrame
  split
  case isTrue same =>
    subst same
    rw [previousResolves] at localsResolve
    cases localsResolve
    split
    · rename_i empty
      have noItems : stackTypes = [] := length_eq_zero_iff.mp (by omega)
      simp [decodeEntry, noItems]
    · rename_i single
      simp [decodeEntry, stackResolves, ← stackLength, single]
    · exact full
  case isFalse different =>
    split
    case isTrue appends =>
      obtain ⟨rfl, isPrefix, some, few⟩ := appends
      cases stackResolves
      obtain ⟨appended, rfl⟩ := isPrefixOf_iff_prefix.mp isPrefix
      obtain ⟨added, addedResolves, rfl⟩ := resolve_append previousResolves localsResolve
      have addedLength := (resolve_all_iff.mp addedResolves).length_eq
      simp only [length_append, Nat.add_sub_cancel_left] at some few ⊢
      simp only [drop_left, decodeEntry, addedResolves, Option.bind_eq_bind, Option.bind_some]
      rw [if_pos (by omega)]
      rfl
    case isFalse =>
      split
      case isTrue chops =>
        obtain ⟨rfl, isPrefix, some, few⟩ := chops
        cases stackResolves
        obtain ⟨removed, rfl⟩ := isPrefixOf_iff_prefix.mp isPrefix
        obtain ⟨dropped, droppedResolves, rfl⟩ := resolve_append localsResolve previousResolves
        have droppedLength := (resolve_all_iff.mp droppedResolves).length_eq
        simp only [length_append, Nat.add_sub_cancel_left] at some few ⊢
        have rest : localTypes.length + dropped.length - (251 - (251 - removed.length)) =
            localTypes.length := by omega
        simp only [decodeEntry, length_append]
        rw [if_pos (by omega), rest, take_left]
        rfl
      case isFalse => exact full

end Entry

/-! ### All entries -/

def readVerificationType (pool : ConstantPool) : VerificationType → Option FrameValue
  | .top => some .top
  | .integer => some .integer
  | .float => some .float
  | .long => some .long
  | .double => some .double
  | .null => some .null
  | .object cpoolIndex => (pool.classAt cpoolIndex).map .object
  | .uninitializedThis => some .uninitializedThis
  | .uninitialized offset => some (.uninitialized offset)

variable {writer later : StackMapWriter}

theorem class_index_spec {className : String} {index : Nat}
    (ran : (classIndex className).run writer = .ok (index, later)) :
    later.Includes writer ∧ later.constantPool.pool.classAt index = some className := by
  change classIndex className writer = _ at ran
  unfold classIndex at ran
  split at ran
  · rename_i known found
    cases ran
    exact ⟨Includes.refl _, writer.cached _ _ found⟩
  · split at ran
    · rename_i added pool grown
      cases ran
      obtain ⟨present, grows⟩ := add_class_spec grown
      exact ⟨grows, present⟩
    · cases ran

/-- A written type reads back as the value, in every later pool. -/
theorem to_verification_type_spec {value : FrameValue} {ty : VerificationType}
    (ran : (toVerificationType value).run writer = .ok (ty, later)) :
    later.Includes writer ∧ ∀ pool : ConstantPool, pool.Includes later.constantPool.pool →
      readVerificationType pool ty = some value := by
  unfold toVerificationType at ran
  split at ran
  case h_7 className =>
    obtain ⟨index, middle, indexed, returned⟩ := bind_ok ran
    obtain ⟨rfl, rfl⟩ := pure_ok returned
    obtain ⟨grows, present⟩ := class_index_spec indexed
    refine ⟨grows, fun pool known => ?_⟩
    rw [readVerificationType, known.class_at present]
    rfl
  all_goals
    obtain ⟨rfl, rfl⟩ := pure_ok ran
    exact ⟨Includes.refl _, fun _ _ => rfl⟩

theorem write_types_spec {values : List FrameValue} {types : List VerificationType}
    (ran : (values.mapM toVerificationType : WriteStackMap _).run writer = .ok (types, later)) :
    later.Includes writer ∧ ∀ pool : ConstantPool, pool.Includes later.constantPool.pool →
      types.mapM (readVerificationType pool) = some values := by
  induction values generalizing types writer with
  | nil =>
    obtain ⟨rfl, rfl⟩ := pure_ok ran
    exact ⟨Includes.refl _, fun _ _ => rfl⟩
  | cons value rest ih =>
    rw [mapM_cons] at ran
    obtain ⟨ty, middle, headRan, tailRan⟩ := bind_ok ran
    obtain ⟨tys, last, restRan, returned⟩ := bind_ok tailRan
    obtain ⟨rfl, rfl⟩ := pure_ok returned
    obtain ⟨headGrows, headReads⟩ := to_verification_type_spec headRan
    obtain ⟨restGrows, restReads⟩ := ih restRan
    refine ⟨restGrows.trans headGrows, fun pool known => ?_⟩
    rw [resolve_all_iff]
    exact .cons (headReads pool (known.trans restGrows)) (resolve_all_iff.mp (restReads pool known))

def RecordedFrame.decoded (frame : RecordedFrame) : DecodedFrame FrameValue where
  target := frame.target
  locals := localEntries (withoutTrailingTops frame.state.locals)
  stack := frame.state.stack

theorem entry_target_delta {previous : Option Nat} {target : Nat}
    (later : ∀ offset ∈ previous, offset < target) :
    entryTarget previous (instructionDelta previous target) = target := by
  cases previous with
  | none => rfl
  | some offset =>
    have below := later offset rfl
    simp only [entryTarget, instructionDelta]
    omega

def writtenFrames (frames : List RecordedFrame) : List RecordedFrame :=
  frames.filter fun frame => frame.target ≠ 0

variable {frames : List RecordedFrame} {entries : List StackFrame}

/-- Decoding follows the writer: both go on from the entry before. -/
theorem decode_write_frames {previous : Option Nat}
    {previousLocals : List VerificationType} {previousTypes : List FrameValue}
    (increasing : frames.Pairwise fun earlier next => earlier.target < next.target)
    (after : ∀ offset ∈ previous, ∀ frame ∈ frames, offset < frame.target)
    (previousReads : ∀ pool : ConstantPool, pool.Includes writer.constantPool.pool →
      previousLocals.mapM (readVerificationType pool) = some previousTypes)
    (ran : (writeFrames previous previousLocals frames).run writer = .ok (entries, later)) :
    later.Includes writer ∧ ∀ pool : ConstantPool, pool.Includes later.constantPool.pool →
      decodeEntries (readVerificationType pool) previous previousTypes entries =
        some ((writtenFrames frames).map RecordedFrame.decoded) := by
  induction frames generalizing previous previousLocals previousTypes entries writer with
  | nil =>
    obtain ⟨rfl, rfl⟩ := pure_ok ran
    exact ⟨Includes.refl _, fun _ _ => rfl⟩
  | cons frame rest ih =>
    rw [writeFrames] at ran
    split at ran
    case isTrue atStart =>
      have skipped : writtenFrames (frame :: rest) = writtenFrames rest :=
        filter_cons_of_neg (by simpa using atStart)
      rw [skipped]
      exact ih increasing.of_cons
        (fun offset isOffset other member => after offset isOffset other (by simp [member]))
        previousReads ran
    case isFalse notStart =>
      have kept : writtenFrames (frame :: rest) = frame :: writtenFrames rest :=
        filter_cons_of_pos (by simpa using notStart)
      obtain ⟨locals, afterLocals, localsRan, afterRan⟩ := bind_ok ran
      obtain ⟨stack, afterStack, stackRan, restRan⟩ := bind_ok afterRan
      obtain ⟨written, last, writtenRan, returned⟩ := bind_ok restRan
      obtain ⟨rfl, rfl⟩ := pure_ok returned
      obtain ⟨localsGrow, localsRead⟩ := write_types_spec localsRan
      obtain ⟨stackGrows, stackReads⟩ := write_types_spec stackRan
      obtain ⟨restGrows, restDecodes⟩ := ih increasing.of_cons (by
          intro offset isOffset other member
          cases isOffset
          exact rel_of_pairwise_cons increasing member)
        (fun pool known => localsRead pool (known.trans stackGrows)) writtenRan
      refine ⟨restGrows.trans (stackGrows.trans localsGrow), fun pool known => ?_⟩
      have knownStack := known.trans restGrows
      have knownLocals := ConstantPool.Includes.trans knownStack stackGrows
      have entry := decode_compact_stack_frame (instructionDelta previous frame.target)
        (previousReads pool (knownLocals.trans localsGrow)) (localsRead pool knownLocals)
        (stackReads pool knownStack)
      have isTarget := entry_target_delta fun offset member => after offset member frame (by simp)
      rw [kept]
      simp only [decodeEntries, entry, isTarget, restDecodes pool known, Option.bind_eq_bind,
        Option.bind_some, Option.pure_def, map_cons]
      rfl

/-! ### Trailing tops -/

theorem local_entries_concat (locals : List FrameValue) (value : FrameValue) :
    (localEntries (locals ++ [value]) = localEntries locals ∨
      localEntries (locals ++ [value]) = localEntries locals ++ [value]) ∧
    (localEntries.skipSlot (locals ++ [value]) = localEntries.skipSlot locals ∨
      localEntries.skipSlot (locals ++ [value]) = localEntries.skipSlot locals ++ [value]) := by
  induction locals with
  | nil =>
    cases value.isCategory2 <;> simp [localEntries, localEntries.skipSlot]
  | cons head rest ih =>
    obtain ⟨entries, skipped⟩ := ih
    refine ⟨?_, entries⟩
    simp only [cons_append, localEntries]
    cases head.isCategory2 with
    | false => exact entries.imp (congrArg _) (congrArg _)
    | true => exact skipped.imp (congrArg _) (congrArg _)

theorem trailing_tops_of_entries (locals : List FrameValue) :
    withoutTrailingTops (localEntries (withoutTrailingTops locals)) =
      withoutTrailingTops (localEntries locals) := by
  induction locals using List.reverseRecOn with
  | nil => rfl
  | append_singleton rest value ih =>
    by_cases isTop : value = .top
    · subst isTop
      have dropped : ∀ values, withoutTrailingTops (values ++ [.top]) = withoutTrailingTops values :=
        fun values => rdropWhile_concat_pos _ _ _ (by simp)
      rw [dropped, ih]
      rcases (local_entries_concat rest .top).1 with same | appended
      · rw [same]
      · rw [appended, dropped]
    · have kept : withoutTrailingTops (rest ++ [value]) = rest ++ [value] :=
        rdropWhile_concat_neg _ _ _ (by simpa using isTop)
      rw [kept]

/-- A decoded frame is the recorded one: its target, its locals up to trailing tops with one
entry for a wide value, and its stack. -/
structure Recovers (frame : RecordedFrame) (decoded : DecodedFrame FrameValue) : Prop where
  target : decoded.target = frame.target
  locals : withoutTrailingTops decoded.locals = withoutTrailingTops (localEntries frame.state.locals)
  stack : decoded.stack = frame.state.stack

theorem recovers_all (frames : List RecordedFrame) :
    List.Forall₂ Recovers frames (frames.map RecordedFrame.decoded) :=
  forall₂_map_right_iff.mpr <| forall₂_same.mpr fun frame _ =>
    ⟨rfl, trailing_tops_of_entries frame.state.locals, rfl⟩

variable {initialLocals : List FrameValue}

theorem decode_stack_map_entries
    (increasing : frames.Pairwise fun earlier next => earlier.target < next.target)
    (written : (stackMapEntries initialLocals frames).run writer = .ok (entries, later)) :
    later.Includes writer ∧ ∀ pool : ConstantPool, pool.Includes later.constantPool.pool →
      decodeEntries (readVerificationType pool) none
        (localEntries (withoutTrailingTops initialLocals)) entries =
          some ((writtenFrames frames).map RecordedFrame.decoded) := by
  obtain ⟨locals, middle, localsRan, framesRan⟩ := bind_ok written
  obtain ⟨localsGrow, localsRead⟩ := write_types_spec localsRan
  obtain ⟨grows, decodes⟩ := decode_write_frames increasing
    (fun _ absent => by cases absent) localsRead framesRan
  exact ⟨grows.trans localsGrow, decodes⟩

/-- The entries written for frames after the first instruction decode to those frames, in any
pool that keeps the entries of the writer's. -/
theorem stack_map_table_round_trips {constantPool : InternedConstantPool} {later : StackMapWriter}
    (positive : ∀ frame ∈ frames, 0 < frame.target)
    (increasing : frames.Pairwise fun earlier next => earlier.target < next.target)
    (written : (stackMapEntries initialLocals frames).run (.start constantPool) =
      .ok (entries, later)) (pool : ConstantPool) (known : pool.Includes later.constantPool.pool) :
    ∃ decoded, decodeEntries (readVerificationType pool) none
        (localEntries (withoutTrailingTops initialLocals)) entries = some decoded ∧
      List.Forall₂ Recovers frames decoded := by
  obtain ⟨-, decodes⟩ := decode_stack_map_entries increasing written
  have all : writtenFrames frames = frames :=
    filter_eq_self.mpr fun frame member => by
      simpa using Nat.pos_iff_ne_zero.mp (positive frame member)
  rw [all] at decodes
  exact ⟨_, decodes pool known, recovers_all frames⟩

/-- A frame with a wide local, then a chopped frame with an object on the stack. -/
theorem stack_map_table_round_trips_example : ∃ entries later, (stackMapEntries [.integer]
        [⟨2, ⟨[.integer, .long, .top, .top], []⟩⟩, ⟨5, ⟨[.integer], [.object "A"]⟩⟩]).run
          (.start .empty) = .ok (entries, later) ∧
      ∃ decoded, decodeEntries (readVerificationType later.constantPool.pool) none
          (localEntries (withoutTrailingTops [.integer])) entries = some decoded ∧
        List.Forall₂ Recovers
          [⟨2, ⟨[.integer, .long, .top, .top], []⟩⟩, ⟨5, ⟨[.integer], [.object "A"]⟩⟩] decoded := by
  refine ⟨_, _, rfl, ?_⟩
  exact stack_map_table_round_trips (by decide) (by decide)
    (rfl : (stackMapEntries _ _).run (.start .empty) = _) _ (ConstantPool.Includes.refl _)

/-- No entry is written for a frame at instruction zero, so it does not come back. -/
theorem frame_at_zero_not_written :
    ∃ later, (stackMapEntries [.integer] [⟨0, ⟨[.top], []⟩⟩]).run (.start .empty) =
        .ok ([], later) ∧ ∀ pool decoded, decodeEntries (readVerificationType pool) none
          (localEntries (withoutTrailingTops [.integer])) [] = some decoded →
        ¬ List.Forall₂ Recovers [⟨0, ⟨[.top], []⟩⟩] decoded := by
  refine ⟨_, rfl, fun pool decoded nothing recovered => ?_⟩
  cases nothing
  cases recovered

/-! ### The attribute of a method -/

structure StackMapTableAttribute where
  nameIndex : Nat
  frames : List StackFrame

/-- The frames an analysis recorded at branch targets and handlers. -/
def recordedFrames (instructions : List Instruction) (exceptionTable : List ExceptionTableEntry)
    (analysis : FrameAnalysis) : List RecordedFrame :=
  (orderedSet (branchTargets instructions ++ exceptionTable.map (·.handlerPc))).filterMap
    fun target => (analysis.stateAt target).map fun state => ⟨target, state⟩

def withClassCache {Result : Type} (step : WriteStackMap Result) : Emit Result := fun pool =>
  match step.run (.start pool) with
  | .ok (result, writer) => .ok (result, writer.constantPool)
  | .error error => .error error

variable {before after : InternedConstantPool}

theorem with_class_cache_ok {Result : Type} {step : WriteStackMap Result} {result : Result}
    (ran : (withClassCache step).run before = .ok (result, after)) :
    ∃ writer, step.run (.start before) = .ok (result, writer) ∧ after = writer.constantPool := by
  simp only [withClassCache, StateT.run] at ran
  split at ran
  · rename_i writer stepRan
    cases ran
    exact ⟨writer, stepRan, rfl⟩
  · cases ran

def buildStackMapAttributesFromAnalysis (instructions : List Instruction)
    (initialLocals : List FrameValue) (exceptionTable : List ExceptionTableEntry)
    (analysis : FrameAnalysis) : Emit (Option StackMapTableAttribute) := do
  if instructions = [] ∨ branchTargets instructions ++ exceptionTable.map (·.handlerPc) = [] then
    return none
  else
    let nameIndex ← addUtf8 "StackMapTable"
    let frames ← withClassCache
      (stackMapEntries initialLocals (recordedFrames instructions exceptionTable analysis))
    return if frames = [] then none else some ⟨nameIndex, frames⟩

theorem recorded_frames_increasing (instructions : List Instruction)
    (exceptionTable : List ExceptionTableEntry) (analysis : FrameAnalysis) :
    (recordedFrames instructions exceptionTable analysis).Pairwise
      fun earlier next => earlier.target < next.target := by
  refine (ordered_set_increasing _).filterMap _ ?_
  intro first second below frame isFrame next isNext
  obtain ⟨_, _, rfl⟩ := Option.map_eq_some_iff.mp isFrame
  obtain ⟨_, _, rfl⟩ := Option.map_eq_some_iff.mp isNext
  exact below

namespace FrameProblem

variable {problem : FrameProblem} {analysis : FrameAnalysis}

/-- An instruction with a frame passes a state on, by a branch or to a handler. -/
def PassesOn (problem : FrameProblem) (analysis : FrameAnalysis) (target : Nat) (produced : FrameState) :
    Prop :=
  0 < target ∧ target < problem.instructions.length ∧ ∃ index state instruction,
    StateBefore problem analysis index state ∧ problem.instructions[index]? = some instruction ∧
    ((target ∈ branchTargets problem.instructions ∧ ∃ successors,
        problem.transferAt index instruction state = .ok successors ∧ (target, produced) ∈ successors) ∨
      ∃ entry ∈ problem.exceptionTable, entry.covers index ∧ entry.handlerPc = target ∧
        handlerState state.locals = produced)

theorem passed_on_written {fuel target : Nat} {produced : FrameState}
    (solved : problem.solveFrameStates fuel = some (.ok analysis))
    (passes : PassesOn problem analysis target produced) :
    ∃ recorded, Covers recorded produced ∧ ⟨target, recorded⟩ ∈
      writtenFrames (recordedFrames problem.instructions problem.exceptionTable analysis) := by
  obtain ⟨positive, inside, index, state, instruction, isBefore, found, ways⟩ := passes
  have nonempty : problem.instructions ≠ [] := ne_nil_of_length_pos (by omega)
  rcases ways with ⟨isTarget, successors, transferred, member⟩ | ⟨entry, listed, protects, rfl, rfl⟩
  · obtain ⟨recorded, isBefore, covers⟩ :=
      successor_covered nonempty solved isBefore found transferred member inside
    refine ⟨recorded, covers, ?_⟩
    -- a branch target starts a block, so that the frame there is a recorded one
    cases isBefore with
    | recorded isRecorded =>
      grind [writtenFrames, recordedFrames, mem_ordered_set]
    | next _ _ _ _ _ sameBlock =>
      obtain ⟨work, -, rfl⟩ := solve_ok nonempty solved
      refine absurd (mem_ordered_set.mpr (mem_filter.mpr ⟨?_, decide_eq_true (.inr inside)⟩)) sameBlock
      simp [blockBoundaries, isTarget]
  · obtain ⟨recorded, isRecorded, covers⟩ :=
      handler_covered nonempty solved isBefore found listed protects inside
    refine ⟨recorded, covers, ?_⟩
    grind [writtenFrames, recordedFrames, mem_ordered_set]

/-- The frames in the class file cover what is passed on to where they stand. -/
theorem written_frames_cover {fuel : Nat} {table : StackMapTableAttribute}
    (solved : problem.solveFrameStates fuel = some (.ok analysis))
    (built : (buildStackMapAttributesFromAnalysis problem.instructions problem.initialLocals
      problem.exceptionTable analysis).run before = .ok (some table, after)) :
    after.pool.utf8At table.nameIndex = some "StackMapTable" ∧
      ∃ decoded, decodeEntries (readVerificationType after.pool) none
        (localEntries (withoutTrailingTops problem.initialLocals)) table.frames = some decoded ∧
      ∀ target produced, PassesOn problem analysis target produced →
        ∃ frame ∈ decoded, ∃ recorded, Recovers ⟨target, recorded⟩ frame ∧ Covers recorded produced := by
  unfold buildStackMapAttributesFromAnalysis at built
  split at built
  · obtain ⟨absent, -⟩ := pure_ok built
    cases absent
  · obtain ⟨nameIndex, named, nameRan, framesRan⟩ := bind_ok built
    obtain ⟨frames, last, writeRan, returned⟩ := bind_ok framesRan
    obtain ⟨isAttribute, rfl⟩ := pure_ok returned
    split at isAttribute
    · cases isAttribute
    · cases isAttribute
      obtain ⟨nameAt, -⟩ := add_key_spec nameRan
      obtain ⟨writer, written, rfl⟩ := with_class_cache_ok writeRan
      obtain ⟨grows, decodes⟩ := decode_stack_map_entries
        (recorded_frames_increasing problem.instructions problem.exceptionTable analysis) written
      refine ⟨ConstantPool.utf8_at_of_get (grows _ _ nameAt), _, decodes _ (ConstantPool.Includes.refl _), ?_⟩
      intro target produced passes
      obtain ⟨recorded, covers, isWritten⟩ := passed_on_written solved passes
      exact ⟨_, mem_map_of_mem isWritten, recorded, ⟨rfl, trailing_tops_of_entries _, rfl⟩, covers⟩

theorem written_frames_cover_protected_store : ∃ table after decoded,
    (buildStackMapAttributesFromAnalysis protectedStore.instructions protectedStore.initialLocals
      protectedStore.exceptionTable protectedStoreFrames).run .empty = .ok (some table, after) ∧
    decodeEntries (readVerificationType after.pool) none (localEntries [.float]) table.frames =
      some decoded ∧
    ∃ frame ∈ decoded, ∃ recorded, Recovers ⟨3, recorded⟩ frame ∧
      Covers recorded (handlerState [.float]) := by
  obtain ⟨-, decoded, decodes, cover⟩ := written_frames_cover protected_store_solved
    (rfl : (buildStackMapAttributesFromAnalysis _ _ _ _).run .empty = _)
  exact ⟨_, _, decoded, rfl, decodes, cover 3 _ ⟨by decide, by decide, 1, _, _,
    before_protected_store, rfl, .inr ⟨_, mem_singleton.mpr rfl, by decide, rfl, rfl⟩⟩⟩

end FrameProblem

end RustcCodegenJvm.Lower2
