import RustcCodegenJvm.Library.AssociationList
import RustcCodegenJvm.Library.FiniteMap
import RustcCodegenJvm.Library.StateExcept
import RustcCodegenJvm.Oomir.Execution

/-!
# Splitting blocks at labels

`convert_labels_to_basic_blocks_in_function` of `optimise1/reorganisation.rs`: a
block with `Label` instructions is cut into one block for each of them. A pass
over all blocks is repeated until it finds no label. A name that is used twice
is a panic, here an error.
-/

namespace RustcCodegenJvm.Optimise1

open Program Library AssociationList List

/-- Whether the instruction ends a block. `Rethrow` is not in the list. -/
def isTerminator : Option Instruction → Bool
  | some (.scalar (.jump _)) | some (.scalar (.branch _ _ _)) | some (.scalar (.return _))
  | some (.throwNewWithMessage _ _) | some (.scalar (.switch _ _ _)) => true
  | _ => false

/-- The loop over the instructions of one block. `block` has the first segment once it is
complete, `newBlocks` the others of the whole pass. -/
structure Cutting where
  block : BasicBlock
  currentInstructions : List Instruction
  currentBlockLabel : String
  newBlocks : FiniteMap String BasicBlock
  needsAnotherPass : Bool

namespace Cutting

/-- Puts a finished segment into the block itself or among the new blocks. -/
def store (cutting : Cutting) (segment : List Instruction) : Cutting :=
  if cutting.block.label = cutting.currentBlockLabel then
    { cutting with block := { cutting.block with instructions := segment } }
  else
    { cutting with
      newBlocks := cutting.newBlocks.insert cutting.currentBlockLabel
        ⟨cutting.currentBlockLabel, segment⟩ }

/-- A segment that control can fall out of ends with a jump to the next one. -/
def closeSegment (segment : List Instruction) (next : String) : List Instruction :=
  if isTerminator segment.getLast? then segment else segment ++ [.jump next]

/-- What happens at a label: the segment before it is stored, and a placeholder for the next
one makes sure that the name is not used again. -/
def startSegment (blockNames : List String) (blockName next : String) (cutting : Cutting) :
    Except String Cutting :=
  let stored := cutting.store (closeSegment cutting.currentInstructions next)
  if next ∈ blockNames ∨ (stored.newBlocks.get next).isSome then
    .error ("Label conflict: Label '" ++ next ++ "' found inside block '" ++ blockName ++
      "' already exists as a block name.")
  else
    .ok { stored with
      currentInstructions := []
      currentBlockLabel := next
      newBlocks := stored.newBlocks.insert next ⟨next, []⟩
      needsAnotherPass := true }

def cutInstruction (blockNames : List String) (blockName : String) (cutting : Cutting) :
    Instruction → Except String Cutting
  | .scalar (.label next) => cutting.startSegment blockNames blockName next
  | instruction =>
    .ok { cutting with currentInstructions := cutting.currentInstructions ++ [instruction] }

def cutRest (blockNames : List String) (blockName : String) :
    List Instruction → Cutting → Except String Cutting
  | [], cutting => .ok (cutting.store cutting.currentInstructions)
  | instruction :: rest, cutting => do
    cutRest blockNames blockName rest (← cutting.cutInstruction blockNames blockName instruction)

end Cutting

structure Pass where
  blocks : List (String × BasicBlock)
  newBlocks : FiniteMap String BasicBlock
  needsAnotherPass : Bool

def splitBlock (blockNames : List String) (pass : Pass) (entry : String × BasicBlock) :
    Except String Pass := do
  let cutting ← Cutting.cutRest blockNames entry.1 entry.2.instructions
    ⟨{ entry.2 with instructions := [] }, [], entry.2.label, pass.newBlocks, pass.needsAnotherPass⟩
  return ⟨pass.blocks ++ [(entry.1, cutting.block)], cutting.newBlocks, cutting.needsAnotherPass⟩

def splitBlocks (blockNames : List String) (entries : List (String × BasicBlock)) (pass : Pass) :
    Except String Pass :=
  entries.foldlM (splitBlock blockNames) pass

/-- One pass: the body after it, and whether another one is needed. -/
def labelPass (body : CodeBlock) : Except String (CodeBlock × Bool) := do
  let pass ← splitBlocks (body.basicBlocks.map Prod.fst) body.basicBlocks ⟨[], .empty, false⟩
  return (⟨body.entry, pass.blocks ++ pass.newBlocks.entries⟩, pass.needsAnotherPass)

/-- The passes, as many as the fuel allows. -/
def convertLabelsToBasicBlocks : Nat → CodeBlock → Option (Except String CodeBlock)
  | 0, _ => none
  | fuel + 1, body =>
    match labelPass body with
    | .error message => some (.error message)
    | .ok (later, false) => some (.ok later)
    | .ok (later, true) => convertLabelsToBasicBlocks fuel later

/-! ### Segments -/

def labelName : Instruction → Option String
  | .scalar (.label name) => some name
  | _ => none

variable {instruction : Instruction}

theorem label_of_name {name : String} (isLabel : labelName instruction = some name) :
    instruction = .scalar (.label name) := by
  unfold labelName at isLabel
  split at isLabel <;> cases isLabel
  rfl

/-- The first segment of the rest of a block, with the instructions collected so far, and the
named segments after it. -/
def cutUp (current : List Instruction) :
    List Instruction → List Instruction × List (String × List Instruction)
  | [] => (current, [])
  | instruction :: rest =>
    match labelName instruction with
    | some next =>
      (Cutting.closeSegment current next, (next, (cutUp [] rest).1) :: (cutUp [] rest).2)
    | none => cutUp (current ++ [instruction]) rest

/-- The segments of a block, under the names of the blocks they become. -/
def segments (label : String) (instructions : List Instruction) :
    List (String × List Instruction) :=
  (label, (cutUp [] instructions).1) :: (cutUp [] instructions).2

def labelsOf (entry : String × BasicBlock) : List String :=
  entry.2.instructions.filterMap labelName

def inlineLabels (body : CodeBlock) : List String := body.basicBlocks.flatMap labelsOf

/-- Names of blocks and labels inside blocks are all different. -/
structure DistinctNames (body : CodeBlock) : Prop where
  nodup : (body.basicBlocks.map Prod.fst ++ inlineLabels body).Nodup
  fields : ∀ entry ∈ body.basicBlocks, entry.2.label ∉ inlineLabels body

variable (current rest : List Instruction) {next : String}

theorem cut_up_label (isLabel : labelName instruction = some next) :
    cutUp current (instruction :: rest) = (Cutting.closeSegment current next, segments next rest) := by
  rw [cutUp, isLabel]
  rfl

theorem cut_up_other (notLabel : labelName instruction = none) :
    cutUp current (instruction :: rest) = cutUp (current ++ [instruction]) rest := by
  rw [cutUp, notLabel]

theorem later_segment_names (current instructions : List Instruction) :
    (cutUp current instructions).2.map Prod.fst = instructions.filterMap labelName := by
  induction instructions generalizing current with
  | nil => rfl
  | cons instruction rest ih =>
    cases isLabel : labelName instruction with
    | none => rw [cut_up_other _ _ isLabel, filterMap_cons_none isLabel, ih]
    | some next =>
      rw [cut_up_label _ _ isLabel, filterMap_cons_some isLabel, segments, map_cons, ih]

variable {segment instructions : List Instruction} {before after : FiniteMap String BasicBlock}

namespace Cutting

variable {blockNames : List String} {blockName : String} {cutting : Cutting}

theorem cut_label (isLabel : labelName instruction = some next) :
    cutting.cutInstruction blockNames blockName instruction =
      cutting.startSegment blockNames blockName next := by
  rw [label_of_name isLabel]
  rfl

theorem cut_other (notLabel : labelName instruction = none) :
    cutting.cutInstruction blockNames blockName instruction =
      .ok { cutting with currentInstructions := cutting.currentInstructions ++ [instruction] } := by
  unfold cutInstruction
  split
  · cases notLabel
  · rfl

structure Fresh (blockNames : List String) (cutting : Cutting) (labels : List String) : Prop where
  nodup : labels.Nodup
  outside : ∀ label ∈ labels, label ∉ blockNames
  unused : ∀ label ∈ labels, cutting.newBlocks.get label = none
  notBlock : ∀ label ∈ labels, label ≠ cutting.block.label
  notCurrent : ∀ label ∈ labels, label ≠ cutting.currentBlockLabel

def Adds (before after : FiniteMap String BasicBlock) (added : List (String × List Instruction)) :
    Prop :=
  ∀ name, after.get name =
    match added.lookup name with
    | some instructions => some ⟨name, instructions⟩
    | none => before.get name

@[simp] theorem store_block_label (segment : List Instruction) :
    (cutting.store segment).block.label = cutting.block.label := by
  unfold store
  split <;> rfl

theorem store_grown (segment current : List Instruction) :
    Cutting.store { cutting with currentInstructions := current } segment =
      { cutting.store segment with currentInstructions := current } := by
  unfold store
  split <;> rfl

variable {name : String} {added : List (String × List Instruction)}

theorem store_get (segment : List Instruction) (other : name ≠ cutting.currentBlockLabel) :
    (cutting.store segment).newBlocks.get name = cutting.newBlocks.get name := by
  unfold store
  split
  · rfl
  · rw [FiniteMap.get_insert, if_neg other]

theorem Adds.placeholder {block : BasicBlock}
    (adds : Adds (before.insert name block) after added) (isAdded : name ∈ added.map Prod.fst) :
    Adds before after added := by
  intro other
  rw [adds other]
  cases found : added.lookup other with
  | some instructions => rfl
  | none =>
    have different : other ≠ name := by
      rintro rfl
      obtain ⟨entry, member, isName⟩ := mem_map.mp isAdded
      have absent := lookup_eq_none_iff.mp found entry member
      simp [isName] at absent
    rw [FiniteMap.get_insert, if_neg different]

theorem Adds.stored (adds : Adds (before.insert name ⟨name, segment⟩) after added)
    (notAgain : name ∉ added.map Prod.fst) : Adds before after ((name, segment) :: added) := by
  intro other
  rw [adds other, SortedMap.lookup_cons]
  by_cases here : other = name
  · subst here
    rw [lookup_absent notAgain, if_pos rfl, FiniteMap.get_insert, if_pos rfl]
  · rw [if_neg here, FiniteMap.get_insert, if_neg here]

theorem start_segment_ok (blockName : String) {labels : List String}
    (fresh : Fresh blockNames cutting (next :: labels)) :
    ∃ later, cutting.startSegment blockNames blockName next = .ok later ∧
      later.currentInstructions = [] ∧ later.currentBlockLabel = next ∧
      later.needsAnotherPass = true ∧ Fresh blockNames later labels ∧
      later.block = (cutting.store (closeSegment cutting.currentInstructions next)).block ∧
      later.newBlocks = (cutting.store
        (closeSegment cutting.currentInstructions next)).newBlocks.insert next ⟨next, []⟩ := by
  have first : next ∈ next :: labels := mem_cons_self
  have unused : (cutting.store (closeSegment cutting.currentInstructions next)).newBlocks.get next =
      none := by
    rw [store_get _ (fresh.notCurrent next first), fresh.unused next first]
  have noConflict : ¬(next ∈ blockNames ∨ ((cutting.store
      (closeSegment cutting.currentInstructions next)).newBlocks.get next).isSome) := by
    simp [fresh.outside next first, unused]
  refine ⟨_, if_neg noConflict, rfl, rfl, rfl, ?_, rfl, rfl⟩
  obtain ⟨notAgain, nodup⟩ := nodup_cons.mp fresh.nodup
  have different : ∀ label ∈ labels, label ≠ next := by
    rintro label member rfl
    exact notAgain member
  refine ⟨nodup, (forall_mem_cons.mp fresh.outside).2, fun label member => ?_, ?_, different⟩
  · have later := mem_cons_of_mem next member
    rw [FiniteMap.get_insert, if_neg (different label member),
      store_get _ (fresh.notCurrent label later), fresh.unused label later]
  · rw [store_block_label]
    exact (forall_mem_cons.mp fresh.notBlock).2

theorem Fresh.after_other {labels : List String} (fresh : Fresh blockNames cutting labels)
    (instruction : Instruction) : Fresh blockNames
      { cutting with currentInstructions := cutting.currentInstructions ++ [instruction] } labels :=
  ⟨fresh.nodup, fresh.outside, fresh.unused, fresh.notBlock, fresh.notCurrent⟩

/-- The current segment is stored, and the others become new blocks. -/
theorem cut_rest_ok (blockName : String)
    (fresh : Fresh blockNames cutting (instructions.filterMap labelName)) :
    ∃ done, cutRest blockNames blockName instructions cutting = .ok done ∧
      done.block = (cutting.store (cutUp cutting.currentInstructions instructions).1).block ∧
      done.needsAnotherPass =
        (cutting.needsAnotherPass || instructions.any fun other => (labelName other).isSome) ∧
      Adds (cutting.store (cutUp cutting.currentInstructions instructions).1).newBlocks done.newBlocks
        (cutUp cutting.currentInstructions instructions).2 := by
  induction instructions generalizing cutting with
  | nil =>
    refine ⟨_, rfl, rfl, ?_, fun _ => rfl⟩
    unfold store
    split <;> simp
  | cons instruction rest ih =>
    cases isLabel : labelName instruction with
    | none =>
      rw [filterMap_cons_none isLabel] at fresh
      obtain ⟨done, ran, isBlock, passes, adds⟩ := ih (fresh.after_other instruction)
      refine ⟨done, ?_, ?_, ?_, ?_⟩
      · rw [cutRest, cut_other isLabel]
        exact ran
      · rw [isBlock, cut_up_other _ _ isLabel, store_grown]
      · rw [passes, any_cons, isLabel]
        rfl
      · rw [cut_up_other _ _ isLabel]
        rw [store_grown] at adds
        exact adds
    | some next =>
      rw [filterMap_cons_some isLabel] at fresh
      obtain ⟨later, started, noInstructions, isNext, needs, laterFresh, laterBlock, laterBlocks⟩ :=
        start_segment_ok blockName fresh
      have isLater : later.block.label ≠ later.currentBlockLabel := by
        rw [isNext, laterBlock, store_block_label]
        exact (fresh.notBlock next mem_cons_self).symm
      obtain ⟨done, ran, isBlock, passes, adds⟩ := ih laterFresh
      rw [store, if_neg isLater] at isBlock adds
      refine ⟨done, ?_, ?_, ?_, ?_⟩
      · rw [cutRest, cut_label isLabel, started]
        exact ran
      · rw [isBlock, laterBlock, cut_up_label _ _ isLabel]
      · rw [passes, needs, any_cons, isLabel]
        simp
      · have notAgain : next ∉ (cutUp [] rest).2.map Prod.fst := by
          rw [later_segment_names]
          exact (nodup_cons.mp fresh.nodup).1
        rw [noInstructions, isNext, laterBlocks] at adds
        rw [cut_up_label _ _ isLabel]
        exact (adds.stored notAgain).placeholder mem_cons_self

theorem Adds.trans {first second third : FiniteMap String BasicBlock}
    {later : List (String × List Instruction)} (adds : Adds first second added)
    (laterAdds : Adds second third later)
    (disjoint : ∀ name ∈ added.map Prod.fst, name ∉ later.map Prod.fst) :
    Adds first third (added ++ later) := by
  intro name
  rw [laterAdds name, lookup_append]
  by_cases isAdded : name ∈ added.map Prod.fst
  · obtain ⟨instructions, found⟩ := lookup_present isAdded
    rw [lookup_absent (disjoint name isAdded), adds name, found]
    rfl
  · rw [lookup_absent isAdded, adds name, lookup_absent isAdded]
    rfl

end Cutting

/-! ### Passes -/

def firstSegment (entry : String × BasicBlock) : String × BasicBlock :=
  (entry.1, { entry.2 with instructions := (cutUp [] entry.2.instructions).1 })

def laterSegments (entry : String × BasicBlock) : List (String × List Instruction) :=
  (cutUp [] entry.2.instructions).2

def allSegments (body : CodeBlock) : List (String × List Instruction) :=
  (body.basicBlocks.map fun entry => (entry.1, (cutUp [] entry.2.instructions).1)) ++
    body.basicBlocks.flatMap laterSegments

def hasLabel (entry : String × BasicBlock) : Bool :=
  entry.2.instructions.any fun instruction => (labelName instruction).isSome

theorem later_names (entries : List (String × BasicBlock)) :
    (entries.flatMap laterSegments).map Prod.fst = entries.flatMap labelsOf := by
  rw [map_flatMap]
  exact flatMap_congr fun entry _ => later_segment_names [] entry.2.instructions

theorem all_segment_names (body : CodeBlock) :
    (allSegments body).map Prod.fst = body.basicBlocks.map Prod.fst ++ inlineLabels body := by
  rw [allSegments, map_append, later_names, map_map]
  rfl

theorem split_blocks_ok {blockNames : List String} {entries : List (String × BasicBlock)}
    {pass : Pass} (nodup : (entries.flatMap labelsOf).Nodup)
    (outside : ∀ label ∈ entries.flatMap labelsOf, label ∉ blockNames)
    (unused : ∀ label ∈ entries.flatMap labelsOf, pass.newBlocks.get label = none)
    (fields : ∀ entry ∈ entries, entry.2.label ∉ entries.flatMap labelsOf) :
    ∃ later, splitBlocks blockNames entries pass = .ok later ∧
      later.blocks = pass.blocks ++ entries.map firstSegment ∧
      later.needsAnotherPass = (pass.needsAnotherPass || entries.any hasLabel) ∧
      Cutting.Adds pass.newBlocks later.newBlocks (entries.flatMap laterSegments) := by
  induction entries generalizing pass with
  | nil => exact ⟨pass, rfl, by simp, by simp, fun name => rfl⟩
  | cons entry rest ih =>
    rw [flatMap_cons, forall_mem_append] at outside unused
    obtain ⟨here, later, disjoint⟩ := nodup_append'.mp nodup
    have fresh : Cutting.Fresh blockNames
        ⟨{ entry.2 with instructions := [] }, [], entry.2.label, pass.newBlocks,
          pass.needsAnotherPass⟩ (labelsOf entry) := by
      have notField : ∀ label ∈ labelsOf entry, label ≠ entry.2.label := by
        rintro label member rfl
        exact fields entry mem_cons_self (mem_append_left _ member)
      exact ⟨here, outside.1, unused.1, notField, notField⟩
    obtain ⟨done, ran, isBlock, passes, added⟩ := Cutting.cut_rest_ok entry.1 fresh
    rw [Cutting.store, if_pos rfl] at isBlock added
    have adds : Cutting.Adds pass.newBlocks done.newBlocks (laterSegments entry) := added
    have unusedLater : ∀ label ∈ rest.flatMap labelsOf, done.newBlocks.get label = none := by
      intro label member
      have notHere : label ∉ (laterSegments entry).map Prod.fst := by
        rw [laterSegments, later_segment_names]
        exact fun isHere => disjoint isHere member
      rw [adds label, lookup_absent notHere]
      exact unused.2 label member
    obtain ⟨final, ranRest, blocks, passesRest, addsRest⟩ :=
      @ih ⟨pass.blocks ++ [(entry.1, done.block)], done.newBlocks, done.needsAnotherPass⟩
        later outside.2 unusedLater fun other member isLabel =>
          fields other (mem_cons_of_mem _ member) (mem_append_right _ isLabel)
    refine ⟨final, ?_, ?_, ?_, ?_⟩
    · rw [splitBlocks, foldlM_cons, splitBlock, ran]
      exact ranRest
    · rw [blocks, isBlock, map_cons, append_assoc]
      rfl
    · rw [passesRest, passes, any_cons, Bool.or_assoc]
      rfl
    · rw [flatMap_cons]
      apply adds.trans addsRest
      intro name isHere isLater
      rw [laterSegments, later_segment_names] at isHere
      rw [later_names] at isLater
      exact disjoint isHere isLater

variable {newBlocks : FiniteMap String BasicBlock} {body : CodeBlock}

theorem lookup_new_blocks
    {added : List (String × List Instruction)} (adds : Cutting.Adds .empty newBlocks added)
    (name : String) :
    (newBlocks.entries.lookup name).map BasicBlock.instructions = added.lookup name := by
  have found := adds name
  unfold FiniteMap.get at found
  rw [found]
  cases added.lookup name <;> rfl

theorem label_pass_ok (nodup : (inlineLabels body).Nodup)
    (outside : ∀ label ∈ inlineLabels body, label ∉ body.basicBlocks.map Prod.fst)
    (fields : ∀ entry ∈ body.basicBlocks, entry.2.label ∉ inlineLabels body) :
    ∃ newBlocks : FiniteMap String BasicBlock,
      labelPass body = .ok (⟨body.entry, body.basicBlocks.map firstSegment ++ newBlocks.entries⟩,
        body.basicBlocks.any hasLabel) ∧
      Cutting.Adds .empty newBlocks (body.basicBlocks.flatMap laterSegments) := by
  obtain ⟨pass, ran, blocks, passes, adds⟩ :=
    @split_blocks_ok _ _ ⟨[], .empty, false⟩ nodup outside (fun _ _ => rfl) fields
  refine ⟨pass.newBlocks, ?_, adds⟩
  rw [labelPass, ran]
  simp only [bind, Except.bind, pure, Except.pure, blocks, passes, nil_append, Bool.false_or]

variable (adds : Cutting.Adds .empty newBlocks (body.basicBlocks.flatMap laterSegments))

include adds in
theorem pass_instructions
    (name : String) :
    CodeBlock.instructionsOf ⟨body.entry, body.basicBlocks.map firstSegment ++ newBlocks.entries⟩
      name = (allSegments body).lookup name := by
  have first := SortedMap.lookup_map_values
    (fun _ (block : BasicBlock) => { block with instructions := (cutUp [] block.instructions).1 })
    name body.basicBlocks
  have instructions := SortedMap.lookup_map_values
    (fun _ (block : BasicBlock) => (cutUp [] block.instructions).1) name body.basicBlocks
  unfold CodeBlock.instructionsOf allSegments
  rw [lookup_append, lookup_append, ← lookup_new_blocks adds]
  have sameFirst : ((body.basicBlocks.map firstSegment).lookup name).map BasicBlock.instructions =
      List.lookup name (body.basicBlocks.map fun entry =>
        (entry.1, (cutUp [] entry.2.instructions).1)) := by
    unfold firstSegment
    rw [first, instructions]
    cases body.basicBlocks.lookup name <;> rfl
  rw [← sameFirst]
  cases (body.basicBlocks.map firstSegment).lookup name <;> rfl

/-! ### The segments have no labels -/

theorem closed_segment_unlabelled (next : String)
    (unlabelled : ∀ instruction ∈ segment, labelName instruction = none) :
    ∀ instruction ∈ Cutting.closeSegment segment next, labelName instruction = none := by
  unfold Cutting.closeSegment
  split
  · exact unlabelled
  · exact forall_mem_append.mpr ⟨unlabelled, forall_mem_singleton.mpr rfl⟩

theorem cut_up_unlabelled {current : List Instruction} (instructions : List Instruction)
    (unlabelled : ∀ instruction ∈ current, labelName instruction = none) :
    (∀ instruction ∈ (cutUp current instructions).1, labelName instruction = none) ∧
      ∀ entry ∈ (cutUp current instructions).2, ∀ instruction ∈ entry.2,
        labelName instruction = none := by
  induction instructions generalizing current with
  | nil => exact ⟨unlabelled, by simp [cutUp]⟩
  | cons instruction rest ih =>
    cases isLabel : labelName instruction with
    | none =>
      rw [cut_up_other _ _ isLabel]
      exact ih (forall_mem_append.mpr ⟨unlabelled, forall_mem_singleton.mpr isLabel⟩)
    | some next =>
      rw [cut_up_label _ _ isLabel]
      refine ⟨closed_segment_unlabelled next unlabelled, ?_⟩
      exact forall_mem_cons.mpr (@ih [] (by simp))

theorem cut_up_of_unlabelled (current : List Instruction)
    (unlabelled : ∀ instruction ∈ instructions, labelName instruction = none) :
    cutUp current instructions = (current ++ instructions, []) := by
  induction instructions generalizing current with
  | nil => simp [cutUp]
  | cons instruction rest ih =>
    rw [forall_mem_cons] at unlabelled
    rw [cut_up_other _ _ unlabelled.1, ih _ unlabelled.2]
    simp

def Unlabelled (body : CodeBlock) : Prop :=
  ∀ entry ∈ body.basicBlocks, ∀ instruction ∈ entry.2.instructions, labelName instruction = none

include adds in
theorem pass_unlabelled :
    Unlabelled ⟨body.entry, body.basicBlocks.map firstSegment ++ newBlocks.entries⟩ := by
  intro entry member
  rcases mem_append.mp member with isFirst | isNew
  · obtain ⟨original, -, rfl⟩ := mem_map.mp isFirst
    exact (cut_up_unlabelled original.2.instructions (by simp)).1
  · have found := adds entry.1
    rw [FiniteMap.mem_entries.mp isNew] at found
    cases segment : List.lookup entry.1 (body.basicBlocks.flatMap laterSegments) with
    | none =>
      rw [segment] at found
      cases found
    | some instructions =>
      rw [segment] at found
      obtain ⟨original, -, isSegment⟩ := mem_flatMap.mp (SortedMap.mem_of_lookup segment)
      rw [Option.some.inj found]
      exact (cut_up_unlabelled original.2.instructions (by simp)).2 _ isSegment

theorem label_pass_unlabelled (unlabelled : Unlabelled body) :
    labelPass body = .ok (body, false) := by
  have noLabels : ∀ entry ∈ body.basicBlocks, labelsOf entry = [] := by
    intro entry member
    rw [labelsOf, filterMap_eq_nil_iff]
    exact unlabelled entry member
  have empty : inlineLabels body = [] := flatMap_eq_nil_iff.mpr noLabels
  have nothing : body.basicBlocks.flatMap laterSegments = [] := by
    rw [flatMap_eq_nil_iff]
    intro entry member
    rw [laterSegments, cut_up_of_unlabelled [] (unlabelled entry member)]
  have noLabel : body.basicBlocks.any hasLabel = false := by
    rw [any_eq_false]
    intro entry member
    simp only [hasLabel, any_eq_true, not_exists, not_and]
    intro instruction isInstruction
    simp [unlabelled entry member instruction isInstruction]
  have same : body.basicBlocks.map firstSegment = body.basicBlocks := by
    conv_rhs => rw [← map_id body.basicBlocks]
    apply map_congr_left
    intro entry member
    rw [firstSegment, cut_up_of_unlabelled [] (unlabelled entry member)]
    rfl
  obtain ⟨newBlocks, ran, adds⟩ :=
    @label_pass_ok body (by simp [empty]) (by simp [empty]) (by simp [empty])
  have noNewBlocks : newBlocks.entries = [] := by
    rw [eq_nil_iff_forall_not_mem]
    rintro ⟨name, block⟩ member
    have found := adds name
    rw [FiniteMap.mem_entries.mp member, nothing] at found
    cases found
  rw [ran, noNewBlocks, same, noLabel, append_nil]

/-- Two passes suffice. -/
theorem convert_labels_ok (distinct : DistinctNames body) :
    ∃ newBlocks : FiniteMap String BasicBlock, (∀ fuel, convertLabelsToBasicBlocks (fuel + 2) body =
        some (.ok ⟨body.entry, body.basicBlocks.map firstSegment ++ newBlocks.entries⟩)) ∧
      Cutting.Adds .empty newBlocks (body.basicBlocks.flatMap laterSegments) := by
  obtain ⟨-, nodup, disjoint⟩ := nodup_append'.mp distinct.nodup
  obtain ⟨newBlocks, ran, adds⟩ := label_pass_ok nodup
    (fun label isLabel isName => disjoint isName isLabel) distinct.fields
  refine ⟨newBlocks, fun fuel => ?_, adds⟩
  rw [convertLabelsToBasicBlocks, ran]
  cases body.basicBlocks.any hasLabel with
  | false => rfl
  | true =>
    dsimp only
    rw [convertLabelsToBasicBlocks, label_pass_unlabelled (pass_unlabelled adds)]

/-! ### The segments keep the instructions -/

def plainInstructions (instructions : List Instruction) : List Instruction :=
  instructions.filter fun instruction => (labelName instruction).isNone

/-- Segments and the parts of a block they come from: a jump may have been added at the end. -/
def KeepsPart (segment part : List Instruction) : Prop :=
  ∃ added, segment = part ++ added ∧ (added = [] ∨ ∃ next, added = [.jump next])

theorem close_segment_keeps (segment : List Instruction) (next : String) :
    KeepsPart (Cutting.closeSegment segment next) segment := by
  unfold Cutting.closeSegment
  split
  · exact ⟨[], by simp, .inl rfl⟩
  · exact ⟨[.jump next], rfl, .inr ⟨next, rfl⟩⟩

theorem cut_up_keeps (current instructions : List Instruction) : ∃ parts : List (List Instruction),
      parts.flatten = current ++ plainInstructions instructions ∧ List.Forall₂ KeepsPart
        ((cutUp current instructions).1 :: (cutUp current instructions).2.map Prod.snd) parts := by
  induction instructions generalizing current with
  | nil =>
    refine ⟨[current], by simp [plainInstructions], ?_⟩
    exact .cons ⟨[], by simp [cutUp], .inl rfl⟩ .nil
  | cons instruction rest ih =>
    cases isLabel : labelName instruction with
    | none =>
      obtain ⟨parts, flat, keeps⟩ := ih (current ++ [instruction])
      rw [cut_up_other _ _ isLabel]
      refine ⟨parts, ?_, keeps⟩
      simpa [plainInstructions, filter_cons, isLabel] using flat
    | some next =>
      obtain ⟨parts, flat, keeps⟩ := ih []
      rw [cut_up_label _ _ isLabel]
      refine ⟨current :: parts, ?_, .cons (close_segment_keeps current next) keeps⟩
      simpa [plainInstructions, filter_cons, isLabel] using flat

end RustcCodegenJvm.Optimise1
