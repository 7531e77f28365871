import RustcCodegenJvm.Library.Grouping
import RustcCodegenJvm.Oomir.Hashing
import RustcCodegenJvm.Oomir.Retargeting

/-!
# Elimination of duplicate blocks

`eliminate_duplicate_basic_blocks` keeps one block of every group of blocks with
equal instructions and sends the targets of the others to it. The groups are the
entries of a hash map, and equality of instructions compares floats as numbers,
so blocks that are not the same can meet in one group. Which keys the map
compares with each other is a parameter.
-/

namespace RustcCodegenJvm.Optimise1

open Program Library Grouping List

section Pass

variable (compares : List Instruction → List Instruction → Bool) (body : CodeBlock)

def blockEntries : List (String × List Instruction) :=
  body.basicBlocks.map fun entry => (entry.1, entry.2.instructions)

/-- Labels by instructions: an entry of the map is found when its key is compared and equal. -/
def instructionGroups : Groups String (List Instruction) :=
  groupEntries (fun key instructions => Instruction.sameList key instructions && compares key instructions)
    (blockEntries body)

def canonicalLabel : String → String := representative (instructionGroups compares body)

def eliminateDuplicateBasicBlocks : CodeBlock :=
  if body.basicBlocks.length ≤ 1 then body
  else if (redirects (instructionGroups compares body)).isEmpty then body
  else
    let preservedLabels := firsts (instructionGroups compares body)
    let redirected := body.mapBlocks fun label instructions =>
      if label ∈ preservedLabels then
        instructions.map (Instruction.retarget (canonicalLabel compares body))
      else instructions
    { entry := canonicalLabel compares body body.entry
      basicBlocks := redirected.basicBlocks.filter fun entry => entry.1 ∈ preservedLabels }

end Pass

def instructionAt (body : CodeBlock) (label : String) (index : Nat) : Option Instruction :=
  (body.instructionsOf label).bind fun instructions => instructions[index]?

variable {instructions : List Instruction}

section Structure

variable {compares : List Instruction → List Instruction → Bool} {body : CodeBlock} {label : String}

theorem entries_names : (blockEntries body).map Prod.fst = body.basicBlocks.map Prod.fst := by
  simp [blockEntries]

theorem entries_lookup : (blockEntries body).lookup label = body.instructionsOf label :=
  SortedMap.lookup_map_values (fun _ (block : BasicBlock) => block.instructions) label body.basicBlocks

theorem is_block : (body.instructionsOf label).isSome ↔ label ∈ (blockEntries body).map Prod.fst := by
  rw [← entries_lookup, AssociationList.lookup_is_some]

theorem redirects_small (small : body.basicBlocks.length ≤ 1) :
    redirects (instructionGroups compares body) = [] := by
  unfold instructionGroups blockEntries
  match body.basicBlocks, small with
  | [], _ => rfl
  | [entry], _ => rfl

section

variable (none : redirects (instructionGroups compares body) = [])

include none

theorem canonical_of_no_redirects
    (label : String) : canonicalLabel compares body label = label := by
  simp [canonicalLabel, representative, none]

theorem first_of_no_redirects
    (isBlock : (body.instructionsOf label).isSome) :
    label ∈ firsts (instructionGroups compares body) := by
  obtain ⟨names, shaped⟩ := group_entries_spec (fun key instructions =>
    Instruction.sameList key instructions && compares key instructions) (blockEntries body)
  have all := (firsts_append_redirects shaped).trans names
  have noRedirects : (redirects (groupEntries (fun key instructions =>
    Instruction.sameList key instructions && compares key instructions) (blockEntries body))) = [] := none
  rw [noRedirects, map_nil, append_nil] at all
  exact all.mem_iff.mpr (is_block.mp isBlock)

theorem retarget_canonical_of_no_redirects
    (instructions : List Instruction) :
    instructions.map (Instruction.retarget (canonicalLabel compares body)) = instructions := by
  conv_rhs => rw [← map_id instructions]
  apply map_congr_left
  intro instruction _
  apply Instruction.retarget_of_fixed
  intro target _
  exact canonical_of_no_redirects none target

theorem eliminated_of_no_redirects :
    eliminateDuplicateBasicBlocks compares body = body := by
  unfold eliminateDuplicateBasicBlocks
  rw [none]
  simp

end

theorem eliminated_of_redirects (some : redirects (instructionGroups compares body) ≠ []) :
    eliminateDuplicateBasicBlocks compares body =
      { entry := canonicalLabel compares body body.entry
        basicBlocks := (body.mapBlocks fun label instructions =>
          if label ∈ firsts (instructionGroups compares body) then
            instructions.map (Instruction.retarget (canonicalLabel compares body))
          else instructions).basicBlocks.filter fun entry =>
            entry.1 ∈ firsts (instructionGroups compares body) } := by
  have large : ¬ body.basicBlocks.length ≤ 1 := fun small => some (redirects_small small)
  unfold eliminateDuplicateBasicBlocks
  rw [if_neg large, if_neg (by simpa [List.isEmpty_iff] using some)]

theorem eliminated_entry :
    (eliminateDuplicateBasicBlocks compares body).entry = canonicalLabel compares body body.entry := by
  by_cases none : redirects (instructionGroups compares body) = []
  · rw [eliminated_of_no_redirects none, canonical_of_no_redirects none]
  · rw [eliminated_of_redirects none]

theorem eliminated_instructions :
    (eliminateDuplicateBasicBlocks compares body).instructionsOf label =
      if label ∈ firsts (instructionGroups compares body) then
        (body.instructionsOf label).map
          (map (Instruction.retarget (canonicalLabel compares body)))
      else none := by
  by_cases none : redirects (instructionGroups compares body) = []
  · have same : (map (Instruction.retarget (canonicalLabel compares body))) = id := by
      funext instructions
      exact retarget_canonical_of_no_redirects none instructions
    rw [eliminated_of_no_redirects none, same, Option.map_id, id]
    split_ifs with isFirst
    · rfl
    · by_contra present
      exact isFirst (first_of_no_redirects none (Option.ne_none_iff_isSome.mp present))
  · rw [eliminated_of_redirects none, CodeBlock.instructionsOf,
      AssociationList.lookup_filter fun label => decide (label ∈ firsts (instructionGroups compares body))]
    by_cases isFirst : label ∈ firsts (instructionGroups compares body)
    · rw [if_pos (decide_eq_true isFirst), if_pos isFirst]
      have mapped := body.instructions_of_map_blocks (fun label instructions =>
        if label ∈ firsts (instructionGroups compares body) then
          instructions.map (Instruction.retarget (canonicalLabel compares body))
        else instructions) label
      simp only [if_pos isFirst] at mapped
      exact mapped
    · simp [isFirst]

theorem canonical_instructions (compares : List Instruction → List Instruction → Bool)
    (distinct : (body.basicBlocks.map Prod.fst).Nodup)
    (isBlock : body.instructionsOf label = some instructions) :
    ∃ others, body.instructionsOf (canonicalLabel compares body label) = some others ∧
      (eliminateDuplicateBasicBlocks compares body).instructionsOf (canonicalLabel compares body label) =
        some (others.map (Instruction.retarget (canonicalLabel compares body))) ∧
      (others = instructions ∨ Instruction.sameList others instructions = true) := by
  rw [← entries_names] at distinct
  have isName : label ∈ (blockEntries body).map Prod.fst := is_block.mp (by rw [isBlock]; rfl)
  have spec : canonicalLabel compares body label ∈ firsts (instructionGroups compares body) ∧
      (canonicalLabel compares body label = label ∨
        ∃ key key', (canonicalLabel compares body label, key) ∈ blockEntries body ∧
          (label, key') ∈ blockEntries body ∧
          (Instruction.sameList key key' && compares key key') = true) :=
    representative_spec distinct isName
  rw [eliminated_instructions, if_pos spec.1]
  rcases spec.2 with same | ⟨key, key', isCanonical, isEntry, isMatch⟩
  · rw [same, isBlock]
    exact ⟨instructions, rfl, rfl, .inl rfl⟩
  · rw [← AssociationList.lookup_iff_mem distinct, entries_lookup] at isCanonical isEntry
    rw [isBlock] at isEntry
    cases isEntry
    rw [isCanonical]
    rw [Bool.and_eq_true] at isMatch
    exact ⟨key, rfl, rfl, .inr isMatch.1⟩

theorem canonical_absent (absent : body.instructionsOf label = none) :
    canonicalLabel compares body label = label := by
  apply representative_of_absent
  rw [← is_block, absent]
  simp

theorem eliminated_absent (absent : body.instructionsOf label = none) :
    (eliminateDuplicateBasicBlocks compares body).instructionsOf label = none := by
  rw [eliminated_instructions, absent]
  simp

end Structure

/-! ### Runs -/

section Runs

variable (compares : List Instruction → List Instruction → Bool) (body : CodeBlock)

/-- The body after the pass behaves like the body before it: the entry is there, no target of
a kept block is removed, and every run goes through the kept blocks step by step, over the
same instructions. -/
structure DuplicatesPreserve : Prop where
  entry : (body.instructionsOf body.entry).isSome →
    ((eliminateDuplicateBasicBlocks compares body).instructionsOf
      (eliminateDuplicateBasicBlocks compares body).entry).isSome
  targets : ∀ label instructions,
    (eliminateDuplicateBasicBlocks compares body).instructionsOf label = some instructions →
      ∀ instruction ∈ instructions, ∀ target ∈ instruction.targets,
        (body.instructionsOf target).isSome →
          ((eliminateDuplicateBasicBlocks compares body).instructionsOf target).isSome
  runs : ∀ {Value World : Type} (environment : Environment Value World), environment.LabelBlind →
    ∀ (state : State Value World) steps,
      run environment (eliminateDuplicateBasicBlocks compares body) steps state =
        (run environment body steps state).relabel (canonicalLabel compares body)
  instructions : ∀ {Value World : Type} (environment : Environment Value World), environment.LabelBlind →
    ∀ (state : State Value World) steps label index after,
      run environment body steps state = .running label index after →
        instructionAt (eliminateDuplicateBasicBlocks compares body) (canonicalLabel compares body label) index =
          (instructionAt body label index).map (Instruction.retarget (canonicalLabel compares body))

/-- Wherever a run comes, the kept block has the instruction of the block, bit for bit. -/
def MergesIdentical : Prop :=
  ∀ {Value World : Type} (environment : Environment Value World), environment.LabelBlind →
    ∀ (state : State Value World) steps label index after,
      run environment body steps state = .running label index after →
        instructionAt body (canonicalLabel compares body label) index = instructionAt body label index

variable {compares body}

/-- Merged blocks that are all the same are the same wherever a run comes. -/
theorem merges_identical_of_equal (equal : ∀ label ∈ body.basicBlocks.map Prod.fst,
      body.instructionsOf (canonicalLabel compares body label) = body.instructionsOf label) :
    MergesIdentical compares body := by
  intro Value World environment _ state steps label index after _
  by_cases isBlock : label ∈ body.basicBlocks.map Prod.fst
  · rw [instructionAt, instructionAt, equal label isBlock]
  · rw [← entries_names, ← is_block] at isBlock
    rw [canonical_absent (by simpa using isBlock)]

variable (distinct : (body.basicBlocks.map Prod.fst).Nodup)
include distinct

variable {label : String} {index : Nat}

theorem canonical_is_kept (isBlock : (body.instructionsOf label).isSome) :
    ((eliminateDuplicateBasicBlocks compares body).instructionsOf
      (canonicalLabel compares body label)).isSome := by
  obtain ⟨instructions, isInstructions⟩ := Option.isSome_iff_exists.mp isBlock
  obtain ⟨others, -, isKept, -⟩ := canonical_instructions compares distinct isInstructions
  rw [isKept]
  rfl

theorem kept_targets {target : String} {instruction : Instruction}
    (isKept : (eliminateDuplicateBasicBlocks compares body).instructionsOf label = some instructions)
    (member : instruction ∈ instructions) (isTarget : target ∈ instruction.targets)
    (isBlock : (body.instructionsOf target).isSome) :
    ((eliminateDuplicateBasicBlocks compares body).instructionsOf target).isSome := by
  rw [eliminated_instructions] at isKept
  split_ifs at isKept
  obtain ⟨before, -, rfl⟩ := Option.map_eq_some_iff.mp isKept
  obtain ⟨source, -, rfl⟩ := mem_map.mp member
  rw [Instruction.targets_retarget] at isTarget
  obtain ⟨name, -, rfl⟩ := mem_map.mp isTarget
  by_cases present : (body.instructionsOf name).isSome
  · exact canonical_is_kept distinct present
  · have absent : body.instructionsOf name = none := by simpa using present
    rw [canonical_absent absent] at isBlock
    exact absurd isBlock present

/-- One step goes to the place of the kept block, if the instructions there are the same. -/
theorem step_eliminated {Value World : Type} {environment : Environment Value World}
    (blind : environment.LabelBlind) (state : State Value World)
    (identical : instructionAt body (canonicalLabel compares body label) index = instructionAt body label index) :
    step environment (eliminateDuplicateBasicBlocks compares body) (canonicalLabel compares body label)
        index state =
      (step environment body label index state).relabel (canonicalLabel compares body) := by
  cases isBlock : body.instructionsOf label with
  | none =>
    rw [canonical_absent isBlock]
    simp [step, isBlock, eliminated_absent isBlock, Outcome.relabel]
  | some instructions =>
    obtain ⟨others, isOthers, isKept, same⟩ := canonical_instructions compares distinct isBlock
    simp only [instructionAt, isOthers, isBlock, Option.bind_some] at identical
    simp only [step, isKept, isBlock, getElem?_map, identical]
    cases instructions[index]? with
    | none => rfl
    | some instruction =>
      have sameRegion : region ((others.map (Instruction.retarget (canonicalLabel compares body))).take index) =
          (region (instructions.take index)).map (canonicalLabel compares body) := by
        rw [← map_take, region_retarget]
        rcases same with rfl | same
        · rfl
        · exact congrArg _ (fold_same none index same)
      simp only [Option.map_some, execute_retarget blind]
      exact proceed_retarget sameRegion state _

theorem instruction_eliminated
    (identical : instructionAt body (canonicalLabel compares body label) index = instructionAt body label index) :
    instructionAt (eliminateDuplicateBasicBlocks compares body) (canonicalLabel compares body label) index =
      (instructionAt body label index).map (Instruction.retarget (canonicalLabel compares body)) := by
  rw [← identical]
  cases isBlock : body.instructionsOf label with
  | none =>
    rw [canonical_absent isBlock]
    simp [instructionAt, isBlock, eliminated_absent isBlock]
  | some instructions =>
    obtain ⟨others, isOthers, isKept, -⟩ := canonical_instructions compares distinct isBlock
    simp [instructionAt, isOthers, isKept]

theorem run_eliminated (identical : MergesIdentical compares body) {Value World : Type}
    {environment : Environment Value World} (blind : environment.LabelBlind) (state : State Value World)
    (steps : Nat) :
    run environment (eliminateDuplicateBasicBlocks compares body) steps state =
      (run environment body steps state).relabel (canonicalLabel compares body) := by
  induction steps with
  | zero =>
    simp only [run, Function.iterate_zero, id]
    rw [eliminated_entry]
    rfl
  | succ steps ih =>
    rw [run_succ, run_succ, ih]
    cases ran : run environment body steps state with
    | running label index after =>
      exact step_eliminated distinct blind after (identical environment blind state steps label index after ran)
    | _ => rfl

/-- Where the instructions after the pass are those before it, nothing was lost in the merge. -/
theorem identical_of_retarget
    (kept : instructionAt (eliminateDuplicateBasicBlocks compares body) (canonicalLabel compares body label)
      index = (instructionAt body label index).map (Instruction.retarget (canonicalLabel compares body))) :
    instructionAt body (canonicalLabel compares body label) index = instructionAt body label index := by
  cases isBlock : body.instructionsOf label with
  | none =>
    rw [canonical_absent isBlock]
  | some instructions =>
    obtain ⟨others, isOthers, isKept, same⟩ := canonical_instructions compares distinct isBlock
    simp only [instructionAt, isOthers, isKept, isBlock, Option.bind_some, getElem?_map] at kept ⊢
    rcases same with rfl | same
    · rfl
    · exact Instruction.same_list_eq_of_retarget same kept

end Runs

def twinBlocks : CodeBlock where
  entry := "entry"
  basicBlocks := [
    ("entry", ⟨"entry", [.scalar (.branch (.variable "_1" .boolean) "left" "right")]⟩),
    ("left", ⟨"left", [.return (some (.constant (.f64 0)))]⟩),
    ("right", ⟨"right", [.return (some (.constant (.f64 0)))]⟩)]

def signedZeros : CodeBlock where
  entry := "entry"
  basicBlocks := [
    ("entry", ⟨"entry", [.scalar (.branch (.variable "_1" .boolean) "positive" "negative")]⟩),
    ("positive", ⟨"positive", [.return (some (.constant (.f64 0)))]⟩),
    ("negative", ⟨"negative", [.return (some (.constant (.f64 0x8000000000000000)))]⟩)]

def returnedBits : Environment (BitVec 64) Unit where
  perform instruction _ _ :=
    match instruction with
    | .return (some (.constant (.f64 bits))) => .value bits ()
    | _ => .value 0 ()
  select _ _ := 1

def anyState : State (BitVec 64) Unit := ⟨fun _ => some 0, ()⟩

theorem returned_bits_blind : returnedBits.LabelBlind := by
  constructor
  · intro rename instruction values world
    cases instruction with
    | scalar instruction => cases instruction <;> rfl
    | _ => rfl
  · intro rename instruction values
    rfl

variable (hashBytes : List UInt8 → BitVec 64)

/-- The hashes of the two returns differ in one bit, which is neither in the tag nor in the
place. -/
theorem signed_zeros_compared :
    fxCompares hashBytes [.return (some (.constant (.f64 0)))]
      [.return (some (.constant (.f64 0x8000000000000000)))] = true := by
  have positive : hashInstructions hashBytes [.return (some (.constant (.f64 0)))] =
      fxHash [1, 25, 1, 0, 20, 0] := rfl
  have negative : hashInstructions hashBytes [.return (some (.constant (.f64 0x8000000000000000)))] =
      fxHash [1, 25, 1, 0, 20, 0x8000000000000000] := rfl
  unfold fxCompares
  rw [positive, negative]
  decide

theorem signed_zeros_grouped :
    eliminateDuplicateBasicBlocks (fxCompares hashBytes) signedZeros =
      eliminateDuplicateBasicBlocks (fun _ _ => true) signedZeros := by
  have groups : instructionGroups (fxCompares hashBytes) signedZeros =
      instructionGroups (fun _ _ => true) signedZeros := by
    have compared := signed_zeros_compared hashBytes
    simp only [BitVec.ofNat_eq_ofNat] at compared
    simp [instructionGroups, groupEntries, blockEntries, signedZeros, addTo, compared,
      Instruction.sameList, Instruction.same, Oomir.Instruction.same]
  unfold eliminateDuplicateBasicBlocks canonicalLabel
  rw [groups]

end RustcCodegenJvm.Optimise1
