import RustcCodegenJvm.Library.AssociationList
import RustcCodegenJvm.Library.DepthFirst
import RustcCodegenJvm.Optimise1.ConstantTermination

/-!
# Dead blocks

`transform_function` of `optimise1.rs` rewrites every block with the constants it starts with, and
keeps the blocks that `find_reachable_blocks` finds along the edges of the rewritten blocks. Sets of
labels are lists; a successor set is read in the order of the labels.
-/

namespace RustcCodegenJvm.Optimise1

open Program Library DepthFirst List

section Search

variable (successorsMap : String → List String) (allBlockLabels : List String)

/-- The loop of `find_reachable_blocks`; `none` when the fuel does not suffice. -/
def searchBlocks : Nat → List String → List String → Option (List String)
  | 0, _, _ => none
  | _ + 1, reachable, [] => some reachable
  | fuel + 1, reachable, current :: worklist =>
    let found := allBlockLabels.filter fun label => label ∈ successorsMap current ∧ label ∉ reachable
    searchBlocks fuel (reachable ++ found) (worklist ++ found)

def findReachableBlocks (fuel : Nat) (entryLabel : String) : Option (List String) :=
  if entryLabel ∈ allBlockLabels then searchBlocks successorsMap allBlockLabels fuel [entryLabel] [entryLabel]
  else searchBlocks successorsMap allBlockLabels fuel [] []

variable {successorsMap allBlockLabels} {reachable worklist result : List String} {fuel : Nat}

/-- What is found stays among the labels a set of labels leads to, and the set is closed in the end. -/
theorem search_blocks_spec {F : String → Prop}
    (ran : searchBlocks successorsMap allBlockLabels fuel reachable worklist = some result)
    (inside : ∀ source, successorsMap source ⊆ allBlockLabels)
    (follows : ∀ source, F source → ∀ target ∈ successorsMap source, F target)
    (found : ∀ label ∈ reachable, F label) (pending : worklist ⊆ reachable)
    (closed : ∀ source ∈ reachable, source ∈ worklist ∨ successorsMap source ⊆ reachable) :
    reachable ⊆ result ∧ (∀ label ∈ result, F label) ∧ ∀ source ∈ result, successorsMap source ⊆ result := by
  induction fuel generalizing reachable worklist with
  | zero => cases ran
  | succ fuel ih =>
    cases worklist with
    | nil =>
      cases ran
      exact ⟨List.Subset.refl _, found, fun source member => (closed source member).resolve_left (by simp)⟩
    | cons current worklist =>
      have isCurrent : F current := found current (pending mem_cons_self)
      have later := ih ran ?_ ?_ ?_
      · exact ⟨fun label member => later.1 (mem_append_left _ member), later.2⟩
      · intro label member
        rcases mem_append.mp member with old | new
        · exact found label old
        · rw [mem_filter, decide_eq_true_iff] at new
          exact follows current isCurrent label new.2.1
      · intro label member
        rcases mem_append.mp member with old | new
        · exact mem_append_left _ (pending (mem_cons_of_mem _ old))
        · exact mem_append_right _ new
      · intro source member
        rcases mem_append.mp member with old | new
        · by_cases isSource : source = current
          · right
            intro target edge
            by_cases known : target ∈ reachable
            · exact mem_append_left _ known
            · apply mem_append_right
              rw [mem_filter, decide_eq_true_iff, ← isSource]
              exact ⟨inside source edge, edge, known⟩
          · rcases closed source old with waits | done
            · exact .inl (mem_append_left _ ((mem_cons.mp waits).resolve_left isSource))
            · exact .inr (List.Subset.trans done (subset_append_left _ _))
        · exact .inl (mem_append_right _ new)

theorem search_blocks_ends
    (enough : worklist.length + (allBlockLabels.filter (· ∉ reachable)).length < fuel) :
    ∃ result, searchBlocks successorsMap allBlockLabels fuel reachable worklist = some result := by
  induction fuel generalizing reachable worklist with
  | zero => omega
  | succ fuel ih =>
    cases worklist with
    | nil => exact ⟨reachable, rfl⟩
    | cons current worklist =>
      apply ih
      have split := length_eq_length_filter_add (l := allBlockLabels.filter (· ∉ reachable))
        fun label => decide (label ∈ successorsMap current)
      have isFound : (allBlockLabels.filter fun label => label ∈ successorsMap current ∧ label ∉ reachable) =
          (allBlockLabels.filter (· ∉ reachable)).filter fun label => label ∈ successorsMap current := by
        simp
      have isRest : allBlockLabels.filter (· ∉ reachable ++ allBlockLabels.filter
            fun label => label ∈ successorsMap current ∧ label ∉ reachable) =
          (allBlockLabels.filter (· ∉ reachable)).filter fun label => !decide (label ∈ successorsMap current) := by
        rw [filter_filter]
        apply filter_congr
        intro label member
        simp only [mem_append, mem_filter, member, decide_eq_true_eq, true_and]
        by_cases known : label ∈ reachable <;> simp [known]
      rw [isRest, isFound, length_append]
      rw [length_cons] at enough
      omega

theorem find_reachable_blocks_spec {entryLabel : String}
    (ran : findReachableBlocks successorsMap allBlockLabels fuel entryLabel = some result)
    (inside : ∀ source, successorsMap source ⊆ allBlockLabels) (label : String) :
    label ∈ result ↔ entryLabel ∈ allBlockLabels ∧ Reaches successorsMap entryLabel label := by
  unfold findReachableBlocks at ran
  split at ran
  · rename_i isBlock
    obtain ⟨starts, found, closed⟩ := search_blocks_spec (F := Reaches successorsMap entryLabel) ran inside
      (fun _ leads _ => leads.tail) (by simp [Relation.ReflTransGen.refl]) (List.Subset.refl _) (by simp)
    constructor
    · intro member
      exact ⟨isBlock, found label member⟩
    · intro reached
      induction reached.2 with
      | refl => exact starts mem_cons_self
      | tail leads edge ih => exact closed _ (ih ⟨isBlock, leads⟩) edge
  · rename_i noBlock
    have nothing := (search_blocks_spec (F := fun _ => False) ran inside (fun _ none _ _ => none) (by simp)
      (List.Subset.refl _) (by simp)).2.1 label
    exact ⟨fun member => (nothing member).elim, fun ⟨isBlock, _⟩ => absurd isBlock noBlock⟩

end Search

variable {blocks : List (String × BasicBlock)}

section Transform

variable (library : FoldLibrary) (analysisResult : String → ConstantMap)

/-- The blocks with their new instructions; `none` when `process_block_instructions` panics. -/
def optimizedBlocks : List (String × BasicBlockInfo) → Option (List (String × BasicBlock))
  | [] => some []
  | (label, info) :: rest => do
    let (_, instructions) ←
      processBlockInstructions library info.originalBlock.instructions (analysisResult label) true
    let later ← optimizedBlocks rest
    return (label, ⟨label, instructions⟩) :: later

def optimizedSuccessors (allOriginalLabels : List String) (blocks : List (String × BasicBlock))
    (label : String) : List String :=
  ((blocks.lookup label).elim [] fun block => getBlockSuccessors block.instructions).filter
    (· ∈ allOriginalLabels)

/-- An entry that is not among the blocks is replaced by any block that is kept. -/
def transformFunction (function : Function) (cfg : Cfg) (fuel : Nat) : Option Function := do
  let blocks ← optimizedBlocks library analysisResult cfg.blocks
  let reachable ← findReachableBlocks (optimizedSuccessors cfg.labels blocks) cfg.labels fuel
    function.body.entry
  let kept := blocks.filter fun block => block.1 ∈ reachable
  let entry := if function.body.entry ∉ reachable ∧ ¬cfg.blocks.isEmpty then
      kept.head?.elim function.body.entry Prod.fst
    else function.body.entry
  return { function with body := ⟨entry, kept⟩ }

variable {library analysisResult}

theorem optimized_labels {infos : List (String × BasicBlockInfo)}
    (processed : optimizedBlocks library analysisResult infos = some blocks) :
    blocks.map Prod.fst = infos.map Prod.fst := by
  induction infos generalizing blocks with
  | nil =>
    cases processed
    rfl
  | cons info rest ih =>
    obtain ⟨_, _, restProcessed⟩ := Option.bind_eq_some_iff.mp processed
    obtain ⟨later, isLater, isBlocks⟩ := Option.bind_eq_some_iff.mp restProcessed
    cases isBlocks
    rw [map_cons, map_cons, ih isLater]

/-- The function after the pass has the entry, if there was one, and exactly the rewritten blocks that
it leads to; a target that was a block is one still. -/
theorem transform_keeps_reachable (function : Function) (cfg : Cfg)
    (processed : optimizedBlocks library analysisResult cfg.blocks = some blocks) {fuel : Nat}
    (enough : cfg.blocks.length + 1 < fuel) :
    ∃ later, transformFunction library analysisResult function cfg fuel = some later ∧
      (function.body.entry ∈ cfg.labels → later.body.entry = function.body.entry ∧
        (later.body.basicBlocks.lookup function.body.entry).isSome) ∧
      (∀ label block, later.body.basicBlocks.lookup label = some block ↔
        blocks.lookup label = some block ∧ function.body.entry ∈ cfg.labels ∧
          Reaches (optimizedSuccessors cfg.labels blocks) function.body.entry label) ∧
      ∀ label block, later.body.basicBlocks.lookup label = some block →
        ∀ target ∈ getBlockSuccessors block.instructions, target ∈ cfg.labels →
          (later.body.basicBlocks.lookup target).isSome := by
  have ends : ∃ reachable, findReachableBlocks (optimizedSuccessors cfg.labels blocks) cfg.labels
      fuel function.body.entry = some reachable := by
    have isLength : cfg.labels.length = cfg.blocks.length := length_map _
    unfold findReachableBlocks
    split <;>
    · apply search_blocks_ends
      grind
  obtain ⟨reachable, found⟩ := ends
  have isReachable := find_reachable_blocks_spec found fun _ _ edge => of_decide_eq_true (mem_filter.mp edge).2
  have isLabel : ∀ label, (blocks.lookup label).isSome ↔ label ∈ cfg.labels := by
    intro label
    rw [AssociationList.lookup_is_some, optimized_labels processed]
    rfl
  have isKept : ∀ label block, (blocks.filter fun block => block.1 ∈ reachable).lookup label = some block ↔
      blocks.lookup label = some block ∧ label ∈ reachable := by
    intro label block
    rw [AssociationList.lookup_filter (fun label => decide (label ∈ reachable))]
    by_cases member : label ∈ reachable <;> simp [member]
  have keptSome : ∀ label ∈ reachable, label ∈ cfg.labels →
      ((blocks.filter fun block => block.1 ∈ reachable).lookup label).isSome := by
    intro label member known
    obtain ⟨block, isBlock⟩ := Option.isSome_iff_exists.mp ((isLabel label).mpr known)
    exact Option.isSome_iff_exists.mpr ⟨block, (isKept label block).mpr ⟨isBlock, member⟩⟩
  refine ⟨_, by rw [transformFunction, processed, Option.bind_eq_bind, Option.bind_some, found]; rfl,
    ?_, ?_, ?_⟩
  · intro known
    have starts := (isReachable _).mpr ⟨known, .refl⟩
    exact ⟨if_neg fun lost => lost.1 starts, keptSome _ starts known⟩
  · intro label block
    rw [isKept, isReachable]
  · intro label block kept target member known
    obtain ⟨isBlock, reached⟩ := (isKept label block).mp kept
    obtain ⟨hasEntry, leads⟩ := (isReachable label).mp reached
    apply keptSome target ((isReachable target).mpr ⟨hasEntry, leads.tail ?_⟩) known
    rw [optimizedSuccessors, isBlock, mem_filter, decide_eq_true_iff]
    exact ⟨member, known⟩

theorem transform_keeps_reachable_copying_loop :
    ∃ later, transformFunction .integral (fun _ => .empty) (plainFunction "f" copyingLoop.basicBlocks)
        (buildCfg copyingLoop) 9 = some later ∧ (later.body.basicBlocks.lookup "entry").isSome := by
  have processed : ∃ blocks, optimizedBlocks .integral (fun _ => .empty) (buildCfg copyingLoop).blocks =
      some blocks := ⟨_, rfl⟩
  obtain ⟨blocks, isBlocks⟩ := processed
  obtain ⟨later, ran, entry, -, -⟩ := transform_keeps_reachable (plainFunction "f" copyingLoop.basicBlocks)
    (buildCfg copyingLoop) isBlocks (by decide : (buildCfg copyingLoop).blocks.length + 1 < 9)
  exact ⟨later, ran, (entry (by decide)).2⟩

end Transform

end RustcCodegenJvm.Optimise1
