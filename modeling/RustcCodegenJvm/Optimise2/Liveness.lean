import RustcCodegenJvm.Library.Dataflow
import RustcCodegenJvm.Library.GrowingVector
import RustcCodegenJvm.Optimise2.Instructions

/-!
# Liveness of locals

`analyze_local_liveness` of `lower2/optimise2.rs`: a backward dataflow problem
over single instructions, where every instruction of a protected range may also
go on at its handler. The bit sets of the source are finite sets here.
-/

namespace RustcCodegenJvm.Optimise2

open Jvm Library GrowingVector List

section Analysis

variable (instructions : List Instruction) (exceptionTable : List ExceptionTableEntry)

def handlerSuccessors (index : Nat) : List Nat :=
  exceptionTable.filterMap fun entry =>
    if entry.handlerPc < instructions.length ∧ entry.rangeStart ≤ index ∧
        index < min entry.rangeEnd instructions.length then some entry.handlerPc
    else none

def flowSuccessors (index : Nat) : List Nat :=
  match instructions[index]? with
  | some instruction =>
    (instructionSuccessors index instruction instructions.length ++
      handlerSuccessors instructions exceptionTable index).filter (· < instructions.length)
  | none => []

def flowPredecessors (index : Nat) : List Nat :=
  (List.range instructions.length).filter fun source =>
    index ∈ flowSuccessors instructions exceptionTable source

def localUse (index : Nat) : Option Nat := (instructions[index]?.bind localReads).map LocalRef.index

def localDef (index : Nat) : Option Nat := (instructions[index]?.bind localWrites).map LocalRef.index

def liveBefore (index : Nat) (liveAfter : Finset Nat) : Finset Nat :=
  let withoutDef :=
    match localDef instructions index with
    | some slot => liveAfter.erase slot
    | none => liveAfter
  match localUse instructions index with
  | some slot => insert slot withoutDef
  | none => withoutDef

def livenessProblem : Dataflow.Problem Nat (Finset Nat) where
  gather index liveIn := (flowSuccessors instructions exceptionTable index).toFinset.biUnion liveIn
  transfer index liveAfter := liveBefore instructions index liveAfter
  dependents := flowPredecessors instructions exceptionTable

def livenessStart : Dataflow.Progress Nat (Finset Nat) where
  input _ := ∅
  output _ := ∅
  pending := (List.range instructions.length).reverse

def localWidths : List Nat :=
  (instructions.flatMap localAccesses).foldl
    (fun widths accessed => update 1 widths accessed.index fun width => max width accessed.width) []

def localCount : Nat := (localWidths instructions).length

/-- Rounds that suffice: the set of an instruction grows at most as often as there are locals. -/
def livenessFuel : Nat :=
  instructions.length * localCount instructions * (instructions.length + 1) + instructions.length + 1

structure LocalLiveness where
  widths : List Nat
  liveIn : Nat → Finset Nat
  liveOut : Nat → Finset Nat

def analyzeLocalLiveness : LocalLiveness :=
  let solved := ((livenessProblem instructions exceptionTable).run (livenessFuel instructions)
    (livenessStart instructions)).getD (livenessStart instructions)
  ⟨localWidths instructions, solved.output, solved.input⟩

end Analysis

/-! ### Widths -/

section Widths

theorem widths_fold {accesses : List LocalRef} {accessed : LocalRef} (member : accessed ∈ accesses)
    (widths : List Nat) :
    let noted := accesses.foldl
      (fun widths accessed => update 1 widths accessed.index fun width => max width accessed.width) widths
    accessed.index < noted.length ∧ accessed.width ≤ get 1 noted accessed.index := by
  apply foldl_establishes (fun noted => accessed.index < noted.length ∧
    accessed.width ≤ get 1 noted accessed.index) member
  · intro widths
    rw [length_update, get_update, if_pos rfl]
    omega
  · intro widths other ⟨inside, wide⟩
    rw [length_update, get_update]
    refine ⟨by omega, ?_⟩
    split_ifs with same
    · rw [← same]
      exact Nat.le_trans wide (Nat.le_max_left _ _)
    · exact wide

variable {instructions : List Instruction} {index : Nat} {instruction : Instruction} {accessed : LocalRef}

theorem access_in_widths (found : instructions[index]? = some instruction)
    (isAccess : accessed ∈ localAccesses instruction) :
    accessed.index < localCount instructions ∧ accessed.width ≤ get 1 (localWidths instructions) accessed.index := by
  apply widths_fold _ []
  exact mem_flatMap.mpr ⟨instruction, mem_of_getElem? found, isAccess⟩

end Widths

/-! ### The analysis ends -/

section Solution

variable {instructions : List Instruction} {exceptionTable : List ExceptionTableEntry}
  {index slot source : Nat}

theorem local_use_counted (uses : localUse instructions index = some slot) :
    slot < localCount instructions := by
  obtain ⟨accessed, reads, rfl⟩ := Option.map_eq_some_iff.mp uses
  obtain ⟨instruction, found, isRead⟩ := Option.bind_eq_some_iff.mp reads
  exact (access_in_widths found (read_accessed isRead)).1

theorem mem_live_before {liveAfter : Finset Nat} : slot ∈ liveBefore instructions index liveAfter ↔
      localUse instructions index = some slot ∨ slot ∈ liveAfter ∧ localDef instructions index ≠ some slot := by
  unfold liveBefore
  cases localUse instructions index <;> cases localDef instructions index <;> simp <;> grind

variable {liveIn : Nat → Finset Nat}

theorem mem_gather : slot ∈ (livenessProblem instructions exceptionTable).gather index liveIn ↔
      ∃ next ∈ flowSuccessors instructions exceptionTable index, slot ∈ liveIn next := by
  simp [livenessProblem]

theorem mem_next : slot ∈ (livenessProblem instructions exceptionTable).next index liveIn ↔
      localUse instructions index = some slot ∨
        (∃ next ∈ flowSuccessors instructions exceptionTable index, slot ∈ liveIn next) ∧
          localDef instructions index ≠ some slot := by
  rw [← mem_gather]
  exact mem_live_before

theorem mem_flow_predecessors : source ∈ flowPredecessors instructions exceptionTable index ↔
      source < instructions.length ∧ index ∈ flowSuccessors instructions exceptionTable source := by
  simp [flowPredecessors]

theorem liveness_monotone (instructions : List Instruction) (exceptionTable : List ExceptionTableEntry) :
    Dataflow.Problem.Monotone (range instructions.length)
      (fun live => live ⊆ Finset.range (localCount instructions)) Finset.card (localCount instructions)
      (livenessProblem instructions exceptionTable) where
  mono index liveIn larger _ _ below := by
    intro slot member
    rw [mem_next] at member ⊢
    rcases member with uses | ⟨⟨next, isNext, live⟩, kept⟩
    · exact .inl uses
    · exact .inr ⟨⟨next, isNext, below next live⟩, kept⟩
  keepsValid index liveIn valid := by
    intro slot member
    rw [mem_next] at member
    rcases member with uses | ⟨⟨next, isNext, live⟩, kept⟩
    · exact Finset.mem_range.mpr (local_use_counted uses)
    · exact valid next live
  grows live larger below different :=
    Finset.card_lt_card (Finset.ssubset_iff_subset_ne.mpr ⟨below, different⟩)
  bounded live valid := by
    have bound := Finset.card_le_card valid
    rwa [Finset.card_range] at bound
  dependentsInNodes index _ dependent member := by
    rw [livenessProblem, mem_flow_predecessors] at member
    exact mem_range.mpr member.1

theorem liveness_start_ascends (instructions : List Instruction)
    (exceptionTable : List ExceptionTableEntry) :
    Dataflow.Problem.Ascends (range instructions.length)
      (fun live => live ⊆ Finset.range (localCount instructions))
      (livenessProblem instructions exceptionTable) (livenessStart instructions) where
  rises _ := Finset.empty_subset _
  isValid _ := Finset.empty_subset _
  inNodes _ member := mem_reverse.mp member
  distinct := nodup_reverse.mpr nodup_range

theorem liveness_runs (instructions : List Instruction) (exceptionTable : List ExceptionTableEntry) :
    ∃ solved, (livenessProblem instructions exceptionTable).run (livenessFuel instructions)
      (livenessStart instructions) = some solved := by
  apply Dataflow.Problem.run_ends_within (liveness_monotone instructions exceptionTable)
    (liveness_start_ascends instructions exceptionTable)
  simp [Dataflow.Problem.potential, Dataflow.Problem.room, livenessStart, livenessFuel]

theorem flow_source_inside
    (edge : index ∈ flowSuccessors instructions exceptionTable source) : source < instructions.length := by
  unfold flowSuccessors at edge
  split at edge
  · next found => exact (List.getElem?_eq_some_iff.mp found).1
  · cases edge

theorem liveness_local : (livenessProblem instructions exceptionTable).Local := by
  intro index other liveIn live independent
  ext slot
  rw [mem_gather, mem_gather]
  apply exists_congr
  intro next
  apply and_congr_right
  intro isNext
  have different : next ≠ other := by
    rintro rfl
    exact independent (mem_flow_predecessors.mpr ⟨flow_source_inside isNext, isNext⟩)
  rw [Function.update_of_ne different]

theorem liveness_solved (inside : index < instructions.length) :
    (∀ slot, slot ∈ (analyzeLocalLiveness instructions exceptionTable).liveOut index ↔
      ∃ next ∈ flowSuccessors instructions exceptionTable index,
        slot ∈ (analyzeLocalLiveness instructions exceptionTable).liveIn next) ∧
      ∀ slot, slot ∈ (analyzeLocalLiveness instructions exceptionTable).liveIn index ↔
        localUse instructions index = some slot ∨
          slot ∈ (analyzeLocalLiveness instructions exceptionTable).liveOut index ∧
            localDef instructions index ≠ some slot := by
  obtain ⟨solved, ran⟩ := liveness_runs instructions exceptionTable
  have queued : ∀ other ∈ range instructions.length,
      other ∈ (livenessStart instructions).pending ∨
        (livenessProblem instructions exceptionTable).SolvedAt (livenessStart instructions) other :=
    fun other member => .inl (mem_reverse.mpr member)
  have equations := Dataflow.Problem.run_solves liveness_local queued ran index (mem_range.mpr inside)
  unfold analyzeLocalLiveness
  rw [ran]
  obtain ⟨gathered, transferred⟩ := equations
  constructor
  · intro slot
    rw [← mem_gather]
    dsimp only [Option.getD_some]
    rw [gathered]
  · intro slot
    rw [← mem_live_before]
    dsimp only [Option.getD_some]
    rw [transferred]
    rfl

end Solution

/-! ### Paths -/

section Paths

variable (instructions : List Instruction) (exceptionTable : List ExceptionTableEntry) (slot width : Nat)

/-- From the instruction on, some path reads the local before it writes it. -/
inductive ReadAhead : Nat → Prop
  | here {index : Nat} {instruction : Instruction} (found : instructions[index]? = some instruction)
      (reads : localReads instruction = some ⟨slot, width⟩) : ReadAhead index
  | later {index next : Nat} (kept : localDef instructions index ≠ some slot)
      (edge : next ∈ flowSuccessors instructions exceptionTable index) (ahead : ReadAhead next) :
      ReadAhead index

/-- The local is live before the instruction or after it. -/
def LiveAt (index : Nat) : Prop :=
  ReadAhead instructions exceptionTable slot width index ∨
    ∃ next ∈ flowSuccessors instructions exceptionTable index,
      ReadAhead instructions exceptionTable slot width next

end Paths

section Sound

variable {instructions : List Instruction} {exceptionTable : List ExceptionTableEntry} {slot width : Nat}
  {index : Nat} (ahead : ReadAhead instructions exceptionTable slot width index)

include ahead in
theorem ReadAhead.inside : index < instructions.length := by
  cases ahead with
  | here found => exact (List.getElem?_eq_some_iff.mp found).1
  | later _ edge => exact flow_source_inside edge

theorem ReadAhead.read (ahead : ReadAhead instructions exceptionTable slot width index) :
    ∃ (last : Nat) (instruction : Instruction), instructions[last]? = some instruction ∧
      localReads instruction = some ⟨slot, width⟩ := by
  induction ahead with
  | here found reads => exact ⟨_, _, found, reads⟩
  | later _ _ _ ih => exact ih

theorem LiveAt.read (live : LiveAt instructions exceptionTable slot width index) :
    ∃ (last : Nat) (instruction : Instruction), instructions[last]? = some instruction ∧
      localReads instruction = some ⟨slot, width⟩ := by
  rcases live with ahead | ⟨next, _, ahead⟩
  · exact ahead.read
  · exact ahead.read

variable (live : LiveAt instructions exceptionTable slot width index)

include live in
theorem LiveAt.inside : index < instructions.length := by
  rcases live with ahead | ⟨next, edge, _⟩
  · exact ahead.inside
  · exact flow_source_inside edge

include ahead in
theorem read_ahead_live :
    slot ∈ (analyzeLocalLiveness instructions exceptionTable).liveIn index := by
  induction ahead with
  | here found reads =>
    have inside := (List.getElem?_eq_some_iff.mp found).1
    rw [(liveness_solved inside).2]
    left
    simp [localUse, found, reads]
  | later kept edge _ ih =>
    rw [(liveness_solved (flow_source_inside edge)).2, (liveness_solved (flow_source_inside edge)).1]
    exact .inr ⟨⟨_, edge, ih⟩, kept⟩

include live in
/-- The analysis finds every local that is live on some path. -/
theorem live_at_found : slot ∈ (analyzeLocalLiveness instructions exceptionTable).liveIn index ∨
      slot ∈ (analyzeLocalLiveness instructions exceptionTable).liveOut index := by
  rcases live with ahead | ⟨next, edge, ahead⟩
  · exact .inl (read_ahead_live ahead)
  · right
    rw [(liveness_solved (flow_source_inside edge)).1]
    exact ⟨next, edge, read_ahead_live ahead⟩

/-- A visit puts a local into a set only where some path reads it. -/
theorem visit_read_ahead {progress : Dataflow.Progress Nat (Finset Nat)} {node : Nat} {rest : List Nat}
    (justified : ∀ index slot, slot ∈ progress.output index →
      ∃ width, ReadAhead instructions exceptionTable slot width index) (index slot : Nat)
    (member : slot ∈ ((livenessProblem instructions exceptionTable).visit progress node rest).output index) :
    ∃ width, ReadAhead instructions exceptionTable slot width index := by
  unfold Dataflow.Problem.visit at member
  split at member
  · exact justified index slot member
  · dsimp only at member
    by_cases same : index = node
    · rw [same, Function.update_self, mem_next] at member
      rw [same]
      rcases member with uses | ⟨⟨next, edge, live⟩, kept⟩
      · obtain ⟨⟨_, width⟩, reads, rfl⟩ := Option.map_eq_some_iff.mp uses
        obtain ⟨instruction, found, isRead⟩ := Option.bind_eq_some_iff.mp reads
        exact ⟨width, .here found isRead⟩
      · obtain ⟨width, ahead⟩ := justified next slot live
        exact ⟨width, .later kept edge ahead⟩
    · rw [Function.update_of_ne same] at member
      exact justified index slot member

/-- The set before an instruction has exactly the locals that some path from it reads before it writes
them. -/
theorem local_liveness_exact (instructions : List Instruction) (exceptionTable : List ExceptionTableEntry)
    (index slot : Nat) : slot ∈ (analyzeLocalLiveness instructions exceptionTable).liveIn index ↔
      ∃ width, ReadAhead instructions exceptionTable slot width index := by
  constructor
  · obtain ⟨solved, ran⟩ := liveness_runs instructions exceptionTable
    have justified := Dataflow.Problem.run_invariant
      (fun progress => ∀ index slot, slot ∈ progress.output index →
        ∃ width, ReadAhead instructions exceptionTable slot width index)
      (fun _ _ _ justified _ => visit_read_ahead justified)
      (fun _ _ member => absurd member (Finset.notMem_empty _)) ran
    unfold analyzeLocalLiveness
    rw [ran]
    exact justified.1 index slot
  · rintro ⟨width, ahead⟩
    exact read_ahead_live ahead

end Sound

end RustcCodegenJvm.Optimise2
