import RustcCodegenJvm.Optimise2.SlotAllocation

/-!
# Live locals keep apart

A live range holds every instruction where its local is live, and the linear scan
gives overlapping ranges disjoint slots. Three things are not covered: a wide
parameter local whose second half lies behind the parameters, locals that keep
their slots although they overlap, and locals that are live before any access.
-/

namespace RustcCodegenJvm.Optimise2

open Jvm Library GrowingVector List
open Library.LinearScan (Scan cells setOccupancy mem_cells)

/-! ### Live ranges hold what they were extended to -/

def Includes (range : Option LiveRange) (index width : Nat) : Prop :=
  ∃ live, range = some live ∧ live.first ≤ index ∧ index ≤ live.last ∧ width ≤ live.width

theorem extend_range_includes (index width : Nat) (range : Option LiveRange) :
    Includes (extendRange index width range) index width := by
  cases range with
  | none => exact ⟨_, rfl, Nat.le_refl _, Nat.le_refl _, Nat.le_refl _⟩
  | some live => exact ⟨_, rfl, Nat.min_le_right _ _, Nat.le_max_right _ _, Nat.le_max_right _ _⟩

theorem Includes.extend {range : Option LiveRange} {index width : Nat} (includes : Includes range index width)
    (later more : Nat) : Includes (extendRange later more range) index width := by
  obtain ⟨live, rfl, starts, ends, wide⟩ := includes
  refine ⟨_, rfl, ?_, ?_, ?_⟩
  · exact Nat.le_trans (Nat.min_le_left _ _) starts
  · exact Nat.le_trans ends (Nat.le_max_left _ _)
  · exact Nat.le_trans wide (Nat.le_max_left _ _)

def extendAll (visits : List (Nat × LocalRef)) (ranges : List (Option LiveRange)) : List (Option LiveRange) :=
  visits.foldl
    (fun ranges visit => update none ranges visit.2.index (extendRange visit.1 visit.2.width)) ranges

theorem visit_included {visits : List (Nat × LocalRef)} {ranges : List (Option LiveRange)}
    {visit : Nat × LocalRef} (member : visit ∈ visits) :
    Includes (get none (extendAll visits ranges) visit.2.index) visit.1 visit.2.width := by
  apply foldl_establishes (fun ranges => Includes (get none ranges visit.2.index) visit.1 visit.2.width) member
  · intro ranges
    rw [get_update, if_pos rfl]
    exact extend_range_includes _ _ _
  · intro ranges other includes
    rw [get_update]
    split_ifs with same
    · rw [← same]
      exact includes.extend _ _
    · exact includes

theorem linear_fold_eq (visits : List (Nat × LocalRef)) (ranges : List (Option LiveRange))
    (sorted : visits.Pairwise fun first second => first.1 ≤ second.1)
    (past : ∀ visit ∈ visits, ∀ slot live, get none ranges slot = some live →
      live.first ≤ visit.1 ∧ live.last ≤ visit.1) : visits.foldl
      (fun ranges access => update none ranges access.2.index (extendLinear access.1 access.2.width)) ranges =
        extendAll visits ranges := by
  induction visits generalizing ranges with
  | nil => rfl
  | cons visit rest ih =>
    have ⟨before, restSorted⟩ := pairwise_cons.mp sorted
    have same : extendLinear visit.1 visit.2.width (get none ranges visit.2.index) =
        extendRange visit.1 visit.2.width (get none ranges visit.2.index) := by
      cases found : get none ranges visit.2.index with
      | none => rfl
      | some live =>
        have bounds := past visit mem_cons_self _ _ found
        simp [extendLinear, extendRange, bounds.1, bounds.2]
    rw [foldl_cons, update_congr none same]
    apply ih _ restSorted
    intro next member slot live found
    have step := before next member
    rw [get_update] at found
    split_ifs at found with here
    · cases known : get none ranges visit.2.index with
      | none =>
        rw [known] at found
        cases found
        exact ⟨step, step⟩
      | some old =>
        have bounds := past visit mem_cons_self _ _ known
        rw [known] at found
        cases found
        dsimp only
        omega
    · exact past next (mem_cons_of_mem visit member) slot live found

variable {range : LiveRange}

section Ranges

variable {instructions : List Instruction} {exceptionTable : List ExceptionTableEntry}

theorem zip_idx_increasing {Value : Type} (values : List Value) :
    values.zipIdx.Pairwise fun first second => first.2 < second.2 := by
  have indices := pairwise_lt_range' (s := 0) (n := values.length)
  rw [← zipIdx_map_snd 0 values] at indices
  exact pairwise_map.mp indices

theorem indexed_accesses_sorted (instructions : List Instruction) :
    (indexedAccesses instructions).Pairwise fun first second => first.1 ≤ second.1 := by
  rw [indexedAccesses, pairwise_flatMap]
  constructor
  · intro entry _
    rw [pairwise_map]
    exact pairwise_of_forall fun _ _ => Nat.le_refl _
  · apply (zip_idx_increasing instructions).imp
    intro first second less x isFirst y isSecond
    obtain ⟨_, _, rfl⟩ := mem_map.mp isFirst
    obtain ⟨_, _, rfl⟩ := mem_map.mp isSecond
    exact Nat.le_of_lt less

theorem linear_live_ranges_eq (instructions : List Instruction) :
    computeLinearLiveRanges instructions = extendAll (indexedAccesses instructions) [] := by
  apply linear_fold_eq _ _ (indexed_accesses_sorted instructions)
  intro visit _ slot live found
  cases found

variable {index slot width : Nat}

section

variable (forward : hasBackwardControlFlow instructions exceptionTable = false)

include forward

theorem forward_edge {next : Nat}
    (edge : next ∈ flowSuccessors instructions exceptionTable index) : index < next := by
  rw [hasBackwardControlFlow, Bool.or_eq_false_iff, any_eq_false, any_eq_false] at forward
  unfold flowSuccessors at edge
  split at edge
  · next instruction found =>
    have member := (mem_filter.mp edge).1
    rcases mem_append.mp member with normal | handler
    · have ahead := forward.1 (instruction, index) (mem_zipIdx_iff_getElem?.mpr found)
      rw [Bool.not_eq_true, any_eq_false] at ahead
      simpa using ahead next normal
    · obtain ⟨entry, isEntry, isHandler⟩ := mem_filterMap.mp handler
      have ahead := forward.2 entry isEntry
      split_ifs at isHandler with holds
      cases isHandler
      simp only [decide_eq_true_eq] at ahead
      omega
  · cases edge

theorem ReadAhead.read_later (ahead : ReadAhead instructions exceptionTable slot width index) :
    ∃ (last : Nat) (instruction : Instruction), index ≤ last ∧ instructions[last]? = some instruction ∧
      localReads instruction = some ⟨slot, width⟩ := by
  induction ahead with
  | here found reads => exact ⟨_, _, Nat.le_refl _, found, reads⟩
  | later _ edge _ ih =>
    obtain ⟨last, instruction, behind, read⟩ := ih
    have step := forward_edge forward edge
    exact ⟨last, instruction, by omega, read⟩

theorem LiveAt.read_later (live : LiveAt instructions exceptionTable slot width index) :
    ∃ (last : Nat) (instruction : Instruction), index ≤ last ∧ instructions[last]? = some instruction ∧
      localReads instruction = some ⟨slot, width⟩ := by
  rcases live with ahead | ⟨next, edge, ahead⟩
  · exact ahead.read_later forward
  · obtain ⟨last, instruction, behind, read⟩ := ahead.read_later forward
    have step := forward_edge forward edge
    exact ⟨last, instruction, by omega, read⟩

/-! ### Locals that are written before -/

def Leads (instructions : List Instruction) (exceptionTable : List ExceptionTableEntry) : Nat → Nat → Prop :=
  Relation.ReflTransGen fun index next => next ∈ flowSuccessors instructions exceptionTable index

theorem leads_forward
    {later : Nat} (path : Leads instructions exceptionTable index later) : index ≤ later := by
  induction path with
  | refl => exact Nat.le_refl index
  | tail _ edge ih => exact Nat.le_trans ih (Nat.le_of_lt (forward_edge forward edge))

/-- A local that is read ahead is so from the start of a path, unless the path writes it. -/
theorem written_on_path {start : Nat} (path : Leads instructions exceptionTable start index)
    (ahead : ReadAhead instructions exceptionTable slot width index) :
    ReadAhead instructions exceptionTable slot width start ∨
      ∃ first, first ≤ index ∧ localDef instructions first = some slot := by
  induction path using Relation.ReflTransGen.head_induction_on with
  | refl => exact .inl ahead
  | @head source _ edge rest ih =>
    rcases ih with later | written
    · by_cases writes : localDef instructions source = some slot
      · have bound := leads_forward forward (Relation.ReflTransGen.head edge rest)
        exact .inr ⟨_, bound, writes⟩
      · exact .inl (.later writes edge later)
    · exact .inr written

end

/-- Every instruction can be reached, and only the locals of the parameters are read before they
are written. -/
structure Initialised (instructions : List Instruction) (exceptionTable : List ExceptionTableEntry)
    (fixedPrefixSlots : Nat) : Prop where
  reached : ∀ index, index < instructions.length → Leads instructions exceptionTable 0 index
  parameters : ∀ slot width, ReadAhead instructions exceptionTable slot width 0 → slot < fixedPrefixSlots

theorem Initialised.written {fixedPrefixSlots : Nat}
    (initialised : Initialised instructions exceptionTable fixedPrefixSlots)
    (forward : hasBackwardControlFlow instructions exceptionTable = false)
    (behind : fixedPrefixSlots ≤ slot) (live : LiveAt instructions exceptionTable slot width index) :
    ∃ first, first ≤ index ∧ localDef instructions first = some slot := by
  by_cases writes : localDef instructions index = some slot
  · exact ⟨index, Nat.le_refl index, writes⟩
  · have ahead : ReadAhead instructions exceptionTable slot width index := by
      rcases live with ahead | ⟨next, edge, ahead⟩
      · exact ahead
      · exact .later writes edge ahead
    rcases written_on_path forward (initialised.reached index ahead.inside) ahead with atStart | written
    · have inside := initialised.parameters slot width atStart
      omega
    · exact written

/-! ### Live ranges hold the instructions where a local is live -/

theorem access_included (forward : hasBackwardControlFlow instructions exceptionTable = false)
    {instruction : Instruction} {accessed : LocalRef} (found : instructions[index]? = some instruction)
    (isAccess : accessed ∈ localAccesses instruction) :
    Includes (get none (computeLiveRanges instructions exceptionTable) accessed.index) index accessed.width := by
  rw [computeLiveRanges, forward, if_neg Bool.false_ne_true, linear_live_ranges_eq]
  refine @visit_included (indexedAccesses instructions) _ (index, accessed) ?_
  exact mem_flatMap.mpr ⟨(instruction, index), mem_zipIdx_iff_getElem?.mpr found,
    mem_map.mpr ⟨accessed, isAccess, rfl⟩⟩

theorem live_included (backward : hasBackwardControlFlow instructions exceptionTable = true)
    (live : LiveAt instructions exceptionTable slot width index) :
    Includes (get none (computeLiveRanges instructions exceptionTable) slot) index width := by
  obtain ⟨last, instruction, found, reads⟩ := live.read
  obtain ⟨counted, wide⟩ := access_in_widths found (read_accessed reads)
  have occupies : slot ∈ occupyingLocals instructions
      (analyzeLocalLiveness instructions exceptionTable) index := by
    have isLocal : slot ∈ List.range (analyzeLocalLiveness instructions exceptionTable).widths.length :=
      mem_range.mpr counted
    rcases live_at_found live with before | after
    · simp only [occupyingLocals, mem_append, mem_filter]
      exact .inl (.inl (.inl ⟨isLocal, decide_eq_true before⟩))
    · simp only [occupyingLocals, mem_append, mem_filter]
      exact .inl (.inl (.inr ⟨isLocal, decide_eq_true after⟩))
  have visited : (index, ⟨slot, get 1 (localWidths instructions) slot⟩) ∈
      indexedLocals instructions (analyzeLocalLiveness instructions exceptionTable) :=
    mem_flatMap.mpr ⟨index, mem_range.mpr live.inside, mem_map.mpr ⟨slot, occupies, rfl⟩⟩
  rw [computeLiveRanges, if_pos backward]
  obtain ⟨range, isRange, starts, ends, width⟩ := visit_included visited
  exact ⟨range, isRange, starts, ends, Nat.le_trans wide width⟩

theorem live_has_range (live : LiveAt instructions exceptionTable slot width index) :
    ∃ range, get none (computeLiveRanges instructions exceptionTable) slot = some range ∧
      index ≤ range.last ∧ width ≤ range.width := by
  cases flow : hasBackwardControlFlow instructions exceptionTable with
  | true =>
    obtain ⟨range, isRange, _, ends, wide⟩ := live_included flow live
    exact ⟨range, isRange, ends, wide⟩
  | false =>
    obtain ⟨last, instruction, behind, found, reads⟩ := live.read_later flow
    obtain ⟨range, isRange, _, ends, wide⟩ := access_included flow found (read_accessed reads)
    exact ⟨range, isRange, Nat.le_trans behind ends, wide⟩

theorem live_range_started {fixedPrefixSlots : Nat}
    (initialised : hasBackwardControlFlow instructions exceptionTable = true ∨
      Initialised instructions exceptionTable fixedPrefixSlots) (behind : fixedPrefixSlots ≤ slot)
    (live : LiveAt instructions exceptionTable slot width index)
    (isRange : get none (computeLiveRanges instructions exceptionTable) slot = some range) :
    range.first ≤ index := by
  cases flow : hasBackwardControlFlow instructions exceptionTable with
  | true =>
    obtain ⟨same, isSame, starts, _⟩ := live_included flow live
    rw [isRange] at isSame
    cases isSame
    exact starts
  | false =>
    rw [flow] at initialised
    obtain ⟨first, before, writes⟩ :=
      (initialised.resolve_left Bool.false_ne_true).written flow behind live
    obtain ⟨accessed, isWrite, isSlot⟩ := Option.map_eq_some_iff.mp writes
    obtain ⟨instruction, found, isWritten⟩ := Option.bind_eq_some_iff.mp isWrite
    have isAccess : accessed ∈ localAccesses instruction := by simp [localAccesses, isWritten]
    obtain ⟨same, isSame, starts, _⟩ := access_included flow found isAccess
    rw [isSlot, isRange] at isSame
    cases isSame
    exact Nat.le_trans starts before

end Ranges

/-! ### Fixed slots -/

section Fixed

variable {liveRanges : List (Option LiveRange)} {maxLocals fixedPrefixSlots : Nat} {pinnedLocalSlots : List Nat}

theorem pinned_occupied {pinned : List (Nat × LiveRange)} {occupied : List Bool} {slot : Nat}
    (member : (slot, range) ∈ pinned) {cell : Nat} (inside : cell ∈ cells slot range.width) :
    get false (pinned.foldl
      (fun occupied pinned => setSlotOccupancy occupied pinned.1 pinned.2.width true) occupied) cell = true := by
  apply foldl_establishes (get false · cell = true) member
  · intro occupied
    rw [mem_cells] at inside
    rw [setSlotOccupancy, setOccupancy, get_fill_range, if_pos inside]
  · intro occupied other isOccupied
    simp only [setSlotOccupancy, setOccupancy, get_fill_range]
    split_ifs
    · rfl
    · exact isOccupied

/-- Everything a map sends somewhere stays where it is. -/
def Stays (slotMap : FiniteMap Nat Nat) : Prop := ∀ slot target, slotMap.get slot = some target → target = slot

theorem Stays.insert {slotMap : FiniteMap Nat Nat} (stays : Stays slotMap) (slot : Nat) :
    Stays (slotMap.insert slot slot) := by
  intro other target found
  rw [FiniteMap.get_insert] at found
  split_ifs at found with same
  · cases found
    exact same.symm
  · exact stays other target found

theorem fixed_slot_map_stays : Stays (fixedSlotMap liveRanges maxLocals fixedPrefixSlots pinnedLocalSlots) := by
  have parameters : Stays ((List.range (min fixedPrefixSlots maxLocals)).foldl
      (fun slotMap slot => slotMap.insert slot slot) FiniteMap.empty) := by
    apply List.foldlRecOn
    · intro slot target found
      cases found
    · intro slotMap stays slot _
      exact stays.insert slot
  apply List.foldlRecOn
  · exact parameters
  · intro slotMap stays pinned _
    exact stays.insert pinned.1

end Fixed

/-! ### Placements in the map -/

variable {placement : LinearScan.Interval Nat × Nat}

section Placements

variable {placed : List (LinearScan.Interval Nat × Nat)} {slotMap : FiniteMap Nat Nat}

def insertPlaced (placed : List (LinearScan.Interval Nat × Nat)) (slotMap : FiniteMap Nat Nat) : FiniteMap Nat Nat :=
  placed.foldl (fun slotMap placement => slotMap.insert placement.1.key placement.2) slotMap

theorem get_insert_placed_other {slot : Nat} (other : ∀ placement ∈ placed, placement.1.key ≠ slot) :
    (insertPlaced placed slotMap).get slot = slotMap.get slot := by
  induction placed generalizing slotMap with
  | nil => rfl
  | cons first rest ih =>
    have different := other first mem_cons_self
    refine (ih fun placement member => other placement (mem_cons_of_mem first member)).trans ?_
    rw [FiniteMap.get_insert, if_neg (Ne.symm different)]

theorem get_insert_placed
    (distinct : placed.Pairwise fun first second => first.1.key ≠ second.1.key) (member : placement ∈ placed) :
    (insertPlaced placed slotMap).get placement.1.key = some placement.2 := by
  induction placed generalizing slotMap with
  | nil => cases member
  | cons first rest ih =>
    have ⟨apart, restDistinct⟩ := pairwise_cons.mp distinct
    rcases mem_cons.mp member with rfl | later
    · rw [insertPlaced, foldl_cons]
      refine (get_insert_placed_other fun other isOther => (apart other isOther).symm).trans ?_
      rw [FiniteMap.get_insert, if_pos rfl]
    · exact ih restDistinct later

end Placements

/-! ### Intervals -/

variable {interval : LinearScan.Interval Nat}

section Intervals

variable {liveRanges : List (Option LiveRange)} {fixedPrefixSlots : Nat} {pinnedLocalSlots : List Nat}

instance : Std.Total StartsBefore where
  total first second := by
    unfold StartsBefore
    omega

instance : IsTrans (LinearScan.Interval Nat) StartsBefore where
  trans first second third := by
    unfold StartsBefore
    omega

theorem intervals_sorted : (intervals liveRanges fixedPrefixSlots pinnedLocalSlots).Pairwise
    fun first second => first.first ≤ second.first := by
  apply (pairwise_insertionSort StartsBefore _).imp
  intro first second before
  unfold StartsBefore at before
  omega

theorem interval_of_eq {entry : Option LiveRange × Nat}
    (isInterval : intervalOf fixedPrefixSlots pinnedLocalSlots entry = some interval) :
    interval.key = entry.2 ∧ fixedPrefixSlots ≤ entry.2 ∧ entry.2 ∉ pinnedLocalSlots ∧
      entry.1 = some ⟨interval.width, interval.first, interval.last⟩ := by
  obtain ⟨range, isRange, isInterval⟩ := Option.bind_eq_some_iff.mp isInterval
  split_ifs at isInterval with allocated
  cases isInterval
  exact ⟨rfl, allocated.1, allocated.2, isRange⟩

theorem get_range_eq {slot : Nat} :
    get none liveRanges slot = some range ↔ liveRanges[slot]? = some (some range) := by
  unfold GrowingVector.get
  cases liveRanges[slot]? <;> simp

theorem interval_allocated
    (member : interval ∈ intervals liveRanges fixedPrefixSlots pinnedLocalSlots) :
    fixedPrefixSlots ≤ interval.key ∧ interval.key ∉ pinnedLocalSlots ∧
      get none liveRanges interval.key = some ⟨interval.width, interval.first, interval.last⟩ := by
  rw [intervals, mem_insertionSort, mem_filterMap] at member
  obtain ⟨entry, isEntry, isInterval⟩ := member
  obtain ⟨isKey, behind, unpinned, isRange⟩ := interval_of_eq isInterval
  have found := mem_zipIdx_iff_getElem?.mp isEntry
  rw [isRange] at found
  rw [isKey]
  exact ⟨behind, unpinned, get_range_eq.mpr found⟩

theorem mem_intervals {slot : Nat} (behind : fixedPrefixSlots ≤ slot)
    (unpinned : slot ∉ pinnedLocalSlots) (isRange : get none liveRanges slot = some range) :
    ⟨slot, range.first, range.last, range.width⟩ ∈ intervals liveRanges fixedPrefixSlots pinnedLocalSlots := by
  rw [intervals, mem_insertionSort, mem_filterMap]
  refine ⟨(some range, slot), mem_zipIdx_iff_getElem?.mpr (get_range_eq.mp isRange), ?_⟩
  rw [intervalOf, Option.bind_some, if_pos ⟨behind, unpinned⟩]

theorem intervals_distinct : (intervals liveRanges fixedPrefixSlots pinnedLocalSlots).Pairwise
    fun first second => first.key ≠ second.key := by
  have symmetric : ∀ {first second : LinearScan.Interval Nat}, first.key ≠ second.key → second.key ≠ first.key :=
    fun different => different.symm
  apply ((perm_insertionSort StartsBefore _).pairwise_iff symmetric).mpr
  rw [pairwise_filterMap]
  apply (zip_idx_increasing liveRanges).imp
  intro first second less interval isInterval other isOther
  rw [(interval_of_eq isInterval).1, (interval_of_eq isOther).1]
  exact Nat.ne_of_lt less

end Intervals

/-! ### Allocated slots -/

section Allocated

variable {instructions : List Instruction} {exceptionTable : List ExceptionTableEntry}
  {maxLocals fixedPrefixSlots : Nat} {pinnedLocalSlots : List Nat} {slotMap : FiniteMap Nat Nat}
  {index slot first second firstWidth secondWidth : Nat}

section

variable (allocated : allocateLocalSlots instructions maxLocals fixedPrefixSlots pinnedLocalSlots exceptionTable = some slotMap)

include allocated

theorem allocated_slots : ∃ scan : Scan Nat, slotMap = insertPlaced scan.placed (fixedSlotMap
        (computeLiveRanges instructions exceptionTable) maxLocals fixedPrefixSlots pinnedLocalSlots) ∧
      scan.placed.map Prod.fst = intervals (computeLiveRanges instructions exceptionTable)
        fixedPrefixSlots pinnedLocalSlots ∧
      ∃ time, LinearScan.Sound (fun cell => get false (fixedOccupancy
        (computeLiveRanges instructions exceptionTable) maxLocals fixedPrefixSlots pinnedLocalSlots) cell = true)
          fixedPrefixSlots time scan := by
  obtain ⟨scan, ran, isMap⟩ := Option.map_eq_some_iff.mp allocated
  refine ⟨scan, isMap.symm, ?_⟩
  have starts : LinearScan.Sound (fun cell => get false (fixedOccupancy
      (computeLiveRanges instructions exceptionTable) maxLocals fixedPrefixSlots pinnedLocalSlots) cell = true)
        fixedPrefixSlots 0 (⟨fixedOccupancy (computeLiveRanges instructions exceptionTable) maxLocals
          fixedPrefixSlots pinnedLocalSlots, [], []⟩ : Scan Nat) := by
    constructor
    case kept => exact fun _ reserved => reserved
    all_goals simp
  obtain ⟨sound, isPlaced⟩ := starts.run (fun _ _ => Nat.zero_le _) intervals_sorted ran
  exact ⟨isPlaced, sound⟩

def IsFixed (fixedPrefixSlots : Nat) (pinnedLocalSlots : List Nat) (slot : Nat) : Prop :=
  slot < fixedPrefixSlots ∨ slot ∈ pinnedLocalSlots

theorem fixed_local_stays (isFixed : IsFixed fixedPrefixSlots pinnedLocalSlots slot) :
    mappedSlot slotMap slot = slot := by
  obtain ⟨scan, isMap, isPlaced, _⟩ := allocated_slots allocated
  have unplaced : ∀ placement ∈ scan.placed, placement.1.key ≠ slot := by
    rintro placement member rfl
    have isInterval := mem_map_of_mem (f := Prod.fst) member
    rw [isPlaced] at isInterval
    have ⟨behind, unpinned, _⟩ := interval_allocated isInterval
    rcases isFixed with parameter | pinned
    · omega
    · exact unpinned pinned
  rw [mappedSlot, isMap, get_insert_placed_other unplaced]
  cases found : (fixedSlotMap (computeLiveRanges instructions exceptionTable) maxLocals fixedPrefixSlots
      pinnedLocalSlots).get slot with
  | none => rfl
  | some target => exact fixed_slot_map_stays slot target found

end

section Placement

variable {liveRanges : List (Option LiveRange)} {scan : Scan Nat}

variable (isPlaced : scan.placed.map Prod.fst = intervals liveRanges fixedPrefixSlots pinnedLocalSlots)

include isPlaced

theorem placed_of_range (unfixed : ¬IsFixed fixedPrefixSlots pinnedLocalSlots slot)
    (isRange : get none liveRanges slot = some range) :
    ∃ target, (⟨slot, range.first, range.last, range.width⟩, target) ∈ scan.placed := by
  have ⟨behind, unpinned⟩ := not_or.mp unfixed
  have member := mem_intervals (Nat.le_of_not_lt behind) unpinned isRange
  rw [← isPlaced] at member
  obtain ⟨⟨interval, target⟩, isPlacement, rfl⟩ := mem_map.mp member
  exact ⟨target, isPlacement⟩

theorem mapped_of_placed (member : placement ∈ scan.placed) :
    mappedSlot (insertPlaced scan.placed slotMap) placement.1.key = placement.2 := by
  have distinct : scan.placed.Pairwise fun first second => first.1.key ≠ second.1.key := by
    have keys : (intervals liveRanges fixedPrefixSlots pinnedLocalSlots).Pairwise
        fun first second => first.key ≠ second.key := intervals_distinct
    rw [← isPlaced, pairwise_map] at keys
    exact keys
  rw [mappedSlot, get_insert_placed distinct member, Option.getD_some]

end Placement

/-! ### Live locals keep apart -/

/-- Locals that are live at one instruction have disjoint slots. -/
def KeepsApart (instructions : List Instruction) (exceptionTable : List ExceptionTableEntry)
    (slotOf : Nat → Nat) (counted : Nat → Prop) : Prop :=
  ∀ index first second firstWidth secondWidth, first ≠ second → counted first → counted second →
    LiveAt instructions exceptionTable first firstWidth index →
      LiveAt instructions exceptionTable second secondWidth index →
        Disjoint (cells (slotOf first) firstWidth) (cells (slotOf second) secondWidth)

theorem cells_subset {width wider : Nat} (wide : width ≤ wider) : cells slot width ⊆ cells slot wider := by
  intro cell
  rw [mem_cells, mem_cells]
  omega

/-- No parameter local that is live reaches behind the parameters. -/
def ParametersWhole (instructions : List Instruction) (exceptionTable : List ExceptionTableEntry)
    (fixedPrefixSlots : Nat) : Prop :=
  ∀ index slot width, slot < fixedPrefixSlots → LiveAt instructions exceptionTable slot width index →
    slot + width ≤ fixedPrefixSlots

section

variable (allocated : allocateLocalSlots instructions maxLocals fixedPrefixSlots pinnedLocalSlots exceptionTable = some slotMap)

include allocated

theorem fixed_and_allocated_apart
    (whole : ParametersWhole instructions exceptionTable fixedPrefixSlots)
    (isFixed : IsFixed fixedPrefixSlots pinnedLocalSlots first)
    (unfixed : ¬IsFixed fixedPrefixSlots pinnedLocalSlots second)
    (firstLive : LiveAt instructions exceptionTable first firstWidth index)
    (secondLive : LiveAt instructions exceptionTable second secondWidth index) :
    Disjoint (cells (mappedSlot slotMap first) firstWidth) (cells (mappedSlot slotMap second) secondWidth) := by
  rw [fixed_local_stays allocated isFixed]
  obtain ⟨scan, isMap, isPlaced, time, sound⟩ := allocated_slots allocated
  obtain ⟨range, isRange, _, wide⟩ := live_has_range secondLive
  obtain ⟨target, placed⟩ := placed_of_range isPlaced unfixed isRange
  have isTarget : mappedSlot slotMap second = target := by
    rw [isMap]
    exact mapped_of_placed isPlaced placed
  have placement := sound.placed _ placed
  rw [isTarget]
  apply Finset.disjoint_of_subset_right (cells_subset wide)
  rw [Finset.disjoint_left]
  intro cell inside taken
  by_cases parameter : first < fixedPrefixSlots
  · -- allocated slots lie behind the parameters
    have bound := whole index first firstWidth parameter firstLive
    have above := placement.above
    rw [mem_cells] at inside taken
    omega
  · have pinned := isFixed.resolve_left parameter
    obtain ⟨firstRange, isFirst, _, firstWide⟩ := live_has_range firstLive
    apply placement.free cell taken
    refine pinned_occupied (mem_filterMap.mpr ⟨_, pinned, ?_⟩) (cells_subset firstWide inside)
    rw [if_pos (Nat.le_of_not_lt parameter), isFirst, Option.map_some]

theorem allocated_apart (initialised : hasBackwardControlFlow instructions exceptionTable = true ∨
      Initialised instructions exceptionTable fixedPrefixSlots) (different : first ≠ second)
    (firstUnfixed : ¬IsFixed fixedPrefixSlots pinnedLocalSlots first)
    (secondUnfixed : ¬IsFixed fixedPrefixSlots pinnedLocalSlots second)
    (firstLive : LiveAt instructions exceptionTable first firstWidth index)
    (secondLive : LiveAt instructions exceptionTable second secondWidth index) :
    Disjoint (cells (mappedSlot slotMap first) firstWidth) (cells (mappedSlot slotMap second) secondWidth) := by
  obtain ⟨scan, isMap, isPlaced, time, sound⟩ := allocated_slots allocated
  have each {slot width : Nat} (unfixed : ¬IsFixed fixedPrefixSlots pinnedLocalSlots slot)
      (live : LiveAt instructions exceptionTable slot width index) :
      ∃ placement ∈ scan.placed, placement.1.key = slot ∧ mappedSlot slotMap slot = placement.2 ∧
        placement.1.contains index ∧ width ≤ placement.1.width := by
    obtain ⟨range, isRange, ends, wide⟩ := live_has_range live
    have starts := live_range_started initialised (Nat.le_of_not_lt (not_or.mp unfixed).1) live isRange
    obtain ⟨target, placed⟩ := placed_of_range isPlaced unfixed isRange
    refine ⟨_, placed, rfl, ?_, ⟨starts, ends⟩, wide⟩
    rw [isMap]
    exact mapped_of_placed isPlaced placed
  obtain ⟨firstPlaced, firstMember, firstKey, isFirst, firstTime, firstWide⟩ := each firstUnfixed firstLive
  obtain ⟨secondPlaced, secondMember, secondKey, isSecond, secondTime, secondWide⟩ :=
    each secondUnfixed secondLive
  have distinct : firstPlaced ≠ secondPlaced := by
    rintro rfl
    exact different (firstKey.symm.trans secondKey)
  have apart := sound.apart.forall firstMember secondMember distinct index firstTime secondTime
  rw [isFirst, isSecond]
  exact Finset.disjoint_of_subset_left (cells_subset firstWide)
    (Finset.disjoint_of_subset_right (cells_subset secondWide) apart)

end

end Allocated

def loopWithLong : List Instruction :=
  [.lconst 0, .store .long (.fixed 2), .iconst .zero, .store .int (.narrow 5), .load .long (.fixed 2), .pop2,
    .load .int (.narrow 5), .branch .ifeq 2, .voidReturn]

def longInParameter : List Instruction :=
  [.lconst 0, .store .long (.fixed 0), .iconst .zero, .store .int (.narrow 5), .load .long (.fixed 0), .pop2,
    .load .int (.narrow 5), .pop, .voidReturn]

end RustcCodegenJvm.Optimise2
