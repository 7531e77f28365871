import RustcCodegenJvm.Library.FiniteMap
import RustcCodegenJvm.Library.LinearScan
import RustcCodegenJvm.Optimise2.Liveness

/-!
# Allocation of local slots

`allocate_local_slots` of `lower2/optimise2.rs`. The locals of the parameters and
the pinned locals keep their slots; the others get the first free ones in the
order in which their live ranges start. Without backward control flow a live
range goes from the first access to the last, otherwise it is the hull of the
instructions where the local is live.
-/

namespace RustcCodegenJvm.Optimise2

open Jvm Library GrowingVector
open Library.LinearScan (Scan cells setOccupancy)

/-! ### Live ranges -/

structure LiveRange where
  width : Nat
  first : Nat
  last : Nat
deriving DecidableEq

section Ranges

variable (instructions : List Instruction) (exceptionTable : List ExceptionTableEntry)

def hasBackwardControlFlow : Bool :=
  (instructions.zipIdx.any fun entry =>
    (instructionSuccessors entry.2 entry.1 instructions.length).any (· ≤ entry.2)) ||
    exceptionTable.any fun entry => entry.handlerPc ≤ min entry.rangeEnd instructions.length

def extendLinear (index width : Nat) : Option LiveRange → Option LiveRange
  | some range => some { range with last := index, width := max range.width width }
  | none => some ⟨width, index, index⟩

def indexedAccesses : List (Nat × LocalRef) :=
  instructions.zipIdx.flatMap fun entry => (localAccesses entry.1).map fun accessed => (entry.2, accessed)

def computeLinearLiveRanges : List (Option LiveRange) :=
  (indexedAccesses instructions).foldl
    (fun ranges access => update none ranges access.2.index (extendLinear access.1 access.2.width)) []

def extendRange (index width : Nat) : Option LiveRange → Option LiveRange
  | some range => some ⟨max range.width width, min range.first index, max range.last index⟩
  | none => some ⟨width, index, index⟩

def occupyingLocals (liveness : LocalLiveness) (index : Nat) : List Nat :=
  (List.range liveness.widths.length).filter (· ∈ liveness.liveIn index) ++
    (List.range liveness.widths.length).filter (· ∈ liveness.liveOut index) ++
      (localUse instructions index).toList ++ (localDef instructions index).toList

def indexedLocals (liveness : LocalLiveness) : List (Nat × LocalRef) :=
  (List.range instructions.length).flatMap fun index =>
    (occupyingLocals instructions liveness index).map fun slot =>
      (index, ⟨slot, get 1 liveness.widths slot⟩)

def computeLiveRanges : List (Option LiveRange) :=
  if hasBackwardControlFlow instructions exceptionTable then
    (indexedLocals instructions (analyzeLocalLiveness instructions exceptionTable)).foldl
      (fun ranges visit => update none ranges visit.2.index (extendRange visit.1 visit.2.width)) []
  else computeLinearLiveRanges instructions

end Ranges

/-! ### The allocation -/

def StartsBefore (first second : LinearScan.Interval Nat) : Prop :=
  first.first < second.first ∨ first.first = second.first ∧
    (first.last < second.last ∨ first.last = second.last ∧ first.key ≤ second.key)

instance : DecidableRel StartsBefore := fun first second => by
  unfold StartsBefore
  infer_instance

def setSlotOccupancy (occupied : List Bool) (slot width : Nat) (value : Bool) : List Bool :=
  setOccupancy occupied slot width value

section Allocation

variable (liveRanges : List (Option LiveRange)) (maxLocals fixedPrefixSlots : Nat) (pinnedLocalSlots : List Nat)

def pinnedRanges : List (Nat × LiveRange) :=
  pinnedLocalSlots.filterMap fun slot =>
    if fixedPrefixSlots ≤ slot then (get none liveRanges slot).map fun range => (slot, range) else none

/-- What no interval may take: one slot for each local of the parameters, and the pinned locals. -/
def fixedOccupancy : List Bool :=
  (pinnedRanges liveRanges fixedPrefixSlots pinnedLocalSlots).foldl
    (fun occupied pinned => setSlotOccupancy occupied pinned.1 pinned.2.width true)
    ((List.range (min fixedPrefixSlots maxLocals)).foldl (fun occupied slot => occupied.set slot true)
      (List.replicate (maxLocals + 2) false))

def fixedSlotMap : FiniteMap Nat Nat :=
  (pinnedRanges liveRanges fixedPrefixSlots pinnedLocalSlots).foldl
    (fun slotMap pinned => slotMap.insert pinned.1 pinned.1)
    ((List.range (min fixedPrefixSlots maxLocals)).foldl (fun slotMap slot => slotMap.insert slot slot)
      FiniteMap.empty)

def intervalOf (entry : Option LiveRange × Nat) : Option (LinearScan.Interval Nat) :=
  entry.1.bind fun range =>
    if fixedPrefixSlots ≤ entry.2 ∧ entry.2 ∉ pinnedLocalSlots then
      some ⟨entry.2, range.first, range.last, range.width⟩
    else none

def intervals : List (LinearScan.Interval Nat) :=
  (liveRanges.zipIdx.filterMap (intervalOf fixedPrefixSlots pinnedLocalSlots)).insertionSort StartsBefore

end Allocation

/-- The slots of all locals; there are none when a local would get a slot beyond `u16`. -/
def allocateLocalSlots (instructions : List Instruction) (maxLocals fixedPrefixSlots : Nat)
    (pinnedLocalSlots : List Nat) (exceptionTable : List ExceptionTableEntry) : Option (FiniteMap Nat Nat) :=
  let liveRanges := computeLiveRanges instructions exceptionTable
  let occupied := fixedOccupancy liveRanges maxLocals fixedPrefixSlots pinnedLocalSlots
  (LinearScan.run fixedPrefixSlots Lower2.u16Max ⟨occupied, [], []⟩
      (intervals liveRanges fixedPrefixSlots pinnedLocalSlots)).map fun scan =>
    scan.placed.foldl (fun slotMap placement => slotMap.insert placement.1.key placement.2)
      (fixedSlotMap liveRanges maxLocals fixedPrefixSlots pinnedLocalSlots)

/-- The slot of a local; locals that are nowhere accessed keep theirs. -/
def mappedSlot (slotMap : FiniteMap Nat Nat) (slot : Nat) : Nat := (slotMap.get slot).getD slot

end RustcCodegenJvm.Optimise2
