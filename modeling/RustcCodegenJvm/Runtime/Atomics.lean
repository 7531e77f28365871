import RustcCodegenJvm.Library.CriticalSections
import RustcCodegenJvm.Runtime.FlatMemory

/-!
# Atomic operations

The atomic loads, stores, read-modify-writes and compare-exchanges of
`Pointer.java`. Each runs in the monitor of the stripe its pointer is hashed to,
and inside the sequence lock when it is sequentially consistent. What it does to
the storage in there is a sequence of accesses to JVM variables; what it is for
is one operation on a little-endian word of a byte memory.
-/

namespace RustcCodegenJvm.Runtime

open Jvm Library ByteMemory BitVec
open Library.CriticalSections

/-! ### Words -/

inductive AtomicOrdering
  | relaxed
  | release
  | acquire
  | acqRel
  | seqCst
deriving DecidableEq

/-- The operations that `atomicRmw` numbers from 0 to 10. -/
inductive AtomicOperation
  | exchange
  | add
  | subtract
  | and
  | nand
  | or
  | xor
  | max
  | min
  | unsignedMax
  | unsignedMin
deriving DecidableEq

/-- The byte counts that `checkedAtomicByteCount` accepts. -/
def IsAtomicByteCount (byteCount : Nat) : Prop :=
  byteCount = 1 ∨ byteCount = 2 ∨ byteCount = 4 ∨ byteCount = 8

instance (byteCount : Nat) : Decidable (IsAtomicByteCount byteCount) :=
  inferInstanceAs (Decidable (_ ∨ _))

def truncateAtomic (value : JLong) (byteCount : Nat) : JLong := value &&& atomicMask byteCount

def signExtendAtomic (value : JLong) (byteCount : Nat) : JLong :=
  let shift := 64 - byteCount * 8
  (value <<< shift).sshiftRight shift

/-- `newValue` of `atomicRmwStriped` -/
def atomicNewValue (operation : AtomicOperation) (oldValue right : JLong) (byteCount : Nat) : JLong :=
  match operation with
  | .exchange => right
  | .add => oldValue + right
  | .subtract => oldValue - right
  | .and => oldValue &&& right
  | .nand => ~~~(oldValue &&& right)
  | .or => oldValue ||| right
  | .xor => oldValue ^^^ right
  | .max =>
    if (signExtendAtomic right byteCount).sle (signExtendAtomic oldValue byteCount) then oldValue else right
  | .min =>
    if (signExtendAtomic oldValue byteCount).sle (signExtendAtomic right byteCount) then oldValue else right
  | .unsignedMax => if right.ule oldValue then oldValue else right
  | .unsignedMin => if oldValue.ule right then oldValue else right

/-- What an operation means on words of its own width: arithmetic wraps, and the order is the signed
or the unsigned one. -/
def AtomicOperation.update {width : Nat} (operation : AtomicOperation) (old right : BitVec width) :
    BitVec width :=
  match operation with
  | .exchange => right
  | .add => old + right
  | .subtract => old - right
  | .and => old &&& right
  | .nand => ~~~(old &&& right)
  | .or => old ||| right
  | .xor => old ^^^ right
  | .max => if right.toInt ≤ old.toInt then old else right
  | .min => if old.toInt ≤ right.toInt then old else right
  | .unsignedMax => if right.toNat ≤ old.toNat then old else right
  | .unsignedMin => if old.toNat ≤ right.toNat then old else right

section Words

variable {byteCount : Nat} (isCount : IsAtomicByteCount byteCount)

include isCount

theorem IsAtomicByteCount.le : byteCount ≤ 8 := by
  rcases isCount with rfl | rfl | rfl | rfl <;> decide

theorem IsAtomicByteCount.pos : 1 ≤ byteCount := by
  rcases isCount with rfl | rfl | rfl | rfl <;> decide

omit isCount

theorem truncate_atomic_eq (small : byteCount ≤ 8) (value : JLong) :
    truncateAtomic value byteCount = (value.setWidth (8 * byteCount)).setWidth 64 := by
  apply eq_of_bytes (show 64 ≤ 8 * 8 by decide)
  intro index below
  rw [truncateAtomic, byte_of_and, atomic_mask_covers small index (by omega),
    byte_of_set_width _ (by omega : 8 * (index + 1) ≤ 64)]
  split
  · rw [byte_of_set_width _ (by omega)]
    simp
  · next outside =>
    rw [byte_of_above (value.setWidth (8 * byteCount)) (by omega)]
    simp

theorem truncate_atomic_width (small : byteCount ≤ 8) (value : JLong) :
    (truncateAtomic value byteCount).setWidth (8 * byteCount) = value.setWidth (8 * byteCount) := by
  rw [truncate_atomic_eq small, setWidth_setWidth_of_le _ (by omega), setWidth_eq]

include isCount

theorem sign_extend_atomic_eq (value : JLong) :
    signExtendAtomic value byteCount = (value.setWidth (8 * byteCount)).signExtend 64 := by
  have pos := isCount.pos
  have small := isCount.le
  apply eq_of_getLsbD_eq
  intro index below
  have shifted : 64 - byteCount * 8 + index < 64 ↔ index < 8 * byteCount := by omega
  have place : 64 - byteCount * 8 + index - (64 - byteCount * 8) = index := by omega
  have last : 63 - (64 - byteCount * 8) = 8 * byteCount - 1 := by omega
  simp only [signExtendAtomic, getLsbD_sshiftRight, getLsbD_shiftLeft,
    getLsbD_signExtend, getLsbD_setWidth, msb_eq_getLsbD_last, place, shifted]
  by_cases inside : index < 8 * byteCount
  · simp [inside, below]
  · have whole : 8 * byteCount - 1 < 8 * byteCount := by omega
    have reached : ¬63 < 64 - byteCount * 8 := by omega
    simp [inside, below, last, whole, reached]

theorem sle_sign_extend_atomic (first second : JLong) :
    (signExtendAtomic first byteCount).sle (signExtendAtomic second byteCount) ↔
      (first.setWidth (8 * byteCount)).toInt ≤ (second.setWidth (8 * byteCount)).toInt := by
  have small := isCount.le
  rw [sign_extend_atomic_eq isCount, sign_extend_atomic_eq isCount, BitVec.sle, decide_eq_true_iff,
    toInt_signExtend_of_le (by omega), toInt_signExtend_of_le (by omega)]

omit isCount

theorem ule_truncate_atomic (small : byteCount ≤ 8) (first second : JLong) :
    (truncateAtomic first byteCount).ule (truncateAtomic second byteCount) ↔
      (first.setWidth (8 * byteCount)).toNat ≤ (second.setWidth (8 * byteCount)).toNat := by
  have fits : 8 * byteCount ≤ 64 := by omega
  rw [truncate_atomic_eq small, truncate_atomic_eq small, BitVec.ule, decide_eq_true_iff,
    toNat_setWidth_of_le fits, toNat_setWidth_of_le fits]

theorem truncate_atomic_inj (small : byteCount ≤ 8) (first second : JLong) :
    truncateAtomic first byteCount = truncateAtomic second byteCount ↔
      first.setWidth (8 * byteCount) = second.setWidth (8 * byteCount) := by
  constructor
  · intro same
    rw [← truncate_atomic_width small first, same, truncate_atomic_width small]
  · intro same
    rw [truncate_atomic_eq small, same, ← truncate_atomic_eq small]

include isCount in
/-- The long arithmetic of `atomicRmw` is the operation on the words. -/
theorem atomic_new_value_updates (operation : AtomicOperation) (old operand : JLong) :
    (atomicNewValue operation (truncateAtomic old byteCount) (truncateAtomic operand byteCount)
        byteCount).setWidth (8 * byteCount) =
      operation.update (old.setWidth (8 * byteCount)) (operand.setWidth (8 * byteCount)) := by
  have small := isCount.le
  have fits : 8 * byteCount ≤ 64 := by omega
  have oldWord := truncate_atomic_width small old
  have rightWord := truncate_atomic_width small operand
  cases operation with
  | exchange => exact rightWord
  | add =>
    rw [atomicNewValue, setWidth_add _ _ fits, oldWord, rightWord]
    rfl
  | subtract =>
    rw [atomicNewValue, sub_eq_add_neg, setWidth_add _ _ fits, setWidth_neg_of_le fits,
      oldWord, rightWord, ← sub_eq_add_neg]
    rfl
  | and =>
    rw [atomicNewValue, setWidth_and, oldWord, rightWord]
    rfl
  | nand =>
    rw [atomicNewValue, setWidth_not fits, setWidth_and, oldWord, rightWord]
    rfl
  | or =>
    rw [atomicNewValue, setWidth_or, oldWord, rightWord]
    rfl
  | xor =>
    rw [atomicNewValue, setWidth_xor, oldWord, rightWord]
    rfl
  | max =>
    simp only [atomicNewValue, AtomicOperation.update, sle_sign_extend_atomic isCount, oldWord, rightWord]
    split <;> assumption
  | min =>
    simp only [atomicNewValue, AtomicOperation.update, sle_sign_extend_atomic isCount, oldWord, rightWord]
    split <;> assumption
  | unsignedMax =>
    simp only [atomicNewValue, AtomicOperation.update, ule_truncate_atomic small]
    split <;> assumption
  | unsignedMin =>
    simp only [atomicNewValue, AtomicOperation.update, ule_truncate_atomic small]
    split <;> assumption

end Words

/-! ### Monitors -/

/-- What `atomicStripeIndex` sees of `pointer.allocation`: the identity hash of the object it hashes,
if there is one. -/
inductive AllocationIdentity
  | null
  | receiverCell (value : Option JInt)
  | fieldCell (owner : Option JInt) (fieldNameHash : JInt)
  | object (identityHashCode : JInt)
deriving DecidableEq

structure AtomicPointer where
  allocation : AllocationIdentity
  byteOffset : JLong
  exposedAddress : JLong
deriving DecidableEq

def atomicStripeCount : Nat := 1024

def atomicStripeIndex (pointer : AtomicPointer) : JInt :=
  let (identity, memberHash) : Option JInt × JInt :=
    match pointer.allocation with
    | .null => (none, 0)
    | .receiverCell value => (value, 0)
    | .fieldCell owner fieldNameHash => (owner, fieldNameHash)
    | .object identityHashCode => (some identityHashCode, 0)
  let key : JLong :=
    match identity with
    | none => pointer.exposedAddress
    | some identityHashCode =>
      (identityHashCode.signExtend 64 <<< 32) ^^^ (memberHash.signExtend 64 <<< 1) ^^^ pointer.byteOffset
  let key := key ^^^ key >>> 33
  let key := key * 0xff51afd7ed558ccd#64
  let key := key ^^^ key >>> 33
  let key := key * 0xc4ceb9fe1a85ec53#64
  let key := key ^^^ key >>> 33
  key.setWidth 32 &&& (BitVec.ofNat 32 atomicStripeCount - 1)

inductive AtomicMonitor
  /-- `ATOMIC_SEQUENCE_LOCK` -/
  | sequence
  /-- An element of `ATOMIC_STRIPES` -/
  | stripe (index : JInt)
deriving DecidableEq

/-! ### Storage -/

/-- The JVM variables behind the pointers of an allocation. A load or a store accesses variables one
at a time; the variables together stand for bytes. -/
structure AtomicStorage (Location Place Value : Type) [DecidableEq Place] where
  pointer : Location → AtomicPointer
  /-- The pointer denotes that many bytes of the memory. -/
  Denotes : Location → Nat → Prop
  address : Location → Nat
  bytes : (Place → Value) → Memory
  loadUnsigned : Location → Nat → Program Place Value JLong
  storeBytes : Location → JLong → Nat → Program Place Value Unit
  touches : Location → Nat → Place → Prop
  load_within : ∀ location byteCount,
    (loadUnsigned location byteCount).Within (touches location byteCount) fun _ => False
  store_within : ∀ location bits byteCount,
    (storeBytes location bits byteCount).Within (touches location byteCount) (touches location byteCount)
  load_reads : ∀ location byteCount memory, Denotes location byteCount →
    (loadUnsigned location byteCount).eval memory =
      (memory, ByteMemory.read (bytes memory) (address location) byteCount)
  store_writes : ∀ location bits byteCount memory, Denotes location byteCount →
    bytes ((storeBytes location bits byteCount).eval memory).1 =
      ByteMemory.write (bytes memory) (address location) byteCount bits

/-! ### Calls -/

inductive AtomicAction
  | load (ordering : AtomicOrdering)
  | store (value : JLong) (ordering : AtomicOrdering)
  | rmw (operation : AtomicOperation) (operand : JLong) (ordering : AtomicOrdering)
  | compareExchange (expected value : JLong) (successOrdering failureOrdering : AtomicOrdering)
deriving DecidableEq

namespace AtomicAction

def isSequentiallyConsistent : AtomicAction → Bool
  | load ordering | store _ ordering | rmw _ _ ordering => ordering = .seqCst
  | compareExchange _ _ successOrdering failureOrdering =>
    successOrdering = .seqCst || failureOrdering = .seqCst

def isLoad : AtomicAction → Bool
  | load _ => true
  | _ => false

/-- What a call is for: one operation on a word. -/
def apply {width : Nat} (action : AtomicAction) (old : BitVec width) : BitVec width × Option (BitVec width) :=
  match action with
  | load _ => (old, some old)
  | store value _ => (value.setWidth width, none)
  | rmw operation operand _ => (operation.update old (operand.setWidth width), some old)
  | compareExchange expected value _ _ =>
    (if old = expected.setWidth width then value.setWidth width else old, some old)

end AtomicAction

structure AtomicCall (Location : Type) where
  location : Location
  byteCount : Nat
  action : AtomicAction

namespace AtomicStorage

variable {Location Place Value : Type} [DecidableEq Place] (storage : AtomicStorage Location Place Value)

def atomicStoreLocked (location : Location) (value : JLong) (byteCount : Nat) : Program Place Value Unit :=
  storage.storeBytes location (truncateAtomic value byteCount) byteCount

def striped (call : AtomicCall Location) : Program Place Value (Option JLong) :=
  match call.action with
  | .load _ => do
    let value ← storage.loadUnsigned call.location call.byteCount
    return some (truncateAtomic value call.byteCount)
  | .store value _ => do
    storage.atomicStoreLocked call.location value call.byteCount
    return none
  | .rmw operation operand _ => do
    let value ← storage.loadUnsigned call.location call.byteCount
    let oldValue := truncateAtomic value call.byteCount
    let right := truncateAtomic operand call.byteCount
    let newValue := atomicNewValue operation oldValue right call.byteCount
    storage.atomicStoreLocked call.location newValue call.byteCount
    return some oldValue
  | .compareExchange expected value _ _ => do
    let loaded ← storage.loadUnsigned call.location call.byteCount
    let oldValue := truncateAtomic loaded call.byteCount
    if oldValue = truncateAtomic expected call.byteCount then
      storage.atomicStoreLocked call.location value call.byteCount
      return some oldValue
    else return some oldValue

/-- The monitors of a call, from the outside in. -/
def monitors (call : AtomicCall Location) : List AtomicMonitor :=
  let atomicStripe := .stripe (atomicStripeIndex (storage.pointer call.location))
  if call.action.isSequentiallyConsistent then [.sequence, atomicStripe] else [atomicStripe]

def Touches (call : AtomicCall Location) (place : Place) : Prop :=
  storage.touches call.location call.byteCount place

def Writes (call : AtomicCall Location) (place : Place) : Prop :=
  call.action.isLoad = false ∧ storage.Touches call place

theorem striped_within (call : AtomicCall Location) :
    (storage.striped call).Within (storage.Touches call) (storage.Writes call) := by
  obtain ⟨location, byteCount, action⟩ := call
  have loads : (storage.loadUnsigned location byteCount).Within
      (storage.Touches ⟨location, byteCount, action⟩) (storage.Writes ⟨location, byteCount, action⟩) :=
    (storage.load_within location byteCount).mono (fun _ touched => touched) (fun _ => False.elim)
  have stores : ∀ value, action.isLoad = false →
      (storage.atomicStoreLocked location value byteCount).Within
        (storage.Touches ⟨location, byteCount, action⟩) (storage.Writes ⟨location, byteCount, action⟩) := by
    intro value notLoad
    exact (storage.store_within location _ byteCount).mono (fun _ touched => touched)
      (fun _ touched => ⟨notLoad, touched⟩)
  cases action with
  | load ordering => exact loads.bind fun _ => trivial
  | store value ordering => exact (stores value rfl).bind fun _ => trivial
  | rmw operation operand ordering => exact loads.bind fun _ => (stores _ rfl).bind fun _ => trivial
  | compareExchange expected value success failure =>
    apply loads.bind
    intro loaded
    dsimp only
    split
    · exact (stores value rfl).bind fun _ => trivial
    · exact trivial

def job (call : AtomicCall Location) : Job Place Value (Option JLong) AtomicMonitor where
  locks := storage.monitors call
  body := storage.striped call
  touches := storage.Touches call
  writes := storage.Writes call
  within := storage.striped_within call
  writes_touch := fun _ writes => writes.2

/-! ### The meaning of a call -/

/-- The byte memory and the result after a call: its operation on the word at its address. -/
def applyCall (call : AtomicCall Location) (memory : Memory) : Memory × Option JLong :=
  let old := (ByteMemory.read memory (storage.address call.location) call.byteCount).setWidth (8 * call.byteCount)
  let (word, result) := call.action.apply old
  (ByteMemory.write memory (storage.address call.location) call.byteCount (word.setWidth 64),
    result.map (·.setWidth 64))

def sequentialCalls {Thread : Type} (memory : Memory) :
    List (Thread × AtomicCall Location) → Memory × List (Thread × Option JLong)
  | [] => (memory, [])
  | (thread, call) :: rest =>
    ((sequentialCalls (storage.applyCall call memory).1 rest).1,
      (thread, (storage.applyCall call memory).2) ::
        (sequentialCalls (storage.applyCall call memory).1 rest).2)

/-- The call is of a valid size, and its pointer denotes that many bytes. -/
def Valid (call : AtomicCall Location) : Prop :=
  IsAtomicByteCount call.byteCount ∧ storage.Denotes call.location call.byteCount

variable {storage} {call : AtomicCall Location}

theorem eval_store_locked (valid : storage.Valid call) (value : JLong) (memory : Place → Value) :
    storage.bytes ((storage.atomicStoreLocked call.location value call.byteCount).eval memory).1 =
      ByteMemory.write (storage.bytes memory) (storage.address call.location) call.byteCount
        ((value.setWidth (8 * call.byteCount)).setWidth 64) := by
  rw [atomicStoreLocked, storage.store_writes _ _ _ _ valid.2, truncate_atomic_eq valid.1.le]

/-- In its monitors a call does what it is for. -/
theorem striped_applies (valid : storage.Valid call) (memory : Place → Value) :
    storage.applyCall call (storage.bytes memory) =
      (storage.bytes ((storage.striped call).eval memory).1, ((storage.striped call).eval memory).2) := by
  obtain ⟨location, byteCount, action⟩ := call
  have small : byteCount ≤ 8 := valid.1.le
  have loads := storage.load_reads location byteCount memory valid.2
  cases action with
  | load ordering =>
    simp only [striped, Program.eval_bind, loads, applyCall, AtomicAction.apply, write_word _ _ small,
      write_read _ _ small, Option.map_some, truncate_atomic_eq small]
    rfl
  | store value ordering =>
    have stores := eval_store_locked valid value memory
    simp only [striped, Program.eval_bind, applyCall, AtomicAction.apply, Option.map_none]
    rw [← stores]
    rfl
  | rmw operation operand ordering =>
    simp only [striped, Program.eval_bind, loads, applyCall, AtomicAction.apply, Option.map_some]
    rw [← atomic_new_value_updates valid.1, ← eval_store_locked valid, ← truncate_atomic_eq small]
    rfl
  | compareExchange expected value success failure =>
    simp only [striped, Program.eval_bind, loads, applyCall, AtomicAction.apply, Option.map_some,
      truncate_atomic_inj small]
    split
    · rw [Program.eval_bind, ← eval_store_locked valid, ← truncate_atomic_eq small]
      rfl
    · rw [write_word _ _ small, write_read _ _ small, ← truncate_atomic_eq small]
      rfl

theorem sequential_applies {Thread : Type} (order : List (Thread × AtomicCall Location))
    (memory : Place → Value) (valid : ∀ entry ∈ order, storage.Valid entry.2) :
    storage.sequentialCalls (storage.bytes memory) order =
      (storage.bytes (sequential memory (order.map fun entry => (entry.1, storage.job entry.2))).1,
        (sequential memory (order.map fun entry => (entry.1, storage.job entry.2))).2) := by
  induction order generalizing memory with
  | nil => rfl
  | cons first rest ih =>
    obtain ⟨thread, call⟩ := first
    have applied := striped_applies (valid (thread, call) List.mem_cons_self) memory
    have later := ih ((storage.striped call).eval memory).1
      fun entry member => valid entry (List.mem_cons_of_mem _ member)
    simp only [sequentialCalls, List.map_cons, sequential, applied, later]
    rfl

end AtomicStorage

end RustcCodegenJvm.Runtime
