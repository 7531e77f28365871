import RustcCodegenJvm.Runtime.AtomicArrays

/-!
# Runs of atomic operations

Threads make atomic calls, and their accesses interleave in any way that the
monitors allow. If calls that touch a JVM variable in common have a monitor in
common, every run is explained by a sequential order of the calls. Two bytes of
one `long` have stripes of their own, and a store to one loses a store to the
other.
-/

namespace RustcCodegenJvm.Runtime

open Jvm
open Library.CriticalSections

namespace AtomicStorage

variable {Location Place Value : Type} [DecidableEq Place] {storage : AtomicStorage Location Place Value}

section Runs

variable {Thread : Type} [DecidableEq Thread]

variable (storage) in
/-- The run began with no call started, and all calls have returned. -/
structure CompleteRun (calls : Thread → List (AtomicCall Location)) (initial : Place → Value)
    (final : Config Thread Place Value (Option JLong) AtomicMonitor) : Prop where
  steps : Relation.ReflTransGen Step
    (Config.start initial fun thread => (calls thread).map storage.job) final
  finished : final.Finished

variable (storage) in
/-- Some sequential order of the calls, in which each thread's calls keep their order, has the results
and the final bytes. -/
def IsSequential (calls : Thread → List (AtomicCall Location)) (initial : Place → Value)
    (final : Config Thread Place Value (Option JLong) AtomicMonitor) : Prop :=
  ∃ order : List (Thread × AtomicCall Location), (∀ thread, ofThread thread order = calls thread) ∧
    (∀ thread, (final.thread thread).results =
      ofThread thread (storage.sequentialCalls (storage.bytes initial) order).2) ∧
    storage.bytes final.memory = (storage.sequentialCalls (storage.bytes initial) order).1

variable (storage) in
/-- Calls of different threads that access a JVM variable in common, one of them to write it, are
hashed to one stripe, or are both sequentially consistent. -/
def SharesMonitors (calls : Thread → List (AtomicCall Location)) : Prop :=
  ∀ first second, first ≠ second → ∀ call ∈ calls first, ∀ other ∈ calls second,
    ∀ place, storage.Touches call place → storage.Touches other place →
      call.action.isLoad = false ∨ other.action.isLoad = false →
      atomicStripeIndex (storage.pointer call.location) =
          atomicStripeIndex (storage.pointer other.location) ∨
        call.action.isSequentiallyConsistent ∧ other.action.isSequentiallyConsistent

theorem stripe_mem (call : AtomicCall Location) :
    .stripe (atomicStripeIndex (storage.pointer call.location)) ∈ storage.monitors call := by
  unfold monitors
  split <;> simp

theorem sequence_mem {call : AtomicCall Location} (isSequential : call.action.isSequentiallyConsistent) :
    .sequence ∈ storage.monitors call := by
  simp [monitors, isSequential]

variable {calls : Thread → List (AtomicCall Location)}

omit [DecidableEq Thread] in
theorem SharesMonitors.guarded (shares : storage.SharesMonitors calls) :
    Guarded fun thread => (calls thread).map storage.job := by
  intro first second different job jobMem other otherMem
  obtain ⟨call, callMem, rfl⟩ := List.mem_map.mp jobMem
  obtain ⟨otherCall, otherCallMem, rfl⟩ := List.mem_map.mp otherMem
  by_cases shared : ∃ lock, lock ∈ storage.monitors call ∧ lock ∈ storage.monitors otherCall
  · exact .inr shared
  have apart : ∀ place, storage.Touches call place → storage.Touches otherCall place →
      ¬(call.action.isLoad = false ∨ otherCall.action.isLoad = false) := by
    intro place touched otherTouched writes
    apply shared
    rcases shares first second different call callMem otherCall otherCallMem place touched otherTouched
      writes with same | both
    · refine ⟨_, stripe_mem call, ?_⟩
      rw [same]
      exact stripe_mem otherCall
    · exact ⟨_, sequence_mem both.1, sequence_mem both.2⟩
  refine .inl fun place => ⟨fun conflict => ?_, fun conflict => ?_⟩
  · exact apart place conflict.1.2 conflict.2 (.inl conflict.1.1)
  · exact apart place conflict.2 conflict.1.2 (.inr conflict.1.1)

/-- Every run of calls that share monitors is explained by a sequential order of them. -/
theorem atomics_linearizable {initial : Place → Value}
    {final : Config Thread Place Value (Option JLong) AtomicMonitor}
    (valid : ∀ thread, ∀ call ∈ calls thread, storage.Valid call)
    (shares : storage.SharesMonitors calls) (run : storage.CompleteRun calls initial final) :
    storage.IsSequential calls initial final := by
  obtain ⟨order, isCalls, results, memory⟩ := guarded_linearizable shares.guarded run.steps run.finished
  have allValid : ∀ entry ∈ order, storage.Valid entry.2 := by
    intro entry member
    apply valid entry.1 entry.2
    rw [← isCalls entry.1]
    exact List.mem_filterMap.mpr ⟨entry, member, if_pos rfl⟩
  have applied := sequential_applies order initial allValid
  refine ⟨order, isCalls, fun thread => ?_, ?_⟩
  · rw [results, applied]
  · rw [memory, applied]

end Runs

end AtomicStorage

namespace AtomicArray

/-! ### A `long` -/

def oneLong : AtomicStorage Nat Nat (PrimitiveKind.Carrier .long) :=
  storage .long (show 1 < 2 ^ 31 by decide) 1

def twoIncrements (_ : Bool) : List (AtomicCall Nat) := [⟨0, 1, .rmw .add 1 .relaxed⟩]

def alternating : Nat → List Bool
  | 0 => []
  | count + 1 => false :: true :: alternating count

def incremented : Config Bool Nat (PrimitiveKind.Carrier .long) (Option JLong) AtomicMonitor :=
  (Config.start (fun _ => 0) fun thread => (twoIncrements thread).map oneLong.job).schedule (alternating 18)

theorem atomics_linearizable_on_increments :
    oneLong.IsSequential twoIncrements (fun _ => 0) incremented := by
  apply AtomicStorage.atomics_linearizable
  · intro thread call member
    obtain rfl := List.mem_singleton.mp member
    exact ⟨.inl rfl, by decide, by decide, by decide⟩
  · intro first second different call member other otherMember place touched otherTouched writes
    obtain rfl := List.mem_singleton.mp member
    obtain rfl := List.mem_singleton.mp otherMember
    exact .inl rfl
  · exact ⟨Config.schedule_run _ _, by unfold Config.Finished; decide +kernel⟩

def twoBytes : Bool → List (AtomicCall Nat)
  | false => [⟨0, 1, .store 1 .relaxed⟩]
  | true => [⟨1, 1, .store 2 .relaxed⟩]

def overwritten : Config Bool Nat (PrimitiveKind.Carrier .long) (Option JLong) AtomicMonitor :=
  (Config.start (fun _ => 0) fun thread => (twoBytes thread).map oneLong.job).schedule (alternating 18)

/-- The second store writes back the first byte as it was before the first store. -/
theorem neighbouring_store_is_lost : (∀ thread, ∀ call ∈ twoBytes thread, oneLong.Valid call) ∧
      oneLong.CompleteRun twoBytes (fun _ => 0) overwritten ∧
      ¬oneLong.IsSequential twoBytes (fun _ => 0) overwritten := by
  refine ⟨?_, ⟨Config.schedule_run _ _, by unfold Config.Finished; decide +kernel⟩, ?_⟩
  · intro thread call member
    cases thread <;> obtain rfl := List.mem_singleton.mp member
    · exact ⟨.inl rfl, by decide, by decide, by decide⟩
    · exact ⟨.inl rfl, by decide, by decide, by decide⟩
  · intro sequential
    obtain ⟨order, isCalls, results, bytes⟩ := sequential
    have lost : oneLong.bytes overwritten.memory 0 = 0#8 := by decide +kernel
    rw [bytes] at lost
    rcases two_entries (isCalls false) (isCalls true) with rfl | rfl
    · exact absurd lost (by decide +kernel)
    · exact absurd lost (by decide +kernel)

end AtomicArray

end RustcCodegenJvm.Runtime
