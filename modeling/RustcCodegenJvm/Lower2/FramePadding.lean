import RustcCodegenJvm.Library.StateExcept
import RustcCodegenJvm.Lower2.FrameOrder

/-!
# Empty slots do not matter

A merge can make the locals of a recorded frame longer without counting as a
change, so a block may have been processed with a shorter list. The transfer of
an instruction does not see the difference: it reads a slot past the end as
empty. Shown for each step of the transfer and for their composition.
-/

namespace RustcCodegenJvm.Lower2

open Jvm Library FrameState StateExcept List

def Respects {Result : Type} (step : FrameStep Result) : Prop :=
  ∀ state other result after, Alike state other → step.run state = .ok (result, after) →
    ∃ later, step.run other = .ok (result, later) ∧ Alike after later

theorem local_at_set (locals : List FrameValue) (slot : Nat) (value : FrameValue) (index : Nat) :
    localAt (locals.set slot value) index =
      if slot = index ∧ slot < locals.length then value else localAt locals index := by
  unfold localAt
  rw [getD_eq_getElem?_getD, getElem?_set, getD_eq_getElem?_getD]
  split_ifs with same inside both <;> first | rfl | omega | simp_all

theorem local_at_store (locals : List FrameValue) (slot : Nat) (value : FrameValue) (index : Nat) :
    localAt (storeSlot locals slot value) index = if index = slot + 1 ∧ value.isCategory2 then .top
      else if index = slot then value
      else if index + 1 = slot ∧ (localAt locals index).isCategory2 then .top
      else localAt locals index := by
  have sized : ∀ other, localAt (locals ++ replicate (slot + value.width - locals.length) .top)
      other = localAt locals other := fun other => local_at_resize locals (slot + value.width) other
  have room : slot + value.width ≤
      (locals ++ replicate (slot + value.width - locals.length) FrameValue.top).length := by
    simp only [length_append, length_replicate]
    omega
  unfold storeSlot
  generalize locals ++ replicate (slot + value.width - locals.length) .top = filled at sized room
  unfold FrameValue.width at room
  have split : ∀ other, localAt (if 0 < slot ∧ (localAt filled (slot - 1)).isCategory2 then
      filled.set (slot - 1) .top else filled) other =
        if other + 1 = slot ∧ (localAt locals other).isCategory2 then .top
        else localAt locals other := by
    intro other
    split_ifs with lost here here
    · rw [local_at_set, if_pos (by split at room <;> omega)]
    · rw [local_at_set, if_neg, sized]
      rintro ⟨rfl, -⟩
      rw [sized] at lost
      exact here ⟨by omega, lost.2⟩
    · refine absurd ⟨by omega, ?_⟩ lost
      rw [sized, ← here.1, Nat.add_sub_cancel]
      exact here.2
    · exact sized other
  have splitLength : (if 0 < slot ∧ (localAt filled (slot - 1)).isCategory2 then
      filled.set (slot - 1) .top else filled).length = filled.length := by
    split_ifs <;> simp
  simp only
  generalize (if 0 < slot ∧ (localAt filled (slot - 1)).isCategory2 then
      filled.set (slot - 1) .top else filled) = cleared at split splitLength
  cases wide : value.isCategory2 with
  | true =>
    rw [wide, if_pos rfl] at room
    simp only [if_true, local_at_set, length_set, split, splitLength, and_true]
    by_cases second : slot + 1 = index
    · rw [if_pos ⟨second, by omega⟩, if_pos second.symm]
    · rw [if_neg (fun both => second both.1), if_neg (Ne.symm second)]
      by_cases first : slot = index
      · rw [if_pos ⟨first, by omega⟩, if_pos first.symm]
      · rw [if_neg (fun both => first both.1), if_neg (Ne.symm first)]
  | false =>
    simp only [wide, Bool.false_eq_true, if_false] at room
    simp only [Bool.false_eq_true, if_false, and_false, local_at_set, split, splitLength]
    by_cases first : slot = index
    · rw [if_pos ⟨first, by omega⟩, if_pos first.symm]
    · rw [if_neg (fun both => first both.1), if_neg (Ne.symm first)]

namespace Respects

variable {First Second : Type}

theorem pure (result : First) : Respects (pure result : FrameStep First) := by
  intro state other outcome after alike ran
  obtain ⟨rfl, rfl⟩ := pure_ok ran
  exact ⟨other, rfl, alike⟩

theorem bind {step : FrameStep First} {rest : First → FrameStep Second} (head : Respects step)
    (tail : ∀ result, Respects (rest result)) : Respects (step >>= rest) := by
  intro state other outcome after alike ran
  obtain ⟨result, middle, headRan, tailRan⟩ := bind_ok ran
  obtain ⟨otherMiddle, otherRan, middleAlike⟩ := head state other result middle alike headRan
  obtain ⟨later, laterRan, laterAlike⟩ :=
    tail result middle otherMiddle outcome after middleAlike tailRan
  refine ⟨later, ?_, laterAlike⟩
  rw [StateT.run_bind, otherRan]
  exact laterRan

theorem map {step : FrameStep First} (head : Respects step) (change : First → Second) :
    Respects (change <$> step) := by
  exact head.bind fun _ => Respects.pure _

theorem fail (context message : String) : Respects (fail context message : FrameStep First) := by
  intro state other outcome after alike ran
  exact (throw_ok ran).elim

theorem lookUp (result : Except JvmError First) : Respects (lookUp result) := by
  intro state other outcome after alike ran
  cases result with
  | error error => cases ran
  | ok value =>
    cases ran
    exact ⟨other, rfl, alike⟩

theorem push (value : FrameValue) : Respects (push value) := by
  intro state other outcome after alike ran
  obtain rfl := modify_ok ran
  exact ⟨_, rfl, alike.locals, congrArg (· ++ [value]) alike.stack⟩

theorem pop (context : String) (index : Nat) : Respects (pop context index) := by
  intro state other outcome after alike ran
  change FrameState.pop context index state = _ at ran
  unfold FrameState.pop at ran
  split at ran
  · rename_i value last
    cases ran
    refine ⟨⟨other.locals, other.stack.dropLast⟩, ?_, alike.locals,
      congrArg dropLast alike.stack⟩
    rw [alike.stack] at last
    change FrameState.pop context index other = _
    rw [FrameState.pop, last]
  · cases ran

theorem readLocal {rest : FrameValue → FrameStep First} (index : Nat)
    (tail : ∀ value, Respects (rest value)) :
    Respects (do let state ← get; rest (localAt state.locals index)) := by
  intro state other outcome after alike ran
  obtain ⟨current, middle, got, restRan⟩ := bind_ok ran
  obtain ⟨rfl, rfl⟩ := get_ok got
  obtain ⟨later, laterRan, laterAlike⟩ := tail _ middle other outcome after alike restRan
  refine ⟨later, ?_, laterAlike⟩
  rw [alike.locals index] at laterRan
  exact laterRan

theorem storeLocal (index : Nat) (value : FrameValue) : Respects (storeLocal index value) := by
  intro state other outcome after alike ran
  obtain rfl := modify_ok ran
  refine ⟨_, rfl, fun slot => ?_, alike.stack⟩
  simp only [local_at_store, alike.locals]

theorem initializeObject (uninitialized : FrameValue) (className : String)
    (notTop : uninitialized ≠ .top) : Respects (initializeObject uninitialized className) := by
  intro state other outcome after alike ran
  obtain rfl := modify_ok ran
  have mapped : ∀ locals index,
      localAt (locals.map (initializeObject.initialized uninitialized className)) index =
        initializeObject.initialized uninitialized className (localAt locals index) := by
    intro locals index
    have topStays : initializeObject.initialized uninitialized className .top = .top :=
      if_neg (Ne.symm notTop)
    rw [localAt, ← topStays, List.getD_map]
    rw [localAt]
  refine ⟨_, rfl, fun slot => ?_, congrArg (List.map _) alike.stack⟩
  simp only [mapped, alike.locals]

/-! ### The effects of the instructions -/

variable (context : String) (index : Nat)

theorem popCategory1 : Respects (popCategory1 context index) :=
  (pop context index).bind fun value => by
    split
    · exact Respects.fail _ _
    · exact Respects.pure _

theorem popReference : Respects (popReference context index) :=
  (popCategory1 context index).bind fun value => by
    split
    · exact Respects.fail _ _
    · exact Respects.pure _

theorem loadLocal (slot : Nat) (localHints : List FrameValue) (loadHint : FrameValue) :
    Respects (loadLocal context index slot localHints loadHint) := by
  refine readLocal slot fun value => ?_
  unfold loadSlot
  split
  · split
    · exact Respects.fail _ _
    · exact (storeLocal _ _).bind fun _ => push _
  · exact push _

theorem popMany (count : Nat) : Respects (popMany context index count) := by
  induction count with
  | zero => exact Respects.pure _
  | succ count ih => exact (pop context index).bind fun _ => ih

theorem replaceTop (count : Nat) (value : FrameValue) :
    Respects (replaceTop context index count value) := by
  induction count with
  | zero => exact push value
  | succ count ih => exact (pop context index).bind fun _ => ih

theorem storeEffect (kind : LocalKind) (slot : Nat) :
    Respects (storeEffect context index kind slot) := by
  cases kind with
  | reference => exact (popReference context index).bind fun value => storeLocal slot value
  | int | long | float | double => exact (pop context index).bind fun _ => storeLocal slot _

theorem arrayLoadEffect (kind : ArrayKind) : Respects (arrayLoadEffect context index kind) :=
  (pop context index).bind fun _ => (popReference context index).bind fun array => by
    cases kind <;> exact push _

theorem arrayStoreEffect : Respects (arrayStoreEffect context index) :=
  (pop context index).bind fun _ => (pop context index).bind fun _ =>
    (popReference context index).bind fun _ => Respects.pure _

theorem pop2Effect : Respects (pop2Effect context index) :=
  (pop context index).bind fun value => by
    split
    · exact Respects.pure _
    · exact (pop context index).bind fun _ => Respects.pure _

theorem dupEffect : Respects (dupEffect context index) :=
  (popCategory1 context index).bind fun value => (push value).bind fun _ => push value

theorem swapEffect : Respects (swapEffect context index) :=
  (popCategory1 context index).bind fun first => (popCategory1 context index).bind fun second =>
    (push first).bind fun _ => push second

theorem dupX1Effect : Respects (dupX1Effect context index) :=
  (popCategory1 context index).bind fun value1 => (popCategory1 context index).bind fun value2 =>
    (push value1).bind fun _ => (push value2).bind fun _ => push value1

theorem dup2Effect : Respects (dup2Effect context index) :=
  (pop context index).bind fun value1 => by
    split
    · exact (push value1).bind fun _ => push value1
    · exact (popCategory1 context index).bind fun value2 =>
        (push value2).bind fun _ => (push value1).bind fun _ => (push value2).bind fun _ =>
          push value1

theorem popReceiver (isStatic : Bool) : Respects (popReceiver context index isStatic) := by
  cases isStatic with
  | true => exact Respects.pure none
  | false => exact (popReference context index).map some

theorem initializeReceiver (method : ConstantPool.Member) (isSpecial : Bool)
    (receiver : Option FrameValue) : Respects (initializeReceiver method isSpecial receiver) := by
  unfold Lower2.initializeReceiver
  split
  · split
    · exact initializeObject _ _ (by simp)
    · exact initializeObject _ _ (by simp)
    · exact Respects.pure _
  · exact Respects.pure _

variable (library : ClassFileLibrary)

theorem pushReturn (returnType : Option FieldType) : Respects (pushReturn library returnType) := by
  cases returnType with
  | none => exact Respects.pure ()
  | some returnType => exact push _

theorem applyInvoke (method : ConstantPool.Member) (isStatic isSpecial : Bool) :
    Respects (applyInvoke library context index method isStatic isSpecial) :=
  (lookUp _).bind fun _ => (popMany context index _).bind fun _ =>
    (popReceiver context index isStatic).bind fun receiver =>
      (initializeReceiver method isSpecial receiver).bind fun _ => pushReturn library _

variable (pool : ConstantPool)

theorem fieldEffect (access : FieldAccess) (fieldRef : Nat) :
    Respects (fieldEffect library context index pool access fieldRef) := by
  cases access with
  | getstatic => exact (lookUp _).bind fun _ => push _
  | putstatic => exact (pop context index).bind fun _ => Respects.pure _
  | getfield => exact (popReference context index).bind fun _ => (lookUp _).bind fun _ => push _
  | putfield =>
    exact (pop context index).bind fun _ => (popReference context index).bind fun _ =>
      Respects.pure _

theorem invokeEffect (kind : InvokeKind) (methodRef : Nat) :
    Respects (invokeEffect library context index pool kind methodRef) := by
  cases kind <;> exact (lookUp _).bind fun _ => applyInvoke _ _ _ _ _ _

theorem branchEffect (condition : Condition) : Respects (branchEffect context index condition) := by
  cases condition with
  | ifnull | ifnonnull => exact (popReference context index).bind fun _ => Respects.pure _
  | ifeq | ifne | iflt | ifge | ifgt | ifle => exact popMany context index 1
  | _ => exact popMany context index 2

theorem classValueEffect (classIndex : Nat) (value : String → FrameValue) :
    Respects (classValueEffect pool classIndex value) :=
  (lookUp _).bind fun _ => push _

theorem transferEffect (localHints : List FrameValue) (instruction : Instruction) :
    Respects (transferEffect library context index pool localHints instruction) := by
  cases instruction with
  | nop | goto | gotoW | voidReturn | reserved => exact Respects.pure _
  | aconstNull | iconst | bipush | sipush | lconst | fconst | dconst => exact push _
  | ldc | ldcW | ldc2W => exact (lookUp _).bind fun _ => push _
  | load => exact loadLocal _ _ _ _ _
  | store => exact storeEffect _ _ _ _
  | arrayLoad => exact arrayLoadEffect _ _ _
  | arrayStore => exact arrayStoreEffect _ _
  | pop | tableswitch | lookupswitch | valueReturn => exact popMany _ _ _
  | pop2 => exact pop2Effect _ _
  | dup => exact dupEffect _ _
  | swap => exact swapEffect _ _
  | dupX1 => exact dupX1Effect _ _
  | dup2 => exact dup2Effect _ _
  | dupX2 | dup2X1 | dup2X2 | jsr | ret | jsrW | retW => exact Respects.fail _ _
  | arithmetic | bitwise | negate | shift | convert | lcmp | fcmpl | fcmpg | dcmpl | dcmpg
  | newarray => exact replaceTop _ _ _ _
  | iinc | iincW => exact storeLocal _ _
  | branch => exact branchEffect _ _ _
  | field => exact fieldEffect _ _ _ _ _ _
  | invoke => exact invokeEffect _ _ _ _ _ _
  | invokedynamic | invokeinterface => exact (lookUp _).bind fun _ => applyInvoke _ _ _ _ _ _
  | new => exact classValueEffect _ _ _
  | anewarray | multianewarray => exact (popMany _ _ _).bind fun _ => classValueEffect _ _ _
  | arraylength | instanceof => exact (popReference _ _).bind fun _ => push _
  | athrow | monitorenter | monitorexit => exact (popReference _ _).bind fun _ => Respects.pure _
  | checkcast => exact (popReference _ _).bind fun _ => classValueEffect _ _ _

end Respects

/-- The successors of alike frames are the same, with alike frames. -/
theorem transfer_alike (library : ClassFileLibrary) (context : String) (index : Nat)
    (pool : ConstantPool) (localHints : List FrameValue) (instruction : Instruction)
    {state other : FrameState} {successors : List (Nat × FrameState)} (alike : Alike state other)
    (transferred : transferInstruction library context index pool localHints instruction state =
      .ok successors) :
    ∃ after later targets, successors = targets.map (fun target => (target, after)) ∧
      successorTargets context index instruction = .ok targets ∧ Alike after later ∧
      transferInstruction library context index pool localHints instruction other =
        .ok (targets.map fun target => (target, later)) := by
  unfold transferInstruction at transferred
  cases ran : (transferEffect library context index pool localHints instruction).run state with
  | error error =>
    rw [ran] at transferred
    cases transferred
  | ok outcome =>
    obtain ⟨⟨⟩, after⟩ := outcome
    rw [ran] at transferred
    cases isTargets : successorTargets context index instruction with
    | error error =>
      rw [isTargets] at transferred
      cases transferred
    | ok targets =>
      rw [isTargets] at transferred
      cases transferred
      obtain ⟨later, laterRan, afterAlike⟩ :=
        Respects.transferEffect context index library pool localHints instruction
          state other () after alike ran
      refine ⟨after, later, targets, rfl, rfl, afterAlike, ?_⟩
      unfold transferInstruction
      rw [laterRan, isTargets]
      rfl

end RustcCodegenJvm.Lower2
