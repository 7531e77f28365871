import Mathlib

/-!
# The StackMapTable attribute

The entries of the attribute and how a class-file reader decodes them: every
entry describes its frame relative to the one before, the first relative to the
frame the method starts with. Class-file types are resolved as they are read.
-/

namespace RustcCodegenJvm.Jvm

open Option

inductive VerificationType
  | top | integer | float | long | double | null
  | object (cpoolIndex : Nat)
  | uninitializedThis
  | uninitialized (offset : Nat)
deriving DecidableEq

inductive StackFrame
  | sameFrame (frameType : Nat)
  | sameLocals1StackItemFrame (frameType : Nat) (stack : List VerificationType)
  | sameLocals1StackItemFrameExtended (frameType offsetDelta : Nat) (stack : List VerificationType)
  | chopFrame (frameType offsetDelta : Nat)
  | sameFrameExtended (frameType offsetDelta : Nat)
  | appendFrame (frameType offsetDelta : Nat) (locals : List VerificationType)
  | fullFrame (frameType offsetDelta : Nat) (locals stack : List VerificationType)
deriving DecidableEq

structure DecodedFrame (Ty : Type) where
  target : Nat
  locals : List Ty
  stack : List Ty
deriving DecidableEq

section Decoding

variable {Ty : Type} (resolve : VerificationType → Option Ty)

/-- The offset delta, the locals and the stack of an entry; `none` for an entry that is
not well formed. -/
def decodeEntry (previous : List Ty) : StackFrame → Option (Nat × List Ty × List Ty)
  | .sameFrame frameType =>
    if frameType ≤ 63 then some (frameType, previous, []) else none
  | .sameLocals1StackItemFrame frameType stack => do
    let items ← stack.mapM resolve
    if 64 ≤ frameType ∧ frameType ≤ 127 ∧ items.length = 1 then
      return (frameType - 64, previous, items)
    else none
  | .sameLocals1StackItemFrameExtended frameType offsetDelta stack => do
    let items ← stack.mapM resolve
    if frameType = 247 ∧ items.length = 1 then return (offsetDelta, previous, items) else none
  | .chopFrame frameType offsetDelta =>
    if 248 ≤ frameType ∧ frameType ≤ 250 ∧ 251 - frameType ≤ previous.length then
      some (offsetDelta, previous.take (previous.length - (251 - frameType)), [])
    else none
  | .sameFrameExtended frameType offsetDelta =>
    if frameType = 251 then some (offsetDelta, previous, []) else none
  | .appendFrame frameType offsetDelta locals => do
    let appended ← locals.mapM resolve
    if 252 ≤ frameType ∧ frameType ≤ 254 ∧ appended.length = frameType - 251 then
      return (offsetDelta, previous ++ appended, [])
    else none
  | .fullFrame frameType offsetDelta locals stack => do
    let slots ← locals.mapM resolve
    let items ← stack.mapM resolve
    if frameType = 255 then return (offsetDelta, slots, items) else none

/-- The position an entry stands for: the delta itself for the first one, and one more
than the delta past the entry before. -/
def entryTarget (previous : Option Nat) (offsetDelta : Nat) : Nat :=
  match previous with
  | some target => target + offsetDelta + 1
  | none => offsetDelta

def decodeEntries (previous : Option Nat) (locals : List Ty) :
    List StackFrame → Option (List (DecodedFrame Ty))
  | [] => some []
  | entry :: rest => do
    let (offsetDelta, slots, stack) ← decodeEntry resolve locals entry
    let target := entryTarget previous offsetDelta
    let decoded ← decodeEntries (some target) slots rest
    return ⟨target, slots, stack⟩ :: decoded

variable {resolve}

theorem resolve_all_iff {types : List VerificationType} {resolved : List Ty} :
    types.mapM resolve = some resolved ↔
      List.Forall₂ (fun ty value => resolve ty = some value) types resolved := by
  induction types generalizing resolved with
  | nil => simp [eq_comm]
  | cons ty rest ih =>
    simp only [List.mapM_cons, bind_eq_bind, bind_eq_some_iff, pure_def,
      some.injEq, List.forall₂_cons_left_iff]
    constructor
    · rintro ⟨value, found, values, restFound, rfl⟩
      exact ⟨value, values, found, ih.mp restFound, rfl⟩
    · rintro ⟨value, values, found, restFound, rfl⟩
      exact ⟨value, found, values, ih.mpr restFound, rfl⟩

theorem resolve_append {first second : List VerificationType} {resolved firstTypes : List Ty}
    (firstResolves : first.mapM resolve = some firstTypes)
    (resolves : (first ++ second).mapM resolve = some resolved) :
    ∃ secondTypes, second.mapM resolve = some secondTypes ∧ resolved = firstTypes ++ secondTypes := by
  simp only [List.mapM_append, firstResolves, bind_eq_bind, bind_some,
    bind_eq_some_iff, pure_def, some.injEq] at resolves
  obtain ⟨secondTypes, secondResolves, rfl⟩ := resolves
  exact ⟨secondTypes, secondResolves, rfl⟩

end Decoding

end RustcCodegenJvm.Jvm
