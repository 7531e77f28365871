import RustcCodegenJvm.Lower2.Translator
import RustcCodegenJvm.Library.SortedMap

/-!
# Slots of variables do not overlap

The translator gives a variable a slot for each type it is used at, and lets
types of one JVM kind share it. Variables of different names never share a
slot, so storing into one leaves the others as they are.
-/

namespace RustcCodegenJvm.Lower2

open Jvm Oomir Library

variable {ty : Ty} {table : LocalTable}

namespace LocalTable

/-- The slots of a table: below the next free one, apart for different names, and the slot and
type a variable was last used at are among its own. Only the names the function uses count: a
parameter has a second name for its slot. -/
structure Valid (visible : String → Prop) (table : LocalTable) : Prop where
  below : ∀ name ty slot, table.getTypedLocalIndex name ty = some slot →
    slot + ty.size ≤ table.nextLocalIndex
  apart : ∀ name ty slot other otherTy otherSlot, visible name → visible other → name ≠ other →
    table.getTypedLocalIndex name ty = some slot →
    table.getTypedLocalIndex other otherTy = some otherSlot →
    slot + ty.size ≤ otherSlot ∨ otherSlot + otherTy.size ≤ slot
  mapped : ∀ name slot, table.localVarMap.lookup name = some slot →
    ∃ ty, table.getTypedLocalIndex name ty = some slot ∧ 0 < ty.size
  typed : ∀ name ty, table.localVarTypes.lookup name = some ty →
    ∃ slot, table.getTypedLocalIndex name ty = some slot

def empty : LocalTable := ⟨[], [], [], 0, 0⟩

variable {visible : String → Prop}

theorem get_typed_cons (table : LocalTable) (name other : String) (ty otherTy : Ty) (slot : Nat) :
    ({ table with typedLocalVarMap := ((other, otherTy), slot) :: table.typedLocalVarMap } :
        LocalTable).getTypedLocalIndex name ty =
      if name = other ∧ ty = otherTy then some slot else table.getTypedLocalIndex name ty := by
  change List.lookup (name, ty) (((other, otherTy), slot) :: table.typedLocalVarMap) = _
  rw [SortedMap.lookup_cons]
  simp only [Prod.mk.injEq]
  rfl

theorem size_pos_of_value (valued : ty.hasJvmValue = true) : 0 < ty.size := by
  cases ty with
  | void | unit => cases valued
  | int kind => cases kind <;> decide
  | f64 => exact Nat.two_pos
  | boolean | char | f16 | f32 | pointer | mutableReference | reference | array | slice | str
  | «class» | interface => exact Nat.one_pos

variable (valid : table.Valid visible)

include valid in
theorem Valid.note {name : String} {slot : Nat}
    (known : table.getTypedLocalIndex name ty = some slot) (valued : 0 < ty.size) :
    (table.note name ty slot).Valid visible where
  below := valid.below
  apart := valid.apart
  mapped := by
    intro other otherSlot found
    change List.lookup other ((name, slot) :: table.localVarMap) = _ at found
    rw [SortedMap.lookup_cons] at found
    split at found
    · rename_i same
      cases found
      subst same
      exact ⟨ty, known, valued⟩
    · exact valid.mapped other otherSlot found
  typed := by
    intro other otherTy found
    change List.lookup other ((name, ty) :: table.localVarTypes) = _ at found
    rw [SortedMap.lookup_cons] at found
    split at found
    · rename_i same
      cases found
      subst same
      exact ⟨slot, known⟩
    · exact valid.typed other otherTy found

include valid in
theorem Valid.add {name : String} {slot next used : Nat}
    (grows : table.nextLocalIndex ≤ next) (inside : slot + ty.size ≤ next)
    (fresh : table.getTypedLocalIndex name ty = none)
    (apart : ∀ other otherTy otherSlot, visible name → visible other → name ≠ other →
      table.getTypedLocalIndex other otherTy = some otherSlot →
      slot + ty.size ≤ otherSlot ∨ otherSlot + otherTy.size ≤ slot) : Valid visible { table with
      typedLocalVarMap := ((name, ty), slot) :: table.typedLocalVarMap
      nextLocalIndex := next, maxLocalsUsed := used } := by
  have lookup : ∀ other otherTy, getTypedLocalIndex { table with
      typedLocalVarMap := ((name, ty), slot) :: table.typedLocalVarMap
      nextLocalIndex := next, maxLocalsUsed := used } other otherTy =
        if other = name ∧ otherTy = ty then some slot else table.getTypedLocalIndex other otherTy :=
    fun other otherTy => get_typed_cons table other name otherTy ty slot
  have kept : ∀ other otherTy otherSlot, table.getTypedLocalIndex other otherTy = some otherSlot →
      (if other = name ∧ otherTy = ty then some slot
        else table.getTypedLocalIndex other otherTy) = some otherSlot := by
    intro other otherTy otherSlot found
    rw [if_neg, found]
    rintro ⟨rfl, rfl⟩
    rw [fresh] at found
    cases found
  refine ⟨?_, ?_, ?_, ?_⟩
  · intro other otherTy otherSlot found
    rw [lookup] at found
    split at found
    · rename_i same
      cases found
      rw [same.2]
      exact inside
    · exact (valid.below _ _ _ found).trans grows
  · intro first firstTy firstSlot second secondTy secondSlot isFirstVisible isSecondVisible different
      firstFound secondFound
    rw [lookup] at firstFound secondFound
    split at firstFound
    · rename_i isFirst
      cases firstFound
      rw [if_neg (fun isSecond => different (isFirst.1.trans isSecond.1.symm))] at secondFound
      rw [isFirst.2]
      exact apart _ _ _ (isFirst.1 ▸ isFirstVisible) isSecondVisible (isFirst.1 ▸ different) secondFound
    · split at secondFound
      · rename_i isSecond
        cases secondFound
        rw [isSecond.2]
        exact (apart _ _ _ (isSecond.1 ▸ isSecondVisible) isFirstVisible (isSecond.1 ▸ different.symm)
          firstFound).symm
      · exact valid.apart _ _ _ _ _ _ isFirstVisible isSecondVisible different firstFound secondFound
  · intro other otherSlot found
    obtain ⟨otherTy, isTyped, positive⟩ := valid.mapped other otherSlot found
    exact ⟨otherTy, by rw [lookup]; exact kept _ _ _ isTyped, positive⟩
  · intro other otherTy found
    obtain ⟨otherSlot, isTyped⟩ := valid.typed other otherTy found
    exact ⟨otherSlot, by rw [lookup]; exact kept _ _ _ isTyped⟩

theorem get_or_assign_lookup (table : LocalTable) (name other : String) (ty otherTy : Ty) :
    (table.getOrAssignLocal name ty).2.getTypedLocalIndex other otherTy =
      if other = name ∧ otherTy = ty then some (table.getOrAssignLocal name ty).1
      else table.getTypedLocalIndex other otherTy := by
  split
  · rename_i same
    rw [same.1, same.2]
    exact get_or_assign_local_typed table name ty
  · rename_i differs
    have assigned : (table.assignLocal name ty).2.getTypedLocalIndex other otherTy =
        table.getTypedLocalIndex other otherTy := by
      unfold assignLocal
      split
      · rfl
      · exact (get_typed_cons _ _ _ _ _ _).trans (if_neg differs)
    unfold getOrAssignLocal
    split
    · rfl
    · split
      · split
        · exact (get_typed_cons _ _ _ _ _ _).trans (if_neg differs)
        · exact assigned
      · exact assigned

theorem size_of_int_slot (intSlot : isIntSlot ty = true) : ty.size = 1 := by
  cases ty with
  | int kind => cases kind <;> first | rfl | cases intSlot
  | boolean | char | f16 => rfl
  | void | unit | f32 | f64 | pointer | mutableReference | reference | array | slice | str
  | «class» | interface => cases intSlot

theorem size_of_reference (isReference : ty.isJvmReferenceType = true) : ty.size = 1 := by
  cases ty with
  | pointer | mutableReference | reference | array | slice | str | «class» | interface => rfl
  | void | unit | boolean | char | int | f16 | f32 | f64 => cases isReference

/-- Types that share a slot without being the same take one. -/
theorem size_of_shared {existing : Ty} (shares : canShareJvmLocal existing ty = true)
    (differs : existing ≠ ty) : ty.size = 1 := by
  simp only [canShareJvmLocal, differs, decide_false, Bool.false_or, Bool.or_eq_true,
    Bool.and_eq_true] at shares
  rcases shares with ⟨-, isReference⟩ | ⟨-, intSlot⟩
  · exact size_of_reference isReference
  · exact size_of_int_slot intSlot

include valid in
theorem Valid.assign_local (name : String)
    (valued : 0 < ty.size) : (table.assignLocal name ty).2.Valid visible := by
  unfold assignLocal
  split
  · rename_i slot known
    exact valid.note known valued
  · rename_i unknown
    have added : Valid visible { table with
        typedLocalVarMap := ((name, ty), table.nextLocalIndex) :: table.typedLocalVarMap
        nextLocalIndex := table.nextLocalIndex + ty.size
        maxLocalsUsed := max table.maxLocalsUsed (table.nextLocalIndex + ty.size) } :=
      valid.add (Nat.le_add_right _ _) (le_refl _) unknown fun other otherTy otherSlot _ _ _ found =>
        .inr (valid.below _ _ _ found)
    exact added.note ((get_typed_cons table _ _ _ _ _).trans (if_pos ⟨rfl, rfl⟩)) valued

include valid in
theorem Valid.get_or_assign (name : String)
    (valued : 0 < ty.size) : (table.getOrAssignLocal name ty).2.Valid visible := by
  unfold getOrAssignLocal
  split
  · rename_i slot known
    exact valid.note known valued
  · rename_i unknown
    split
    · rename_i slot current isSlot isCurrent
      split
      · rename_i shares
        have differs : current ≠ ty := by
          rintro rfl
          obtain ⟨known, isKnown⟩ := valid.typed name current isCurrent
          rw [unknown] at isKnown
          cases isKnown
        obtain ⟨slotTy, isTyped, positive⟩ := valid.mapped name slot isSlot
        have single := size_of_shared shares differs
        have below := valid.below _ _ _ isTyped
        -- the shared slot is one the variable already has
        have added : Valid visible { table with
            typedLocalVarMap := ((name, ty), slot) :: table.typedLocalVarMap
            nextLocalIndex := table.nextLocalIndex, maxLocalsUsed := table.maxLocalsUsed } :=
          valid.add (le_refl _) (by omega) unknown
            fun other otherTy otherSlot isVisible isOtherVisible different found => by
              have := valid.apart _ _ _ _ _ _ isVisible isOtherVisible different isTyped found
              omega
        have isAdded := (get_typed_cons table name name ty ty slot).trans (if_pos ⟨rfl, rfl⟩)
        have noted := added.note isAdded valued
        refine ⟨noted.below, noted.apart, fun other otherSlot found => ?_, noted.typed⟩
        exact added.mapped other otherSlot found
      · exact valid.assign_local name valued
    · exact valid.assign_local name valued

/-- A later table of the same function: slots are only added, and stay apart. -/
structure Extends (table later : LocalTable) : Prop where
  typed : ∀ name ty slot, table.getTypedLocalIndex name ty = some slot →
    later.getTypedLocalIndex name ty = some slot
  valid : ∀ visible, table.Valid visible → later.Valid visible

theorem Extends.refl (table : LocalTable) : table.Extends table :=
  ⟨fun _ _ _ found => found, fun _ valid => valid⟩

theorem Extends.trans {middle later : LocalTable} (head : table.Extends middle)
    (tail : middle.Extends later) : table.Extends later where
  typed name ty slot found := tail.typed name ty slot (head.typed name ty slot found)
  valid visible valid := tail.valid visible (head.valid visible valid)

theorem get_or_assign_extends (table : LocalTable) (name : String) (valued : 0 < ty.size) :
    table.Extends (table.getOrAssignLocal name ty).2 where
  typed other otherTy slot found := by
    rw [get_or_assign_lookup]
    split
    · rename_i same
      rw [same.1, same.2] at found
      unfold getOrAssignLocal
      rw [found]
    · exact found
  valid _ valid := valid.get_or_assign name valued

abbrev Request := String × { ty : Ty // 0 < ty.size }

/-- The table after a sequence of requests for slots. -/
def requested (table : LocalTable) (requests : List Request) : LocalTable :=
  requests.foldl (fun table request => (table.getOrAssignLocal request.1 request.2).2) table

theorem requested_extends (requests : List Request) : table.Extends (table.requested requests) := by
  induction requests generalizing table with
  | nil => exact .refl table
  | cons request rest ih => exact (get_or_assign_extends table request.1 request.2.2).trans ih

/-- Whatever is requested before and after, a request keeps its slot, and the slots stay apart. -/
theorem requested_slots_stay_apart (before after : List Request) (request : Request) :
    (empty.requested (before ++ request :: after)).getTypedLocalIndex request.1 request.2 =
        some ((empty.requested before).getOrAssignLocal request.1 request.2).1 ∧
      (empty.requested (before ++ request :: after)).Valid fun _ => True := by
  constructor
  · rw [requested, List.foldl_append]
    exact (requested_extends after).typed _ _ _ (get_or_assign_local_typed _ _ _)
  · apply (requested_extends _).valid
    constructor <;> simp [empty, getTypedLocalIndex]

end LocalTable

theorem width_of_kind {kind : LocalKind} (isKind : localKind ty = some kind) :
    kind.width = ty.size := by
  cases ty with
  | void | unit => cases isKind
  | int kind => cases kind <;> cases isKind <;> rfl
  | boolean | char | f16 | f32 | f64 | pointer | mutableReference | reference | array | slice
  | str | «class» | interface => cases isKind; rfl

theorem write_apart {locals : Locals} {slot other : Nat} {value held : Value}
    (isHeld : locals other = some held)
    (apart : slot + value.kind.width ≤ other ∨ other + held.kind.width ≤ slot) :
    locals.write slot value other = some held := by
  have positive := value.kind.width_pos
  have heldPositive := held.kind.width_pos
  unfold Locals.write
  rw [if_neg (by omega)]
  split
  · rename_i next
    have wide : value.kind.width = 2 := by simpa [Value.isWide] using next.2
    omega
  · split
    · rename_i before
      have wide : held.kind.width = 2 := by
        simpa [Locals.wideAt, isHeld, Value.isWide] using before.2
      omega
    · exact isHeld

end RustcCodegenJvm.Lower2
