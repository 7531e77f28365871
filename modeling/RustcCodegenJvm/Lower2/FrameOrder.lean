import RustcCodegenJvm.Lower2.FrameSolver

/-!
# When a frame is more general

A value is at least as general as another when merges lead from the second to
the first. One merge is not always enough: `merge_value` is not associative, and
a class nested twice reaches its outermost class in two steps. Frames are
compared slot by slot, with nothing in the slots past the end, and a recorded
stack may have been cut to the length of a shorter one.
-/

namespace RustcCodegenJvm.Lower2

open Jvm Library FrameState

def MergesTo (special general : FrameValue) : Prop :=
  ∃ other, general = mergeValue special other ∨ general = mergeValue other special

def Generalizes (general special : FrameValue) : Prop :=
  Relation.ReflTransGen MergesTo special general

theorem Generalizes.refl (value : FrameValue) : Generalizes value value :=
  Relation.ReflTransGen.refl

theorem Generalizes.trans {first second third : FrameValue} (upper : Generalizes first second)
    (lower : Generalizes second third) : Generalizes first third :=
  Relation.ReflTransGen.trans lower upper

variable (left right : FrameValue)

theorem merge_generalizes_left : Generalizes (mergeValue left right) left :=
  Relation.ReflTransGen.single ⟨right, .inl rfl⟩

theorem merge_generalizes_right : Generalizes (mergeValue left right) right :=
  Relation.ReflTransGen.single ⟨left, .inr rfl⟩

/-! ### What generality allows -/

/-- One widening: nothing is known any more, a null gets a class, a class gives way to
`java/lang/Object` or to the class it is nested in. -/
inductive Widens : FrameValue → FrameValue → Prop
  | top (value : FrameValue) : Widens value .top
  | null (className : String) : Widens .null (.object className)
  | object (className : String) : Widens (.object className) (.object objectClass)
  | nested {className parent : String} (isParent : nestedParentClass className = some parent) :
      Widens (.object className) (.object parent)

theorem common_class_cases (left right : String) :
    (commonObjectClass left right = left ∨ commonObjectClass left right = objectClass ∨
      nestedParentClass left = some (commonObjectClass left right)) ∧
    (commonObjectClass left right = right ∨ commonObjectClass left right = objectClass ∨
      nestedParentClass right = some (commonObjectClass left right)) := by
  unfold commonObjectClass
  split_ifs with same object leftNested rightNested
  · exact ⟨.inl rfl, .inl same⟩
  · exact ⟨.inr (.inl rfl), .inr (.inl rfl)⟩
  · exact ⟨.inr (.inr leftNested), .inl rfl⟩
  · exact ⟨.inl rfl, .inr (.inr rightNested)⟩
  · split
    · rename_i leftParent rightParent leftOf rightOf
      split_ifs with siblings
      · exact ⟨.inr (.inr leftOf), .inr (.inr (siblings ▸ rightOf))⟩
      · exact ⟨.inr (.inl rfl), .inr (.inl rfl)⟩
    · exact ⟨.inr (.inl rfl), .inr (.inl rfl)⟩

theorem common_class_widens {className result : String}
    (cases : result = className ∨ result = objectClass ∨ nestedParentClass className = some result) :
    FrameValue.object result = .object className ∨ Widens (.object className) (.object result) := by
  rcases cases with rfl | rfl | isParent
  · exact .inl rfl
  · exact .inr (.object className)
  · exact .inr (.nested isParent)

theorem merge_value_widens : (mergeValue left right = left ∨ Widens left (mergeValue left right)) ∧
      (mergeValue left right = right ∨ Widens right (mergeValue left right)) := by
  unfold mergeValue
  split_ifs with same
  · exact ⟨.inl rfl, .inl same⟩
  · split
    · exact ⟨.inr (.null _), .inl rfl⟩
    · exact ⟨.inl rfl, .inr (.null _)⟩
    · rename_i leftClass rightClass
      exact ⟨common_class_widens (common_class_cases leftClass rightClass).1,
        common_class_widens (common_class_cases leftClass rightClass).2⟩
    · exact ⟨.inr (.top _), .inr (.top _)⟩

variable {special general : FrameValue} {first second : FrameState}

theorem merges_to_widens (merges : MergesTo special general) :
    general = special ∨ Widens special general := by
  obtain ⟨other, rfl | rfl⟩ := merges
  · exact (merge_value_widens special other).1
  · exact (merge_value_widens other special).2

theorem generalizes_widens (generalizes : Generalizes general special) :
    Relation.ReflTransGen Widens special general := by
  induction generalizes with
  | refl => exact .refl
  | tail _ merges ih =>
    rcases merges_to_widens merges with rfl | widens
    · exact ih
    · exact ih.tail widens

/-! ### Frames -/

structure Covers (recorded produced : FrameState) : Prop where
  locals : ∀ index, Generalizes (localAt recorded.locals index) (localAt produced.locals index)
  stackLength : recorded.stack.length ≤ produced.stack.length
  stack : ∀ index, index < recorded.stack.length →
    Generalizes (recorded.stack.getD index .top) (produced.stack.getD index .top)

/-- The same frame, up to empty slots at the end of the locals. -/
structure Alike (first second : FrameState) : Prop where
  locals : ∀ index, localAt first.locals index = localAt second.locals index
  stack : first.stack = second.stack

theorem Alike.refl (state : FrameState) : Alike state state := ⟨fun _ => rfl, rfl⟩

theorem Alike.symm (alike : Alike first second) : Alike second first :=
  ⟨fun index => (alike.locals index).symm, alike.stack.symm⟩

theorem Alike.trans {third : FrameState} (left : Alike first second)
    (right : Alike second third) : Alike first third :=
  ⟨fun index => (left.locals index).trans (right.locals index), left.stack.trans right.stack⟩

theorem Covers.refl (state : FrameState) : Covers state state where
  locals := fun _ => Generalizes.refl _
  stackLength := le_refl _
  stack := fun _ _ => Generalizes.refl _

theorem Covers.trans {third : FrameState} (upper : Covers first second)
    (lower : Covers second third) : Covers first third where
  locals := fun index => (upper.locals index).trans (lower.locals index)
  stackLength := upper.stackLength.trans lower.stackLength
  stack := fun index inside =>
    (upper.stack index inside).trans (lower.stack index (lt_of_lt_of_le inside upper.stackLength))

theorem Covers.of_alike {recorded produced other : FrameState} (covers : Covers recorded produced)
    (alike : Alike produced other) : Covers recorded other where
  locals := fun index => alike.locals index ▸ covers.locals index
  stackLength := alike.stack ▸ covers.stackLength
  stack := alike.stack ▸ covers.stack

theorem local_at_outside {locals : List FrameValue} {index : Nat} (outside : locals.length ≤ index) :
    localAt locals index = .top :=
  List.getD_eq_default _ _ outside

theorem local_at_merge (existing incoming : List FrameValue) (index : Nat) :
    localAt (mergeLocals existing incoming) index =
      mergeValue (localAt existing index) (localAt incoming index) := by
  rcases lt_or_ge index (max existing.length incoming.length) with inside | outside
  · simp [localAt, mergeLocals, inside]
  · rw [local_at_outside (by simpa [mergeLocals] using outside),
      local_at_outside (le_trans (le_max_left _ _) outside),
      local_at_outside (le_trans (le_max_right _ _) outside)]
    rfl

theorem local_at_resize (locals : List FrameValue) (length index : Nat) :
    localAt (resizeLocals locals length) index = localAt locals index := by
  unfold localAt resizeLocals
  rcases lt_or_ge index locals.length with inside | outside
  · rw [List.getD_append _ _ _ _ inside]
  · rw [List.getD_append_right _ _ _ _ outside, List.getD_eq_default _ _ outside,
      List.getD_eq_getElem?_getD, List.getElem?_replicate]
    split <;> rfl

theorem merge_stack_at {existing incoming : List FrameValue} {index : Nat}
    (inside : index < (mergeStack existing incoming).length) :
    (mergeStack existing incoming).getD index .top =
      mergeValue (existing.getD index .top) (incoming.getD index .top) := by
  have lengths : index < existing.length ∧ index < incoming.length := by
    simpa [mergeStack] using inside
  simp [mergeStack, List.getD_eq_getElem?_getD, lengths.1, lengths.2]

/-- Merging frames is an upper bound, and an unchanged frame is the same up to empty slots. -/
theorem merges_state : Worklist.Merges mergeState Covers Alike where
  refl := Covers.refl
  trans := Covers.trans
  sameRefl := Alike.refl
  sameTrans := Alike.trans
  existing := fun existing incoming =>
    { locals := fun index => by
        rw [mergeState, local_at_merge]
        exact merge_generalizes_left _ _
      stackLength := by simp [mergeState, mergeStack]
      stack := fun index inside => by
        rw [mergeState, merge_stack_at inside]
        exact merge_generalizes_left _ _ }
  incoming := fun existing incoming =>
    { locals := fun index => by
        rw [mergeState, local_at_merge]
        exact merge_generalizes_right _ _
      stackLength := by simp [mergeState, mergeStack]
      stack := fun index inside => by
        rw [mergeState, merge_stack_at inside]
        exact merge_generalizes_right _ _ }
  unchanged := fun existing incoming kept => by
    simp only [mergeState, ne_eq, Bool.or_eq_false_iff, decide_eq_false_iff_not, not_not] at kept
    obtain ⟨⟨sameLocals, -⟩, sameStack⟩ := kept
    refine ⟨fun index => ?_, sameStack⟩
    rw [mergeState, sameLocals, local_at_resize]

end RustcCodegenJvm.Lower2
