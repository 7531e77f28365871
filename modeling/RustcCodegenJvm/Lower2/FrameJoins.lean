import RustcCodegenJvm.Lower2.FrameOrder

/-!
# Merging frames as a join

`merge_value` is commutative and idempotent. It looks only one `$` up, so for
classes nested more than once the result depends on the grouping. The classes
nested at most once form a tree of height two under `java/lang/Object`; the
values over them are a semilattice with `merge_value` as the join, and the frame
of a join point is the least upper bound of the frames merged into it.
-/

namespace RustcCodegenJvm.Lower2

open Jvm FrameState List

/-! ### All classes -/

variable {className : String}

theorem nested_parent_shorter {parent : String}
    (isParent : nestedParentClass className = some parent) : parent.length < className.length := by
  unfold nestedParentClass at isParent
  split_ifs at isParent
  split at isParent
  · cases isParent
  · rename_i dollar rest dropped
    split_ifs at isParent
    have found : parent.toList = rest.reverse := by
      rw [← Option.some.inj isParent, String.toList_ofList]
    have suffix := dropWhile_suffix (l := className.toList.reverse) (· ≠ '$')
    rw [dropped] at suffix
    have bound := suffix.length_le
    rw [← String.length_toList, ← String.length_toList, found]
    simp only [length_cons, length_reverse] at bound ⊢
    omega

theorem common_class_comm (left right : String) :
    commonObjectClass left right = commonObjectClass right left := by
  unfold commonObjectClass
  by_cases same : left = right
  · simp [same]
  by_cases object : left = objectClass ∨ right = objectClass
  · simp [same, Ne.symm same, object, object.symm]
  have object' : ¬ (right = objectClass ∨ left = objectClass) := fun either => object either.symm
  rw [if_neg same, if_neg (Ne.symm same), if_neg object, if_neg object']
  by_cases leftNested : nestedParentClass left = some right
  · have notBoth : nestedParentClass right ≠ some left := by
      intro rightNested
      have shorter := nested_parent_shorter leftNested
      have longer := nested_parent_shorter rightNested
      omega
    rw [if_pos leftNested, if_neg notBoth, if_pos leftNested]
  · rw [if_neg leftNested]
    split_ifs with rightNested
    · rfl
    · cases nestedParentClass left <;> cases nestedParentClass right <;> simp only []
      split_ifs <;> simp_all

theorem merge_value_comm (left right : FrameValue) :
    mergeValue left right = mergeValue right left := by
  unfold mergeValue
  by_cases same : left = right
  · simp [same]
  · rw [if_neg same, if_neg (Ne.symm same)]
    cases left <;> cases right <;> simp only [common_class_comm]

variable (value : FrameValue)

@[simp] theorem merge_value_self : mergeValue value value = value := by
  simp [mergeValue]

/-! ### Classes nested at most once -/

def NestedOnce (className : String) : Prop :=
  (nestedParentClass className).bind nestedParentClass = none

instance (className : String) : Decidable (NestedOnce className) :=
  inferInstanceAs (Decidable (_ = none))

variable (once : NestedOnce className)

include once in
theorem NestedOnce.parent {parent : String}
    (isParent : nestedParentClass className = some parent) : nestedParentClass parent = none := by
  rwa [NestedOnce, isParent] at once

theorem nested_once_of_none (noParent : nestedParentClass className = none) :
    NestedOnce className := by
  rw [NestedOnce, noParent, Option.bind_none]

def outermost (className : String) : String := (nestedParentClass className).getD className

include once in
theorem outermost_parent : nestedParentClass (outermost className) = none := by
  unfold outermost
  cases parent : nestedParentClass className with
  | none => exact parent
  | some outer => exact once.parent parent

include once in
@[simp] theorem outermost_outermost : outermost (outermost className) = outermost className := by
  rw [outermost, outermost_parent once, Option.getD_none]

theorem object_class_parent : nestedParentClass objectClass = none := by decide

@[simp] theorem outermost_object : outermost objectClass = objectClass := by
  rw [outermost, object_class_parent, Option.getD_none]

theorem common_class_eq {left right : String} (leftOnce : NestedOnce left)
    (rightOnce : NestedOnce right) : commonObjectClass left right = if left = right then left
      else if outermost left = outermost right then outermost left else objectClass := by
  by_cases same : left = right
  · simp [commonObjectClass, same]
  by_cases object : left = objectClass ∨ right = objectClass
  · rcases object with rfl | rfl
    · simp [commonObjectClass, same]
    · simpa [commonObjectClass, same] using Eq.symm
  rw [commonObjectClass, if_neg same, if_neg object, if_neg same]
  cases leftParent : nestedParentClass left with
  | none =>
    cases rightParent : nestedParentClass right with
    | none => simp [outermost, leftParent, rightParent, same]
    | some rightOuter =>
      by_cases nested : rightOuter = left
      · simp [outermost, leftParent, rightParent, nested]
      · simp [outermost, leftParent, rightParent, nested, Ne.symm nested]
  | some leftOuter =>
    have outerParent := leftOnce.parent leftParent
    by_cases nested : leftOuter = right
    · subst nested
      simp [outermost, leftParent, outerParent]
    cases rightParent : nestedParentClass right with
    | none => simp [outermost, leftParent, rightParent, nested]
    | some rightOuter =>
      have notNested : rightOuter ≠ left := by
        rintro rfl
        rw [rightOnce.parent rightParent] at leftParent
        cases leftParent
      simp [outermost, leftParent, rightParent, nested, notNested]

theorem object_class_once : NestedOnce objectClass := nested_once_of_none object_class_parent

include once in
theorem outermost_once :
    NestedOnce (outermost className) := nested_once_of_none (outermost_parent once)

theorem common_class_once {left right : String} (leftOnce : NestedOnce left)
    (rightOnce : NestedOnce right) : NestedOnce (commonObjectClass left right) := by
  rw [common_class_eq leftOnce rightOnce]
  split_ifs
  · exact leftOnce
  · exact outermost_once leftOnce
  · exact object_class_once

theorem common_class_assoc {first second third : String} (firstOnce : NestedOnce first)
    (secondOnce : NestedOnce second) (thirdOnce : NestedOnce third) :
    commonObjectClass (commonObjectClass first second) third =
      commonObjectClass first (commonObjectClass second third) := by
  rw [common_class_eq (common_class_once firstOnce secondOnce) thirdOnce,
    common_class_eq firstOnce (common_class_once secondOnce thirdOnce),
    common_class_eq firstOnce secondOnce, common_class_eq secondOnce thirdOnce]
  have secondTop := outermost_outermost secondOnce
  have objectTop := outermost_object
  grind

/-! ### The semilattice of frames -/

/-- Every class named by the value is nested at most once. -/
def FrameValue.Shallow : FrameValue → Prop
  | .object className => NestedOnce className
  | _ => True

instance : (value : FrameValue) → Decidable value.Shallow
  | .object className => inferInstanceAs (Decidable (NestedOnce className))
  | .top | .integer | .float | .long | .double | .null | .uninitializedThis
  | .uninitialized _ => .isTrue True.intro

variable {left right first : FrameValue}

theorem merge_value_shallow (leftShallow : left.Shallow)
    (rightShallow : right.Shallow) : (mergeValue left right).Shallow := by
  unfold mergeValue
  split_ifs
  · exact leftShallow
  · split
    · exact rightShallow
    · exact leftShallow
    · exact common_class_once leftShallow rightShallow
    · exact True.intro

theorem merge_object (left right : String) :
    mergeValue (.object left) (.object right) = .object (commonObjectClass left right) := by
  by_cases same : left = right
  · simp [commonObjectClass, same]
  · simp [mergeValue, same]

@[simp] theorem merge_top_left : mergeValue .top value = .top := by
  cases value <;> rfl

@[simp] theorem merge_top_right : mergeValue value .top = .top := by
  cases value <;> rfl

@[simp] theorem merge_null_object (className : String) :
    mergeValue .null (.object className) = .object className := rfl

@[simp] theorem merge_object_null (className : String) :
    mergeValue (.object className) .null = .object className := rfl

/-- A null or an object: the values a merge can keep apart from `Top`. -/
def FrameValue.isNullable : FrameValue → Bool
  | .null | .object _ => true
  | _ => false

theorem merge_plain_left (right : FrameValue) (plain : left.isNullable = false) :
    mergeValue left right = if right = left then left else .top := by
  unfold mergeValue
  by_cases same : left = right
  · simp [same]
  · rw [if_neg same, if_neg (Ne.symm same)]
    cases left <;> first | rfl | cases plain

theorem merge_plain_right (left : FrameValue) (plain : right.isNullable = false) :
    mergeValue left right = if left = right then right else .top := by
  rw [merge_value_comm, merge_plain_left left plain]

theorem merge_assoc_of_plain (second third : FrameValue) (plain : first.isNullable = false) :
    mergeValue (mergeValue first second) third = mergeValue first (mergeValue second third) := by
  rw [merge_plain_left _ plain, merge_plain_left _ plain]
  by_cases same : second = first
  · rw [if_pos same, same, merge_plain_left _ plain]
    split_ifs <;> simp_all
  · rw [if_neg same, merge_top_left]
    split_ifs with merged
    · have widened := (merge_value_widens second third).1
      rw [merged] at widened
      rcases widened with equal | widens
      · exact absurd equal.symm same
      · cases widens <;> simp_all [FrameValue.isNullable]
    · rfl

theorem merge_value_assoc {second third : FrameValue} (firstShallow : first.Shallow)
    (secondShallow : second.Shallow) (thirdShallow : third.Shallow) :
    mergeValue (mergeValue first second) third = mergeValue first (mergeValue second third) := by
  cases firstPlain : first.isNullable with
  | false => exact merge_assoc_of_plain second third firstPlain
  | true =>
    cases thirdPlain : third.isNullable with
    | false =>
      rw [merge_value_comm _ third, merge_value_comm first second,
        ← merge_assoc_of_plain second first thirdPlain, merge_value_comm third second,
        merge_value_comm _ first]
    | true =>
      cases secondPlain : second.isNullable with
      | false =>
        have left : first ≠ second := by rintro rfl; simp_all
        have right : third ≠ second := by rintro rfl; simp_all
        rw [merge_plain_right _ secondPlain, merge_plain_left _ secondPlain, if_neg left,
          if_neg right, merge_top_left, merge_top_right]
      | true =>
        cases first <;> cases second <;> cases third <;>
          simp_all [FrameValue.isNullable, FrameValue.Shallow, merge_object, common_class_assoc]

abbrev ShallowValue : Type := { value : FrameValue // value.Shallow }

instance : Max ShallowValue where
  max left right := ⟨mergeValue left.1 right.1, merge_value_shallow left.2 right.2⟩

/-- The order in which `merge_value` is the join. -/
instance : SemilatticeSup ShallowValue :=
  SemilatticeSup.mk'
    (fun left right => Subtype.ext (merge_value_comm left.1 right.1))
    (fun first second third => Subtype.ext (merge_value_assoc first.2 second.2 third.2))
    (fun value => Subtype.ext (merge_value_self value.1))

def FrameState.Shallow (state : FrameState) : Prop :=
  (∀ value ∈ state.locals, value.Shallow) ∧ ∀ value ∈ state.stack, value.Shallow

instance (state : FrameState) : Decidable state.Shallow := inferInstanceAs (Decidable (_ ∧ _))

abbrev ShallowFrame : Type := { state : FrameState // state.Shallow }

theorem local_at_shallow {locals : List FrameValue} (shallow : ∀ value ∈ locals, value.Shallow)
    (index : Nat) : (localAt locals index).Shallow := by
  rcases lt_or_ge index locals.length with inside | outside
  · rw [localAt, getD_eq_getElem _ _ inside]
    exact shallow _ (getElem_mem inside)
  · rw [local_at_outside outside]
    exact True.intro

theorem merge_state_shallow {existing incoming : FrameState} (first : existing.Shallow)
    (second : incoming.Shallow) : (mergeState existing incoming).1.Shallow := by
  constructor
  · intro value member
    obtain ⟨index, -, rfl⟩ := mem_map.mp member
    exact merge_value_shallow (local_at_shallow first.1 index) (local_at_shallow second.1 index)
  · intro value member
    obtain ⟨index, inside, rfl⟩ := getElem_of_mem member
    simp only [mergeState, mergeStack, length_zipWith, lt_inf_iff] at inside
    simp only [mergeState, mergeStack, getElem_zipWith]
    exact merge_value_shallow (first.2 _ (getElem_mem inside.1))
      (second.2 _ (getElem_mem inside.2))

@[simp] theorem length_merge_locals (existing incoming : List FrameValue) :
    (mergeLocals existing incoming).length = max existing.length incoming.length := by
  simp [mergeLocals]

theorem locals_ext {first second : List FrameValue} (lengths : first.length = second.length)
    (slots : ∀ index, localAt first index = localAt second index) : first = second := by
  apply ext_getElem lengths
  intro index inside inside'
  have slot := slots index
  rwa [localAt, localAt, getD_eq_getElem _ _ inside, getD_eq_getElem _ _ inside'] at slot

theorem merge_state_comm (existing incoming : FrameState) :
    (mergeState existing incoming).1 = (mergeState incoming existing).1 := by
  have locals : mergeLocals existing.locals incoming.locals =
      mergeLocals incoming.locals existing.locals := by
    apply locals_ext
    · simp [max_comm]
    · simp [local_at_merge, merge_value_comm]
  have stack : mergeStack existing.stack incoming.stack =
      mergeStack incoming.stack existing.stack := zipWith_comm_of_comm merge_value_comm
  simp [mergeState, locals, stack]

theorem merge_state_self (state : FrameState) : (mergeState state state).1 = state := by
  have locals : mergeLocals state.locals state.locals = state.locals := by
    apply locals_ext
    · simp
    · simp [local_at_merge]
  have stack : mergeStack state.stack state.stack = state.stack := by
    simp [mergeStack, zipWith_self]
  simp [mergeState, locals, stack]

theorem merge_stack_assoc {first second third : List FrameValue}
    (firstShallow : ∀ value ∈ first, value.Shallow)
    (secondShallow : ∀ value ∈ second, value.Shallow)
    (thirdShallow : ∀ value ∈ third, value.Shallow) :
    mergeStack (mergeStack first second) third = mergeStack first (mergeStack second third) := by
  induction first generalizing second third with
  | nil => simp [mergeStack]
  | cons value rest ih =>
    cases second with
    | nil => simp [mergeStack]
    | cons value' rest' =>
      cases third with
      | nil => simp [mergeStack]
      | cons value'' rest'' =>
        simp only [forall_mem_cons] at firstShallow secondShallow thirdShallow
        have values := merge_value_assoc firstShallow.1 secondShallow.1 thirdShallow.1
        have rests := ih firstShallow.2 secondShallow.2 thirdShallow.2
        simpa [mergeStack, values] using rests

theorem merge_state_assoc {first second third : FrameState} (firstShallow : first.Shallow)
    (secondShallow : second.Shallow) (thirdShallow : third.Shallow) :
    (mergeState (mergeState first second).1 third).1 =
      (mergeState first (mergeState second third).1).1 := by
  have locals : mergeLocals (mergeLocals first.locals second.locals) third.locals =
      mergeLocals first.locals (mergeLocals second.locals third.locals) := by
    apply locals_ext
    · simp [max_assoc]
    · intro index
      simp only [local_at_merge]
      exact merge_value_assoc (local_at_shallow firstShallow.1 index)
        (local_at_shallow secondShallow.1 index) (local_at_shallow thirdShallow.1 index)
  have stack := merge_stack_assoc firstShallow.2 secondShallow.2 thirdShallow.2
  simp [mergeState, locals, stack]

instance : Max ShallowFrame where
  max left right := ⟨(mergeState left.1 right.1).1, merge_state_shallow left.2 right.2⟩

instance : SemilatticeSup ShallowFrame :=
  SemilatticeSup.mk'
    (fun left right => Subtype.ext (merge_state_comm left.1 right.1))
    (fun first second third => Subtype.ext (merge_state_assoc first.2 second.2 third.2))
    (fun state => Subtype.ext (merge_state_self state.1))

/-! ### Join points -/

/-- The frame recorded at a join point once the frames of its predecessors were merged into it,
one after the other. -/
def mergeAll (first : FrameState) (rest : List FrameState) : FrameState :=
  rest.foldl (fun existing incoming => (mergeState existing incoming).1) first

theorem merge_all_sup (first : ShallowFrame) (rest : List ShallowFrame) :
    mergeAll first.1 (rest.map Subtype.val) = (rest.foldl (· ⊔ ·) first).1 := by
  induction rest generalizing first with
  | nil => rfl
  | cons next rest ih => exact ih (first ⊔ next)

/-- Joining one after the other gives the least upper bound. -/
theorem foldl_sup_is_lub {Value : Type} [SemilatticeSup Value] (first : Value)
    (rest : List Value) : IsLUB {value | value ∈ first :: rest} (rest.foldl (· ⊔ ·) first) := by
  rw [isLUB_iff_le_iff]
  intro bound
  rw [Library.foldl_and_iff (· ≤ bound) fun below next => @sup_le_iff _ _ below next bound]
  simp [upperBounds]

theorem merge_all_perm {first first' : FrameState} {rest rest' : List FrameState}
    (order : (first :: rest).Perm (first' :: rest'))
    (shallow : ∀ state ∈ first :: rest, state.Shallow) :
    mergeAll first rest = mergeAll first' rest' := by
  have shallow' : ∀ state ∈ first' :: rest', state.Shallow :=
    fun state member => shallow state (order.mem_iff.mpr member)
  rw [forall_mem_cons] at shallow shallow'
  let start : ShallowFrame := ⟨first, shallow.1⟩
  let start' : ShallowFrame := ⟨first', shallow'.1⟩
  let others : List ShallowFrame := rest.attachWith _ shallow.2
  let others' : List ShallowFrame := rest'.attachWith _ shallow'.2
  have values : others.map Subtype.val = rest := attachWith_map_subtype_val _
  have values' : others'.map Subtype.val = rest' := attachWith_map_subtype_val _
  have sameFrames : {state | state ∈ start :: others} = {state | state ∈ start' :: others'} := by
    ext state
    have member (frames : List ShallowFrame) : state.1 ∈ frames.map Subtype.val ↔ state ∈ frames :=
      mem_map_of_injective Subtype.val_injective
    rw [Set.mem_ofPred_eq, Set.mem_ofPred_eq, ← member, ← member, map_cons, map_cons,
      values, values']
    exact order.mem_iff
  have bound := foldl_sup_is_lub start others
  rw [sameFrames] at bound
  have same := bound.unique (foldl_sup_is_lub start' others')
  rw [← values, ← values']
  exact (merge_all_sup start others).trans
    ((congrArg Subtype.val same).trans (merge_all_sup start' others').symm)

/-- Merging commutes and is idempotent on all values. On values over classes nested at most
once it is associative, and the frame of a join point is the same in every order. -/
theorem frame_merging_joins : (∀ left right, mergeValue left right = mergeValue right left) ∧
      (∀ value, mergeValue value value = value) ∧
      (∀ first second third : FrameValue, first.Shallow → second.Shallow → third.Shallow →
        mergeValue (mergeValue first second) third = mergeValue first (mergeValue second third)) ∧
      ∀ (first first' : FrameState) (rest rest' : List FrameState),
        (first :: rest).Perm (first' :: rest') → (∀ state ∈ first :: rest, state.Shallow) →
          mergeAll first rest = mergeAll first' rest' :=
  ⟨merge_value_comm, merge_value_self, fun _ _ _ => merge_value_assoc,
    fun _ _ _ _ => merge_all_perm⟩

theorem frame_merging_joins_siblings :
    mergeValue (mergeValue (.object "A$B") .null) (.object "A$C") =
        mergeValue (.object "A$B") (mergeValue .null (.object "A$C")) ∧
      mergeAll ⟨[.object "A$B"], []⟩ [⟨[.object "A$C", .integer], []⟩] =
        mergeAll ⟨[.object "A$C", .integer], []⟩ [⟨[.object "A$B"], []⟩] :=
  ⟨frame_merging_joins.2.2.1 _ _ _ (by decide) (by decide) (by decide),
    frame_merging_joins.2.2.2 _ _ _ _ (.swap _ _ _) (by decide)⟩

/-- A class nested twice is lost when it is merged last. -/
theorem merging_twice_nested_depends_on_order :
    mergeValue (mergeValue (.object "A$B$C") (.object "A$B")) (.object "A") = .object "A" ∧
      mergeValue (.object "A$B$C") (mergeValue (.object "A$B") (.object "A")) =
        .object objectClass := by
  decide

end RustcCodegenJvm.Lower2
