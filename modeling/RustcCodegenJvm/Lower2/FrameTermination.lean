import RustcCodegenJvm.Library.WorklistTermination
import RustcCodegenJvm.Lower2.FrameJoins
import RustcCodegenJvm.Lower2.FrameSoundness

/-!
# When the frame analysis ends

Every merge that changes a value widens it, and no value can be widened for ever.
A stack of another length is reported as a change as well, and there nothing need
be gained: the shorter stack is kept and the block is queued again. Where all
frames that flow into an instruction have stacks of the same length, the analysis
ends.
-/

namespace RustcCodegenJvm.Lower2

open Jvm Library FrameState

/-! ### Ranks -/

/-- How often a value without nulls can be widened at most. -/
def FrameValue.depth : FrameValue → Nat
  | .top | .null => 0
  | .object className => if className = objectClass then 1 else className.length + 2
  | _ => 1

/-- How far a value can be widened. A null can still become any class, so it stands above
every other value. -/
def FrameValue.rank (value : FrameValue) : Nat ×ₗ Nat :=
  toLex (if value = .null then 1 else 0, value.depth)

theorem widens_rank {special general : FrameValue} (widens : Widens special general)
    (different : general ≠ special) : general.rank < special.rank := by
  apply Prod.Lex.toLex_lt_toLex.mpr
  cases widens with
  | top => cases special <;> grind [FrameValue.depth]
  | null className => simp
  | object className =>
    have notObject : className ≠ objectClass := fun same => different (by rw [same])
    simp [FrameValue.depth, notObject]
  | @nested className parent isParent =>
    have shorter := nested_parent_shorter isParent
    have notObject : className ≠ objectClass := by
      rintro rfl
      cases isParent
    right
    refine ⟨by simp, ?_⟩
    simp only [FrameValue.depth, if_neg notObject]
    split <;> omega

theorem merge_value_rank (left right : FrameValue) : (mergeValue left right).rank ≤ left.rank ∧
      (mergeValue left right ≠ left → (mergeValue left right).rank < left.rank) := by
  rcases (merge_value_widens left right).1 with same | widens
  · rw [same]
    exact ⟨le_refl _, fun different => (different rfl).elim⟩
  · by_cases same : mergeValue left right = left
    · rw [same]
      exact ⟨le_refl _, fun different => (different rfl).elim⟩
    · have lower := widens_rank widens same
      exact ⟨le_of_lt lower, fun _ => lower⟩

def rankSum (values : List FrameValue) : Nat ×ₗ Nat := (values.map FrameValue.rank).sum

def FrameState.rank (state : FrameState) : Nat ×ₗ Nat := rankSum state.locals + rankSum state.stack

/-- Merging values one by one lowers their rank, unless it changes nothing. -/
theorem merge_stack_rank {existing incoming : List FrameValue}
    (lengths : existing.length = incoming.length) :
    rankSum (mergeStack existing incoming) ≤ rankSum existing ∧
      (mergeStack existing incoming ≠ existing →
        rankSum (mergeStack existing incoming) < rankSum existing) := by
  induction existing generalizing incoming with
  | nil => simp [mergeStack]
  | cons value rest ih =>
    cases incoming with
    | nil => cases lengths
    | cons value' rest' =>
      obtain ⟨restLower, restChanged⟩ := ih (Nat.succ.inj lengths)
      obtain ⟨valueLower, valueChanged⟩ := merge_value_rank value value'
      have unfolded (values : List FrameValue) (first : FrameValue) :
          rankSum (first :: values) = first.rank + rankSum values := List.sum_cons
      have merged : mergeStack (value :: rest) (value' :: rest') =
        mergeValue value value' :: mergeStack rest rest' := rfl
      rw [merged, unfolded, unfolded]
      refine ⟨add_le_add valueLower restLower, fun changed => ?_⟩
      by_cases same : mergeValue value value' = value
      · have restDiffers : mergeStack rest rest' ≠ rest := by
          intro restSame
          rw [same, restSame] at changed
          exact changed rfl
        exact add_lt_add_of_le_of_lt valueLower (restChanged restDiffers)
      · exact add_lt_add_of_lt_of_le (valueChanged same) restLower

theorem merge_locals_eq (existing incoming : List FrameValue) : mergeLocals existing incoming =
      mergeStack (resizeLocals existing (max existing.length incoming.length))
        (resizeLocals incoming (max existing.length incoming.length)) := by
  apply locals_ext
  · simp [mergeStack, resizeLocals]
  · intro index
    rcases lt_or_ge index (max existing.length incoming.length) with inside | outside
    · rw [local_at_merge, localAt, localAt, localAt, merge_stack_at (by simpa [mergeStack, resizeLocals] using inside)]
      have slot (locals : List FrameValue) := local_at_resize locals (max existing.length incoming.length) index
      unfold localAt at slot
      rw [slot, slot]
    · rw [local_at_outside (by simpa using outside),
        local_at_outside (by simpa [mergeStack, resizeLocals] using outside)]

theorem rank_resize (locals : List FrameValue) (length : Nat) :
    rankSum (resizeLocals locals length) = rankSum locals := by
  have noRank : FrameValue.top.rank = 0 := rfl
  simp [rankSum, resizeLocals, noRank]

theorem merge_state_rank {existing incoming : FrameState}
    (heights : existing.stack.length = incoming.stack.length) :
    (mergeState existing incoming).1.rank ≤ existing.rank ∧
      ((mergeState existing incoming).2 = true →
        (mergeState existing incoming).1.rank < existing.rank) := by
  have lengths : (resizeLocals existing.locals
        (max existing.locals.length incoming.locals.length)).length =
      (resizeLocals incoming.locals
        (max existing.locals.length incoming.locals.length)).length := by
    simp [resizeLocals]
  obtain ⟨localsLower, localsChanged⟩ := merge_stack_rank lengths
  rw [← merge_locals_eq, rank_resize] at localsLower localsChanged
  obtain ⟨stackLower, stackChanged⟩ := merge_stack_rank heights
  refine ⟨add_le_add localsLower stackLower, fun changed => ?_⟩
  simp only [mergeState, heights, ne_eq, not_true, decide_false, Bool.or_false, Bool.or_eq_true,
    decide_eq_true_eq] at changed
  rcases changed with locals | stack
  · exact add_lt_add_of_lt_of_le (localsChanged locals) stackLower
  · exact add_lt_add_of_le_of_lt localsLower (stackChanged stack)

namespace FrameProblem

/-! ### The frames of a method -/

/-- The frames that can flow into an instruction, and what merging makes of them. -/
inductive Reaches (problem : FrameProblem) : Nat → FrameState → Prop
  | entry : Reaches problem 0 (FrameState.new problem.initialLocals problem.maxLocals)
  | next {index target : Nat} {instruction : Instruction} {state after : FrameState}
      {successors : List (Nat × FrameState)} (before : Reaches problem index state)
      (found : problem.instructions[index]? = some instruction)
      (transferred : problem.transferAt index instruction state = .ok successors)
      (member : (target, after) ∈ successors) : Reaches problem target after
  | thrown {index target : Nat} {state : FrameState} (before : Reaches problem index state)
      (handles : target ∈ handlersOf problem.exceptionTable index) :
      Reaches problem target (handlerState state.locals)
  | merged {target : Nat} {first second : FrameState} (left : Reaches problem target first)
      (right : Reaches problem target second) : Reaches problem target (mergeState first second).1

/-- The frames that flow into an instruction have stacks of the same length. -/
def HeightsAgree (problem : FrameProblem) : Prop :=
  ∀ target first second, Reaches problem target first → Reaches problem target second →
    first.stack.length = second.stack.length

variable {problem : FrameProblem}

theorem block_edges_reach {index remaining : Nat} {state : FrameState}
    {edges : List (Nat × FrameState)} {edge : Nat × FrameState}
    (before : Reaches problem index state)
    (isEdges : problem.blockEdges index remaining state = .ok edges) (member : edge ∈ edges) :
    Reaches problem edge.1 edge.2 := by
  induction remaining generalizing index state edges with
  | zero =>
    cases isEdges
    cases member
  | succ remaining ih =>
    cases found : problem.instructions[index]? with
    | none =>
      rw [block_edges_none found] at isEdges
      cases isEdges
      cases member
    | some instruction =>
      obtain ⟨successors, transferred, shape⟩ := block_edges_ok found isEdges
      have isThrown : edge ∈ problem.thrownEdges index state.locals →
          Reaches problem edge.1 edge.2 := by
        intro thrown
        obtain ⟨target, handles, -, rfl⟩ := mem_thrown_edges.mp thrown
        exact before.thrown handles
      rcases shape with ⟨rfl, rfl⟩ | ⟨continues, next, rest, rfl, isRest, rfl⟩
      · rcases List.mem_append.mp member with thrown | normal
        · exact isThrown thrown
        · exact before.next found transferred (List.mem_filter.mp normal).1
      · rcases List.mem_append.mp member with thrown | later
        · exact isThrown thrown
        · exact ih (before.next found transferred (List.mem_singleton.mpr rfl)) isRest later

def Arrives (problem : FrameProblem) (block : Nat) (state : FrameState) : Prop :=
  ∃ start, problem.starts[block]? = some start ∧ Reaches problem start state

theorem heights_descend (agree : HeightsAgree problem) :
    Worklist.Descends mergeState (Arrives problem) FrameState.rank where
  keeps := by
    rintro block existing incoming ⟨start, isStart, left⟩ ⟨start', isStart', right⟩
    rw [isStart] at isStart'
    cases isStart'
    exact ⟨start, isStart, left.merged right⟩
  lowers := by
    rintro block existing incoming ⟨start, isStart, left⟩ ⟨start', isStart', right⟩
    rw [isStart] at isStart'
    cases isStart'
    exact (merge_state_rank (agree start _ _ left right)).1
  changes := by
    rintro block existing incoming ⟨start, isStart, left⟩ ⟨start', isStart', right⟩
    rw [isStart] at isStart'
    cases isStart'
    exact (merge_state_rank (agree start _ _ left right)).2

def storeLoop : FrameProblem :=
  withoutConstants [.iconst .zero, .store .int (.fixed 0), .goto 0] [.top] []

theorem store_loop_stack {index : Nat} {state : FrameState} (reaches : Reaches storeLoop index state) :
    state.stack = if index = 1 then [.integer] else [] := by
  induction reaches with
  | entry => rfl
  | @next index target instruction state after successors before found transferred member ih =>
    obtain ⟨locals, stack⟩ := state
    subst ih
    match index, found with
    | 0, found =>
      cases found
      cases transferred
      cases List.mem_singleton.mp member
      rfl
    | 1, found =>
      cases found
      cases transferred
      cases List.mem_singleton.mp member
      rfl
    | 2, found =>
      cases found
      cases transferred
      cases List.mem_singleton.mp member
      rfl
  | thrown before handles => cases handles
  | @merged target first second left right leftStack rightStack =>
    simp only [mergeState, leftStack, rightStack]
    split <;> rfl

def growingLoop : FrameProblem := withoutConstants [.iconst .zero, .goto 0] [] []

theorem growing_loop_repeats (fuel : Nat) :
    Worklist.run growingLoop.processBlock fuel growingLoop.initialWork = none := by
  induction fuel with
  | zero => rfl
  | succ fuel ih =>
    exact ih

end FrameProblem

end RustcCodegenJvm.Lower2
