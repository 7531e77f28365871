import RustcCodegenJvm.Lower2.FramePadding

/-!
# Recorded frames are sound

When the frame analysis ends, the frame recorded at the start of a block covers
the frame of every edge that leads there. Processing a block is a list of
contributions, one for each handler of each instruction and for each successor
of the last; the rule for worklists says they are covered when the queue is
empty.
-/

namespace RustcCodegenJvm.Lower2

open Jvm Library StateExcept List

variable {target : Nat} {done : List (Nat × FrameState)}

namespace FrameProblem

variable (problem : FrameProblem)

def toBlock (edge : Nat × FrameState) : Nat × FrameState :=
  (problem.blockByInstruction edge.1, edge.2)

def Placed (edge : Nat × FrameState) : Prop :=
  problem.starts[problem.blockByInstruction edge.1]? = some edge.1

/-- The edges to those of the handlers that are in the code. -/
def handlerEdges (locals : List FrameValue) (targets : List Nat) : List (Nat × FrameState) :=
  (targets.filter (· < problem.instructions.length)).map fun target => (target, handlerState locals)

def thrownEdges (index : Nat) (locals : List FrameValue) : List (Nat × FrameState) :=
  ((handlersOf problem.exceptionTable index).filter (· < problem.instructions.length)).map
    fun target => (target, handlerState locals)

def normalEdges (successors : List (Nat × FrameState)) : List (Nat × FrameState) :=
  successors.filter fun successor => successor.1 < problem.instructions.length

def blockEdges (index : Nat) : (remaining : Nat) → FrameState →
    Except JvmError (List (Nat × FrameState))
  | 0, _ => .ok []
  | remaining + 1, state =>
    match problem.instructions[index]? with
    | none => .ok []
    | some instruction => do
      let successors ← problem.transferAt index instruction state
      if remaining = 0 then
        return problem.thrownEdges index state.locals ++ problem.normalEdges successors
      else
        let next ← problem.continueBlock index successors
        let rest ← blockEdges (index + 1) remaining next
        return problem.thrownEdges index state.locals ++ rest

section Processing

variable {problem} {work later : Worklist FrameState}

/-- The worklist after contributions of the edges, all of which are placed. -/
def Contributed (problem : FrameProblem) (work later : Worklist FrameState)
    (added : List (Nat × FrameState)) : Prop :=
  later = work.contributeAll mergeState (added.map problem.toBlock) ∧
    ∀ edge ∈ added, problem.Placed edge

theorem Contributed.nothing : Contributed problem work work [] :=
  ⟨rfl, fun _ absent => by cases absent⟩

theorem Contributed.append {middle : Worklist FrameState} {first second : List (Nat × FrameState)}
    (head : Contributed problem work middle first)
    (tail : Contributed problem middle later second) :
    Contributed problem work later (first ++ second) := by
  obtain ⟨rfl, firstPlaced⟩ := head
  obtain ⟨rfl, secondPlaced⟩ := tail
  refine ⟨?_, fun edge member => (mem_append.mp member).elim (firstPlaced edge) (secondPlaced edge)⟩
  rw [map_append, Worklist.contributeAll, Worklist.contributeAll, Worklist.contributeAll,
    foldl_append]

theorem merge_block_entry_ok {incoming : FrameState} (inside : target < problem.instructions.length)
    (ran : problem.mergeBlockEntry target incoming work = .ok later) :
    Contributed problem work later [(target, incoming)] := by
  unfold mergeBlockEntry at ran
  rw [if_neg (by omega)] at ran
  split at ran
  · cases ran
  · rename_i placed
    cases ran
    refine ⟨rfl, fun edge member => ?_⟩
    cases mem_singleton.mp member
    exact not_not.mp placed

theorem merge_successors_ok {successors : List (Nat × FrameState)}
    (ran : problem.mergeSuccessors successors work = .ok later) :
    Contributed problem work later (problem.normalEdges successors) := by
  induction successors generalizing work with
  | nil =>
    cases ran
    exact Contributed.nothing
  | cons successor rest ih =>
    obtain ⟨target, state⟩ := successor
    unfold mergeSuccessors at ran
    split at ran
    case isTrue outside =>
      have dropped : problem.normalEdges ((target, state) :: rest) = problem.normalEdges rest :=
        filter_cons_of_neg (by simpa using outside)
      rw [dropped]
      exact ih ran
    case isFalse inside =>
      have kept : problem.normalEdges ((target, state) :: rest) =
          [(target, state)] ++ problem.normalEdges rest :=
        filter_cons_of_pos (by simpa using inside)
      rw [kept]
      cases merged : problem.mergeBlockEntry target state work with
      | error error =>
        rw [merged] at ran
        cases ran
      | ok middle =>
        rw [merged] at ran
        exact (merge_block_entry_ok (by omega) merged).append (ih ran)

/-- The locals a block merged into a handler last are those of an edge it contributed. -/
def Remembers (lastHandlerLocals : List (Nat × List FrameValue)) (done : List (Nat × FrameState)) :
    Prop :=
  ∀ target locals, lastHandlerLocals.lookup target = some locals → (target, handlerState locals) ∈ done

theorem merge_handlers_ok {locals : List FrameValue} {targets : List Nat}
    {last next : List (Nat × List FrameValue)} (remembers : Remembers last done)
    (ran : problem.mergeHandlers locals targets last work = .ok (next, later)) :
    ∃ added, Contributed problem work later added ∧ Remembers next (done ++ added) ∧
      problem.handlerEdges locals targets ⊆ done ++ added ∧
      added ⊆ problem.handlerEdges locals targets := by
  induction targets generalizing work last done with
  | nil =>
    cases ran
    exact ⟨[], Contributed.nothing, by simpa using remembers, by simp [handlerEdges], by simp⟩
  | cons target rest ih =>
    have edges (inside : target < problem.instructions.length) : problem.handlerEdges locals (target :: rest) =
        (target, handlerState locals) :: problem.handlerEdges locals rest := by
      simp [handlerEdges, inside]
    unfold mergeHandlers at ran
    split at ran
    case isTrue skipped =>
      obtain ⟨added, contributed, remembersNext, covered, origin⟩ := ih remembers ran
      refine ⟨added, contributed, remembersNext, ?_⟩
      by_cases inside : target < problem.instructions.length
      · have known := remembers _ _ (skipped.resolve_right (by omega))
        rw [edges inside]
        exact ⟨List.cons_subset.mpr ⟨List.mem_append_left _ known, covered⟩,
          subset_cons_of_subset _ origin⟩
      · have same : problem.handlerEdges locals (target :: rest) = problem.handlerEdges locals rest := by
          simp [handlerEdges, inside]
        rw [same]
        exact ⟨covered, origin⟩
    case isFalse fresh =>
      have inside : target < problem.instructions.length := by
        by_contra outside
        exact fresh (.inr (by omega))
      cases merged : problem.mergeBlockEntry target (handlerState locals) work with
      | error error =>
        rw [merged] at ran
        cases ran
      | ok middle =>
        rw [merged] at ran
        have remembersMiddle : Remembers ((target, locals) :: last)
            (done ++ [(target, handlerState locals)]) := by
          intro other otherLocals found
          rw [lookup_cons] at found
          split at found
          · rename_i same
            cases found
            rw [eq_of_beq same]
            simp
          · exact mem_append_left _ (remembers _ _ found)
        obtain ⟨added, contributed, remembersNext, covered, origin⟩ := ih remembersMiddle ran
        rw [append_assoc] at remembersNext covered
        rw [edges inside]
        exact ⟨[(target, handlerState locals)] ++ added,
          (merge_block_entry_ok inside merged).append contributed, remembersNext,
          cons_subset.mpr ⟨by simp, covered⟩, cons_subset_cons _ origin⟩

theorem mem_thrown_edges {index : Nat} {locals : List FrameValue} {edge : Nat × FrameState} :
    edge ∈ problem.thrownEdges index locals ↔
      ∃ target ∈ handlersOf problem.exceptionTable index, target < problem.instructions.length ∧
        edge = (target, handlerState locals) := by
  simp only [thrownEdges, mem_map, mem_filter, decide_eq_true_eq, and_assoc]
  exact exists_congr fun target => and_congr_right fun _ => and_congr_right fun _ => eq_comm

section Edges

variable {index remaining : Nat} {instruction : Instruction} {state next : FrameState}
  {successors rest : List (Nat × FrameState)}

theorem block_edges_none (absent : problem.instructions[index]? = none) :
    problem.blockEdges index (remaining + 1) state = .ok [] := by
  rw [blockEdges, absent]

variable (found : problem.instructions[index]? = some instruction)

include found in
theorem block_edges_last (transferred : problem.transferAt index instruction state = .ok successors)
    (isLast : remaining = 0) : problem.blockEdges index (remaining + 1) state =
      .ok (problem.thrownEdges index state.locals ++ problem.normalEdges successors) := by
  simp only [blockEdges, found, transferred, isLast]
  rfl

include found in
theorem block_edges_next (transferred : problem.transferAt index instruction state = .ok successors)
    (continues : remaining ≠ 0) (isNext : problem.continueBlock index successors = .ok next)
    (isRest : problem.blockEdges (index + 1) remaining next = .ok rest) :
    problem.blockEdges index (remaining + 1) state =
      .ok (problem.thrownEdges index state.locals ++ rest) := by
  simp only [blockEdges, found, transferred]
  change (if remaining = 0 then _ else _) = _
  rw [if_neg continues, isNext]
  change (do let rest ← problem.blockEdges (index + 1) remaining next; _) = _
  rw [isRest]
  rfl

end Edges

/-- Processing the rest of a block contributes exactly its edges, apart from those to
handlers that were contributed before. -/
theorem run_block_ok {index remaining : Nat} {state : FrameState}
    {last : List (Nat × List FrameValue)} (remembers : Remembers last done)
    (ran : problem.runBlock index remaining state last work = .ok later) :
    ∃ edges added, problem.blockEdges index remaining state = .ok edges ∧
      Contributed problem work later added ∧ edges ⊆ done ++ added ∧ added ⊆ edges := by
  induction remaining generalizing index state last work done with
  | zero =>
    cases ran
    exact ⟨[], [], rfl, Contributed.nothing, by simp, by simp⟩
  | succ remaining ih =>
    unfold runBlock at ran
    split at ran
    · rename_i absent
      cases ran
      exact ⟨[], [], block_edges_none absent, Contributed.nothing, by simp, by simp⟩
    · rename_i instruction found
      obtain ⟨⟨next, middle⟩, handled, afterHandlers⟩ := except_bind_ok ran
      obtain ⟨successors, transferred, afterTransfer⟩ := except_bind_ok afterHandlers
      obtain ⟨thrown, contributed, remembersNext, covers, origin⟩ := merge_handlers_ok remembers handled
      split at afterTransfer
      case isTrue isLast =>
        refine ⟨_, thrown ++ problem.normalEdges successors, block_edges_last found transferred isLast,
          contributed.append (merge_successors_ok afterTransfer), ?_, ?_⟩
        · rw [← append_assoc]
          exact append_subset.mpr ⟨List.subset_append_of_subset_left _ covers,
            subset_append_right _ _⟩
        · exact append_subset.mpr ⟨List.subset_append_of_subset_left _ origin,
            subset_append_right _ _⟩
      case isFalse continues =>
        obtain ⟨nextState, isNext, restRan⟩ := except_bind_ok afterTransfer
        obtain ⟨edges, added, isEdges, restContributed, restCovers, restOrigin⟩ :=
          ih remembersNext restRan
        refine ⟨_, thrown ++ added, block_edges_next found transferred continues isNext isEdges,
          contributed.append restContributed, ?_, ?_⟩
        · rw [← append_assoc]
          exact append_subset.mpr ⟨List.subset_append_of_subset_left _ covers, restCovers⟩
        · exact append_subset.mpr ⟨List.subset_append_of_subset_left _ origin,
            subset_append_of_subset_right _ restOrigin⟩

end Processing

/-! ### Edges of alike frames -/

def EdgeAlike (first second : Nat × FrameState) : Prop :=
  first.1 = second.1 ∧ Alike first.2 second.2

variable {problem}

variable {index remaining block : Nat} {instruction : Instruction} {state : FrameState}
  {successors edges : List (Nat × FrameState)} {work : Worklist FrameState}

theorem transfer_at_ok : problem.transferAt index instruction state = .ok successors ↔
      transferInstruction problem.library problem.context index problem.constantPool
        problem.localHints instruction state = .ok successors := by
  unfold transferAt
  split
  · rename_i found
    rw [found]
  · rename_i found
    rw [found]
    simp

theorem continue_block_ok {next : FrameState}
    (ran : problem.continueBlock index successors = .ok next) : successors = [(index + 1, next)] := by
  unfold continueBlock at ran
  split at ran
  · cases ran
  · rename_i successor found
    split at ran
    · cases ran
    · rename_i single
      cases ran
      have isNext : successor.1 = index + 1 := by simpa using List.find?_some found
      have member := mem_of_find?_eq_some found
      have length : successors.length = 1 := by
        have := length_pos_of_mem member
        omega
      obtain ⟨only, rfl⟩ := length_eq_one_iff.mp length
      cases mem_singleton.mp member
      rw [← isNext]

theorem block_edges_ok (found : problem.instructions[index]? = some instruction)
    (isEdges : problem.blockEdges index (remaining + 1) state = .ok edges) :
    ∃ successors, problem.transferAt index instruction state = .ok successors ∧ ((remaining = 0 ∧
          edges = problem.thrownEdges index state.locals ++ problem.normalEdges successors) ∨
        (remaining ≠ 0 ∧ ∃ next rest, successors = [(index + 1, next)] ∧
          problem.blockEdges (index + 1) remaining next = .ok rest ∧
          edges = problem.thrownEdges index state.locals ++ rest)) := by
  rw [blockEdges, found] at isEdges
  obtain ⟨successors, transferred, afterTransfer⟩ := except_bind_ok isEdges
  refine ⟨successors, transferred, ?_⟩
  split at afterTransfer
  case isTrue isLast =>
    cases afterTransfer
    exact .inl ⟨isLast, rfl⟩
  case isFalse continues =>
    obtain ⟨next, isNext, afterNext⟩ := except_bind_ok afterTransfer
    obtain ⟨rest, isRest, returned⟩ := except_bind_ok afterNext
    cases returned
    exact .inr ⟨continues, next, rest, continue_block_ok isNext, isRest, rfl⟩

theorem normal_edges_alike {targets : List Nat} {first second : FrameState}
    (alike : Alike first second) :
    List.Forall₂ EdgeAlike (problem.normalEdges (targets.map fun target => (target, first)))
      (problem.normalEdges (targets.map fun target => (target, second))) := by
  unfold normalEdges
  rw [filter_map, filter_map, forall₂_map_left_iff, forall₂_map_right_iff]
  exact forall₂_same.mpr fun target _ => ⟨rfl, alike⟩

theorem block_edges_alike {other : FrameState} (alike : Alike state other)
    (isEdges : problem.blockEdges index remaining state = .ok edges) :
    ∃ otherEdges, problem.blockEdges index remaining other = .ok otherEdges ∧
      List.Forall₂ EdgeAlike edges otherEdges := by
  induction remaining generalizing index state other edges with
  | zero =>
    cases isEdges
    exact ⟨[], rfl, .nil⟩
  | succ remaining ih =>
    cases found : problem.instructions[index]? with
    | none =>
      rw [block_edges_none found] at isEdges
      cases isEdges
      exact ⟨[], block_edges_none found, .nil⟩
    | some instruction =>
      obtain ⟨successors, transferred, shape⟩ := block_edges_ok found isEdges
      obtain ⟨after, later, targets, rfl, isTargets, afterAlike, otherTransferred⟩ :=
        transfer_alike _ _ _ _ _ _ alike (transfer_at_ok.mp transferred)
      have otherTransferred := transfer_at_ok.mpr otherTransferred
      have thrown : List.Forall₂ EdgeAlike (problem.thrownEdges index state.locals)
          (problem.thrownEdges index other.locals) := by
        unfold thrownEdges
        rw [forall₂_map_left_iff, forall₂_map_right_iff]
        exact forall₂_same.mpr fun target _ => ⟨rfl, alike.locals, rfl⟩
      rcases shape with ⟨isLast, rfl⟩ | ⟨continues, next, rest, single, isRest, rfl⟩
      · exact ⟨_, block_edges_last found otherTransferred isLast,
          rel_append thrown (normal_edges_alike afterAlike)⟩
      · obtain ⟨target, rfl, isPair⟩ := map_eq_singleton_iff.mp single
        cases isPair
        obtain ⟨otherRest, isOtherRest, restAlike⟩ := ih afterAlike isRest
        exact ⟨_, block_edges_next found otherTransferred continues (by simp [continueBlock]) isOtherRest,
          rel_append thrown restAlike⟩

theorem alike_of_mem {others : List (Nat × FrameState)}
    (alike : List.Forall₂ EdgeAlike edges others) {other : Nat × FrameState}
    (member : other ∈ others) : ∃ edge ∈ edges, EdgeAlike edge other := by
  induction alike with
  | nil => cases member
  | cons head _ ih =>
    rcases mem_cons.mp member with rfl | inRest
    · exact ⟨_, by simp, head⟩
    · obtain ⟨edge, isEdge, isAlike⟩ := ih inRest
      exact ⟨edge, mem_cons_of_mem _ isEdge, isAlike⟩

def caught : List FrameValue := [.object "java/lang/Throwable"]

def LeadsTo (problem : FrameProblem) (index target : Nat) : Prop :=
  ∃ instruction targets, problem.instructions[index]? = some instruction ∧
    successorTargets problem.context index instruction = .ok targets ∧ target ∈ targets

theorem successors_lead_to {successor : Nat × FrameState}
    (found : problem.instructions[index]? = some instruction)
    (transferred : problem.transferAt index instruction state = .ok successors)
    (member : successor ∈ successors) : LeadsTo problem index successor.1 := by
  obtain ⟨after, _, targets, rfl, isTargets, -, -⟩ :=
    transfer_alike _ _ _ _ _ _ (Alike.refl state) (transfer_at_ok.mp transferred)
  obtain ⟨target, isTarget, rfl⟩ := mem_map.mp member
  exact ⟨instruction, targets, found, isTargets, isTarget⟩

theorem block_edge_origin {edge : Nat × FrameState}
    (isEdges : problem.blockEdges index remaining state = .ok edges) (member : edge ∈ edges) :
    edge.2.stack = caught ∨ LeadsTo problem (index + remaining - 1) edge.1 := by
  induction remaining generalizing index state edges with
  | zero =>
    cases isEdges
    cases member
  | succ remaining ih =>
    cases found : problem.instructions[index]? with
    | none =>
      rw [block_edges_none found] at isEdges
      cases isEdges
      cases member
    | some instruction =>
      obtain ⟨successors, transferred, shape⟩ := block_edges_ok found isEdges
      have isThrown : edge ∈ problem.thrownEdges index state.locals → edge.2.stack = caught := by
        intro thrown
        obtain ⟨target, -, -, rfl⟩ := mem_thrown_edges.mp thrown
        rfl
      rcases shape with ⟨rfl, rfl⟩ | ⟨continues, next, rest, -, isRest, rfl⟩
      · rcases mem_append.mp member with thrown | normal
        · exact .inl (isThrown thrown)
        · exact .inr (successors_lead_to found transferred (mem_filter.mp normal).1)
      · rcases mem_append.mp member with thrown | later
        · exact .inl (isThrown thrown)
        · have same : index + 1 + remaining - 1 = index + (remaining + 1) - 1 := by omega
          rw [← same]
          exact ih isRest later

/-! ### The finished analysis -/

def Emits (problem : FrameProblem) (block : Nat) (state : FrameState)
    (contributions : List (Nat × FrameState)) : Prop :=
  (∀ start finish, problem.starts[block]? = some start → problem.ends[block]? = some finish →
    ∃ edges, problem.blockEdges start (finish - start) state = .ok edges ∧
      ∀ edge ∈ edges, problem.Placed edge ∧ problem.toBlock edge ∈ contributions) ∧
  ∀ contribution ∈ contributions, ∃ start finish edges edge,
    problem.starts[block]? = some start ∧ problem.ends[block]? = some finish ∧
      problem.blockEdges start (finish - start) state = .ok edges ∧ edge ∈ edges ∧
      problem.Placed edge ∧ contribution = problem.toBlock edge

theorem process_block_ok {later : Worklist FrameState}
    (ran : problem.processBlock block state work = .ok later) :
    ∃ contributions, Emits problem block state contributions ∧
      (∀ contribution ∈ contributions, contribution.1 < problem.starts.length) ∧
      later = work.contributeAll mergeState contributions := by
  unfold processBlock at ran
  split at ran
  · rename_i start finish isStart isFinish
    obtain ⟨edges, added, isEdges, ⟨isLater, placed⟩, covers, origin⟩ :=
      run_block_ok (show Remembers [] [] from fun _ _ absent => by cases absent) ran
    refine ⟨added.map problem.toBlock, ⟨?_, ?_⟩, ?_, isLater⟩
    · intro otherStart otherFinish isOtherStart isOtherFinish
      rw [isStart] at isOtherStart
      rw [isFinish] at isOtherFinish
      cases isOtherStart
      cases isOtherFinish
      refine ⟨edges, isEdges, fun edge member => ?_⟩
      have isAdded : edge ∈ added := covers member
      exact ⟨placed edge isAdded, mem_map_of_mem isAdded⟩
    · intro contribution member
      obtain ⟨edge, isAdded, rfl⟩ := mem_map.mp member
      exact ⟨start, finish, edges, edge, isStart, isFinish, isEdges, origin isAdded,
        placed edge isAdded, rfl⟩
    · intro contribution member
      obtain ⟨edge, isAdded, rfl⟩ := mem_map.mp member
      exact (List.getElem?_eq_some_iff.mp (placed edge isAdded)).1
  · rename_i absent
    cases ran
    refine ⟨[], ⟨fun start finish isStart isFinish => ?_, by simp⟩, by simp, rfl⟩
    exact (absent start finish isStart isFinish).elim

theorem state_at_of_start (isStart : problem.starts[block]? = some target) :
    FrameAnalysis.stateAt ⟨problem.starts, work.entries⟩ target = work.entry block := by
  have increasing := pairwise_iff_getElem.mp
    (block_starts_increasing : (blockStarts problem.instructions problem.exceptionTable).Pairwise _)
  obtain ⟨inside, isTarget⟩ := List.getElem?_eq_some_iff.mp isStart
  have position : problem.starts.idxOf? target = some block := by
    unfold List.idxOf?
    rw [List.findIdx?_eq_some_iff_getElem]
    refine ⟨inside, by simp [isTarget], fun other before => ?_⟩
    have below : problem.starts[other] < problem.starts[block] :=
      increasing other block (lt_trans before inside) inside before
    rw [← isTarget]
    simpa using Nat.ne_of_lt below
  simp [FrameAnalysis.stateAt, position, Worklist.entry]

theorem start_of_state_at
    (found : FrameAnalysis.stateAt ⟨problem.starts, work.entries⟩ target = some state) :
    ∃ block, problem.starts[block]? = some target ∧ work.entry block = some state := by
  obtain ⟨block, position, recorded⟩ := Option.bind_eq_some_iff.mp found
  obtain ⟨inside, same, -⟩ := List.findIdx?_eq_some_iff_getElem.mp position
  exact ⟨block, List.getElem?_eq_some_iff.mpr ⟨inside, by simpa using same⟩, recorded⟩

theorem end_of_start {start : Nat} (isStart : problem.starts[block]? = some start) :
    ∃ finish, problem.ends[block]? = some finish := by
  have inside : block < problem.starts.length := (List.getElem?_eq_some_iff.mp isStart).1
  rw [starts, ← length_block_ends] at inside
  exact ⟨_, List.getElem?_eq_getElem inside⟩

theorem solve_ok {fuel : Nat} {analysis : FrameAnalysis} (nonempty : problem.instructions ≠ [])
    (solved : problem.solveFrameStates fuel = some (.ok analysis)) :
    ∃ work, Worklist.run problem.processBlock fuel problem.initialWork = some (.ok work) ∧
      analysis = ⟨problem.starts, work.entries⟩ := by
  unfold solveFrameStates at solved
  rw [if_neg nonempty] at solved
  obtain ⟨result, ran, isResult⟩ := Option.map_eq_some_iff.mp solved
  cases result with
  | error error => cases isResult
  | ok work =>
    cases isResult
    exact ⟨work, ran, rfl⟩

/-- The frame before an instruction: recorded at the start of a block, and transferred from
the instruction before inside one. -/
inductive StateBefore (problem : FrameProblem) (analysis : FrameAnalysis) : Nat → FrameState → Prop
  | recorded {index : Nat} {state : FrameState} (found : analysis.stateAt index = some state) :
      StateBefore problem analysis index state
  | next {index : Nat} {instruction : Instruction} {state after : FrameState}
      {successors : List (Nat × FrameState)} (before : StateBefore problem analysis index state)
      (found : problem.instructions[index]? = some instruction)
      (transferred : problem.transferAt index instruction state = .ok successors)
      (member : (index + 1, after) ∈ successors) (inside : index + 1 < problem.instructions.length)
      (sameBlock : index + 1 ∉ analysis.blockStarts) :
      StateBefore problem analysis (index + 1) after

structure RestCovered (problem : FrameProblem) (analysis : FrameAnalysis) (index : Nat)
    (state : FrameState) (remaining : Nat) (edges : List (Nat × FrameState)) : Prop where
  isEdges : problem.blockEdges index remaining state = .ok edges
  covered : ∀ edge ∈ edges, ∃ recorded, analysis.stateAt edge.1 = some recorded ∧
    Covers recorded edge.2
  positive : 0 < remaining
  finish : index + remaining ∈ problem.starts ∨ index + remaining = problem.instructions.length
  inner : ∀ other, index < other → other < index + remaining → other ∉ problem.starts

theorem RestCovered.step {analysis : FrameAnalysis}
    (rest : RestCovered problem analysis index state (remaining + 1) edges) (more : remaining ≠ 0)
    (found : problem.instructions[index]? = some instruction) :
    ∃ next later, problem.transferAt index instruction state = .ok [(index + 1, next)] ∧
      RestCovered problem analysis (index + 1) next remaining later := by
  obtain ⟨successors, transferred, shape⟩ := block_edges_ok found rest.isEdges
  rcases shape with ⟨isLast, -⟩ | ⟨-, next, later, rfl, isRest, rfl⟩
  · exact (more isLast).elim
  · refine ⟨next, later, transferred, isRest, fun edge isEdge => rest.covered edge (by simp [isEdge]),
      by omega, ?_, fun other after below => rest.inner other (by omega) (by omega)⟩
    have total : index + 1 + remaining = index + (remaining + 1) := by omega
    rw [total]
    exact rest.finish

section Solved

variable {fuel : Nat} {analysis : FrameAnalysis} (nonempty : problem.instructions ≠ [])
  (solved : problem.solveFrameStates fuel = some (.ok analysis))

include nonempty solved

variable {index : Nat} {state : FrameState}

theorem block_covered {block finish : Nat}
    (isStart : problem.starts[block]? = some index) (isFinish : problem.ends[block]? = some finish)
    (found : analysis.stateAt index = some state) :
    ∃ edges, RestCovered problem analysis index state (finish - index) edges := by
  obtain ⟨work, ran, rfl⟩ := solve_ok nonempty solved
  have recorded : work.entry block = some state := by rw [← found, state_at_of_start isStart]
  obtain ⟨processed, contributions, alike, emitted, covered⟩ :=
    Worklist.run_processed merges_state (Emits problem)
      (fun _ _ _ _ _ ran => process_block_ok ran) (Worklist.length_start _ _)
      (fun _ _ present => Worklist.queued_start present) ran recorded
  obtain ⟨bounds, ending, inner⟩ := block_bounds nonempty isStart isFinish
  obtain ⟨processedEdges, isProcessedEdges, placed⟩ := emitted.1 index finish isStart isFinish
  obtain ⟨edges, isEdges, edgesAlike⟩ := block_edges_alike alike.symm isProcessedEdges
  have total : index + (finish - index) = finish := by omega
  refine ⟨edges, isEdges, ?_, by omega, by rwa [total], by rwa [total]⟩
  intro edge member
  obtain ⟨processedEdge, isProcessed, sameTarget, edgeAlike⟩ := alike_of_mem edgesAlike member
  obtain ⟨isPlaced, isContribution⟩ := placed processedEdge isProcessed
  obtain ⟨general, isGeneral, covers⟩ := covered _ isContribution
  refine ⟨general, ?_, covers.of_alike edgeAlike⟩
  rw [← sameTarget, state_at_of_start isPlaced]
  exact isGeneral

variable (before : StateBefore problem analysis index state)

include before

theorem rest_covered :
    ∃ remaining edges, RestCovered problem analysis index state remaining edges := by
  induction before with
  | recorded found =>
    have isRecorded := found
    obtain ⟨work, -, rfl⟩ := solve_ok nonempty solved
    obtain ⟨block, isStart, -⟩ := start_of_state_at isRecorded
    obtain ⟨finish, isFinish⟩ := end_of_start isStart
    exact ⟨_, block_covered nonempty solved isStart isFinish found⟩
  | @next index instruction state after successors before found transferred member inside sameBlock ih =>
    obtain ⟨work, -, rfl⟩ := solve_ok nonempty solved
    obtain ⟨remaining, edges, rest⟩ := ih
    obtain ⟨remaining, rfl⟩ : ∃ fewer, remaining = fewer + 1 := ⟨remaining - 1, by
      have := rest.positive
      omega⟩
    have more : remaining ≠ 0 := by
      rintro rfl
      rcases rest.finish with isStart | isEnd
      · exact sameBlock isStart
      · omega
    obtain ⟨next, later, isTransferred, laterCovered⟩ := rest.step more found
    rw [transferred] at isTransferred
    cases isTransferred
    cases mem_singleton.mp member
    exact ⟨remaining, later, laterCovered⟩

theorem reaches_last {remaining : Nat} {edges : List (Nat × FrameState)}
    (rest : RestCovered problem analysis index state remaining edges) :
    ∃ last, StateBefore problem analysis (index + remaining - 1) last := by
  induction remaining generalizing index state edges with
  | zero => exact absurd rest.positive (by omega)
  | succ remaining ih =>
    rcases Nat.eq_zero_or_pos remaining with rfl | more
    · exact ⟨state, before⟩
    · have inside : index + (remaining + 1) ≤ problem.instructions.length := by
        rcases rest.finish with isStart | isEnd
        · exact le_of_lt (block_start_inside nonempty isStart)
        · omega
      obtain ⟨work, -, isAnalysis⟩ := solve_ok nonempty solved
      have found := List.getElem?_eq_getElem (show index < problem.instructions.length by omega)
      obtain ⟨next, later, transferred, laterCovered⟩ := rest.step (by omega) found
      have sameBlock : index + 1 ∉ analysis.blockStarts := by
        rw [isAnalysis]
        exact rest.inner (index + 1) (by omega) (by omega)
      have same : index + 1 + remaining - 1 = index + (remaining + 1) - 1 := by omega
      rw [← same]
      exact ih (before.next found transferred (by simp) (by omega) sameBlock) laterCovered

omit before

/-- The recorded stack of a block is the caught exception, unless the block is the first or
an instruction with a frame leads there. -/
theorem recorded_stack {recorded : FrameState} (found : analysis.stateAt target = some recorded) :
    recorded.stack = caught ∨ target = 0 ∨
      ∃ index state, StateBefore problem analysis index state ∧ LeadsTo problem index target := by
  obtain ⟨work, ran, rfl⟩ := solve_ok nonempty solved
  obtain ⟨block, isStart, isRecorded⟩ := start_of_state_at found
  let good (block : Nat) (state : FrameState) : Prop :=
    state.stack = caught ∨ problem.starts[block]? = some 0
  let reason (source block : Nat) : Prop := ∃ start finish target,
    problem.starts[source]? = some start ∧ problem.ends[source]? = some finish ∧
      LeadsTo problem (start + (finish - start) - 1) target ∧ problem.starts[block]? = some target
  have merged : ∀ block existing incoming, good block existing → good block incoming →
      good block (mergeState existing incoming).1 := by
    rintro block existing incoming (isCaught | first) (alsoCaught | alsoFirst)
    · left
      rw [mergeState, isCaught, alsoCaught]
      rfl
    all_goals exact .inr ‹_›
  have explained : Worklist.Explained good reason work := by
    refine Worklist.run_explained merged ?_ (Worklist.length_start _ _) ?_ ran
    · intro block value before later sized processed
      obtain ⟨contributions, emitted, inside, isLater⟩ := process_block_ok processed
      refine ⟨contributions, fun contribution member => ⟨inside contribution member, ?_⟩, isLater⟩
      obtain ⟨start, finish, edges, edge, isStart, isFinish, isEdges, isEdge, placed, rfl⟩ :=
        emitted.2 contribution member
      rcases block_edge_origin isEdges isEdge with isCaught | leads
      · exact .inl (.inl isCaught)
      · exact .inr ⟨start, finish, edge.1, isStart, isFinish, leads, placed⟩
    · intro block value present
      obtain ⟨rfl, -⟩ := Worklist.entry_start present
      exact .inl (.inr first_block_start)
  rcases explained block recorded isRecorded with (isCaught | first) | ⟨source, present, isReason⟩
  · exact .inl isCaught
  · rw [isStart] at first
    cases first
    exact .inr (.inl rfl)
  · obtain ⟨start, finish, other, isSource, isFinish, leads, isOther⟩ := isReason
    rw [isStart] at isOther
    cases isOther
    obtain ⟨sourceState, isState⟩ := Option.isSome_iff_exists.mp present
    have atStart : FrameAnalysis.stateAt ⟨problem.starts, work.entries⟩ start = some sourceState := by
      rw [state_at_of_start isSource, isState]
    obtain ⟨edges, rest⟩ := block_covered nonempty solved isSource isFinish atStart
    obtain ⟨last, before⟩ := reaches_last nonempty solved (.recorded atStart) rest
    exact .inr (.inr ⟨_, last, before, leads⟩)

include before

variable {instruction : Instruction}

/-- An edge out of an instruction with a frame is covered where it leads: the edges of the
last instruction of a block in the recorded frames, the one inside a block by itself. -/
theorem successor_covered {produced : FrameState}
    {successors : List (Nat × FrameState)} (found : problem.instructions[index]? = some instruction)
    (transferred : problem.transferAt index instruction state = .ok successors)
    (member : (target, produced) ∈ successors) (inside : target < problem.instructions.length) :
    ∃ recorded, StateBefore problem analysis target recorded ∧ Covers recorded produced := by
  obtain ⟨_ | remaining, edges, rest⟩ := rest_covered nonempty solved before
  · exact absurd rest.positive (by omega)
  · obtain ⟨_, isTransferred, shape⟩ := block_edges_ok found rest.isEdges
    rw [transferred] at isTransferred
    cases isTransferred
    rcases shape with ⟨-, rfl⟩ | ⟨continues, next, later, rfl, -, -⟩
    · have isEdge : (target, produced) ∈ problem.normalEdges successors :=
        mem_filter.mpr ⟨member, by simpa using inside⟩
      obtain ⟨recorded, isRecorded, covers⟩ := rest.covered _ (mem_append_right _ isEdge)
      exact ⟨recorded, .recorded isRecorded, covers⟩
    · cases mem_singleton.mp member
      obtain ⟨work, -, isAnalysis⟩ := solve_ok nonempty solved
      have sameBlock : index + 1 ∉ analysis.blockStarts := by
        rw [isAnalysis]
        exact rest.inner (index + 1) (by omega) (by omega)
      exact ⟨produced, before.next found transferred (by simp) inside sameBlock, Covers.refl produced⟩

theorem handler_covered {entry : ExceptionTableEntry}
    (found : problem.instructions[index]? = some instruction)
    (listed : entry ∈ problem.exceptionTable) (protects : entry.covers index)
    (inside : entry.handlerPc < problem.instructions.length) :
    ∃ recorded, analysis.stateAt entry.handlerPc = some recorded ∧
      Covers recorded (handlerState state.locals) := by
  obtain ⟨_ | remaining, edges, rest⟩ := rest_covered nonempty solved before
  · exact absurd rest.positive (by omega)
  · have isThrown : (entry.handlerPc, handlerState state.locals) ∈
        problem.thrownEdges index state.locals := by
      refine mem_map.mpr ⟨entry.handlerPc, mem_filter.mpr ⟨?_, by simpa using inside⟩, rfl⟩
      exact mem_handlers_of.mpr ⟨entry, listed, protects, rfl⟩
    refine rest.covered (entry.handlerPc, handlerState state.locals) ?_
    obtain ⟨_, -, ⟨-, rfl⟩ | ⟨-, _, _, -, -, rfl⟩⟩ := block_edges_ok found rest.isEdges
    all_goals exact mem_append_left _ isThrown

end Solved

/-- The frames of a finished analysis are sound. From every instruction with a frame the
transfer succeeds, and the frame it produces is covered at each successor. The locals before
a protected instruction are covered at its handlers, where the stack is the exception alone
unless normal control flow leads there too. -/
theorem solve_frame_states_sound {fuel index : Nat} {analysis : FrameAnalysis}
    {instruction : Instruction} {state : FrameState}
    (solved : problem.solveFrameStates fuel = some (.ok analysis))
    (before : StateBefore problem analysis index state)
    (found : problem.instructions[index]? = some instruction) :
    (∃ successors, problem.transferAt index instruction state = .ok successors ∧
      ∀ target produced, (target, produced) ∈ successors → target < problem.instructions.length →
        ∃ recorded, StateBefore problem analysis target recorded ∧ Covers recorded produced) ∧
    ∀ entry ∈ problem.exceptionTable, entry.covers index →
      entry.handlerPc < problem.instructions.length →
      ∃ recorded, analysis.stateAt entry.handlerPc = some recorded ∧
        Covers recorded (handlerState state.locals) ∧ (entry.handlerPc ≠ 0 →
          (¬∃ source sourceState, StateBefore problem analysis source sourceState ∧
            LeadsTo problem source entry.handlerPc) →
          recorded.stack = caught) := by
  have nonempty : problem.instructions ≠ [] := by
    rintro empty
    rw [empty] at found
    cases found
  constructor
  · obtain ⟨_ | remaining, edges, rest⟩ := rest_covered nonempty solved before
    · exact absurd rest.positive (by omega)
    · obtain ⟨successors, transferred, -⟩ := block_edges_ok found rest.isEdges
      exact ⟨successors, transferred, fun target produced member inside =>
        successor_covered nonempty solved before found transferred member inside⟩
  · intro entry listed protects inside
    obtain ⟨recorded, isRecorded, covers⟩ :=
      handler_covered nonempty solved before found listed protects inside
    refine ⟨recorded, isRecorded, covers, fun notFirst notReached => ?_⟩
    rcases recorded_stack nonempty solved isRecorded with isCaught | isFirst | reached
    · exact isCaught
    · exact absurd isFirst notFirst
    · exact absurd reached notReached

def withoutConstants (instructions : List Instruction) (initialLocals : List FrameValue)
    (exceptionTable : List ExceptionTableEntry) : FrameProblem where
  library :=
    { parseFieldType := fun descriptor => .error (.invalidDescriptor descriptor)
      parseMethodDescriptor := fun descriptor => .error (.invalidDescriptor descriptor)
      className := fun _ => objectClass
      debugInstruction := fun _ => ""
      debugError := fun _ => "" }
  instructions := instructions
  initialLocals := initialLocals
  localHints := []
  maxLocals := initialLocals.length
  constantPool := ⟨[]⟩
  context := ""
  exceptionTable := exceptionTable

/-- A store to the first local, under a handler that rethrows. -/
def protectedStore : FrameProblem :=
  withoutConstants [.iconst .zero, .store .int (.fixed 0), .voidReturn, .athrow] [.float] [⟨0, 2, 3, 0⟩]

def protectedStoreFrames : FrameAnalysis where
  blockStarts := [0, 2, 3]
  entryStates := [some ⟨[.float], []⟩, some ⟨[.integer], []⟩, some ⟨[.float], caught⟩]

theorem protected_store_solved :
    protectedStore.solveFrameStates 4 = some (.ok protectedStoreFrames) := rfl

theorem before_protected_store :
    StateBefore protectedStore protectedStoreFrames 1 ⟨[.float], [.integer]⟩ := by
  have atFirst : StateBefore protectedStore protectedStoreFrames 0 ⟨[.float], []⟩ := .recorded rfl
  exact atFirst.next rfl rfl (mem_singleton.mpr rfl) (by decide) (by decide)

theorem solve_frame_states_sound_at_store :
    (∃ successors, protectedStore.transferAt 1 (.store .int (.fixed 0)) ⟨[.float], [.integer]⟩ =
        .ok successors ∧ ∀ target produced, (target, produced) ∈ successors → target < 4 →
        ∃ recorded, StateBefore protectedStore protectedStoreFrames target recorded ∧
          Covers recorded produced) ∧ ∃ recorded, protectedStoreFrames.stateAt 3 = some recorded ∧
      Covers recorded (handlerState [.float]) := by
  obtain ⟨successors, handlers⟩ :=
    solve_frame_states_sound protected_store_solved before_protected_store rfl
  obtain ⟨recorded, isRecorded, covers, -⟩ :=
    handlers ⟨0, 2, 3, 0⟩ (mem_singleton.mpr rfl) rfl (by decide)
  exact ⟨successors, recorded, isRecorded, covers⟩

def reachedHandler : FrameProblem :=
  withoutConstants [.nop, .voidReturn] [] [⟨0, 1, 1, 0⟩]

def reachedHandlerFrames : FrameAnalysis where
  blockStarts := [0, 1]
  entryStates := [some ⟨[], []⟩, some ⟨[], []⟩]

/-- Three paths to one block, with a nested class, its parent and the parent of that. -/
def nestedClasses : FrameProblem :=
  withoutConstants
    [.load .reference (.fixed 0), .store .reference (.fixed 3), .iconst .zero, .branch .ifne 11,
      .load .reference (.fixed 1), .store .reference (.fixed 3), .iconst .zero, .branch .ifne 11,
      .load .reference (.fixed 2), .store .reference (.fixed 3), .goto 11, .voidReturn]
    [.object "A$B$C", .object "A$B", .object "A", .top] []

def nestedLocals (last : FrameValue) : List FrameValue :=
  [.object "A$B$C", .object "A$B", .object "A", last]

def nestedClassesFrames : FrameAnalysis where
  blockStarts := [0, 4, 8, 11]
  entryStates := [
    some ⟨nestedLocals .top, []⟩, some ⟨nestedLocals (.object "A$B$C"), []⟩,
    some ⟨nestedLocals (.object "A$B"), []⟩, some ⟨nestedLocals (.object "A"), []⟩]

theorem before_nested_branch : StateBefore nestedClasses nestedClassesFrames 3
      ⟨nestedLocals (.object "A$B$C"), [.integer]⟩ := by
  have atFirst : StateBefore nestedClasses nestedClassesFrames 0 ⟨nestedLocals .top, []⟩ :=
    .recorded rfl
  have atStore : StateBefore nestedClasses nestedClassesFrames 1
      ⟨nestedLocals .top, [.object "A$B$C"]⟩ :=
    atFirst.next rfl rfl (mem_singleton.mpr rfl) (by decide) (by decide)
  have atConstant : StateBefore nestedClasses nestedClassesFrames 2
      ⟨nestedLocals (.object "A$B$C"), []⟩ :=
    atStore.next rfl rfl (mem_singleton.mpr rfl) (by decide) (by decide)
  exact atConstant.next rfl rfl (mem_singleton.mpr rfl) (by decide) (by decide)

theorem integer_not_below_float : ¬Generalizes .float .integer := by
  intro general
  rcases Relation.ReflTransGen.cases_tail (generalizes_widens general) with same | ⟨_, -, widens⟩
  · cases same
  · cases widens

theorem not_one_merge : ¬MergesTo (.object "A$B$C") (.object "A") := by
  intro merges
  rcases merges_to_widens merges with same | widens
  · revert same
    decide
  · generalize isLast : FrameValue.object "A" = last at widens
    cases widens with
    | top => cases isLast
    | object =>
      revert isLast
      decide
    | nested isParent =>
      cases isLast
      revert isParent
      decide

/-- Three ways in which recorded frames are weaker than one might ask. The locals after the
last protected instruction need not be covered at the handler; the stack of a handler that is
also reached normally is cut; and a class that covers another need not come from one merge. -/
theorem handler_misses_state_after_store :
    (protectedStore.solveFrameStates 4 = some (.ok protectedStoreFrames) ∧
      StateBefore protectedStore protectedStoreFrames 1 ⟨[.float], [.integer]⟩ ∧
      protectedStore.transferAt 1 (.store .int (.fixed 0)) ⟨[.float], [.integer]⟩ =
        .ok [(2, ⟨[.integer], []⟩)] ∧
      protectedStoreFrames.stateAt 3 = some ⟨[.float], caught⟩ ∧ ¬Generalizes .float .integer) ∧
    (reachedHandler.solveFrameStates 3 = some (.ok reachedHandlerFrames) ∧
      reachedHandlerFrames.stateAt 1 = some ⟨[], []⟩) ∧
    (nestedClasses.solveFrameStates 10 = some (.ok nestedClassesFrames) ∧
      StateBefore nestedClasses nestedClassesFrames 3
        ⟨nestedLocals (.object "A$B$C"), [.integer]⟩ ∧
      nestedClasses.transferAt 3 (.branch .ifne 11) ⟨nestedLocals (.object "A$B$C"), [.integer]⟩ =
        .ok [(11, ⟨nestedLocals (.object "A$B$C"), []⟩), (4, ⟨nestedLocals (.object "A$B$C"), []⟩)] ∧
      nestedClassesFrames.stateAt 11 = some ⟨nestedLocals (.object "A"), []⟩ ∧
      ¬MergesTo (.object "A$B$C") (.object "A")) :=
  ⟨⟨protected_store_solved, before_protected_store, rfl, rfl, integer_not_below_float⟩,
    ⟨rfl, rfl⟩, ⟨rfl, before_nested_branch, rfl, rfl, not_one_merge⟩⟩

end FrameProblem

end RustcCodegenJvm.Lower2
