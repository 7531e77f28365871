import RustcCodegenJvm.Library.Dataflow

/-!
# Forward flow with unvisited nodes

Facts flow from an entry along the edges of a graph. A node that was not reached
yet has no fact, and a join takes the meet of the facts that are there. The test
whether a fact changed is a parameter: it need not be reflexive, nor tell all
facts apart. Transfers may fail, which ends the run.
-/

namespace RustcCodegenJvm.Library.ForwardFlow

open List Function

open Dataflow (pushAbsent)

structure Problem (Node Fact : Type) where
  entry : Node
  predecessors : Node → List Node
  successors : Node → List Node
  transfer : Node → Fact → Option Fact
  meet : Fact → Fact → Fact
  same : Fact → Fact → Bool

structure Progress (Node Fact : Type) where
  input : Node → Option Fact
  output : Node → Option Fact
  pending : List Node

inductive Outcome (Result : Type)
  | outOfFuel
  | failed
  | finished (result : Result)

variable {Node Fact : Type} [DecidableEq Node] {known fresh : Option Fact} {rest : List Node}

namespace Problem

variable (problem : Problem Node Fact)

def withOutput (output : Node → Option Fact) (known : Option Fact) (predecessor : Node) : Option Fact :=
  Option.merge problem.meet known (output predecessor)

def merged (output : Node → Option Fact) (node : Node) : Option Fact :=
  (problem.predecessors node).foldl (problem.withOutput output) none

def unchanged (known : Option Fact) (fact : Fact) : Bool := known.any (problem.same · fact)

/-- A successor gathers its fact anew, and waits if that changed it. -/
def relax (progress : Progress Node Fact) (successor : Node) : Progress Node Fact :=
  if successor = problem.entry then progress
  else
    match problem.merged progress.output successor with
    | none => progress
    | some fact =>
      if problem.unchanged (progress.input successor) fact then progress
      else
        { input := Function.update progress.input successor (some fact)
          output := progress.output
          pending := pushAbsent progress.pending successor }

def visit (progress : Progress Node Fact) (node : Node) (rest : List Node) :
    Option (Progress Node Fact) :=
  match progress.input node with
  | none => some { progress with pending := rest }
  | some fact =>
    (problem.transfer node fact).map fun result =>
      if problem.unchanged (progress.output node) result then { progress with pending := rest }
      else (problem.successors node).foldl problem.relax
        { input := progress.input
          output := Function.update progress.output node (some result)
          pending := rest }

def run : Nat → Progress Node Fact → Outcome (Progress Node Fact)
  | 0, _ => .outOfFuel
  | fuel + 1, progress =>
    match progress.pending with
    | [] => .finished progress
    | node :: rest =>
      match problem.visit progress node rest with
      | none => .failed
      | some next => run fuel next

variable {progress next : Progress Node Fact} {node : Node}

theorem run_step (fuel : Nat)
    (isPending : progress.pending = node :: rest) (visited : problem.visit progress node rest = some next) :
    problem.run (fuel + 1) progress = problem.run fuel next := by
  simp only [run, isPending, visited]

section Rules

variable {problem} (invariant : Progress Node Fact → Prop)

theorem run_invariant
    (keeps : ∀ progress node rest next, invariant progress → progress.pending = node :: rest →
      problem.visit progress node rest = some next → invariant next)
    {fuel : Nat} {progress result : Progress Node Fact} (starts : invariant progress)
    (ran : problem.run fuel progress = .finished result) : invariant result ∧ result.pending = [] := by
  induction fuel generalizing progress with
  | zero => cases ran
  | succ fuel ih =>
    unfold run at ran
    split at ran
    · next empty =>
      cases ran
      exact ⟨starts, empty⟩
    · next node rest isPending =>
      split at ran
      · cases ran
      · next next visited => exact ih (keeps progress node rest next starts isPending visited) ran

theorem never_ends
    (goesOn : ∀ progress, invariant progress → ∃ node rest next, progress.pending = node :: rest ∧
      problem.visit progress node rest = some next ∧ invariant next)
    {progress : Progress Node Fact} (starts : invariant progress) (fuel : Nat) :
    problem.run fuel progress = .outOfFuel := by
  induction fuel generalizing progress with
  | zero => rfl
  | succ fuel ih =>
    obtain ⟨node, rest, next, isPending, visited, after⟩ := goesOn progress starts
    rw [problem.run_step fuel isPending visited]
    exact ih after

end Rules

/-! ### One round -/

def refreshed (known fresh : Option Fact) : Option Fact :=
  match fresh with
  | none => known
  | some fact => if problem.unchanged known fact then known else some fact

def changes (known fresh : Option Fact) : Bool := fresh.any fun fact => !problem.unchanged known fact

structure Relaxed (before after : Progress Node Fact) (targets : List Node) : Prop where
  output : after.output = before.output
  input : ∀ node, after.input node =
    if node ∈ targets ∧ node ≠ problem.entry then
      problem.refreshed (before.input node) (problem.merged before.output node)
    else before.input node
  pushed : ∃ added, after.pending = before.pending ++ added ∧
    ∀ node ∈ added, node ∈ targets ∧ node ≠ problem.entry ∧
      problem.changes (before.input node) (problem.merged before.output node)
  waits : ∀ node ∈ targets, node ≠ problem.entry →
    problem.changes (before.input node) (problem.merged before.output node) → node ∈ after.pending

variable {problem}

omit [DecidableEq Node] in
@[simp] theorem refreshed_again (known fresh : Option Fact) :
    problem.refreshed (problem.refreshed known fresh) fresh = problem.refreshed known fresh := by
  cases fresh with
  | none => rfl
  | some fact =>
    by_cases keeps : problem.unchanged known fact
    · simp [refreshed, keeps]
    · simp [refreshed, keeps]

omit [DecidableEq Node] in
theorem changes_refreshed
    (again : problem.changes (problem.refreshed known fresh) fresh) : problem.changes known fresh := by
  cases fresh with
  | none => exact again
  | some fact =>
    by_contra keeps
    have kept : problem.unchanged known fact := by simpa [changes] using keeps
    simp [changes, refreshed, kept] at again

section Relax

variable (progress : Progress Node Fact) (successor : Node)

theorem relax_output : (problem.relax progress successor).output = progress.output := by
  unfold relax
  split_ifs
  · rfl
  · split
    · rfl
    · split_ifs <;> rfl

theorem relax_input (node : Node) : (problem.relax progress successor).input node =
    if node = successor ∧ node ≠ problem.entry then
      problem.refreshed (progress.input node) (problem.merged progress.output node)
    else progress.input node := by
  unfold relax
  by_cases isEntry : successor = problem.entry
  · rw [if_pos isEntry, if_neg]
    rintro ⟨here, notEntry⟩
    exact notEntry (here.trans isEntry)
  · rw [if_neg isEntry]
    by_cases here : node = successor
    · subst here
      rw [if_pos ⟨rfl, isEntry⟩]
      split
      · next nothing => rw [nothing, refreshed]
      · next fact gathered =>
        rw [gathered, refreshed]
        split_ifs <;> simp
    · rw [if_neg fun both => here both.1]
      split
      · rfl
      · split_ifs <;> simp [here]

theorem relax_pending : (problem.relax progress successor).pending = if successor ≠ problem.entry ∧
        problem.changes (progress.input successor) (problem.merged progress.output successor) then
      pushAbsent progress.pending successor
    else progress.pending := by
  unfold relax
  by_cases isEntry : successor = problem.entry
  · simp [isEntry]
  · rw [if_neg isEntry]
    split
    · next nothing => simp [changes, nothing]
    · next fact gathered => split_ifs with keeps <;> simp_all [changes]

end Relax

theorem relax_relaxed {before between : Progress Node Fact} {targets : List Node} {target : Node}
    (relaxed : problem.Relaxed before between targets) :
    problem.Relaxed before (problem.relax between target) (targets ++ [target]) := by
  obtain ⟨output, input, ⟨added, isPending, areAdded⟩, waits⟩ := relaxed
  have addedAfter : ∀ node ∈ added, node ∈ targets ++ [target] ∧ node ≠ problem.entry ∧
      problem.changes (before.input node) (problem.merged before.output node) := by
    intro node member
    have ⟨among, rest⟩ := areAdded node member
    exact ⟨mem_append_left _ among, rest⟩
  -- a target may have been one before: then its fact is already fresh
  have changedBefore (changed : problem.changes (between.input target) (problem.merged between.output target)) :
      problem.changes (before.input target) (problem.merged before.output target) := by
    rw [output, input target] at changed
    split_ifs at changed
    · exact changes_refreshed changed
    · exact changed
  constructor
  · rw [relax_output, output]
  · intro node
    rw [relax_input, input node, output]
    by_cases isEntry : node = problem.entry
    · simp [isEntry]
    · by_cases here : node = target
      · subst here
        by_cases member : node ∈ targets <;> simp [isEntry, member]
      · simp [here]
  · rw [relax_pending]
    split_ifs with pushes
    · unfold pushAbsent
      split_ifs
      · exact ⟨added, isPending, addedAfter⟩
      · refine ⟨added ++ [target], by simp [isPending], fun node member => ?_⟩
        rcases mem_append.mp member with before | here
        · exact addedAfter node before
        · rw [mem_singleton.mp here]
          exact ⟨by simp, pushes.1, changedBefore pushes.2⟩
    · exact ⟨added, isPending, addedAfter⟩
  · intro node member notEntry changed
    rw [relax_pending]
    by_cases among : node ∈ targets
    · have waiting := waits node among notEntry changed
      split_ifs
      · simp [waiting]
      · exact waiting
    · -- a target that is new here still has the fact it had before
      have isTarget : node = target := by simpa [among] using member
      subst isTarget
      rw [input node, output]
      simp [among, notEntry, changed]

theorem relax_all (before : Progress Node Fact) (targets : List Node) :
    problem.Relaxed before (targets.foldl problem.relax before) targets := by
  induction targets using reverseRecOn with
  | nil => exact ⟨rfl, by simp, ⟨[], by simp⟩, by simp⟩
  | append_singleton targets target ih =>
    rw [foldl_append]
    exact relax_relaxed ih

/-- Either nothing changes, or the node puts out a new fact and its successors gather anew. -/
theorem visit_cases (visited : problem.visit progress node rest = some next) :
    (next = { progress with pending := rest } ∧
      ∀ fact, progress.input node = some fact → ∃ result, problem.transfer node fact = some result ∧
        problem.unchanged (progress.output node) result = true) ∨
    ∃ fact result, progress.input node = some fact ∧ problem.transfer node fact = some result ∧
      problem.unchanged (progress.output node) result = false ∧
      problem.Relaxed ⟨progress.input, update progress.output node (some result), rest⟩ next
        (problem.successors node) := by
  unfold visit at visited
  split at visited
  · next nothing =>
    cases visited
    left
    simp [nothing]
  · next fact isInput =>
    obtain ⟨result, transferred, isNext⟩ := Option.map_eq_some_iff.mp visited
    split_ifs at isNext with keeps
    · left
      refine ⟨isNext.symm, fun other isOther => ?_⟩
      rw [isInput] at isOther
      cases isOther
      exact ⟨result, transferred, keeps⟩
    · right
      refine ⟨fact, result, isInput, transferred, Bool.not_eq_true _ ▸ keeps, ?_⟩
      rw [← isNext]
      exact relax_all _ _

/-! ### Meets -/

section Meets

variable {output : Node → Option Fact} {node predecessor : Node} {fact : Fact}

omit [DecidableEq Node] in
theorem with_output_none (known : Option Fact) (silent : output predecessor = none) :
    problem.withOutput output known predecessor = known := by
  rw [withOutput, silent, Option.merge_none_right]

omit [DecidableEq Node] in
theorem fold_outputs (nodes : List Node) (first : Fact) :
    nodes.foldl (problem.withOutput output) (some first) =
      some ((nodes.filterMap output).foldl problem.meet first) := by
  induction nodes generalizing first with
  | nil => rfl
  | cons node rest ih =>
    rw [foldl_cons]
    cases isOutput : output node with
    | none => rw [with_output_none _ isOutput, ih, filterMap_cons_none isOutput]
    | some other =>
      rw [withOutput, isOutput, Option.merge_some_some, ih, filterMap_cons_some isOutput, foldl_cons]

omit [DecidableEq Node] in
/-- What is gathered is the meet of the facts that are there. -/
theorem merged_iff : problem.merged output node = some fact ↔
    ∃ first rest, (problem.predecessors node).filterMap output = first :: rest ∧
      rest.foldl problem.meet first = fact := by
  unfold merged
  induction problem.predecessors node with
  | nil => simp
  | cons predecessor others ih =>
    rw [foldl_cons]
    cases isOutput : output predecessor with
    | none =>
      rw [with_output_none _ isOutput, filterMap_cons_none isOutput]
      exact ih
    | some other => simp [withOutput, isOutput, filterMap_cons_some isOutput, fold_outputs]

section Below

variable {below : Fact → Fact → Prop} {usable : Fact → Prop}

/-- Meets of usable facts are usable, and below both facts. -/
structure MeetsBelow (problem : Problem Node Fact) (usable : Fact → Prop)
    (below : Fact → Fact → Prop) : Prop where
  refl : ∀ fact, below fact fact
  trans : ∀ first second third, below first second → below second third → below first third
  usableMeet : ∀ first second, usable first → usable second → usable (problem.meet first second)
  left : ∀ first second, usable first → usable second → below (problem.meet first second) first
  right : ∀ first second, usable first → usable second → below (problem.meet first second) second

variable (meets : MeetsBelow problem usable below)

include meets

omit [DecidableEq Node] in
theorem MeetsBelow.fold {first : Fact} {rest : List Fact} (areUsable : ∀ fact ∈ first :: rest, usable fact) :
    usable (rest.foldl problem.meet first) ∧
      ∀ fact ∈ first :: rest, below (rest.foldl problem.meet first) fact := by
  induction rest generalizing first with
  | nil => simpa [meets.refl] using areUsable
  | cons second others ih =>
    simp only [forall_mem_cons] at areUsable ih ⊢
    obtain ⟨firstUsable, secondUsable, othersUsable⟩ := areUsable
    obtain ⟨isUsable, lower, lowerOthers⟩ :=
      ih ⟨meets.usableMeet first second firstUsable secondUsable, othersUsable⟩
    exact ⟨isUsable, meets.trans _ _ _ lower (meets.left first second firstUsable secondUsable),
      meets.trans _ _ _ lower (meets.right first second firstUsable secondUsable), lowerOthers⟩

omit [DecidableEq Node] in
theorem MeetsBelow.merged_below
    (usableOutput : ∀ predecessor fact, output predecessor = some fact → usable fact)
    (isPredecessor : predecessor ∈ problem.predecessors node) (known : output predecessor = some fact) :
    ∃ meet, problem.merged output node = some meet ∧ usable meet ∧ below meet fact := by
  have member : fact ∈ (problem.predecessors node).filterMap output :=
    mem_filterMap.mpr ⟨predecessor, isPredecessor, known⟩
  obtain ⟨first, rest, isList⟩ := exists_cons_of_ne_nil (ne_nil_of_mem member)
  have areUsable : ∀ other ∈ first :: rest, usable other := by
    intro other isMember
    rw [← isList] at isMember
    obtain ⟨source, -, isOutput⟩ := mem_filterMap.mp isMember
    exact usableOutput source other isOutput
  obtain ⟨isUsable, lower⟩ := meets.fold areUsable
  exact ⟨_, merged_iff.mpr ⟨first, rest, isList, rfl⟩, isUsable, lower fact (isList ▸ member)⟩

end Below

omit [DecidableEq Node] in
/-- What is gathered is a meet, or all known facts come from one node. -/
theorem merged_cases (gathered : problem.merged output node = some fact) :
    (∃ first second, fact = problem.meet first second) ∨
      ∃ source, ∀ predecessor ∈ problem.predecessors node, (output predecessor).isSome →
        predecessor = source := by
  obtain ⟨first, rest, isList, rfl⟩ := merged_iff.mp gathered
  cases rest using reverseRecOn with
  | nil =>
    obtain ⟨before, source, after, isNodes, silent, -, none⟩ := filterMap_eq_cons_iff.mp isList
    refine .inr ⟨source, fun predecessor member isKnown => ?_⟩
    rw [isNodes, mem_append, mem_cons] at member
    rcases member with earlier | here | later
    · simp [silent predecessor earlier] at isKnown
    · exact here
    · simp [filterMap_eq_nil_iff.mp none predecessor later] at isKnown
  | append_singleton facts last => exact .inl ⟨_, last, foldl_concat ..⟩

theorem merged_update {fact : Option Fact} (apart : predecessor ∉ problem.predecessors node) :
    problem.merged (update output predecessor fact) node = problem.merged output node := by
  apply foldl_ext
  intro known other member
  have different : other ≠ predecessor := fun same => apart (same ▸ member)
  rw [withOutput, withOutput, update_of_ne different]

end Meets

omit [DecidableEq Node] in
theorem merged_silent (node : Node) : problem.merged (fun _ => none) node = none := by
  cases gathered : problem.merged (fun _ => none) node with
  | none => rfl
  | some fact =>
    obtain ⟨first, rest, isList, -⟩ := merged_iff.mp gathered
    simp at isList

/-! ### Solutions -/

/-- Every edge is known at both ends. -/
def Consistent (problem : Problem Node Fact) : Prop :=
  ∀ node successor, successor ∈ problem.successors node ↔ node ∈ problem.predecessors successor

inductive Reachable (problem : Problem Node Fact) : Node → Prop
  | entry : Reachable problem problem.entry
  | step {node successor : Node} : Reachable problem node → successor ∈ problem.successors node →
      Reachable problem successor

def start (problem : Problem Node Fact) (fact : Fact) : Progress Node Fact where
  input := Function.update (fun _ => none) problem.entry (some fact)
  output _ := none
  pending := [problem.entry]

/-- All computed facts are admitted, and the test tells admitted facts apart. -/
structure Exact (problem : Problem Node Fact) (admitted : Fact → Prop) : Prop where
  same : ∀ fact other, admitted fact → admitted other → problem.same fact other → fact = other
  transfer : ∀ node fact result, admitted fact → problem.transfer node fact = some result →
    admitted result
  meet : ∀ first second, admitted first → admitted second → admitted (problem.meet first second)

/-- The equations hold, except for the outputs of nodes that wait. -/
structure Settled (problem : Problem Node Fact) (admitted : Fact → Prop) (origin : Fact)
    (progress : Progress Node Fact) : Prop where
  admits : ∀ node fact, progress.input node = some fact ∨ progress.output node = some fact →
    admitted fact
  entry : progress.input problem.entry = some origin
  gathered : ∀ node, node ≠ problem.entry → progress.input node = problem.merged progress.output node
  solved : ∀ node fact, node ∉ progress.pending → progress.input node = some fact →
    ∃ result, problem.transfer node fact = some result ∧ progress.output node = some result

section Solutions

variable {admitted : Fact → Prop} {origin : Fact}

theorem start_settled (isAdmitted : admitted origin) :
    Settled problem admitted origin (problem.start origin) := by
  constructor
  · intro node fact found
    rcases found with isInput | isOutput
    · by_cases isEntry : node = problem.entry
      · simp only [start, isEntry, update_self] at isInput
        cases isInput
        exact isAdmitted
      · simp [start, isEntry] at isInput
    · cases isOutput
  · simp [start]
  · intro node notEntry
    simp [start, notEntry, merged_silent]
  · intro node fact absent isInput
    have notEntry : node ≠ problem.entry := by simpa [start] using absent
    simp [start, notEntry] at isInput

omit [DecidableEq Node] in
theorem refreshed_unchanged (keeps : problem.changes known fresh = false) :
    problem.refreshed known fresh = known := by
  cases fresh with
  | none => rfl
  | some fact =>
    have kept : problem.unchanged known fact := by simpa [changes] using keeps
    rw [refreshed, if_pos kept]

variable (exact : Exact problem admitted)

include exact

omit [DecidableEq Node] in
theorem Exact.meets : MeetsBelow problem admitted fun _ _ => True :=
  ⟨by simp, by simp, exact.meet, by simp, by simp⟩

omit [DecidableEq Node] in
/-- On admitted facts, gathering anew gives what was gathered. -/
theorem Exact.refreshed {fact : Fact}
    (knownAdmitted : ∀ other, known = some other → admitted other) (isAdmitted : admitted fact) :
    problem.refreshed known (some fact) = some fact := by
  unfold Problem.refreshed
  dsimp only
  split_ifs with keeps
  · obtain ⟨other, isKnown, same⟩ := (Option.any_eq_true _ _).mp keeps
    rw [isKnown, exact.same other fact (knownAdmitted other isKnown) isAdmitted same]
  · rfl

theorem visit_settled (consistent : Consistent problem)
    (settled : Settled problem admitted origin progress) (isPending : progress.pending = node :: rest)
    (visited : problem.visit progress node rest = some next) :
    Settled problem admitted origin next := by
  obtain ⟨admits, entry, gathered, solved⟩ := settled
  rcases visit_cases visited with ⟨rfl, keeps⟩ | ⟨fact, result, isInput, transferred, -, relaxed⟩
  · refine ⟨admits, entry, gathered, fun other fact absent isInput => ?_⟩
    by_cases here : other = node
    · subst here
      obtain ⟨result, transferred, unchanged⟩ := keeps fact isInput
      obtain ⟨before, isOutput, same⟩ := (Option.any_eq_true _ _).mp unchanged
      have isSame := exact.same before result (admits other before (.inr isOutput))
        (exact.transfer other fact result (admits other fact (.inl isInput)) transferred) same
      exact ⟨result, transferred, isSame ▸ isOutput⟩
    · exact solved other fact (by simpa [isPending, here] using absent) isInput
  · have resultAdmitted := exact.transfer node fact result (admits node fact (.inl isInput)) transferred
    have outputAdmitted (other : Node) (found : Fact)
        (isOutput : update progress.output node (some result) other = some found) :
        admitted found := by
      by_cases here : other = node
      · subst here
        rw [update_self] at isOutput
        cases isOutput
        exact resultAdmitted
      · rw [update_of_ne here] at isOutput
        exact admits other found (.inr isOutput)
    -- a successor gathers at least the node's new output
    have fresh (successor : Node) (isSuccessor : successor ∈ problem.successors node) :
        ∃ meet, problem.merged (update progress.output node (some result)) successor = some meet ∧
          admitted meet := by
      obtain ⟨meet, isMeet, meetAdmitted, -⟩ := exact.meets.merged_below outputAdmitted
        ((consistent node successor).mp isSuccessor) (update_self ..)
      exact ⟨meet, isMeet, meetAdmitted⟩
    have inputAfter (other : Node) (isSuccessor : other ∈ problem.successors node)
        (notEntry : other ≠ problem.entry) : next.input other =
          problem.merged (update progress.output node (some result)) other := by
      obtain ⟨meet, isMeet, meetAdmitted⟩ := fresh other isSuccessor
      rw [relaxed.input other, if_pos ⟨isSuccessor, notEntry⟩, isMeet]
      exact exact.refreshed (fun known isKnown => admits other known (.inl isKnown)) meetAdmitted
    constructor
    · intro other found isFound
      rcases isFound with isFound | isFound
      · by_cases refreshes : other ∈ problem.successors node ∧ other ≠ problem.entry
        · obtain ⟨meet, isMeet, meetAdmitted⟩ := fresh other refreshes.1
          rw [inputAfter other refreshes.1 refreshes.2, isMeet] at isFound
          cases isFound
          exact meetAdmitted
        · rw [relaxed.input other, if_neg refreshes] at isFound
          exact admits other found (.inl isFound)
      · rw [relaxed.output] at isFound
        exact outputAdmitted other found isFound
    · rw [relaxed.input problem.entry, if_neg (by simp)]
      exact entry
    · intro other notEntry
      rw [relaxed.output]
      by_cases isSuccessor : other ∈ problem.successors node
      · exact inputAfter other isSuccessor notEntry
      · have apart := mt (consistent node other).mpr isSuccessor
        rw [relaxed.input other, if_neg fun both => isSuccessor both.1, merged_update apart]
        exact gathered other notEntry
    · intro other found absent isFound
      obtain ⟨added, isAppended, -⟩ := relaxed.pushed
      have notWaiting : other ∉ rest := by
        rw [isAppended] at absent
        exact fun member => absent (mem_append_left _ member)
      have isBefore : progress.input other = some found := by
        rw [relaxed.input other] at isFound
        split_ifs at isFound with refreshes
        · have keeps := mt (relaxed.waits other refreshes.1 refreshes.2) absent
          rwa [refreshed_unchanged (by simpa using keeps)] at isFound
        · exact isFound
      rw [relaxed.output]
      by_cases here : other = node
      · subst here
        rw [isInput] at isBefore
        cases isBefore
        exact ⟨result, transferred, update_self ..⟩
      · obtain ⟨out, isOut, isOutput⟩ := solved other found (by simp [isPending, here, notWaiting]) isBefore
        exact ⟨out, isOut, (update_of_ne here ..).trans isOutput⟩

theorem run_settled (consistent : Consistent problem)
    (isAdmitted : admitted origin) {fuel : Nat} {result : Progress Node Fact}
    (ran : problem.run fuel (problem.start origin) = .finished result) :
    Settled problem admitted origin result ∧ result.pending = [] :=
  run_invariant (Settled problem admitted origin)
    (fun _ _ _ _ settled isPending visited => visit_settled exact consistent settled isPending visited)
    (start_settled isAdmitted) ran

theorem Settled.reaches (consistent : Consistent problem)
    {progress : Progress Node Fact} (settled : Settled problem admitted origin progress)
    (done : progress.pending = []) (reachable : Reachable problem node) :
    ∃ fact result, progress.input node = some fact ∧ problem.transfer node fact = some result ∧
      progress.output node = some result := by
  have solves {node : Node} {fact : Fact} (isInput : progress.input node = some fact) :
      ∃ fact result, progress.input node = some fact ∧ problem.transfer node fact = some result ∧
        progress.output node = some result := by
    obtain ⟨result, solved⟩ := settled.solved node fact (by simp [done]) isInput
    exact ⟨fact, result, isInput, solved⟩
  induction reachable with
  | entry => exact solves settled.entry
  | @step node successor _ isSuccessor ih =>
    by_cases isEntry : successor = problem.entry
    · rw [isEntry]
      exact solves settled.entry
    · obtain ⟨fact, result, -, -, isOutput⟩ := ih
      obtain ⟨meet, isMeet, -, -⟩ := exact.meets.merged_below
        (fun node fact isOutput => settled.admits node fact (.inr isOutput))
        ((consistent node successor).mp isSuccessor) isOutput
      exact solves ((settled.gathered successor isEntry).trans isMeet)

end Solutions

end Problem

end RustcCodegenJvm.Library.ForwardFlow
