import RustcCodegenJvm.Library.Folds

/-!
# Iterated dataflow problems

A node gathers a fact from what other nodes put out and transfers it to what it
puts out itself. Nodes wait in a queue, each at most once; a node whose output
changed queues the nodes that depend on it. A run that ends has solved the
equations of every node it started with, and runs end when the steps are
monotone and start from below.
-/

namespace RustcCodegenJvm.Library.Dataflow

open Function

structure Problem (Node Fact : Type) where
  gather : Node → (Node → Fact) → Fact
  transfer : Node → Fact → Fact
  dependents : Node → List Node

structure Progress (Node Fact : Type) where
  input : Node → Fact
  output : Node → Fact
  pending : List Node

variable {Node Fact : Type} [DecidableEq Node]

def pushAbsent (pending : List Node) (node : Node) : List Node :=
  if node ∈ pending then pending else pending ++ [node]

section Queue

variable {node other : Node} {pending nodes : List Node}

@[simp] theorem mem_push_absent : other ∈ pushAbsent pending node ↔ other ∈ pending ∨ other = node := by
  unfold pushAbsent
  split
  · next present =>
    constructor
    · exact .inl
    · rintro (member | rfl)
      · exact member
      · exact present
  · simp

@[simp] theorem mem_push_all_absent :
    other ∈ nodes.foldl pushAbsent pending ↔ other ∈ pending ∨ other ∈ nodes := by
  induction nodes generalizing pending with
  | nil => simp
  | cons node rest ih => simp [ih, or_assoc]

theorem nodup_push_all_absent (distinct : pending.Nodup) : (nodes.foldl pushAbsent pending).Nodup := by
  apply List.foldlRecOn _ _ distinct
  intro pending distinct node _
  unfold pushAbsent
  split
  · exact distinct
  · next absent =>
    apply List.Nodup.append distinct (List.nodup_singleton node)
    simpa using absent

end Queue

namespace Problem

variable [DecidableEq Fact] (problem : Problem Node Fact)

/-- What a node puts out, given the outputs of all nodes. -/
def next (node : Node) (output : Node → Fact) : Fact := problem.transfer node (problem.gather node output)

def visit (progress : Progress Node Fact) (node : Node) (rest : List Node) : Progress Node Fact :=
  if progress.output node = problem.next node progress.output then
    { input := Function.update progress.input node (problem.gather node progress.output)
      output := progress.output
      pending := rest }
  else
    { input := Function.update progress.input node (problem.gather node progress.output)
      output := Function.update progress.output node (problem.next node progress.output)
      pending := (problem.dependents node).foldl pushAbsent rest }

/-- The loop, until the queue is empty; `none` when the fuel does not suffice. -/
def run : Nat → Progress Node Fact → Option (Progress Node Fact)
  | 0, _ => none
  | fuel + 1, progress =>
    match progress.pending with
    | [] => some progress
    | node :: rest => run fuel (problem.visit progress node rest)

section Rules

variable {problem} (invariant : Progress Node Fact → Prop)
  (keeps : ∀ progress node rest, invariant progress → progress.pending = node :: rest →
    invariant (problem.visit progress node rest))

include keeps in
theorem run_invariant {fuel : Nat} {progress result : Progress Node Fact} (starts : invariant progress)
    (ran : problem.run fuel progress = some result) : invariant result ∧ result.pending = [] := by
  induction fuel generalizing progress with
  | zero => cases ran
  | succ fuel ih =>
    unfold run at ran
    split at ran
    · next empty =>
      cases ran
      exact ⟨starts, empty⟩
    · next node rest isPending => exact ih (keeps progress node rest starts isPending) ran

include keeps in
theorem never_ends (busy : ∀ progress, invariant progress → progress.pending ≠ [])
    {progress : Progress Node Fact} (starts : invariant progress) (fuel : Nat) :
    problem.run fuel progress = none := by
  induction fuel generalizing progress with
  | zero => rfl
  | succ fuel ih =>
    unfold run
    split
    · next empty => exact absurd empty (busy progress starts)
    · next node rest isPending => exact ih (keeps progress node rest starts isPending)

end Rules

/-! ### Solutions -/

def SolvedAt (progress : Progress Node Fact) (node : Node) : Prop :=
  progress.input node = problem.gather node progress.output ∧
    progress.output node = problem.transfer node (progress.input node)

def Local : Prop :=
  ∀ node other facts fact, node ∉ problem.dependents other →
    problem.gather node (Function.update facts other fact) = problem.gather node facts

variable {problem} {progress : Progress Node Fact} {node : Node} {rest : List Node}

theorem visit_solves (isLocal : problem.Local) (isPending : progress.pending = node :: rest)
    {other : Node} (settled : other ∈ progress.pending ∨ problem.SolvedAt progress other) :
    other ∈ (problem.visit progress node rest).pending ∨
      problem.SolvedAt (problem.visit progress node rest) other := by
  rw [isPending] at settled
  by_cases same : progress.output node = problem.next node progress.output
  · rw [visit, if_pos same]
    by_cases here : other = node
    · right
      simpa [SolvedAt, here, next] using same
    · simpa [SolvedAt, here] using settled
  · rw [visit, if_neg same]
    by_cases dependent : other ∈ problem.dependents node
    · left
      simp [dependent]
    · have gathers := isLocal other node progress.output (problem.next node progress.output) dependent
      by_cases here : other = node
      · right
        subst here
        rw [SolvedAt, gathers]
        simp [next]
      · simpa [SolvedAt, here, dependent, gathers] using settled

/-- When the queue is empty, the equations of every node hold that was queued or solved before. -/
theorem run_solves (isLocal : problem.Local) {nodes : List Node} {fuel : Nat}
    {result : Progress Node Fact}
    (settled : ∀ other ∈ nodes, other ∈ progress.pending ∨ problem.SolvedAt progress other)
    (ran : problem.run fuel progress = some result) : ∀ other ∈ nodes, problem.SolvedAt result other := by
  have kept := run_invariant
    (fun progress => ∀ other ∈ nodes, other ∈ progress.pending ∨ problem.SolvedAt progress other)
    (fun progress node rest before isPending other member =>
      visit_solves isLocal isPending (before other member)) settled ran
  intro other member
  have settledAtEnd := kept.1 other member
  rw [kept.2] at settledAtEnd
  exact settledAtEnd.resolve_left List.not_mem_nil

/-! ### Termination -/

section Ascending

variable [PartialOrder Fact] (nodes : List Node) (valid : Fact → Prop) (size : Fact → Nat) (height : Nat)

structure Ascends (problem : Problem Node Fact) (progress : Progress Node Fact) : Prop where
  rises : ∀ node, progress.output node ≤ problem.next node progress.output
  isValid : ∀ node, valid (progress.output node)
  inNodes : ∀ node ∈ progress.pending, node ∈ nodes
  distinct : progress.pending.Nodup

/-- Steps that are monotone and stay among finitely high facts. -/
structure Monotone (problem : Problem Node Fact) : Prop where
  mono : ∀ node (facts larger : Node → Fact), (∀ other, valid (facts other)) →
    (∀ other, valid (larger other)) → (∀ other, facts other ≤ larger other) →
      problem.next node facts ≤ problem.next node larger
  keepsValid : ∀ node facts, (∀ other, valid (facts other)) →
    valid (problem.next node facts)
  grows : ∀ fact larger : Fact, fact ≤ larger → fact ≠ larger → size fact < size larger
  bounded : ∀ fact, valid fact → size fact ≤ height
  dependentsInNodes : ∀ node ∈ nodes, ∀ dependent ∈ problem.dependents node, dependent ∈ nodes

def room (output : Node → Fact) : Nat := (nodes.map fun node => height - size (output node)).sum

def potential (progress : Progress Node Fact) : Nat :=
  room nodes size height progress.output * (nodes.length + 1) + progress.pending.length

variable {nodes valid size height}

variable (monotone : Monotone nodes valid size height problem)

include monotone

theorem visit_ascends
    (ascends : Ascends nodes valid problem progress) (isPending : progress.pending = node :: rest) :
    Ascends nodes valid problem (problem.visit progress node rest) := by
  have ⟨rises, isValid, inNodes, distinct⟩ := ascends
  rw [isPending] at inNodes distinct
  have restInNodes : ∀ other ∈ rest, other ∈ nodes :=
    fun other member => inNodes other (List.mem_cons_of_mem _ member)
  unfold visit
  split_ifs with same
  · exact ⟨rises, isValid, restInNodes, distinct.of_cons⟩
  · have larger : ∀ other, progress.output other ≤ update progress.output node
        (problem.next node progress.output) other := by
      intro other
      by_cases here : other = node
      · subst here
        simpa using rises other
      · simp [here]
    have largerValid : ∀ other, valid (update progress.output node
        (problem.next node progress.output) other) := by
      intro other
      by_cases here : other = node
      · subst here
        simpa using monotone.keepsValid other _ isValid
      · simpa [here] using isValid other
    constructor
    · intro other
      have risen := monotone.mono other _ _ isValid largerValid larger
      by_cases here : other = node
      · subst here
        simpa using risen
      · simpa [here] using (rises other).trans risen
    · exact largerValid
    · intro other member
      rcases mem_push_all_absent.mp member with waiting | dependent
      · exact restInNodes other waiting
      · exact monotone.dependentsInNodes node (inNodes node List.mem_cons_self) other dependent
    · exact nodup_push_all_absent distinct.of_cons

theorem visit_potential
    (ascends : Ascends nodes valid problem progress) (isPending : progress.pending = node :: rest) :
    potential nodes size height (problem.visit progress node rest) <
      potential nodes size height progress := by
  have after := visit_ascends monotone ascends isPending
  have short := (List.Nodup.subperm after.distinct after.inNodes).length_le
  have validAfter := after.isValid node
  unfold visit at short validAfter ⊢
  unfold potential
  by_cases changed : progress.output node = problem.next node progress.output
  · rw [if_pos changed]
    simp [isPending]
  · rw [if_neg changed] at short validAfter ⊢
    have nodeIn : node ∈ nodes := by
      apply ascends.inNodes
      simp [isPending]
    have less : room nodes size height (update progress.output node
        (problem.next node progress.output)) <
          room nodes size height progress.output := by
      apply List.sum_lt_sum
      · intro other _
        by_cases here : other = node
        · subst here
          have grown := monotone.grows _ _ (ascends.rises other) changed
          simp only [update_self]
          omega
        · simp [here]
      · refine ⟨node, nodeIn, ?_⟩
        have grown := monotone.grows _ _ (ascends.rises node) changed
        have bound := monotone.bounded _ validAfter
        simp only [update_self] at bound ⊢
        omega
    have product : (room nodes size height (update progress.output node
        (problem.next node progress.output)) + 1) * (nodes.length + 1) ≤
          room nodes size height progress.output * (nodes.length + 1) :=
      Nat.mul_le_mul_right _ less
    rw [Nat.add_mul] at product
    dsimp only at short ⊢
    omega

/-- A monotone problem that starts from below needs no more rounds than its potential. -/
theorem run_ends_within {fuel : Nat} (ascends : Ascends nodes valid problem progress)
    (enough : potential nodes size height progress < fuel) :
    ∃ result, problem.run fuel progress = some result := by
  induction fuel generalizing progress with
  | zero => omega
  | succ fuel ih =>
    unfold run
    split
    · exact ⟨progress, rfl⟩
    · next node rest isPending =>
      have less := visit_potential monotone ascends isPending
      exact ih (visit_ascends monotone ascends isPending) (by omega)

theorem run_ends (ascends : Ascends nodes valid problem progress) :
    ∃ fuel result, problem.run fuel progress = some result :=
  ⟨_, run_ends_within monotone ascends (Nat.lt_succ_self _)⟩

end Ascending

end Problem

end RustcCodegenJvm.Library.Dataflow
