import RustcCodegenJvm.Library.ForwardFlow

/-!
# Forward flow ends

With monotone transfers facts only fall. A round that lowers no fact can still
queue nodes, since the test for changes need not be reflexive. It queues only
nodes that gather from a single node, for what passed through a meet is told to
be unchanged; along such edges the order in which nodes were first reached
grows.
-/

namespace RustcCodegenJvm.Library.ForwardFlow.Problem

open List

variable {Node Fact : Type} [Preorder Fact]

def Lowered (lower upper : Option Fact) : Prop :=
  ∀ fact, upper = some fact → ∃ below, lower = some below ∧ below ≤ fact

namespace Lowered

variable {lower between upper : Option Fact} {size : Fact → Nat}

@[refl] theorem refl (known : Option Fact) : Lowered known known := fun fact isFact => ⟨fact, isFact, le_rfl⟩

theorem trans (below : Lowered lower between) (above : Lowered between upper) : Lowered lower upper := by
  intro fact isFact
  obtain ⟨middle, isMiddle, middleBelow⟩ := above fact isFact
  obtain ⟨least, isLeast, leastBelow⟩ := below middle isMiddle
  exact ⟨least, isLeast, leastBelow.trans middleBelow⟩

theorem isSome (lowered : Lowered lower upper) (known : upper.isSome) : lower.isSome := by
  obtain ⟨fact, isFact⟩ := Option.isSome_iff_exists.mp known
  obtain ⟨below, isBelow, -⟩ := lowered fact isFact
  simp [isBelow]

end Lowered

/-- Steps that are total and monotone, and meets that are lower bounds. -/
structure Descending (nodes : List Node) (size : Fact → Nat) (problem : Problem Node Fact) : Prop where
  total : ∀ node ∈ nodes, ∀ fact, (problem.transfer node fact).isSome
  mono : ∀ node ∈ nodes, ∀ lower upper lowerResult upperResult, lower ≤ upper →
    problem.transfer node lower = some lowerResult → problem.transfer node upper = some upperResult →
      lowerResult ≤ upperResult
  meetLeft : ∀ first second, problem.meet first second ≤ first
  meetRight : ∀ first second, problem.meet first second ≤ second
  meetMono : ∀ first second lowerFirst lowerSecond, lowerFirst ≤ first → lowerSecond ≤ second →
    problem.meet lowerFirst lowerSecond ≤ problem.meet first second
  sizeMono : ∀ lower upper : Fact, lower ≤ upper → size lower ≤ size upper
  settles : ∀ first second fact, problem.meet first second ≤ fact →
    size fact ≤ size (problem.meet first second) → problem.same fact (problem.meet first second)
  edges : ∀ node, ∀ successor ∈ problem.successors node, node ∈ problem.predecessors successor
  closed : ∀ node ∈ nodes, ∀ successor ∈ problem.successors node, successor ∈ nodes
  entry : problem.entry ∈ nodes

variable {nodes : List Node} {size : Fact → Nat} {problem : Problem Node Fact}
  (descending : Descending nodes size problem)

include descending in
theorem Descending.merged_lowered
    {lower upper : Node → Option Fact} (lowered : ∀ node, Lowered (lower node) (upper node)) (node : Node) :
    Lowered (problem.merged lower node) (problem.merged upper node) := by
  refine foldl_rel (Lowered.refl none) fun predecessor _ known above below fact isFact => ?_
  unfold withOutput at isFact ⊢
  cases isUpper : upper predecessor with
  | none =>
    rw [isUpper, Option.merge_none_right] at isFact
    obtain ⟨first, rfl, firstBelow⟩ := below fact isFact
    cases lower predecessor with
    | none => exact ⟨first, rfl, firstBelow⟩
    | some second => exact ⟨_, rfl, (descending.meetLeft first second).trans firstBelow⟩
  | some other =>
    obtain ⟨second, isLower, secondBelow⟩ := lowered predecessor other isUpper
    rw [isUpper] at isFact
    rw [isLower]
    cases above with
    | none =>
      cases isFact
      cases known with
      | none => exact ⟨second, rfl, secondBelow⟩
      | some first => exact ⟨_, rfl, (descending.meetRight first second).trans secondBelow⟩
    | some held =>
      obtain ⟨first, rfl, firstBelow⟩ := below held rfl
      cases isFact
      exact ⟨_, rfl, descending.meetMono held other first second firstBelow secondBelow⟩

/-! ### One round -/

/-- Outputs come from facts at or above the inputs, and inputs are at or above what is gathered. -/
structure Descends (nodes : List Node) (problem : Problem Node Fact) (progress : Progress Node Fact) :
    Prop where
  computed : ∀ node fact, progress.output node = some fact → ∃ source known,
    progress.input node = some known ∧ known ≤ source ∧ problem.transfer node source = some fact
  gathered : ∀ node, node ≠ problem.entry →
    Lowered (problem.merged progress.output node) (progress.input node)
  inNodes : ∀ node ∈ progress.pending, node ∈ nodes

/-- Each node with a fact has a predecessor that put out a fact before it. -/
def Ranked (problem : Problem Node Fact) (progress : Progress Node Fact) (rank : Node → Nat) : Prop :=
  ∀ node, node ≠ problem.entry → (progress.input node).isSome →
    ∃ predecessor ∈ problem.predecessors node, (progress.output predecessor).isSome ∧
      rank predecessor < rank node

variable {known fresh : Option Fact}

theorem refreshed_lowered (lowered : Lowered fresh known) :
    Lowered (problem.refreshed known fresh) known := by
  cases fresh with
  | none => exact Lowered.refl known
  | some fact =>
    unfold refreshed
    dsimp only
    split_ifs
    · exact Lowered.refl known
    · exact lowered

theorem lowered_refreshed (lowered : Lowered fresh known) :
    Lowered fresh (problem.refreshed known fresh) := by
  cases fresh with
  | none => exact lowered
  | some fact =>
    unfold refreshed
    dsimp only
    split_ifs
    · exact lowered
    · exact Lowered.refl _

variable [DecidableEq Node] {progress next : Progress Node Fact} {node : Node} {rest : List Node}
  {rank : Node → Nat}

include descending in
theorem visit_total (inNodes : node ∈ nodes) (progress : Progress Node Fact) (rest : List Node) :
    ∃ next, problem.visit progress node rest = some next := by
  unfold visit
  split
  · exact ⟨_, rfl⟩
  · next fact _ =>
    obtain ⟨result, transferred⟩ := Option.isSome_iff_exists.mp (descending.total node inNodes fact)
    rw [transferred]
    exact ⟨_, rfl⟩

section Visit

variable (descending : Descending nodes size problem) (descends : Descends nodes problem progress)
  (isPending : progress.pending = node :: rest)

include descending descends isPending

theorem output_lowered {fact result : Fact} (isInput : progress.input node = some fact)
    (transferred : problem.transfer node fact = some result) (other : Node) :
    Lowered (Function.update progress.output node (some result) other) (progress.output other) := by
  by_cases here : other = node
  · subst here
    rw [Function.update_self]
    intro before isBefore
    obtain ⟨source, known, isKnown, below, wasTransferred⟩ := descends.computed other before isBefore
    rw [isInput] at isKnown
    cases isKnown
    have inNodes := descends.inNodes other (by simp [isPending])
    exact ⟨result, rfl, descending.mono other inNodes _ _ _ _ below transferred wasTransferred⟩
  · rw [Function.update_of_ne here]

theorem visit_lowers (visited : problem.visit progress node rest = some next) (other : Node) :
    Lowered (next.input other) (progress.input other) ∧
      Lowered (next.output other) (progress.output other) := by
  rcases visit_cases visited with ⟨rfl, -⟩ | ⟨fact, result, isInput, transferred, -, relaxed⟩
  · exact ⟨Lowered.refl _, Lowered.refl _⟩
  · have lowers := output_lowered descending descends isPending isInput transferred
    constructor
    · rw [relaxed.input other]
      split_ifs with refreshes
      · apply refreshed_lowered
        exact (descending.merged_lowered lowers other).trans (descends.gathered other refreshes.2)
      · exact Lowered.refl _
    · rw [relaxed.output]
      exact lowers other

theorem visit_descends (visited : problem.visit progress node rest = some next) :
    Descends nodes problem next := by
  have lowers := visit_lowers descending descends isPending visited
  have nodeIn := descends.inNodes node (by simp [isPending])
  rcases visit_cases visited with ⟨rfl, -⟩ | ⟨fact, result, isInput, transferred, -, relaxed⟩
  · refine ⟨descends.computed, descends.gathered, fun other member => descends.inNodes other ?_⟩
    rw [isPending]
    exact mem_cons_of_mem _ member
  · have outputLowers := output_lowered descending descends isPending isInput transferred
    constructor
    · intro other found isFound
      have ⟨source, known, isKnown, below, wasTransferred⟩ : ∃ source known,
          progress.input other = some known ∧ known ≤ source ∧
            problem.transfer other source = some found := by
        rw [relaxed.output] at isFound
        dsimp only at isFound
        by_cases here : other = node
        · subst here
          rw [Function.update_self] at isFound
          cases isFound
          exact ⟨fact, fact, isInput, le_rfl, transferred⟩
        · rw [Function.update_of_ne here] at isFound
          exact descends.computed other found isFound
      obtain ⟨after, isAfter, afterBelow⟩ := (lowers other).1 known isKnown
      exact ⟨source, after, isAfter, afterBelow.trans below, wasTransferred⟩
    · intro other notEntry
      have falls := (descending.merged_lowered outputLowers other).trans (descends.gathered other notEntry)
      rw [relaxed.output, relaxed.input other]
      split_ifs
      · exact lowered_refreshed falls
      · exact falls
    · intro other member
      obtain ⟨added, isAppended, areAdded⟩ := relaxed.pushed
      rw [isAppended] at member
      rcases mem_append.mp member with waiting | isAdded
      · exact descends.inNodes other (by simp [isPending, waiting])
      · exact descending.closed node nodeIn other (areAdded other isAdded).1

/-- Nodes reached for the first time come after the node that reached them. -/
theorem visit_ranked (ranked : Ranked problem progress rank)
    (visited : problem.visit progress node rest = some next) : ∃ later, Ranked problem next later := by
  have lowers := visit_lowers descending descends isPending visited
  rcases visit_cases visited with ⟨rfl, -⟩ | ⟨fact, result, isInput, transferred, -, relaxed⟩
  · exact ⟨rank, ranked⟩
  · refine ⟨fun other => if (progress.input other).isSome then rank other else rank node + 1, ?_⟩
    intro other notEntry isKnown
    by_cases knownBefore : (progress.input other).isSome
    · obtain ⟨predecessor, isPredecessor, hasOutput, less⟩ := ranked other notEntry knownBefore
      refine ⟨predecessor, isPredecessor, (lowers predecessor).2.isSome hasOutput, ?_⟩
      obtain ⟨found, isFound⟩ := Option.isSome_iff_exists.mp hasOutput
      obtain ⟨-, known, predecessorKnown, -⟩ := descends.computed predecessor found isFound
      simpa [knownBefore, predecessorKnown] using less
    · have isSuccessor : other ∈ problem.successors node := by
        by_contra apart
        rw [relaxed.input other, if_neg fun both => apart both.1] at isKnown
        exact knownBefore isKnown
      refine ⟨node, descending.edges node other isSuccessor, ?_, ?_⟩
      · rw [relaxed.output]
        simp
      · simp [knownBefore, isInput]

end Visit

/-! ### Rounds that lower nothing -/

def missing (known : Option Fact) : Nat := if known.isSome then 0 else 1

def weight (size : Fact → Nat) (known : Option Fact) : Nat := known.elim 0 size

def Level (size : Fact → Nat) (lower upper : Option Fact) : Prop :=
  lower.isSome = upper.isSome ∧ weight size lower = weight size upper

def facts (nodes : List Node) (progress : Progress Node Fact) : List (Option Fact) :=
  nodes.map progress.input ++ nodes.map progress.output

include descending

omit [DecidableEq Node] in
theorem Descending.falls_or_level
    {lowers uppers : List (Option Fact)} (lowered : List.Forall₂ Lowered lowers uppers) :
    (lowers.map missing).sum < (uppers.map missing).sum ∨
      (lowers.map missing).sum = (uppers.map missing).sum ∧
        ((lowers.map (weight size)).sum < (uppers.map (weight size)).sum ∨
          (lowers.map (weight size)).sum = (uppers.map (weight size)).sum ∧
            List.Forall₂ (Level size) lowers uppers) := by
  induction lowered with
  | nil => simp
  | @cons lower upper lowers uppers falls _ ih =>
    have head : missing lower < missing upper ∨
        missing lower = missing upper ∧ (weight size lower < weight size upper ∨
          weight size lower = weight size upper ∧ Level size lower upper) := by
      cases upper with
      | none =>
        cases lower with
        | none => simp [missing, weight, Level]
        | some below => simp [missing]
      | some fact =>
        obtain ⟨below, isBelow, less⟩ := falls fact rfl
        subst isBelow
        have smaller := descending.sizeMono below fact less
        rcases Nat.lt_or_eq_of_le smaller with strictly | equally
        · simp [missing, weight, strictly]
        · simp [missing, weight, Level, equally]
    simp only [map_cons, sum_cons, forall₂_cons]
    grind

variable (descends : Descends nodes problem progress)

include descends in
/-- A round that leaves all sizes as they are queues only nodes of a later rank. -/
theorem visit_level
    (isPending : progress.pending = node :: rest) (ranked : Ranked problem progress rank)
    (visited : problem.visit progress node rest = some next)
    (level : ∀ other ∈ nodes, Level size (next.input other) (progress.input other)) :
    Ranked problem next rank ∧
      ∃ added, next.pending = rest ++ added ∧ ∀ other ∈ added, other ∈ nodes ∧ rank node < rank other := by
  have lowers := visit_lowers descending descends isPending visited
  have nodeIn := descends.inNodes node (by simp [isPending])
  rcases visit_cases visited with ⟨rfl, -⟩ | ⟨fact, result, isInput, transferred, -, relaxed⟩
  · exact ⟨ranked, [], by simp⟩
  · have ranked' : Ranked problem next rank := by
      intro other notEntry isKnown
      have knownBefore : (progress.input other).isSome := by
        by_cases isSuccessor : other ∈ problem.successors node
        · rw [← (level other (descending.closed node nodeIn other isSuccessor)).1]
          exact isKnown
        · rw [relaxed.input other, if_neg fun both => isSuccessor both.1] at isKnown
          exact isKnown
      obtain ⟨predecessor, isPredecessor, hasOutput, less⟩ := ranked other notEntry knownBefore
      exact ⟨predecessor, isPredecessor, (lowers predecessor).2.isSome hasOutput, less⟩
    obtain ⟨added, isAppended, areAdded⟩ := relaxed.pushed
    refine ⟨ranked', added, isAppended, fun other member => ?_⟩
    obtain ⟨isSuccessor, notEntry, changed⟩ := areAdded other member
    have otherIn := descending.closed node nodeIn other isSuccessor
    refine ⟨otherIn, ?_⟩
    obtain ⟨gathered, isGathered, isNew⟩ := (Option.any_eq_true _ _).mp changed
    have inputAfter : next.input other = some gathered := by
      rw [relaxed.input other, if_pos ⟨isSuccessor, notEntry⟩, isGathered, refreshed, if_neg]
      simpa using isNew
    obtain ⟨sameKnown, sameWeight⟩ := level other otherIn
    rw [inputAfter] at sameKnown sameWeight
    obtain ⟨before, isBefore⟩ := Option.isSome_iff_exists.mp sameKnown.symm
    have below : gathered ≤ before := by
      obtain ⟨found, isFound, less⟩ := (lowers other).1 before isBefore
      rw [inputAfter] at isFound
      cases isFound
      exact less
    have sameSize : size before ≤ size gathered := by
      rw [isBefore] at sameWeight
      exact le_of_eq sameWeight.symm
    rcases merged_cases isGathered with ⟨first, second, isMeet⟩ | ⟨source, only⟩
    · -- a meet of this size is told to be unchanged
      subst isMeet
      have unchanged := descending.settles first second before below sameSize
      rw [isBefore] at isNew
      simp [Problem.unchanged, unchanged] at isNew
    · obtain ⟨predecessor, isPredecessor, hasOutput, less⟩ := ranked' other notEntry (by simp [inputAfter])
      rw [relaxed.output] at hasOutput
      have isNode := only node (descending.edges node other isSuccessor) (by simp)
      rw [only predecessor isPredecessor hasOutput, ← isNode] at less
      exact less

omit descending

/-! ### Termination -/

def lateness (nodes : List Node) (rank : Node → Nat) (pending : List Node) : Multiset Nat :=
  pending.map fun node => (nodes.map rank).sum - rank node

def potential (nodes : List Node) (size : Fact → Nat) (rank : Node → Nat) (progress : Progress Node Fact) :
    Nat × Nat × Multiset Nat :=
  (((facts nodes progress).map missing).sum, ((facts nodes progress).map (weight size)).sum,
    lateness nodes rank progress.pending)

def Less : Nat × Nat × Multiset Nat → Nat × Nat × Multiset Nat → Prop :=
  Prod.Lex (· < ·) (Prod.Lex (· < ·) Multiset.IsDershowitzMannaLT)

theorem less_wf : WellFounded Less :=
  WellFounded.prod_lex Nat.lt_wfRel.wf
    (WellFounded.prod_lex Nat.lt_wfRel.wf Multiset.wellFounded_isDershowitzMannaLT)

omit [Preorder Fact] [DecidableEq Node] in
theorem lateness_less {added : List Node}
    (later : ∀ other ∈ added, other ∈ nodes ∧ rank node < rank other) :
    Multiset.IsDershowitzMannaLT (lateness nodes rank (rest ++ added)) (lateness nodes rank (node :: rest)) := by
  refine ⟨lateness nodes rank rest, lateness nodes rank added, {(nodes.map rank).sum - rank node}, ?_, ?_, ?_, ?_⟩
  · simp
  · simp [lateness]
  · simp [lateness, add_comm]
  · intro late member
    obtain ⟨other, isAdded, rfl⟩ := mem_map.mp (Multiset.mem_coe.mp member)
    obtain ⟨inNodes, less⟩ := later other isAdded
    have bound : rank other ≤ (nodes.map rank).sum :=
      single_le_sum (by simp) _ (mem_map_of_mem inNodes)
    exact ⟨_, Multiset.mem_singleton_self _, by omega⟩

variable (descending : Descending nodes size problem)

include descending

include descends in
theorem visit_less
    (isPending : progress.pending = node :: rest) (ranked : Ranked problem progress rank)
    (visited : problem.visit progress node rest = some next) : ∃ later, Ranked problem next later ∧
      Less (potential nodes size later next) (potential nodes size rank progress) := by
  have lowers := visit_lowers descending descends isPending visited
  have lowered : List.Forall₂ Lowered (facts nodes next) (facts nodes progress) := by
    apply rel_append
    · simpa [forall₂_map_left_iff, forall₂_map_right_iff, forall₂_same] using
        fun other _ => (lowers other).1
    · simpa [forall₂_map_left_iff, forall₂_map_right_iff, forall₂_same] using
        fun other _ => (lowers other).2
  rcases descending.falls_or_level lowered with fewer | ⟨sameMissing, smaller | ⟨sameSize, level⟩⟩
  · obtain ⟨later, ranked'⟩ := visit_ranked descending descends isPending ranked visited
    exact ⟨later, ranked', Prod.Lex.left _ _ fewer⟩
  · obtain ⟨later, ranked'⟩ := visit_ranked descending descends isPending ranked visited
    refine ⟨later, ranked', ?_⟩
    unfold potential
    rw [sameMissing]
    exact Prod.Lex.right _ (Prod.Lex.left _ _ smaller)
  · have levelInput : ∀ other ∈ nodes, Level size (next.input other) (progress.input other) := by
      have inputs := forall₂_take nodes.length level
      rw [facts, facts, take_left' (by simp), take_left' (by simp)] at inputs
      simpa [forall₂_map_left_iff, forall₂_map_right_iff, forall₂_same] using inputs
    obtain ⟨ranked', added, isAppended, later⟩ :=
      visit_level descending descends isPending ranked visited levelInput
    refine ⟨rank, ranked', ?_⟩
    unfold potential
    rw [sameMissing, sameSize, isAppended, isPending]
    exact Prod.Lex.right _ (Prod.Lex.right _ (lateness_less later))

include descends in
/-- A run with monotone transfers ends. -/
theorem run_ends (ranked : Ranked problem progress rank) :
    ∃ fuel result, problem.run fuel progress = .finished result := by
  induction isPotential : potential nodes size rank progress using less_wf.induction
    generalizing progress rank with
  | _ bound ih =>
    cases isPending : progress.pending with
    | nil => exact ⟨1, progress, by rw [run, isPending]⟩
    | cons node rest =>
      have nodeIn := descends.inNodes node (by simp [isPending])
      obtain ⟨next, visited⟩ := visit_total descending nodeIn progress rest
      obtain ⟨later, ranked', less⟩ := visit_less descending descends isPending ranked visited
      rw [isPotential] at less
      obtain ⟨fuel, result, ran⟩ :=
        ih _ less (visit_descends descending descends isPending visited) ranked' rfl
      exact ⟨fuel + 1, result, (problem.run_step fuel isPending visited).trans ran⟩

theorem start_ends (origin : Fact) :
    ∃ fuel result, problem.run fuel (problem.start origin) = .finished result := by
  have descends : Descends nodes problem (problem.start origin) := by
    constructor
    · intro node fact isOutput
      cases isOutput
    · intro node notEntry fact isInput
      simp [start, notEntry] at isInput
    · intro node member
      rw [mem_singleton.mp member]
      exact descending.entry
  have ranked : Ranked problem (problem.start origin) fun _ => 0 := by
    intro node notEntry isKnown
    simp [start, notEntry] at isKnown
  exact run_ends descending descends ranked

end RustcCodegenJvm.Library.ForwardFlow.Problem
