import RustcCodegenJvm.Library.Folds

/-!
# Round-robin fixpoints

Every node has a set, computed from the sets of all nodes. The nodes are
recomputed in turn, and the round is repeated until one changes nothing. The
result solves the equations of the nodes. When the equations are monotone and the
sets start small, they only grow, so within a finite set the rounds end.
-/

namespace RustcCodegenJvm.Library.RoundRobin

variable {Node Item : Type} [DecidableEq Node] [DecidableEq Item]

abbrev Facts (Node Item : Type) := Node → Finset Item

section Definitions

variable (next : Facts Node Item → Node → Finset Item)

/-- Recomputes a node, and notes whether it changed. -/
def recompute (state : Facts Node Item × Bool) (node : Node) : Facts Node Item × Bool :=
  if next state.1 node ≠ state.1 node then (Function.update state.1 node (next state.1 node), true)
  else state

def round (nodes : List Node) (facts : Facts Node Item) : Facts Node Item × Bool :=
  nodes.foldl (recompute next) (facts, false)

/-- Rounds until one changes nothing; `none` when the fuel does not suffice. -/
def solve (nodes : List Node) : Nat → Facts Node Item → Option (Facts Node Item)
  | 0, _ => none
  | fuel + 1, facts =>
    match round next nodes facts with
    | (later, true) => solve nodes fuel later
    | (later, false) => some later

end Definitions

variable {next : Facts Node Item → Node → Finset Item} {nodes : List Node} {facts : Facts Node Item}
  {state : Facts Node Item × Bool} {fuel : Nat}

theorem recompute_flag {node : Node} (unchanged : (recompute next state node).2 = false) :
    recompute next state node = state ∧ next state.1 node = state.1 node := by
  unfold recompute at unchanged ⊢
  split_ifs at unchanged ⊢ with same
  exact ⟨rfl, not_not.mp same⟩

theorem solve_solved {later : Facts Node Item} (ran : solve next nodes fuel facts = some later) :
    ∀ node ∈ nodes, next later node = later node := by
  induction fuel generalizing facts with
  | zero => cases ran
  | succ fuel ih =>
    unfold solve at ran
    split at ran
    · exact ih ran
    · next result isRound =>
      cases ran
      have unchanged : (nodes.foldl (recompute next) (facts, false)).2 = false := by
        change (round next nodes facts).2 = false
        rw [isRound]
      obtain ⟨same, solved⟩ := foldl_unchanged (fun _ _ => recompute_flag) unchanged
      change round next nodes facts = (facts, false) at same
      rw [isRound] at same
      cases same
      exact solved

/-! ### Termination -/

/-- The equations are monotone and stay within a finite set. -/
structure Bounded (next : Facts Node Item → Node → Finset Item) (items : Finset Item) : Prop where
  mono : ∀ lower upper : Facts Node Item, (∀ node, lower node ⊆ upper node) →
    ∀ node, next lower node ⊆ next upper node
  within : ∀ facts : Facts Node Item, (∀ node, facts node ⊆ items) → ∀ node, next facts node ⊆ items

def total (nodes : List Node) (facts : Facts Node Item) : Nat := ∑ node ∈ nodes.toFinset, (facts node).card

structure Growing (next : Facts Node Item → Node → Finset Item) (items : Finset Item)
    (facts : Facts Node Item) : Prop where
  below : ∀ node, facts node ⊆ next facts node
  within : ∀ node, facts node ⊆ items

variable {items : Finset Item} (bounded : Bounded next items)
include bounded

omit [DecidableEq Item] in
theorem Growing.update (growing : Growing next items facts) (node : Node) :
    Growing next items (Function.update facts node (next facts node)) ∧
      ∀ other, facts other ⊆ Function.update facts node (next facts node) other := by
  have above : ∀ other, facts other ⊆ Function.update facts node (next facts node) other := by
    intro other
    by_cases same : other = node
    · subst same
      rw [Function.update_self]
      exact growing.below other
    · rw [Function.update_of_ne same]
  refine ⟨⟨?_, ?_⟩, above⟩
  · intro other
    have more := bounded.mono _ _ above other
    by_cases same : other = node
    · subst same
      rw [Function.update_self]
      exact more
    · rw [Function.update_of_ne same]
      exact (growing.below other).trans more
  · intro other
    by_cases same : other = node
    · subst same
      rw [Function.update_self]
      exact bounded.within facts growing.within other
    · rw [Function.update_of_ne same]
      exact growing.within other

theorem recompute_grows (growing : Growing next items state.1) {node : Node}
    (isNode : node ∈ nodes) : Growing next items (recompute next state node).1 ∧
      total nodes state.1 ≤ total nodes (recompute next state node).1 ∧
      ((recompute next state node).2 = true →
        state.2 = true ∨ total nodes state.1 < total nodes (recompute next state node).1) := by
  unfold recompute
  split_ifs with changed
  · obtain ⟨grown, above⟩ := growing.update bounded node
    have more : total nodes state.1 < total nodes (Function.update state.1 node (next state.1 node)) := by
      apply Finset.sum_lt_sum
      · intro other _
        exact Finset.card_le_card (above other)
      · refine ⟨node, List.mem_toFinset.mpr isNode, ?_⟩
        rw [Function.update_self]
        apply Finset.card_lt_card
        exact (growing.below node).ssubset_of_ne fun same => changed same.symm
    exact ⟨grown, more.le, fun _ => .inr more⟩
  · exact ⟨growing, le_rfl, .inl⟩

theorem round_grows {visited : List Node} (within : visited ⊆ nodes)
    (growing : Growing next items state.1) :
    Growing next items (visited.foldl (recompute next) state).1 ∧
      total nodes state.1 ≤ total nodes (visited.foldl (recompute next) state).1 ∧
      ((visited.foldl (recompute next) state).2 = true →
        state.2 = true ∨ total nodes state.1 < total nodes (visited.foldl (recompute next) state).1) := by
  induction visited generalizing state with
  | nil => exact ⟨growing, le_rfl, .inl⟩
  | cons node rest ih =>
    rw [List.cons_subset] at within
    obtain ⟨grown, atLeast, changed⟩ := recompute_grows bounded growing within.1
    obtain ⟨grown', atLeast', changed'⟩ := ih within.2 grown
    refine ⟨grown', atLeast.trans atLeast', ?_⟩
    intro flag
    rcases changed' flag with here | later
    · rcases changed here with before | now
      · exact .inl before
      · exact .inr (now.trans_le atLeast')
    · exact .inr (atLeast.trans_lt later)

omit [DecidableEq Item] bounded in
theorem total_le (growing : Growing next items facts) : total nodes facts ≤ nodes.toFinset.card * items.card := by
  have each := Finset.sum_le_card_nsmul nodes.toFinset (fun node => (facts node).card) items.card
    fun node _ => Finset.card_le_card (growing.within node)
  simpa [total] using each

theorem solve_ends (growing : Growing next items facts)
    (enough : nodes.toFinset.card * items.card < fuel + total nodes facts) :
    ∃ later, solve next nodes fuel facts = some later := by
  induction fuel generalizing facts with
  | zero =>
    have bound : total nodes facts ≤ nodes.toFinset.card * items.card := total_le growing
    omega
  | succ fuel ih =>
    have start : Growing next items (facts, false).1 := growing
    obtain ⟨grown, -, changed⟩ := round_grows bounded (List.Subset.refl nodes) start
    unfold solve
    split
    · next later isRound =>
      have isFold : nodes.foldl (recompute next) (facts, false) = (later, true) := isRound
      rw [isFold] at grown changed
      have more : total nodes facts < total nodes later := (changed rfl).resolve_left Bool.false_ne_true
      have enough' : nodes.toFinset.card * items.card < fuel + total nodes later := by omega
      exact ih grown enough'
    · exact ⟨_, rfl⟩

end RustcCodegenJvm.Library.RoundRobin
