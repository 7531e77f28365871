import Mathlib

/-!
# Depth-first search

A search visits the successors of a node before it puts the node at the end of
an order. What a search adds to the order is described by `Explored`: an edge
leads to a node that was seen before, to an earlier node of the order, or to a
later one from which all nodes in between are reached. Searches one after another
and the search of one node compose such descriptions.
-/

namespace RustcCodegenJvm.Library.DepthFirst

open List

variable {Node : Type} (next : Node → List Node)

abbrev Reaches : Node → Node → Prop :=
  Relation.ReflTransGen fun source target => target ∈ next source

/-- The target stands in the list, and reaches all that stands before it. -/
def Returns (later : List Node) (target : Node) : Prop :=
  ∃ first rest, later = first ++ target :: rest ∧ ∀ node ∈ first, Reaches next target node

/-- What a search from the roots adds to the order, when some nodes were seen before. -/
structure Explored (seen : Set Node) (roots order : List Node) : Prop where
  fresh : ∀ node ∈ order, node ∉ seen
  nodup : order.Nodup
  reached : ∀ node ∈ order, ∃ root ∈ roots, Reaches next root node
  rooted : ∀ root ∈ roots, root ∈ seen ∨ root ∈ order
  edges : ∀ before node after, order = before ++ node :: after → ∀ target ∈ next node,
    target ∈ seen ∨ target ∈ before ∨ Returns next (node :: after) target

variable {next} {seen : Set Node} {roots order : List Node}
  {before after later more others targets visited : List Node}

theorem split_append {first second : List Node} {node : Node}
    (split : first ++ second = before ++ node :: after) :
    (∃ rest, first = before ++ node :: rest ∧ after = rest ++ second) ∨
      ∃ rest, before = first ++ rest ∧ second = rest ++ node :: after := by
  rcases append_eq_append_iff.mp split with ⟨rest, isBefore, isSecond⟩ | ⟨rest, isFirst, isAfter⟩
  · exact .inr ⟨rest, isBefore, isSecond⟩
  · cases rest with
    | nil =>
      exact .inr ⟨[], by simp [isFirst], by simpa using isAfter.symm⟩
    | cons head rest =>
      rw [cons_append, List.cons.injEq] at isAfter
      exact .inl ⟨rest, by rw [isFirst, isAfter.1], isAfter.2⟩

theorem pairwise_of_splits {nodes : List Node} {related : Node → Node → Prop}
    (splits : ∀ before node after, nodes = before ++ node :: after → ∀ later ∈ after, related node later) :
    nodes.Pairwise related := by
  induction nodes with
  | nil => exact .nil
  | cons head rest ih =>
    rw [pairwise_cons]
    refine ⟨splits [] head rest rfl, ih ?_⟩
    intro before node after isRest
    exact splits (head :: before) node after (by rw [isRest, cons_append])

theorem Returns.append {target : Node} (returns : Returns next later target) :
    Returns next (later ++ more) target := by
  obtain ⟨first, rest, isLater, reaches⟩ := returns
  exact ⟨first, rest ++ more, by simp [isLater], reaches⟩

namespace Explored

theorem nothing : Explored next seen [] [] where
  fresh := by simp
  nodup := nodup_nil
  reached := by simp
  rooted := by simp
  edges := by simp

theorem append (explored : Explored next seen roots order)
    (later : Explored next {node | node ∈ seen ∨ node ∈ order} others more) :
    Explored next seen (roots ++ others) (order ++ more) where
  fresh := by
    intro node member
    rcases mem_append.mp member with earlier | added
    · exact explored.fresh node earlier
    · intro isSeen
      exact later.fresh node added (.inl isSeen)
  nodup := by
    rw [nodup_append]
    refine ⟨explored.nodup, later.nodup, ?_⟩
    rintro node earlier other added rfl
    exact later.fresh node added (.inr earlier)
  reached := by
    intro node member
    rcases mem_append.mp member with earlier | added
    · obtain ⟨root, isRoot, reaches⟩ := explored.reached node earlier
      exact ⟨root, mem_append_left _ isRoot, reaches⟩
    · obtain ⟨root, isRoot, reaches⟩ := later.reached node added
      exact ⟨root, mem_append_right _ isRoot, reaches⟩
  rooted := by
    intro root isRoot
    rw [mem_append]
    rcases mem_append.mp isRoot with earlier | added
    · have known := explored.rooted root earlier
      tauto
    · have known := later.rooted root added
      simp only [Set.mem_ofPred_eq] at known
      tauto
  edges := by
    intro before node after split target isEdge
    rcases split_append split with ⟨rest, isOrder, rfl⟩ | ⟨rest, rfl, isMore⟩
    · rcases explored.edges before node rest isOrder target isEdge with known | known | returns
      · exact .inl known
      · exact .inr (.inl known)
      · exact .inr (.inr returns.append)
    · rw [mem_append]
      rcases later.edges rest node after isMore target isEdge with (known | known) | known | returns
      · exact .inl known
      · exact .inr (.inl (.inl known))
      · exact .inr (.inl (.inr known))
      · exact .inr (.inr returns)

variable {node target : Node}

theorem close (notSeen : node ∉ seen)
    (explored : Explored next {other | other = node ∨ other ∈ seen} (next node) order) :
    Explored next seen [node] (order ++ [node]) := by
  have reaches : ∀ other ∈ order, Reaches next node other := by
    intro other member
    obtain ⟨root, isRoot, reaches⟩ := explored.reached other member
    exact .head isRoot reaches
  constructor
  · intro other member
    rcases mem_append.mp member with earlier | last
    · intro isSeen
      exact explored.fresh other earlier (.inr isSeen)
    · rw [mem_singleton.mp last]
      exact notSeen
  · rw [nodup_append]
    refine ⟨explored.nodup, nodup_singleton node, ?_⟩
    intro other member last isLast same
    rw [mem_singleton.mp isLast] at same
    exact explored.fresh other member (.inl same)
  · intro other member
    refine ⟨node, mem_singleton_self node, ?_⟩
    rcases mem_append.mp member with earlier | last
    · exact reaches other earlier
    · rw [mem_singleton.mp last]
  · intro root isRoot
    rw [mem_singleton.mp isRoot]
    simp
  · intro before other after split target isEdge
    rcases split_append split with ⟨rest, isOrder, rfl⟩ | ⟨rest, rfl, isLast⟩
    · rcases explored.edges before other rest isOrder target isEdge with (rfl | known) | known | returns
      · refine .inr (.inr ⟨other :: rest, [], by simp, ?_⟩)
        intro between member
        apply reaches
        rw [isOrder]
        exact mem_append_right _ member
      · exact .inl known
      · exact .inr (.inl known)
      · exact .inr (.inr returns.append)
    · obtain ⟨rfl, single⟩ : rest = [] ∧ [node] = other :: after := by
        cases rest with
        | nil => exact ⟨rfl, isLast⟩
        | cons => simp at isLast
      cases single
      rw [append_nil]
      rcases explored.rooted target isEdge with (rfl | known) | known
      · exact .inr (.inr ⟨[], [], rfl, by simp⟩)
      · exact .inl known
      · exact .inr (.inl known)

/-! ### The order of a whole search -/

variable {root : Node} (explored : Explored next ∅ [root] order)
include explored

theorem closed (member : node ∈ order) (isEdge : target ∈ next node) :
    target ∈ order := by
  obtain ⟨before, after, isOrder⟩ := append_of_mem member
  rw [isOrder]
  rcases explored.edges before node after isOrder target isEdge with known | known | returns
  · cases known
  · exact mem_append_left _ known
  · obtain ⟨first, rest, isLater, -⟩ := returns
    simp [isLater]

theorem closed_reaches (member : node ∈ order) (reaches : Reaches next node target) :
    target ∈ order := by
  induction reaches with
  | refl => exact member
  | tail _ isEdge ih => exact explored.closed ih isEdge

theorem mem_iff : node ∈ order ↔ Reaches next root node := by
  constructor
  · intro member
    obtain ⟨source, isRoot, reaches⟩ := explored.reached node member
    rw [mem_singleton.mp isRoot] at reaches
    exact reaches
  · intro reaches
    have isRoot : root ∈ order :=
      (explored.rooted root (mem_singleton_self root)).resolve_left (Set.notMem_empty root)
    exact explored.closed_reaches isRoot reaches

/-- What a node reaches stands before it, if nothing behind the node reaches it back. -/
theorem reaches_before (isOrder : order = before ++ node :: after)
    (last : ∀ later ∈ after, Reaches next node later → ¬ Reaches next later node)
    (reaches : Reaches next node target) : target ∈ before ∨ target = node := by
  induction reaches with
  | refl => exact .inr rfl
  | @tail middle target reaches isEdge ih =>
    have inOrder : target ∈ before ++ node :: after := by
      rw [← isOrder]
      have nodeIn : node ∈ order := by simp [isOrder]
      exact explored.closed (explored.closed_reaches nodeIn reaches) isEdge
    by_contra neither
    have isLater : target ∈ after := by
      rcases mem_append.mp inOrder with early | late
      · exact absurd (.inl early) neither
      · exact (mem_cons.mp late).resolve_left fun same => neither (.inr same)
    apply last target isLater (.tail reaches isEdge)
    -- the edge leads behind the node, so its end reaches all between, the node included
    rcases ih with early | rfl
    · obtain ⟨first, rest, isBefore⟩ := append_of_mem early
      have split : order = first ++ middle :: (rest ++ node :: after) := by
        rw [isOrder, isBefore]
        simp
      rcases explored.edges first middle _ split target isEdge with known | known | returns
      · cases known
      · exact absurd (.inl (by rw [isBefore]; exact mem_append_left _ known)) neither
      · obtain ⟨passed, others, isLater', reaches'⟩ := returns
        have inPassed : node ∈ passed := by
          have positions : (middle :: rest) ++ node :: after = passed ++ target :: others := by
            simpa using isLater'
          rcases split_append positions with ⟨gap, early', -⟩ | ⟨gap, isPassed, late⟩
          · exfalso
            apply neither
            left
            rw [isBefore, early']
            simp
          · cases gap with
            | nil =>
              rw [nil_append, List.cons.injEq] at late
              exact absurd (.inr late.1.symm) neither
            | cons head gap =>
              rw [cons_append, List.cons.injEq] at late
              rw [isPassed, late.1]
              simp
        exact reaches' node inPassed
    · rcases explored.edges before middle after isOrder target isEdge with known | known | returns
      · cases known
      · exact absurd (.inl known) neither
      · obtain ⟨passed, others, isLater', reaches'⟩ := returns
        cases passed with
        | nil =>
          rw [nil_append, List.cons.injEq] at isLater'
          exact absurd (.inr isLater'.1.symm) neither
        | cons head passed =>
          rw [cons_append, List.cons.injEq] at isLater'
          rw [isLater'.1]
          exact reaches' head mem_cons_self

/-- An edge to a later node is part of a cycle. -/
theorem pairwise : order.Pairwise fun early late => late ∈ next early → Reaches next late early := by
  apply pairwise_of_splits
  intro before early after isOrder late isLater isEdge
  have nodup := explored.nodup
  rw [isOrder] at nodup
  have nodup := nodup_append.mp nodup
  rcases explored.edges before early after isOrder late isEdge with known | known | returns
  · cases known
  · exact absurd rfl (nodup.2.2 late known late (mem_cons_of_mem _ isLater))
  · obtain ⟨first, rest, isSplit, reaches⟩ := returns
    cases first with
    | nil =>
      rw [nil_append, List.cons.injEq] at isSplit
      rw [isSplit.1] at nodup
      exact absurd isLater (nodup_cons.mp nodup.2.1).1
    | cons head first =>
      rw [cons_append, List.cons.injEq] at isSplit
      rw [isSplit.1]
      exact reaches head mem_cons_self

end Explored

/-! ### The search -/

def Extends (next : Node → List Node) (roots : List Node) (state later : List Node × List Node) : Prop :=
  ∃ added, later.2 = state.2 ++ added ∧
    (∀ node, node ∈ later.1 ↔ node ∈ state.1 ∨ node ∈ added) ∧
    Explored next {node | node ∈ state.1} roots added

theorem Extends.append {first second third : List Node × List Node}
    (early : Extends next roots first second) (late : Extends next others second third) :
    Extends next (roots ++ others) first third := by
  obtain ⟨added, isOrder, isVisited, explored⟩ := early
  obtain ⟨more, isOrder', isVisited', explored'⟩ := late
  refine ⟨added ++ more, by simp [isOrder, isOrder'], ?_, ?_⟩
  · intro node
    rw [isVisited', isVisited, mem_append, or_assoc]
  · apply explored.append
    simp only [isVisited] at explored'
    exact explored'

section Search

variable [DecidableEq Node]

variable (next) in
/-- The nodes seen and the order after the search of a node; `none` when the fuel does not
suffice. -/
def visit : Nat → Node → List Node × List Node → Option (List Node × List Node)
  | 0, _, _ => none
  | fuel + 1, node, (visited, order) =>
    if node ∈ visited then some (visited, order)
    else
      ((next node).foldlM (fun state target => visit fuel target state) (node :: visited, order)).map
        fun state => (state.1, state.2 ++ [node])

variable {fuel : Nat} {state : List Node × List Node} {node : Node} {nodes : Finset Node}

theorem fold_extends {later : List Node × List Node}
    (step : ∀ node state later, visit next fuel node state = some later → Extends next [node] state later)
    (ran : targets.foldlM (fun state target => visit next fuel target state) state = some later) :
    Extends next targets state later := by
  induction targets generalizing state with
  | nil =>
    cases ran
    exact ⟨[], by simp, by simp, .nothing⟩
  | cons target rest ih =>
    rw [foldlM_cons, Option.bind_eq_bind, Option.bind_eq_some_iff] at ran
    obtain ⟨middle, visited, ran⟩ := ran
    exact (step target state middle visited).append (ih ran)

theorem visit_extends {later : List Node × List Node}
    (ran : visit next fuel node state = some later) : Extends next [node] state later := by
  induction fuel generalizing node state later with
  | zero => cases ran
  | succ fuel ih =>
    unfold visit at ran
    split_ifs at ran with known
    · cases ran
      refine ⟨[], by simp, by simp, ⟨by simp, nodup_nil, by simp, ?_, by simp⟩⟩
      intro root isRoot
      rw [mem_singleton.mp isRoot]
      exact .inl known
    · obtain ⟨inner, folded, rfl⟩ := Option.map_eq_some_iff.mp ran
      have step : ∀ node state later, visit next fuel node state = some later →
          Extends next [node] state later := fun _ _ _ => ih
      obtain ⟨added, isOrder, isVisited, explored⟩ := fold_extends step folded
      refine ⟨added ++ [node], by simp [isOrder], ?_, ?_⟩
      · intro other
        simp only [isVisited, mem_cons, mem_append, not_mem_nil, or_false]
        tauto
      · have notSeen : node ∉ {other | other ∈ state.1} := known
        apply Explored.close notSeen
        simp only [mem_cons] at explored
        exact explored

/-! ### Termination -/

def unvisited (nodes : Finset Node) (visited : List Node) : Nat := (nodes \ visited.toFinset).card

theorem unvisited_le (within : visited ⊆ more) :
    unvisited nodes more ≤ unvisited nodes visited := by
  apply Finset.card_le_card
  apply Finset.sdiff_subset_sdiff (Finset.Subset.refl nodes)
  intro node member
  rw [mem_toFinset] at member ⊢
  exact within member

theorem unvisited_lt (isNode : node ∈ nodes) (fresh : node ∉ visited) :
    unvisited nodes (node :: visited) < unvisited nodes visited := by
  apply Finset.card_lt_card
  rw [Finset.ssubset_iff_of_subset]
  · refine ⟨node, ?_, ?_⟩
    · simp [isNode, fresh]
    · simp
  · apply Finset.sdiff_subset_sdiff (Finset.Subset.refl nodes)
    intro other member
    simp only [mem_toFinset, mem_cons] at member ⊢
    exact .inr member

theorem fold_ends (step : ∀ node state, node ∈ nodes → unvisited nodes state.1 < fuel →
      ∃ later, visit next fuel node state = some later)
    (within : ∀ target ∈ targets, target ∈ nodes) (enough : unvisited nodes state.1 < fuel) :
    ∃ later, targets.foldlM (fun state target => visit next fuel target state) state = some later := by
  induction targets generalizing state with
  | nil => exact ⟨state, rfl⟩
  | cons target rest ih =>
    rw [forall_mem_cons] at within
    obtain ⟨middle, visited⟩ := step target state within.1 enough
    rw [foldlM_cons, visited]
    apply ih within.2
    obtain ⟨added, -, isVisited, -⟩ := visit_extends visited
    apply lt_of_le_of_lt (unvisited_le _) enough
    intro node member
    exact (isVisited node).mpr (.inl member)

variable (closed : ∀ node ∈ nodes, ∀ target ∈ next node, target ∈ nodes)

include closed

theorem visit_ends (isNode : node ∈ nodes)
    (enough : unvisited nodes state.1 < fuel) : ∃ later, visit next fuel node state = some later := by
  induction fuel generalizing node state with
  | zero => cases enough
  | succ fuel ih =>
    unfold visit
    split_ifs with known
    · exact ⟨_, rfl⟩
    · have fewer : unvisited nodes (node :: state.1) < fuel := by
        have fewer := unvisited_lt isNode known
        omega
      obtain ⟨inner, folded⟩ : ∃ later, (next node).foldlM
          (fun state target => visit next fuel target state) (node :: state.1, state.2) = some later :=
        fold_ends (fun node state isNode enough => ih isNode enough) (closed node isNode) fewer
      rw [folded]
      exact ⟨_, rfl⟩

theorem visit_all {root : Node} (isNode : root ∈ nodes) (enough : nodes.card < fuel) :
    ∃ visited order, visit next fuel root ([], []) = some (visited, order) ∧
      (∀ node, node ∈ visited ↔ node ∈ order) ∧ Explored next ∅ [root] order := by
  have start : unvisited nodes [] < fuel := by simpa [unvisited] using enough
  obtain ⟨⟨visited, order⟩, ran⟩ : ∃ later, visit next fuel root ([], []) = some later :=
    visit_ends closed isNode start
  obtain ⟨added, isOrder, isVisited, explored⟩ := visit_extends ran
  subst isOrder
  refine ⟨visited, order, ran, by simpa using isVisited, ?_⟩
  simpa using explored

end Search

end RustcCodegenJvm.Library.DepthFirst
