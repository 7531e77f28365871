import RustcCodegenJvm.Library.AssociationList
import RustcCodegenJvm.Library.Components
import RustcCodegenJvm.Library.Dataflow
import RustcCodegenJvm.Oomir.Program

/-!
# Components of the blocks of a large method

`topological_components` orders the strongly connected components of the blocks
of a function, so that control only goes from a component to itself and to later
ones. The blocks have to be reachable from the entry; the function rejects a body
with other blocks.
-/

namespace RustcCodegenJvm.Lower2

open Program Library DepthFirst Components List

/-! ### Successors -/

def namedBlocks : Instruction → List String
  | .unwindStart target | .scalar (.jump target) => [target]
  | .scalar (.branch _ trueBlock falseBlock) => [trueBlock, falseBlock]
  | .scalar (.switch _ targets otherwise) => targets.map Prod.snd ++ [otherwise]
  | _ => []

def blockSuccessors (block : BasicBlock) : List String :=
  (block.instructions.flatMap namedBlocks).foldl Dataflow.pushAbsent []

def successorMap (body : CodeBlock) : List (String × List String) :=
  body.basicBlocks.map fun entry => (entry.1, blockSuccessors entry.2)

theorem mem_block_successors {block : BasicBlock} {target : String} :
    target ∈ blockSuccessors block ↔ ∃ instruction ∈ block.instructions, target ∈ namedBlocks instruction := by
  simp [blockSuccessors]

/-! ### The pass -/

structure VerificationError where
  context : String
  message : String
deriving DecidableEq

def verificationError (context message : String) : VerificationError where
  context := "Function " ++ context
  message := message

def sorted (labels : List String) : List String := labels.insertionSort (· ≤ ·)

section Pass

variable (successors : List (String × List String))

def successorsOf (label : String) : List String := (successors.lookup label).getD []

def reverseEdges (label : String) : List String :=
  successors.flatMap fun entry => (entry.2.filter (· = label)).map fun _ => entry.1

def componentFor (components : List (List String)) (label : String) : Nat :=
  components.findIdx fun component => label ∈ component

def dag (components : List (List String)) (index : Nat) : List Nat :=
  (List.range components.length).filter fun target =>
    index ≠ target ∧ successors.any fun entry =>
      componentFor components entry.1 = index ∧ entry.2.any fun label => componentFor components label = target

/-- The components in topological order; `none` when the fuel does not suffice. -/
def topologicalComponents (fuel : Nat) (body : CodeBlock) :
    Option (Except VerificationError (List (List String))) :=
  match visit (fun node => sorted (successorsOf successors node)) fuel body.entry ([], []) with
  | none => none
  | some (visited, order) =>
    if visited.toFinset.card ≠ body.basicBlocks.length then
      some (.error (verificationError "control flow"
        "large OOMIR function contains unreachable blocks after optimisation"))
    else
      match findComponents (fun node => sorted (reverseEdges successors node)) sorted fuel order.reverse [] [] with
      | none => none
      | some components =>
        match visit (dag successors components) fuel (componentFor components body.entry) ([], []) with
        | none => none
        | some (_, componentOrder) =>
          some (.ok (componentOrder.reverse.map fun index => components.getD index []))

end Pass

/-! ### Graphs of blocks -/

/-- Blocks with distinct labels, one of them the entry, and edges between them. -/
structure BlockGraph where
  body : CodeBlock
  successors : List (String × List String)
  distinct : (body.basicBlocks.map Prod.fst).Nodup
  keys : (successors.map Prod.fst).Perm (body.basicBlocks.map Prod.fst)
  entry : body.entry ∈ body.basicBlocks.map Prod.fst
  closed : ∀ entry ∈ successors, ∀ target ∈ entry.2, target ∈ body.basicBlocks.map Prod.fst

namespace BlockGraph

variable (graph : BlockGraph)

def labels : List String := graph.body.basicBlocks.map Prod.fst

abbrev next : String → List String := successorsOf graph.successors

def size : Nat :=
  graph.labels.length + 1 + ∑ label ∈ graph.labels.toFinset, (reverseEdges graph.successors label).length

variable {graph} {source target : String}

theorem keys_nodup : (graph.successors.map Prod.fst).Nodup :=
  graph.keys.nodup_iff.mpr graph.distinct

theorem next_iff : target ∈ graph.next source ↔
    ∃ targets, (source, targets) ∈ graph.successors ∧ target ∈ targets := by
  unfold next successorsOf
  constructor
  · intro member
    cases found : graph.successors.lookup source with
    | none => simp [found] at member
    | some targets =>
      rw [found, Option.getD_some] at member
      exact ⟨targets, SortedMap.mem_of_lookup found, member⟩
  · rintro ⟨targets, isEntry, member⟩
    rw [(AssociationList.lookup_iff_mem keys_nodup).mpr isEntry]
    exact member

theorem next_source (isEdge : target ∈ graph.next source) : source ∈ graph.labels := by
  obtain ⟨targets, isEntry, -⟩ := next_iff.mp isEdge
  exact graph.keys.mem_iff.mp (mem_map_of_mem isEntry)

theorem next_target (isEdge : target ∈ graph.next source) : target ∈ graph.labels := by
  obtain ⟨targets, isEntry, member⟩ := next_iff.mp isEdge
  exact graph.closed _ isEntry target member

theorem mem_reverse_edges : source ∈ reverseEdges graph.successors target ↔ target ∈ graph.next source := by
  rw [next_iff]
  simp only [reverseEdges, mem_flatMap, mem_map, mem_filter, decide_eq_true_eq]
  constructor
  · rintro ⟨⟨label, targets⟩, isEntry, other, ⟨member, rfl⟩, rfl⟩
    exact ⟨targets, isEntry, member⟩
  · rintro ⟨targets, isEntry, member⟩
    exact ⟨(source, targets), isEntry, target, ⟨member, rfl⟩, rfl⟩

end BlockGraph

/-- The graph of a body: the entry and all targets are blocks. -/
def BlockGraph.ofBody (body : CodeBlock) (distinct : (body.basicBlocks.map Prod.fst).Nodup)
    (entry : body.entry ∈ body.basicBlocks.map Prod.fst)
    (closed : ∀ block ∈ body.basicBlocks, ∀ target ∈ blockSuccessors block.2,
      target ∈ body.basicBlocks.map Prod.fst) : BlockGraph where
  body := body
  successors := successorMap body
  distinct := distinct
  keys := by
    rw [successorMap, map_map]
    rfl
  entry := entry
  closed := by
    intro edges member
    obtain ⟨block, isBlock, rfl⟩ := mem_map.mp member
    exact closed block isBlock

theorem sorted_perm (labels : List String) : (sorted labels).Perm labels := perm_insertionSort _ _

theorem reaches_sorted {next : String → List String} {source target : String} :
    Reaches (fun node => sorted (next node)) source target ↔ Reaches next source target := by
  have same : (fun source target => target ∈ sorted (next source)) = fun source target => target ∈ next source := by
    funext source target
    rw [(sorted_perm _).mem_iff]
  unfold Reaches
  rw [same]

/-! ### The components are found -/

section Indices

variable {next : String → List String} {order : List String} {components : List (List String)}

theorem component_for_eq (are : AreComponents next order components) {index : Nat} {component : List String}
    {label : String} (isComponent : components[index]? = some component) (member : label ∈ component) :
    componentFor components label = index :=
  find_index_eq (are.flatten.nodup_iff.mpr are.nodup) isComponent member

theorem length_le_flatten (nonempty : ∀ component ∈ components, ∃ node, node ∈ component) :
    components.length ≤ components.flatten.length := by
  induction components with
  | nil => simp
  | cons component rest ih =>
    rw [forall_mem_cons] at nonempty
    obtain ⟨node, member⟩ := nonempty.1
    have positive := length_pos_of_mem member
    have more := ih nonempty.2
    rw [length_cons, flatten_cons, length_append]
    omega

end Indices

namespace BlockGraph

variable {graph : BlockGraph} {order : List String} {components : List (List String)}

/-- The edges of the ordered sets are the edges between different components. -/
theorem dag_condenses (are : AreComponents graph.next order components)
    (inOrder : ∀ label ∈ graph.labels, label ∈ order) :
    Condenses graph.next components (dag graph.successors components) := by
  intro source target
  simp only [dag, mem_filter, mem_range, decide_eq_true_eq, any_eq_true]
  constructor
  · rintro ⟨-, different, ⟨node, targets⟩, isEntry, isSource, other, member, isTarget⟩
    have isEdge : other ∈ graph.next node := next_iff.mpr ⟨targets, isEntry, member⟩
    obtain ⟨index, component, isComponent, inComponent⟩ := are.exists_index (inOrder node (next_source isEdge))
    obtain ⟨index', component', isComponent', inComponent'⟩ :=
      are.exists_index (inOrder other (next_target isEdge))
    rw [component_for_eq are isComponent inComponent] at isSource
    rw [component_for_eq are isComponent' inComponent'] at isTarget
    subst isSource isTarget
    exact ⟨different, component, component', isComponent, isComponent', node, inComponent, other,
      inComponent', isEdge⟩
  · rintro ⟨different, component, component', isComponent, isComponent', node, member, other, member', isEdge⟩
    obtain ⟨targets, isEntry, isTarget⟩ := next_iff.mp isEdge
    refine ⟨(List.getElem?_eq_some_iff.mp isComponent').1, different, (node, targets), isEntry,
      component_for_eq are isComponent member, other, isTarget, component_for_eq are isComponent' member'⟩

/-- What `topological_components` returns: the components, and no edge leads backwards. -/
structure Ordered (graph : BlockGraph) (components : List (List String)) : Prop where
  are : AreComponents graph.next graph.labels components
  forward : components.Pairwise fun early late =>
    ∀ source ∈ late, ∀ target ∈ graph.next source, target ∉ early

theorem ordered_of_search (are : AreComponents graph.next graph.labels components)
    (reachable : ∀ label ∈ graph.labels, Reaches graph.next graph.body.entry label) {indices : List Nat}
    (explored : Explored (dag graph.successors components) ∅ [componentFor components graph.body.entry] indices) :
    Ordered graph (indices.reverse.map fun index => components.getD index []) := by
  have condenses := dag_condenses are fun _ member => member
  obtain ⟨start, first, isStart, isEntry⟩ := are.exists_index graph.entry
  rw [component_for_eq are isStart isEntry] at explored
  have perm := condensed_order_perm are condenses (fun _ _ _ isEdge => next_target isEdge) reachable isStart
    isEntry graph.entry explored
  have all : (List.range components.length).map (fun index => components.getD index []) = components := by
    apply ext_getElem
    · simp
    · intro index bound bound'
      simp [getD_eq_getElem?_getD, List.getElem?_eq_getElem bound']
  have same : (indices.reverse.map fun index => components.getD index []).Perm components := by
    conv_rhs => rw [← all]
    exact (indices.reverse_perm.trans perm).map _
  constructor
  · refine ⟨same.flatten.trans are.flatten, are.nodup, ?_⟩
    intro component member
    exact are.component component (same.mem_iff.mp member)
  · rw [pairwise_map, pairwise_reverse]
    apply ((condensed_order_pairwise are condenses explored).and explored.nodup).imp
    rintro late early ⟨noEdge, different⟩ source member target isEdge member'
    apply noEdge
    rw [getD_eq_getElem?_getD] at member member'
    cases isLate : components[late]? with
    | none => simp [isLate] at member
    | some component =>
      cases isEarly : components[early]? with
      | none => simp [isEarly] at member'
      | some component' =>
        rw [isLate, Option.getD_some] at member
        rw [isEarly, Option.getD_some] at member'
        exact (condenses late early).mpr
          ⟨different, component, component', isLate, isEarly, source, member, target, member', isEdge⟩

theorem first_search {fuel : Nat} (enough : graph.size < fuel) :
    ∃ visited order, visit (fun node => sorted (graph.next node)) fuel graph.body.entry ([], []) =
        some (visited, order) ∧
      Explored (fun node => sorted (graph.next node)) ∅ [graph.body.entry] order ∧
      (∀ label, label ∈ visited ↔ Reaches graph.next graph.body.entry label) ∧
      ∀ label, label ∈ order ↔ Reaches graph.next graph.body.entry label := by
  have closed : ∀ node ∈ graph.labels.toFinset,
      ∀ target ∈ sorted (graph.next node), target ∈ graph.labels.toFinset := by
    intro node _ target isEdge
    rw [(sorted_perm _).mem_iff] at isEdge
    exact mem_toFinset.mpr (next_target isEdge)
  have bound : graph.labels.toFinset.card < fuel := by
    have card := graph.labels.toFinset_card_le
    unfold size at enough
    omega
  obtain ⟨visited, order, ran, isVisited, explored⟩ :=
    visit_all closed (mem_toFinset.mpr graph.entry) bound
  have isOrder : ∀ label, label ∈ order ↔ Reaches graph.next graph.body.entry label := by
    intro label
    rw [explored.mem_iff, reaches_sorted]
  refine ⟨visited, order, ran, explored, ?_, isOrder⟩
  intro label
  rw [isVisited, isOrder]

theorem reached_label {label : String} (reaches : Reaches graph.next graph.body.entry label) :
    label ∈ graph.labels := by
  rcases Relation.ReflTransGen.cases_tail reaches with rfl | ⟨middle, -, isEdge⟩
  · exact graph.entry
  · exact next_target isEdge

/-- With all blocks reachable the components are found and ordered. -/
theorem components_ordered (reachable : ∀ label ∈ graph.labels, Reaches graph.next graph.body.entry label)
    {fuel : Nat} (enough : graph.size < fuel) :
    ∃ components, topologicalComponents graph.successors fuel graph.body = some (.ok components) ∧
      Ordered graph components := by
  obtain ⟨visited, order, ran, explored, isVisited, isReached⟩ := first_search enough
  have isOrder : ∀ label, label ∈ order ↔ label ∈ graph.labels := by
    intro label
    rw [isReached]
    exact ⟨reached_label, reachable label⟩
  have sameNodes : order.toFinset = graph.labels.toFinset := by
    ext label
    rw [mem_toFinset, mem_toFinset, isOrder]
  have allVisited : visited.toFinset.card = graph.body.basicBlocks.length := by
    have same : visited.toFinset = graph.labels.toFinset := by
      ext label
      rw [mem_toFinset, mem_toFinset, isVisited, ← isReached, isOrder]
    rw [same, labels, toFinset_card_of_nodup graph.distinct, length_map]
  have reversed : ∀ source target, source ∈ sorted (reverseEdges graph.successors target) ↔
      target ∈ sorted (successorsOf graph.successors source) ∧ source ∈ order := by
    intro source target
    rw [(sorted_perm _).mem_iff, (sorted_perm _).mem_iff, mem_reverse_edges, isOrder]
    exact ⟨fun isEdge => ⟨isEdge, next_source isEdge⟩, And.left⟩
  have fueled : 1 + ∑ node ∈ order.toFinset, (sorted (reverseEdges graph.successors node)).length < fuel := by
    simp only [sameNodes, (sorted_perm _).length_eq]
    unfold size at enough
    omega
  obtain ⟨components, found, flatten, isComponent⟩ :=
    find_components_all explored reversed sorted_perm fueled
  have are : AreComponents graph.next graph.labels components := by
    refine ⟨flatten.trans ?_, graph.distinct, ?_⟩
    · exact (perm_ext_iff_of_nodup explored.nodup graph.distinct).mpr isOrder
    · intro component member
      obtain ⟨node, inOrder, isMutual⟩ := isComponent component member
      refine ⟨node, (isOrder node).mp inOrder, ?_⟩
      intro other
      rw [isMutual, Mutual, Mutual, reaches_sorted, reaches_sorted]
  have fewer : (Finset.range components.length).card < fuel := by
    have few := length_le_flatten fun _ => are.nonempty
    rw [are.flatten.length_eq] at few
    rw [Finset.card_range]
    unfold size at enough
    omega
  obtain ⟨start, first, isStart, isEntry⟩ := are.exists_index graph.entry
  have startIn : componentFor components graph.body.entry ∈ Finset.range components.length := by
    rw [component_for_eq are isStart isEntry, Finset.mem_range]
    exact (List.getElem?_eq_some_iff.mp isStart).1
  have within : ∀ index ∈ Finset.range components.length,
      ∀ target ∈ dag graph.successors components index, target ∈ Finset.range components.length := by
    intro index _ target member
    rw [Finset.mem_range, ← mem_range]
    exact (mem_filter.mp member).1
  obtain ⟨_, indices, searched, -, exploredIndices⟩ := visit_all within startIn fewer
  refine ⟨indices.reverse.map fun index => components.getD index [], ?_,
    ordered_of_search are reachable exploredIndices⟩
  simp only [topologicalComponents, ran, allVisited, ne_eq, not_true_eq_false, if_false, found, searched]

end BlockGraph

/-- When all blocks are reachable, every block is in one component, the components are the
classes of blocks that reach each other, and edges lead to the same or a later component. -/
theorem topological_components_correct (graph : BlockGraph)
    (reachable : ∀ label ∈ graph.labels, Reaches graph.next graph.body.entry label)
    {fuel : Nat} (enough : graph.size < fuel) :
    ∃ components, topologicalComponents graph.successors fuel graph.body = some (.ok components) ∧
      components.flatten.Perm graph.labels ∧ (∀ first ∈ graph.labels, ∀ second ∈ graph.labels,
        (∃ component ∈ components, first ∈ component ∧ second ∈ component) ↔
          Reaches graph.next first second ∧ Reaches graph.next second first) ∧
      ∀ (index index' : Nat) component component' source target,
        components[index]? = some component → components[index']? = some component' →
          source ∈ component → target ∈ component' → target ∈ graph.next source →
            component ≠ component' → index < index' := by
  obtain ⟨components, ran, are, forward⟩ := BlockGraph.components_ordered reachable enough
  refine ⟨components, ran, are.flatten, ?_, ?_⟩
  · intro first isFirst second _
    constructor
    · rintro ⟨component, isComponent, member, member'⟩
      exact (are.mem_iff_mutual isComponent member).mp member'
    · intro mutually
      obtain ⟨index, component, isComponent, member⟩ := are.exists_index isFirst
      have isComponent := mem_of_getElem? isComponent
      exact ⟨component, isComponent, member, (are.mem_iff_mutual isComponent member).mpr mutually⟩
  · intro index index' component component' source target isComponent isComponent' member member' isEdge different
    by_contra notLess
    have less : index' < index := by
      apply lt_of_le_of_ne (not_lt.mp notLess)
      rintro rfl
      rw [isComponent] at isComponent'
      exact different (Option.some.inj isComponent')
    obtain ⟨bound, rfl⟩ := List.getElem?_eq_some_iff.mp isComponent
    obtain ⟨bound', rfl⟩ := List.getElem?_eq_some_iff.mp isComponent'
    exact pairwise_iff_getElem.mp forward index' index bound' bound less source member target isEdge member'

def loopGraph : BlockGraph :=
  .ofBody ⟨"head", [
    ("head", ⟨"head", [.scalar (.branch (.variable "_1" .boolean) "body" "exit")]⟩),
    ("body", ⟨"body", [.jump "head"]⟩),
    ("exit", ⟨"exit", [.return none]⟩)]⟩ (by decide) (by decide) (by decide)

theorem loop_graph_reachable : ∀ label ∈ loopGraph.labels, Reaches loopGraph.next loopGraph.body.entry label := by
  have edges : "body" ∈ loopGraph.next "head" ∧ "exit" ∈ loopGraph.next "head" := by decide
  intro label member
  simp only [BlockGraph.labels, loopGraph, BlockGraph.ofBody, map_cons, map_nil, mem_cons,
    not_mem_nil, or_false] at member
  rcases member with rfl | rfl | rfl
  · exact .refl
  · exact .single edges.1
  · exact .single edges.2

theorem topological_components_correct_loop :
    (∀ label ∈ loopGraph.labels, Reaches loopGraph.next loopGraph.body.entry label) ∧ loopGraph.size < 10 ∧
      ∃ components, topologicalComponents loopGraph.successors 10 loopGraph.body = some (.ok components) ∧
        components.flatten.Perm loopGraph.labels := by
  refine ⟨loop_graph_reachable, by decide, ?_⟩
  obtain ⟨components, ran, flatten, -⟩ := topological_components_correct loopGraph loop_graph_reachable
    (show loopGraph.size < 10 by decide)
  exact ⟨components, ran, flatten⟩

example : topologicalComponents loopGraph.successors 10 loopGraph.body =
    some (.ok [["body", "head"], ["exit"]]) := by decide +kernel

def orphanGraph : BlockGraph :=
  .ofBody ⟨"head", [("head", ⟨"head", [.return none]⟩), ("orphan", ⟨"orphan", [.jump "head"]⟩)]⟩
    (by decide) (by decide) (by decide)

theorem unreachable_blocks_rejected :
    topologicalComponents orphanGraph.successors (orphanGraph.size + 1) orphanGraph.body =
      some (.error ⟨"Function control flow",
        "large OOMIR function contains unreachable blocks after optimisation"⟩) := by
  decide +kernel

end RustcCodegenJvm.Lower2
