import RustcCodegenJvm.Library.DepthFirst

/-!
# Strongly connected components

The components of a graph from the order of a depth-first search: from the end of
the order on, every node that has no component yet gets one, which is collected
along the edges backwards. The last node of a component in the order reaches
nothing behind it, so a node that leads to it without a component is in its
component.
-/

namespace RustcCodegenJvm.Library.Components

open DepthFirst List

variable {Node : Type}

def Mutual (next : Node → List Node) (first second : Node) : Prop :=
  Reaches next first second ∧ Reaches next second first

namespace Mutual

variable {next : Node → List Node} {first second third : Node}

theorem refl (node : Node) : Mutual next node node := ⟨.refl, .refl⟩

theorem symm (mutually : Mutual next first second) : Mutual next second first :=
  ⟨mutually.2, mutually.1⟩

theorem trans (early : Mutual next first second) (late : Mutual next second third) :
    Mutual next first third :=
  ⟨early.1.trans late.1, late.2.trans early.2⟩

end Mutual

/-! ### Collecting along the edges backwards -/

variable {fuel source target start : Nat}

section Collect

variable [DecidableEq Node] (previous : Node → List Node) {node : Node}

/-- Assigns what leads to the nodes on the stack; `none` when the fuel does not suffice. -/
def collect : Nat → List Node → List Node → List Node → Option (List Node × List Node)
  | 0, _, _, _ => none
  | _ + 1, [], assigned, component => some (assigned, component)
  | fuel + 1, current :: stack, assigned, component =>
    if current ∈ assigned then collect fuel stack assigned component
    else
      collect fuel ((previous current).reverse ++ stack) (current :: assigned) (component ++ [current])

variable {previous}

structure Collected (previous : Node → List Node) (stack assigned later added : List Node) : Prop where
  grown : ∀ node, node ∈ later ↔ node ∈ assigned ∨ node ∈ added
  nodup : added.Nodup
  fresh : ∀ node ∈ added, node ∉ assigned
  stacked : ∀ node ∈ stack, node ∈ later
  closed : ∀ node ∈ added, ∀ source ∈ previous node, source ∈ later
  found : ∀ node ∈ added, ∃ start ∈ stack, Reaches previous start node

variable {assigned : List Node} {nodes : Finset Node}

theorem collect_spec {stack component later component' : List Node}
    (ran : collect previous fuel stack assigned component = some (later, component')) :
    ∃ added, component' = component ++ added ∧ Collected previous stack assigned later added := by
  induction fuel generalizing stack assigned component with
  | zero => cases ran
  | succ fuel ih =>
    cases stack with
    | nil =>
      cases ran
      exact ⟨[], by simp, ⟨by simp, nodup_nil, by simp, by simp, by simp, by simp⟩⟩
    | cons current stack =>
      unfold collect at ran
      split_ifs at ran with known
      · obtain ⟨added, isComponent, collected⟩ := ih ran
        refine ⟨added, isComponent, { collected with stacked := ?_, found := ?_ }⟩
        · rw [forall_mem_cons]
          exact ⟨(collected.grown current).mpr (.inl known), collected.stacked⟩
        · intro node member
          obtain ⟨start, isStart, reaches⟩ := collected.found node member
          exact ⟨start, mem_cons_of_mem _ isStart, reaches⟩
      · obtain ⟨added, isComponent, collected⟩ := ih ran
        have isAssigned : current ∈ later := (collected.grown current).mpr (.inl mem_cons_self)
        refine ⟨current :: added, by simp [isComponent], ?_⟩
        constructor
        · intro node
          rw [collected.grown, mem_cons, mem_cons]
          tauto
        · rw [nodup_cons]
          exact ⟨fun member => collected.fresh current member mem_cons_self, collected.nodup⟩
        · rw [forall_mem_cons]
          refine ⟨known, ?_⟩
          intro node member isAssigned
          exact collected.fresh node member (mem_cons_of_mem _ isAssigned)
        · rw [forall_mem_cons]
          refine ⟨isAssigned, ?_⟩
          intro node member
          exact collected.stacked node (mem_append_right _ member)
        · rw [forall_mem_cons]
          refine ⟨?_, collected.closed⟩
          intro source isSource
          exact collected.stacked source (mem_append_left _ (mem_reverse.mpr isSource))
        · rw [forall_mem_cons]
          refine ⟨⟨current, mem_cons_self, .refl⟩, ?_⟩
          intro node member
          obtain ⟨start, isStart, reaches⟩ := collected.found node member
          rcases mem_append.mp isStart with pushed | below
          · exact ⟨current, mem_cons_self, .head (mem_reverse.mp pushed) reaches⟩
          · exact ⟨start, mem_cons_of_mem _ below, reaches⟩

def pushable (previous : Node → List Node) (nodes : Finset Node) (assigned : List Node) : Nat :=
  ∑ node ∈ nodes \ assigned.toFinset, (previous node).length

theorem pushable_cons {current : Node} (isNode : current ∈ nodes) (fresh : current ∉ assigned) :
    pushable previous nodes assigned =
      (previous current).length + pushable previous nodes (current :: assigned) := by
  unfold pushable
  rw [← Finset.add_sum_erase (nodes \ assigned.toFinset) (fun node => (previous node).length)
    (show current ∈ nodes \ assigned.toFinset by simp [isNode, fresh])]
  congr 1
  apply Finset.sum_congr
  · ext node
    simp only [Finset.mem_erase, Finset.mem_sdiff, mem_toFinset, mem_cons]
    tauto
  · intro node _
    rfl

theorem collect_ends (within : ∀ node ∈ nodes, ∀ source ∈ previous node, source ∈ nodes)
    {stack component : List Node} (stacked : ∀ node ∈ stack, node ∈ nodes)
    (enough : stack.length + pushable previous nodes assigned < fuel) :
    ∃ result, collect previous fuel stack assigned component = some result := by
  induction fuel generalizing stack assigned component with
  | zero => cases enough
  | succ fuel ih =>
    cases stack with
    | nil => exact ⟨_, rfl⟩
    | cons current stack =>
      rw [forall_mem_cons] at stacked
      rw [length_cons] at enough
      unfold collect
      split_ifs with known
      · exact ih stacked.2 (by omega)
      · apply ih
        · intro node member
          rcases mem_append.mp member with pushed | below
          · exact within current stacked.1 node (mem_reverse.mp pushed)
          · exact stacked.2 node below
        · rw [pushable_cons stacked.1 known] at enough
          rw [length_append, length_reverse]
          omega

end Collect

/-! ### Components by the order of a search -/

theorem exists_last {holds : Node → Prop} {nodes : List Node} (member : node ∈ nodes)
    (isNode : holds node) : ∃ before last after, nodes = before ++ last :: after ∧ holds last ∧
      ∀ later ∈ after, ¬ holds later := by
  induction nodes generalizing node with
  | nil => cases member
  | cons head rest ih =>
    by_cases more : ∃ later ∈ rest, holds later
    · obtain ⟨later, isLater, holdsLater⟩ := more
      obtain ⟨before, last, after, isRest, isLast, none⟩ := ih isLater holdsLater
      exact ⟨head :: before, last, after, by simp [isRest], isLast, none⟩
    · have isHead : node = head := by
        rcases mem_cons.mp member with same | later
        · exact same
        · exact absurd ⟨node, later, isNode⟩ more
      subst isHead
      refine ⟨[], node, rest, rfl, isNode, ?_⟩
      intro later isLater holdsLater
      exact more ⟨later, isLater, holdsLater⟩

section Order

variable {next : Node → List Node} {order : List Node} {root : Node}

def Saturated (next : Node → List Node) (assigned : List Node) : Prop :=
  ∀ node ∈ assigned, ∀ other, Mutual next node other → other ∈ assigned

variable (explored : Explored next ∅ [root] order)

include explored

variable {later before after assigned added : List Node}

theorem reaches_back
    {node source : Node} (isOrder : order = before ++ node :: after) (later : after ⊆ assigned)
    (saturated : Saturated next assigned) (inOrder : source ∈ order) (fresh : source ∉ assigned)
    (reaches : Reaches next source node) : Reaches next node source := by
  obtain ⟨front, last, back, isOrder', mutually, none⟩ : ∃ front last back,
      order = front ++ last :: back ∧ Mutual next source last ∧
        ∀ later ∈ back, ¬ Mutual next source later :=
    exists_last inOrder (.refl source)
  have lastOne : ∀ other ∈ back, Reaches next last other → ¬ Reaches next other last := by
    intro other member forth back
    exact none other member (mutually.trans ⟨forth, back⟩)
  rcases explored.reaches_before isOrder' lastOne (mutually.2.trans reaches) with early | rfl
  · exfalso
    obtain ⟨early₁, early₂, isFront⟩ := append_of_mem early
    have nodup := explored.nodup
    rw [isOrder] at nodup
    have apart := (nodup_middle.mp nodup)
    rw [nodup_cons, mem_append, not_or] at apart
    have same : before ++ node :: after = early₁ ++ node :: (early₂ ++ last :: back) := by
      rw [← isOrder, isOrder', isFront]
      simp
    obtain ⟨-, -, isAfter⟩ := (append_cons_inj_of_notMem apart.1.1 apart.1.2).mp same
    have isLater : last ∈ after := by simp [isAfter]
    exact fresh (saturated last (later isLater) source mutually.symm)
  · exact mutually.2

theorem collected_component {previous : Node → List Node}
    (reversed : ∀ source target, source ∈ previous target ↔ target ∈ next source ∧ source ∈ order)
    (isOrder : order = before ++ node :: after) (done : after ⊆ assigned)
    (saturated : Saturated next assigned) (fresh : node ∉ assigned)
    (collected : Collected previous [node] assigned later added) (other : Node) :
    other ∈ added ↔ Mutual next node other := by
  have nodeIn : node ∈ order := by simp [isOrder]
  constructor
  · intro member
    obtain ⟨start, isStart, found⟩ := collected.found other member
    rw [mem_singleton] at isStart
    subst isStart
    have backwards : other ∈ order ∧ Reaches next other start := by
      clear member
      induction found with
      | refl => exact ⟨nodeIn, .refl⟩
      | tail _ isEdge ih =>
        have isEdge := (reversed _ _).mp isEdge
        exact ⟨isEdge.2, .head isEdge.1 ih.2⟩
    exact ⟨reaches_back explored isOrder done saturated backwards.1 (collected.fresh other member)
      backwards.2, backwards.2⟩
  · rintro ⟨forth, back⟩
    induction back using Relation.ReflTransGen.head_induction_on with
    | refl =>
      have isAssigned := collected.stacked node (mem_singleton_self node)
      rw [collected.grown] at isAssigned
      exact isAssigned.resolve_left fresh
    | head isEdge back ih =>
      rename_i source target
      have inOrder : source ∈ order := explored.closed_reaches nodeIn forth
      have isAssigned := collected.closed target (ih (forth.tail isEdge)) source
        ((reversed source target).mpr ⟨isEdge, inOrder⟩)
      rw [collected.grown] at isAssigned
      refine isAssigned.resolve_left fun known => fresh ?_
      exact saturated source known node ⟨.head isEdge back, forth⟩

omit explored

structure Partial (next : Node → List Node) (order assigned : List Node)
    (components : List (List Node)) : Prop where
  saturated : Saturated next assigned
  nodup : components.flatten.Nodup
  covered : ∀ node, node ∈ assigned ↔ node ∈ components.flatten
  component : ∀ component ∈ components, ∃ node ∈ order, ∀ other, other ∈ component ↔ Mutual next node other

theorem Partial.nothing : Partial next order [] [] where
  saturated := by simp [Saturated]
  nodup := by simp
  covered := by simp
  component := by simp

theorem Partial.step {previous : Node → List Node} {arrange : List Node → List Node}
    {components : List (List Node)} {node : Node}
    (isPartial : Partial next order assigned components) (nodeIn : node ∈ order)
    (arranged : ∀ nodes, (arrange nodes).Perm nodes)
    (collected : Collected previous [node] assigned later added)
    (isComponent : ∀ other, other ∈ added ↔ Mutual next node other) :
    Partial next order later (components ++ [arrange added]) := by
  constructor
  · intro member isMember other mutually
    rw [collected.grown] at isMember ⊢
    rcases isMember with earlier | isAdded
    · exact .inl (isPartial.saturated member earlier other mutually)
    · exact .inr ((isComponent other).mpr (((isComponent member).mp isAdded).trans mutually))
  · rw [flatten_append, flatten_singleton, nodup_append]
    refine ⟨isPartial.nodup, (arranged added).nodup_iff.mpr collected.nodup, ?_⟩
    rintro member earlier other isAdded rfl
    exact collected.fresh member ((arranged added).mem_iff.mp isAdded)
      ((isPartial.covered member).mpr earlier)
  · intro member
    rw [collected.grown, isPartial.covered, flatten_append, flatten_singleton,
      mem_append, (arranged added).mem_iff]
  · intro component member
    rcases mem_append.mp member with earlier | last
    · exact isPartial.component component earlier
    · rw [mem_singleton.mp last]
      refine ⟨node, nodeIn, ?_⟩
      intro other
      rw [(arranged added).mem_iff, isComponent]

variable [DecidableEq Node] (previous : Node → List Node) (arrange : List Node → List Node)

/-- The components of the nodes of a list, which is the order from its end. -/
def findComponents (fuel : Nat) : List Node → List Node → List (List Node) → Option (List (List Node))
  | [], _, components => some components
  | node :: rest, assigned, components =>
    if node ∈ assigned then findComponents fuel rest assigned components
    else
      match collect previous fuel [node] assigned [] with
      | none => none
      | some (assigned, component) =>
        findComponents fuel rest assigned (components ++ [arrange component])

variable {previous arrange}

include explored

theorem find_components_spec
    (reversed : ∀ source target, source ∈ previous target ↔ target ∈ next source ∧ source ∈ order)
    (arranged : ∀ nodes, (arrange nodes).Perm nodes)
    (enough : 1 + ∑ node ∈ order.toFinset, (previous node).length < fuel)
    {todo done : List Node} {components : List (List Node)}
    (isOrder : order = todo.reverse ++ done) (isDone : done ⊆ assigned)
    (isPartial : Partial next order assigned components) :
    ∃ assigned' components', findComponents previous arrange fuel todo assigned components = some components' ∧
      order ⊆ assigned' ∧ Partial next order assigned' components' := by
  induction todo generalizing done assigned components with
  | nil =>
    refine ⟨assigned, components, rfl, ?_, isPartial⟩
    rw [isOrder]
    exact isDone
  | cons node rest ih =>
    have split : order = rest.reverse ++ node :: done := by
      rw [isOrder]
      simp
    have nodeIn : node ∈ order := by simp [split]
    unfold findComponents
    split_ifs with known
    · apply ih split _ isPartial
      rw [cons_subset]
      exact ⟨known, isDone⟩
    · have within : ∀ target ∈ order.toFinset, ∀ source ∈ previous target, source ∈ order.toFinset := by
        intro target _ source isSource
        exact mem_toFinset.mpr ((reversed source target).mp isSource).2
      have fueled : [node].length + pushable previous order.toFinset assigned < fuel := by
        have bound : pushable previous order.toFinset assigned ≤
          ∑ node ∈ order.toFinset, (previous node).length :=
            Finset.sum_le_sum_of_subset Finset.sdiff_subset
        rw [length_singleton]
        omega
      obtain ⟨⟨later, component⟩, ran⟩ : ∃ result, collect previous fuel [node] assigned [] = some result :=
        collect_ends within (by simpa using nodeIn) fueled
      obtain ⟨added, isAdded, collected⟩ := collect_spec ran
      subst isAdded
      rw [ran]
      have isComponent := collected_component explored reversed split isDone isPartial.saturated known collected
      apply ih split _ (isPartial.step nodeIn arranged collected isComponent)
      rw [cons_subset]
      refine ⟨collected.stacked node (mem_singleton_self node), ?_⟩
      intro other member
      exact (collected.grown other).mpr (.inl (isDone member))

theorem find_components_all
    (reversed : ∀ source target, source ∈ previous target ↔ target ∈ next source ∧ source ∈ order)
    (arranged : ∀ nodes, (arrange nodes).Perm nodes)
    (enough : 1 + ∑ node ∈ order.toFinset, (previous node).length < fuel) :
    ∃ components, findComponents previous arrange fuel order.reverse [] [] = some components ∧
      components.flatten.Perm order ∧
      ∀ component ∈ components, ∃ node ∈ order, ∀ other, other ∈ component ↔ Mutual next node other := by
  have isOrder : order = order.reverse.reverse ++ [] := by simp
  obtain ⟨assigned, components, ran, covers, isPartial⟩ :=
    find_components_spec explored reversed arranged enough isOrder (nil_subset []) .nothing
  refine ⟨components, ran, ?_, isPartial.component⟩
  rw [perm_ext_iff_of_nodup isPartial.nodup explored.nodup]
  intro node
  constructor
  · intro member
    obtain ⟨component, isComponent, inComponent⟩ := mem_flatten.mp member
    obtain ⟨representative, isNode, isMutual⟩ := isPartial.component component isComponent
    exact explored.closed_reaches isNode ((isMutual node).mp inComponent).1
  · intro member
    exact (isPartial.covered node).mp (covers member)

end Order

/-! ### Components in topological order -/

section Condensation

variable {next : Node → List Node} {order : List Node} {root : Node} {components : List (List Node)}

variable {lists : List (List Node)}

theorem flatten_index_unique (nodup : lists.flatten.Nodup) {index index' : Nat}
    {list list' : List Node} (isList : lists[index]? = some list)
    (isList' : lists[index']? = some list') (member : node ∈ list) (member' : node ∈ list') :
    index = index' := by
  have apart := (nodup_flatten.mp nodup).2
  rw [pairwise_iff_getElem] at apart
  obtain ⟨bound, rfl⟩ := List.getElem?_eq_some_iff.mp isList
  obtain ⟨bound', rfl⟩ := List.getElem?_eq_some_iff.mp isList'
  rcases Nat.lt_trichotomy index index' with less | same | more
  · exact absurd member' (apart index index' bound bound' less member)
  · exact same
  · exact absurd member (apart index' index bound' bound more member')

theorem find_index_eq [DecidableEq Node] (nodup : lists.flatten.Nodup) {index : Nat}
    {list : List Node} (isList : lists[index]? = some list) (member : node ∈ list) :
    (lists.findIdx fun list => node ∈ list) = index := by
  have found : (lists.findIdx fun list => node ∈ list) < lists.length := by
    apply findIdx_lt_length_of_exists
    exact ⟨list, mem_of_getElem? isList, by simpa using member⟩
  have holds := of_decide_eq_true (findIdx_getElem (w := found))
  exact flatten_index_unique nodup (List.getElem?_eq_getElem found) isList holds member

/-- The lists are the components of the nodes of the order. -/
structure AreComponents (next : Node → List Node) (order : List Node) (components : List (List Node)) :
    Prop where
  flatten : components.flatten.Perm order
  nodup : order.Nodup
  component : ∀ component ∈ components, ∃ node ∈ order, ∀ other, other ∈ component ↔ Mutual next node other

namespace AreComponents

variable (are : AreComponents next order components) {index index' : Nat} {component component' : List Node}
  {node other : Node}
include are

theorem mem_iff_mutual (isComponent : component ∈ components) (member : node ∈ component) :
    other ∈ component ↔ Mutual next node other := by
  obtain ⟨representative, -, isMutual⟩ := are.component component isComponent
  have known := (isMutual node).mp member
  rw [isMutual]
  constructor
  · intro reached
    exact known.symm.trans reached
  · intro reached
    exact known.trans reached

theorem index_unique (isComponent : components[index]? = some component)
    (isComponent' : components[index']? = some component') (member : node ∈ component)
    (member' : node ∈ component') : index = index' :=
  flatten_index_unique (are.flatten.nodup_iff.mpr are.nodup) isComponent isComponent' member member'

theorem exists_index (member : node ∈ order) :
    ∃ (index : Nat) (component : List Node), components[index]? = some component ∧ node ∈ component := by
  rw [← are.flatten.mem_iff, mem_flatten] at member
  obtain ⟨component, isComponent, member⟩ := member
  obtain ⟨index, isIndex⟩ := mem_iff_getElem?.mp isComponent
  exact ⟨index, component, isIndex, member⟩

theorem nonempty (isComponent : component ∈ components) : ∃ node, node ∈ component := by
  obtain ⟨representative, -, isMutual⟩ := are.component component isComponent
  exact ⟨representative, (isMutual representative).mpr (.refl representative)⟩

end AreComponents

def Condenses (next : Node → List Node) (components : List (List Node)) (dag : Nat → List Nat) : Prop :=
  ∀ source target, target ∈ dag source ↔ source ≠ target ∧
    ∃ component component', components[source]? = some component ∧ components[target]? = some component' ∧
      ∃ node ∈ component, ∃ other ∈ component', other ∈ next node

variable {dag : Nat → List Nat} (are : AreComponents next order components)
  (condenses : Condenses next components dag)
include are condenses

variable {component component' : List Node}

theorem reaches_of_condensed {node other : Node}
    (isSource : components[source]? = some component) (member : node ∈ component)
    (path : Reaches dag source target) (isTarget : components[target]? = some component')
    (member' : other ∈ component') : Reaches next node other := by
  induction path generalizing component' other with
  | refl =>
    rw [isSource] at isTarget
    cases isTarget
    exact ((are.mem_iff_mutual (mem_of_getElem? isSource) member).mp member').1
  | tail _ isEdge ih =>
    obtain ⟨-, middle, last, isMiddle, isLast, from', inMiddle, to', inLast, edge⟩ := (condenses _ _).mp isEdge
    rw [isTarget] at isLast
    cases isLast
    have within := ((are.mem_iff_mutual (mem_of_getElem? isTarget) inLast).mp member').1
    exact ((ih isMiddle inMiddle).tail edge).trans within

variable (closed : ∀ node ∈ order, ∀ target ∈ next node, target ∈ order)

include closed in
theorem condensed_of_reaches {node other : Node}
    (isSource : components[source]? = some component) (member : node ∈ component) (inOrder : node ∈ order)
    (path : Reaches next node other) (isTarget : components[target]? = some component')
    (member' : other ∈ component') : Reaches dag source target := by
  have stays : ∀ later, Reaches next node later → later ∈ order := by
    intro later reaches
    induction reaches with
    | refl => exact inOrder
    | tail _ isEdge ih => exact closed _ ih _ isEdge
  induction path generalizing target component' with
  | refl => rw [are.index_unique isSource isTarget member member']
  | @tail middle last path isEdge ih =>
    obtain ⟨between, component'', isBetween, inBetween⟩ := are.exists_index (stays middle path)
    have early := ih isBetween inBetween
    by_cases same : between = target
    · rw [← same]
      exact early
    · exact early.tail ((condenses between target).mpr
        ⟨same, component'', component', isBetween, isTarget, middle, inBetween, last, member', isEdge⟩)

include closed in
/-- The search of the components from that of the root ends with every component once. -/
theorem condensed_order_perm
    (reached : ∀ node ∈ order, Reaches next root node) {first : List Node} {indices : List Nat}
    (isStart : components[start]? = some first) (isRoot : root ∈ first) (rootIn : root ∈ order)
    (explored : Explored dag ∅ [start] indices) : indices.Perm (List.range components.length) := by
  rw [perm_ext_iff_of_nodup explored.nodup nodup_range]
  intro index
  rw [explored.mem_iff, mem_range]
  constructor
  · intro path
    rcases Relation.ReflTransGen.cases_tail path with rfl | ⟨middle, -, isEdge⟩
    · exact (List.getElem?_eq_some_iff.mp isStart).1
    · obtain ⟨-, -, component, -, isComponent, -⟩ := (condenses _ _).mp isEdge
      exact (List.getElem?_eq_some_iff.mp isComponent).1
  · intro bound
    have isComponent : components[index]? = some components[index] := List.getElem?_eq_getElem bound
    obtain ⟨node, member⟩ := are.nonempty (mem_of_getElem? isComponent)
    have inOrder : node ∈ order := by
      rw [← are.flatten.mem_iff, mem_flatten]
      exact ⟨_, mem_of_getElem? isComponent, member⟩
    exact condensed_of_reaches are condenses closed isStart isRoot rootIn (reached node inOrder)
      isComponent member

/-- No edge leads from a component to one that is behind it in the order of the search. -/
theorem condensed_order_pairwise {indices : List Nat} (explored : Explored dag ∅ [start] indices) :
    indices.Pairwise fun early late => late ∉ dag early := by
  apply explored.pairwise.imp
  intro early late cycle isEdge
  obtain ⟨different, component, component', isEarly, isLate, node, member, other, member', edge⟩ :=
    (condenses early late).mp isEdge
  have back := reaches_of_condensed are condenses isLate member' (cycle isEdge) isEarly member
  have same : other ∈ component :=
    (are.mem_iff_mutual (mem_of_getElem? isEarly) member).mpr ⟨.single edge, back⟩
  exact different (are.index_unique isEarly isLate same member')

end Condensation

end RustcCodegenJvm.Library.Components
