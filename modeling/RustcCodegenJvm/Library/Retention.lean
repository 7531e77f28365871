import RustcCodegenJvm.Library.Folds

/-!
# Candidates, aliases and removals

An analysis that finds facts about names in a list of items. An item may be a
candidate that gives a name a fact; a name with two candidates is rejected. An
item may be an alias that hands the fact of one name on to another; aliases are
followed until nothing changes, and a name that is handed two facts is rejected.
Last, the names that an item invalidates are removed until none is left.
-/

namespace RustcCodegenJvm.Library.Retention

structure Problem (Item Name Fact : Type) where
  candidate : Item → Option (Name × Fact)
  /-- The source, the destination and what the destination makes of a fact. -/
  handsOn : Item → Option (Name × Name × (Fact → Option Fact))
  same : Fact → Fact → Bool
  invalid : (Name → Option Fact) → Item → Name → Bool

def sameOption {Fact : Type} (same : Fact → Fact → Bool) : Option Fact → Option Fact → Bool
  | some left, some right => same left right
  | none, none => true
  | _, _ => false

structure Facts (Name Fact : Type) where
  fact : Name → Option Fact
  rejected : List Name

variable {Item Name Fact : Type} [DecidableEq Name] (problem : Problem Item Name Fact)

def gatherItem (facts : Facts Name Fact) (item : Item) : Facts Name Fact :=
  match problem.candidate item with
  | none => facts
  | some (name, fact) =>
    ⟨Function.update facts.fact name (some fact),
      if (facts.fact name).isSome then name :: facts.rejected else facts.rejected⟩

def gather (items : List Item) : Facts Name Fact :=
  let gathered := items.foldl (gatherItem problem) ⟨fun _ => none, []⟩
  ⟨fun name => if name ∈ gathered.rejected then none else gathered.fact name, gathered.rejected⟩

/-- The flag says whether anything changed. -/
def followItem (state : Facts Name Fact × Bool) (item : Item) : Facts Name Fact × Bool :=
  match problem.handsOn item with
  | none => state
  | some (source, dest, adapt) =>
    match (state.1.fact source).bind adapt with
    | none => state
    | some fact =>
      if dest ∈ state.1.rejected then state
      else
        match state.1.fact dest with
        | none => (⟨Function.update state.1.fact dest (some fact), state.1.rejected⟩, true)
        | some existing =>
          if problem.same existing fact then state
          else (⟨Function.update state.1.fact dest none, dest :: state.1.rejected⟩, true)

/-- `none` when the fuel does not suffice. -/
def follow (items : List Item) : Nat → Facts Name Fact → Option (Facts Name Fact)
  | 0, _ => none
  | fuel + 1, facts =>
    let later := items.foldl (followItem problem) (facts, false)
    if later.2 then follow items fuel later.1 else some later.1

def pruneName (item : Item) (state : (Name → Option Fact) × Bool) (name : Name) :
    (Name → Option Fact) × Bool :=
  if problem.invalid state.1 item name then (Function.update state.1 name none, true) else state

/-- Every name that has a fact at the start of the item is tested. -/
def pruneItem (names : List Name) (state : (Name → Option Fact) × Bool) (item : Item) :
    (Name → Option Fact) × Bool :=
  (names.filter fun name => (state.1 name).isSome).foldl (pruneName problem item) state

def prune (names : List Name) (items : List Item) : Nat → (Name → Option Fact) → Option (Name → Option Fact)
  | 0, _ => none
  | fuel + 1, facts =>
    let later := items.foldl (pruneItem problem names) (facts, false)
    if later.2 then prune names items fuel later.1 else some later.1

theorem same_option_symm {Fact : Type} {same : Fact → Fact → Bool}
    (symm : ∀ left right, same left right → same right left) {left right : Option Fact}
    (equal : sameOption same left right) : sameOption same right left := by
  cases left with
  | none => cases right <;> first | rfl | cases equal
  | some left =>
    cases right with
    | none => cases equal
    | some right => exact symm left right equal

theorem same_option_some {Fact : Type} {same : Fact → Fact → Bool} {left : Option Fact} {right : Fact}
    (equal : sameOption same left (some right)) : ∃ fact, left = some fact ∧ same fact right := by
  cases left with
  | none => cases equal
  | some left => exact ⟨left, rfl, equal⟩

/-! ### What the facts say -/

/-- Every candidate gave its name the fact the name still has, or the name is rejected. -/
structure Agrees (named : Name → Fact → Prop) (names : List Name) (facts : Facts Name Fact) : Prop where
  candidates : ∀ name fact, named name fact → name ∈ facts.rejected ∨ facts.fact name = some fact
  rejected : ∀ name ∈ facts.rejected, facts.fact name = none
  known : ∀ name, facts.fact name ≠ none → name ∈ names

variable {problem} {items : List Item} {names : List Name} {named : Name → Fact → Prop}
  {facts later : Facts Name Fact}

theorem gather_item_keeps (item : Item) {name : Name} {fact : Fact}
    (holds : name ∈ facts.rejected ∨ facts.fact name = some fact) :
    name ∈ (gatherItem problem facts item).rejected ∨
      (gatherItem problem facts item).fact name = some fact := by
  unfold gatherItem
  split
  · exact holds
  · next other otherFact isCandidate =>
    rcases holds with isRejected | isFact
    · left
      split_ifs
      · exact List.mem_cons_of_mem _ isRejected
      · exact isRejected
    · by_cases here : name = other
      · subst here
        simp [isFact]
      · simp [here, isFact]

theorem gathered_candidates (facts : Facts Name Fact) (items : List Item) :
    ∀ item ∈ items, ∀ name fact, problem.candidate item = some (name, fact) →
      name ∈ (items.foldl (gatherItem problem) facts).rejected ∨
        (items.foldl (gatherItem problem) facts).fact name = some fact := by
  intro item member name fact isCandidate
  refine foldl_establishes (fun facts => name ∈ facts.rejected ∨ facts.fact name = some fact) member
    ?_ (fun _ other => gather_item_keeps other) facts
  intro facts
  simp [gatherItem, isCandidate]

section

variable (each : ∀ item ∈ items, ∀ name fact, problem.candidate item = some (name, fact) → name ∈ names)

include each

theorem gathered_known (known : ∀ name, facts.fact name ≠ none → name ∈ names) (name : Name)
    (present : (items.foldl (gatherItem problem) facts).fact name ≠ none) : name ∈ names := by
  revert name
  apply List.foldlRecOn (motive := fun facts : Facts Name Fact => ∀ name, facts.fact name ≠ none → name ∈ names) _ _ known
  intro facts known item member other present
  cases isCandidate : problem.candidate item with
  | none =>
    rw [gatherItem, isCandidate] at present
    exact known other present
  | some candidate =>
    by_cases here : other = candidate.1
    · rw [here]
      exact each item member _ _ isCandidate
    · rw [gatherItem, isCandidate] at present
      apply known
      simpa [here] using present

theorem gather_agrees :
    Agrees (fun name fact => ∃ item ∈ items, problem.candidate item = some (name, fact)) names
      (gather problem items) where
  candidates := by
    intro name fact ⟨item, member, isCandidate⟩
    by_cases isRejected : name ∈ (gather problem items).rejected
    · exact .inl isRejected
    · right
      have holds := gathered_candidates ⟨fun _ => none, []⟩ items item member name fact isCandidate
      unfold gather at isRejected ⊢
      dsimp only at isRejected ⊢
      rw [if_neg isRejected]
      exact holds.resolve_left isRejected
  rejected := fun name isRejected => if_pos isRejected
  known := by
    intro name present
    unfold gather at present
    dsimp only at present
    split_ifs at present
    · exact absurd rfl present
    · exact gathered_known each (by simp) name present

end

section

variable (each : ∀ item source dest adapt, problem.handsOn item = some (source, dest, adapt) → item ∈ items → dest ∈ names)

include each

theorem follow_item_agrees {item : Item} (member : item ∈ items) (changed : Bool)
    (agrees : Agrees named names facts) : Agrees named names (followItem problem (facts, changed) item).1 := by
  unfold followItem
  split
  · exact agrees
  · next source dest adapt isAlias =>
    split
    · exact agrees
    · next fact isFact =>
      split
      · exact agrees
      · next notRejected =>
        split
        · next isNone =>
          constructor
          · intro name other isNamed
            apply (agrees.candidates name other isNamed).imp_right
            intro isOther
            have different : name ≠ dest := by
              rintro rfl
              rw [isNone] at isOther
              cases isOther
            simpa [different] using isOther
          · intro name isRejected
            have different : name ≠ dest := by
              rintro rfl
              exact notRejected isRejected
            simpa [different] using agrees.rejected name isRejected
          · intro name present
            by_cases here : name = dest
            · rw [here]
              exact each item source dest adapt isAlias member
            · exact agrees.known name (by simpa [here] using present)
        · next existing isExisting =>
          split
          · exact agrees
          · constructor
            · intro name other isNamed
              by_cases here : name = dest
              · simp [here]
              · simpa [here] using agrees.candidates name other isNamed
            · intro name isRejected
              by_cases here : name = dest
              · simp [here]
              · simpa [here] using agrees.rejected name (by simpa [here] using isRejected)
            · intro name present
              by_cases here : name = dest
              · simp [here] at present
              · exact agrees.known name (by simpa [here] using present)

theorem follow_agrees {fuel : Nat} (ran : follow problem items fuel facts = some later)
    (agrees : Agrees named names facts) : Agrees named names later := by
  induction fuel generalizing facts with
  | zero => cases ran
  | succ fuel ih =>
    have next : Agrees named names (items.foldl (followItem problem) (facts, false)).1 :=
      List.foldlRecOn (motive := fun state : Facts Name Fact × Bool => Agrees named names state.1) items _ agrees
        fun state agrees item member => follow_item_agrees each member state.2 agrees
    unfold follow at ran
    dsimp only at ran
    split at ran
    · exact ih ran next
    · cases ran
      exact next

end

/-! ### What is left -/

variable {start kept : Name → Option Fact} {state : (Name → Option Fact) × Bool}

/-- A flag that was not set says that nothing was removed and every test passed. -/
theorem prune_names_unchanged {item : Item} {tested : List Name}
    (unchanged : (tested.foldl (pruneName problem item) state).2 = false) :
    tested.foldl (pruneName problem item) state = state ∧
      ∀ name ∈ tested, problem.invalid state.1 item name = false := by
  apply foldl_unchanged _ unchanged
  intro state name unchanged
  cases isInvalid : problem.invalid state.1 item name with
  | true => simp [pruneName, isInvalid] at unchanged
  | false => simp [pruneName, isInvalid]

theorem prune_items_unchanged
    (unchanged : (items.foldl (pruneItem problem names) state).2 = false) :
    items.foldl (pruneItem problem names) state = state ∧
      ∀ item ∈ items, ∀ name ∈ names, state.1 name ≠ none → problem.invalid state.1 item name = false := by
  apply foldl_unchanged _ unchanged
  intro state item unchanged
  obtain ⟨stays, valid⟩ := prune_names_unchanged unchanged
  refine ⟨stays, ?_⟩
  intro name isName present
  exact valid name (List.mem_filter.mpr ⟨isName, Option.isSome_iff_ne_none.mpr present⟩)

theorem prune_items_shrinks (state : (Name → Option Fact) × Bool) (name : Name) (fact : Fact)
    (isFact : (items.foldl (pruneItem problem names) state).1 name = some fact) : state.1 name = some fact := by
  let Known (later : (Name → Option Fact) × Bool) := later.1 name = some fact → state.1 name = some fact
  apply List.foldlRecOn (motive := Known) items _ id _ isFact
  intro before known item _
  apply List.foldlRecOn (motive := Known) _ _ known
  intro before known first _ isFact
  unfold pruneName at isFact
  split at isFact
  · by_cases here : name = first
    · simp [here] at isFact
    · exact known (by simpa [here] using isFact)
  · exact known isFact

/-- What is left is what was there before and passes every test. -/
theorem prune_valid {fuel : Nat} (ran : prune problem names items fuel start = some kept) :
    (∀ item ∈ items, ∀ name ∈ names, kept name ≠ none → problem.invalid kept item name = false) ∧
      ∀ name fact, kept name = some fact → start name = some fact := by
  induction fuel generalizing start with
  | zero => cases ran
  | succ fuel ih =>
    unfold prune at ran
    dsimp only at ran
    split at ran
    · obtain ⟨valid, before⟩ := ih ran
      exact ⟨valid, fun name fact isFact => prune_items_shrinks _ name fact (before name fact isFact)⟩
    · next unchanged =>
      cases ran
      obtain ⟨same, passed⟩ := prune_items_unchanged (by simpa using unchanged)
      rw [same]
      exact ⟨passed, fun _ _ isFact => isFact⟩

end RustcCodegenJvm.Library.Retention
