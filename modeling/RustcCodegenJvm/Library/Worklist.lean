import Mathlib

/-!
# Worklist fixpoints

A worklist solver keeps one value for each block. Processing a block contributes
values to other blocks, which are merged into what is there; a block whose value
changed is queued again. When the queue is empty, every contribution of every
block is covered by the value recorded at its target. Nothing is assumed about
termination: the result is about the runs that end.
-/

namespace RustcCodegenJvm.Library

structure Worklist (Value : Type) where
  entries : List (Option Value)
  pending : List Nat
  queued : List Bool
  aligned : queued.length = entries.length
  listed : ∀ block, queued[block]? = some true → block ∈ pending

variable {count fuel size source : Nat}

namespace Worklist

variable {Value Error : Type}

def entry (work : Worklist Value) (block : Nat) : Option Value := (work.entries[block]?).join

def record (work : Worklist Value) (block : Nat) (value : Value) : Worklist Value :=
  { work with
    entries := work.entries.set block (some value)
    aligned := by rw [List.length_set, work.aligned] }

def enqueue (work : Worklist Value) (block : Nat) : Worklist Value :=
  if work.queued[block]? = some true then work
  else
    { work with
      pending := work.pending ++ [block]
      queued := work.queued.set block true
      aligned := by rw [List.length_set, work.aligned]
      listed := by
        intro other flagged
        rw [List.getElem?_set] at flagged
        split at flagged
        · rename_i same
          simp [same]
        · simp [work.listed other flagged] }

def contribute (merge : Value → Value → Value × Bool) (work : Worklist Value) (block : Nat)
    (incoming : Value) : Worklist Value :=
  match work.entry block with
  | some existing =>
    if (merge existing incoming).2 then (work.record block (merge existing incoming).1).enqueue block
    else work.record block (merge existing incoming).1
  | none => (work.record block incoming).enqueue block

def pop (work : Worklist Value) (block : Nat) (rest : List Nat)
    (first : work.pending = block :: rest) : Worklist Value :=
  { work with
    pending := rest
    queued := work.queued.set block false
    aligned := by rw [List.length_set, work.aligned]
    listed := by
      intro other flagged
      rw [List.getElem?_set] at flagged
      split at flagged
      · split at flagged <;> cases flagged
      · rename_i different
        have present := work.listed other flagged
        rw [first] at present
        exact (List.mem_cons.mp present).resolve_left fun same => different same.symm }

/-- The start of a run: only the first block has a value and is queued. -/
def start (count : Nat) (value : Value) : Worklist Value where
  entries := (List.replicate count none).set 0 (some value)
  pending := [0]
  queued := (List.replicate count false).set 0 true
  aligned := by simp
  listed := by
    intro block flagged
    rw [List.getElem?_set] at flagged
    split at flagged
    · rename_i first
      simp [← first]
    · simp [List.getElem?_replicate] at flagged

/-- Processes blocks until the queue is empty; `none` when the fuel does not suffice. -/
def run (process : Nat → Value → Worklist Value → Except Error (Worklist Value)) :
    Nat → Worklist Value → Option (Except Error (Worklist Value))
  | 0, _ => none
  | fuel + 1, work =>
    match first : work.pending with
    | [] => some (.ok work)
    | block :: rest =>
      match work.entry block with
      | none => run process fuel (work.pop block rest first)
      | some value =>
        match process block value (work.pop block rest first) with
        | .ok later => run process fuel later
        | .error error => some (.error error)

section Entries

variable {merge : Value → Value → Value × Bool} {work : Worklist Value} {block other : Nat}
  {value incoming : Value}

theorem entry_inside (found : work.entry block = some value) : block < work.entries.length := by
  unfold entry at found
  by_contra outside
  rw [List.getElem?_eq_none (by omega)] at found
  cases found

@[simp] theorem entries_enqueue : (work.enqueue block).entries = work.entries := by
  unfold enqueue
  split <;> rfl

theorem queued_enqueue (inside : block < work.entries.length) :
    (work.enqueue block).queued[block]? = some true := by
  unfold enqueue
  split
  · assumption
  · simp [work.aligned, inside]

theorem queued_enqueue_of (flagged : work.queued[other]? = some true) :
    (work.enqueue block).queued[other]? = some true := by
  unfold enqueue
  split
  · exact flagged
  · have inside : other < work.queued.length := (List.getElem?_eq_some_iff.mp flagged).1
    by_cases same : block = other
    · subst same
      simp [inside]
    · simpa [List.getElem?_set_ne same] using flagged

def merged (merge : Value → Value → Value × Bool) (work : Worklist Value) (block : Nat)
    (incoming : Value) : Value :=
  match work.entry block with
  | some existing => (merge existing incoming).1
  | none => incoming

@[simp] theorem entries_contribute : (work.contribute merge block incoming).entries =
    work.entries.set block (some (merged merge work block incoming)) := by
  unfold contribute merged
  cases work.entry block with
  | none => exact entries_enqueue
  | some existing =>
    dsimp only
    split
    · exact entries_enqueue
    · rfl

theorem entry_contribute_self (inside : block < work.entries.length) :
    (work.contribute merge block incoming).entry block = some (merged merge work block incoming) := by
  simp [entry, inside]

theorem entry_contribute_other (different : other ≠ block) :
    (work.contribute merge block incoming).entry other = work.entry other := by
  simp [entry, List.getElem?_set_ne (Ne.symm different)]

/-- A contribution leaves the block queued unless the merge kept an existing value. -/
theorem contribute_cases (merge : Value → Value → Value × Bool) (incoming : Value)
    (inside : block < work.entries.length) :
    ((work.contribute merge block incoming).queued[block]? = some true ∨
      ∃ existing, work.entry block = some existing ∧ (merge existing incoming).2 = false) ∧
    ∀ other : Nat, work.queued[other]? = some true →
      (work.contribute merge block incoming).queued[other]? = some true := by
  have recorded : ∀ value, block < (work.record block value).entries.length := fun value => by
    simpa [record] using inside
  have flaggedStays : ∀ value (other : Nat), work.queued[other]? = some true →
      ((work.record block value).enqueue block).queued[other]? = some true :=
    fun value other flagged =>
      queued_enqueue_of (show (work.record block value).queued[other]? = some true from flagged)
  unfold contribute
  cases found : work.entry block with
  | none => exact ⟨.inl (queued_enqueue (recorded _)), flaggedStays _⟩
  | some existing =>
    dsimp only
    split
    · exact ⟨.inl (queued_enqueue (recorded _)), flaggedStays _⟩
    · rename_i kept
      exact ⟨.inr ⟨existing, rfl, by simpa using kept⟩, fun _ flagged => flagged⟩

end Entries

@[simp] theorem length_start (count : Nat) (value : Value) :
    (start count value).entries.length = count := by
  simp [start]

variable {block : Nat}

theorem entry_start {value found : Value}
    (isFound : (start count value).entry block = some found) : block = 0 ∧ found = value := by
  unfold entry start at isFound
  rw [List.getElem?_set] at isFound
  split at isFound
  · rename_i first
    split at isFound
    · cases isFound
      exact ⟨first.symm, rfl⟩
    · cases isFound
  · rw [List.getElem?_replicate] at isFound
    split at isFound <;> cases isFound

theorem queued_start {value found : Value}
    (isFound : (start count value).entry block = some found) :
    (start count value).queued[block]? = some true := by
  have inside := entry_inside isFound
  rw [length_start] at inside
  obtain ⟨rfl, -⟩ := entry_start isFound
  simp [start, inside]

def contributeAll (merge : Value → Value → Value × Bool) (work : Worklist Value)
    (contributions : List (Nat × Value)) : Worklist Value :=
  contributions.foldl (fun work contribution => work.contribute merge contribution.1 contribution.2)
    work

/-! ### Fixpoints -/

/-- What a merge and an order of generality have in common: merging is an upper bound, and
an unchanged value is the same for the order and for processing. -/
structure Merges (merge : Value → Value → Value × Bool) (covers same : Value → Value → Prop) :
    Prop where
  refl : ∀ value, covers value value
  trans : ∀ {first second third}, covers first second → covers second third → covers first third
  sameRefl : ∀ value, same value value
  sameTrans : ∀ {first second third}, same first second → same second third → same first third
  existing : ∀ existing incoming, covers (merge existing incoming).1 existing
  incoming : ∀ existing incoming, covers (merge existing incoming).1 incoming
  unchanged : ∀ existing incoming, (merge existing incoming).2 = false →
    same (merge existing incoming).1 existing

variable {process : Nat → Value → Worklist Value → Except Error (Worklist Value)}
  {apart : Nat → Value → Prop} {later : Worklist Value} {contributions : List (Nat × Value)}

section Fixpoint

variable {merge : Value → Value → Value × Bool} {covers same : Value → Value → Prop}
  (merges : Merges merge covers same) (emits : Nat → Value → List (Nat × Value) → Prop)

def Covered (covers : Value → Value → Prop) (work : Worklist Value) (contribution : Nat × Value) :
    Prop :=
  ∃ recorded, work.entry contribution.1 = some recorded ∧ covers recorded contribution.2

/-- The value was processed, and what it contributed is covered. -/
def Processed (covers same : Value → Value → Prop) (emits : Nat → Value → List (Nat × Value) → Prop)
    (work : Worklist Value) (block : Nat) (value : Value) : Prop :=
  ∃ processed contributions, same value processed ∧ emits block processed contributions ∧
    ∀ contribution ∈ contributions, work.Covered covers contribution

/-- Every value is processed, queued, or among the ones set apart. -/
def Settled (covers same : Value → Value → Prop) (emits : Nat → Value → List (Nat × Value) → Prop)
    (apart : Nat → Value → Prop) (work : Worklist Value) : Prop :=
  ∀ block value, work.entry block = some value →
    work.queued[block]? = some true ∨ Processed covers same emits work block value ∨
      apart block value

variable {work : Worklist Value} {block : Nat} {incoming value : Value}
  (inside : block < work.entries.length)

include inside

include merges in
theorem covered_contribute {contribution : Nat × Value}
    (covered : work.Covered covers contribution) :
    (work.contribute merge block incoming).Covered covers contribution := by
  obtain ⟨recorded, found, general⟩ := covered
  by_cases here : contribution.1 = block
  · subst here
    refine ⟨_, entry_contribute_self inside, merges.trans ?_ general⟩
    simp only [merged, found]
    exact merges.existing _ _
  · exact ⟨recorded, by rw [entry_contribute_other here, found], general⟩

include merges in
theorem contribute_covered :
    (work.contribute merge block incoming).Covered covers (block, incoming) := by
  refine ⟨_, entry_contribute_self inside, ?_⟩
  unfold merged
  split
  · exact merges.incoming _ _
  · exact merges.refl _

include merges in
theorem processed_contribute {other : Nat} {current : Value}
    (alike : same value current) (isProcessed : Processed covers same emits work other current) :
    Processed covers same emits (work.contribute merge block incoming) other value := by
  obtain ⟨processed, contributions, alikeProcessed, emitted, covered⟩ := isProcessed
  exact ⟨processed, contributions, merges.sameTrans alike alikeProcessed, emitted,
    fun contribution member => covered_contribute merges inside (covered contribution member)⟩

include merges in
theorem settled_contribute
    (apartSame : ∀ other value processed, apart other processed → same value processed →
      apart other value) (settled : Settled covers same emits apart work) :
    Settled covers same emits apart (work.contribute merge block incoming) := by
  obtain ⟨changes, keepsQueue⟩ := contribute_cases merge incoming inside
  intro other value found
  have before : (work.contribute merge block incoming).queued[other]? = some true ∨
      ∃ current, work.entry other = some current ∧ same value current := by
    by_cases here : other = block
    · subst here
      rw [entry_contribute_self inside] at found
      cases found
      refine changes.imp id fun ⟨existing, wasExisting, kept⟩ => ⟨existing, wasExisting, ?_⟩
      simp only [merged, wasExisting]
      exact merges.unchanged _ _ kept
    · rw [entry_contribute_other here] at found
      exact .inr ⟨value, found, merges.sameRefl value⟩
  rcases before with flagged | ⟨current, isCurrent, alike⟩
  · exact .inl flagged
  · rcases settled other current isCurrent with flagged | processed | isApart
    · exact .inl (keepsQueue other flagged)
    · exact .inr (.inl (processed_contribute merges emits inside alike processed))
    · exact .inr (.inr (apartSame other value current isApart alike))

omit inside

include merges in
theorem contribute_all_spec
    (apartSame : ∀ other value processed, apart other processed → same value processed →
      apart other value)
    (inside : ∀ contribution ∈ contributions, contribution.1 < work.entries.length)
    (settled : Settled covers same emits apart work) :
    Settled covers same emits apart (work.contributeAll merge contributions) ∧
      (∀ contribution, work.Covered covers contribution →
        (work.contributeAll merge contributions).Covered covers contribution) ∧
      ∀ contribution ∈ contributions,
        (work.contributeAll merge contributions).Covered covers contribution := by
  induction contributions generalizing work with
  | nil => exact ⟨settled, fun _ covered => covered, fun _ absent => by cases absent⟩
  | cons contribution rest ih =>
    obtain ⟨here, restInside⟩ := List.forall_mem_cons.mp inside
    obtain ⟨restSettled, keeps, covered⟩ := ih (by simpa using restInside)
      (settled_contribute merges emits here apartSame settled)
    refine ⟨restSettled, fun other isCovered => keeps other (covered_contribute merges here isCovered),
      fun other member => ?_⟩
    rcases List.mem_cons.mp member with rfl | inRest
    · exact keeps _ (contribute_covered merges here)
    · exact covered other inRest

/-- The invariant rule of a run: what every processing step keeps holds at the end, with
nothing left in the queue. -/
theorem run_invariant (invariant : Worklist Value → Prop)
    (skips : ∀ work block rest first, work.entry block = none → invariant work →
      invariant (work.pop block rest first))
    (steps : ∀ work block rest first value later, work.entry block = some value → invariant work →
      process block value (work.pop block rest first) = .ok later → invariant later)
    (starts : invariant work) (ran : run process fuel work = some (.ok later)) :
    invariant later ∧ later.pending = [] := by
  induction fuel generalizing work with
  | zero => cases ran
  | succ fuel ih =>
    unfold run at ran
    split at ran
    · rename_i done
      cases ran
      exact ⟨starts, done⟩
    · rename_i block rest first
      split at ran
      · rename_i absent
        exact ih (skips work block rest first absent starts) ran
      · rename_i value found
        split at ran
        · rename_i next processed
          exact ih (steps work block rest first value next found starts processed) ran
        · cases ran

@[simp] theorem entry_pop {rest : List Nat} {first : work.pending = block :: rest} {other : Nat} :
    (work.pop block rest first).entry other = work.entry other := rfl

theorem settled_pop {rest : List Nat} {first : work.pending = block :: rest}
    (settled : Settled covers same emits (fun _ _ => False) work)
    (isApart : ∀ value, work.entry block = some value → apart block value) :
    Settled covers same emits apart (work.pop block rest first) := by
  intro other value found
  by_cases here : other = block
  · subst here
    exact .inr (.inr (isApart value found))
  · rcases settled other value found with flagged | processed | impossible
    · left
      simpa [pop, List.getElem?_set_ne (Ne.symm here)] using flagged
    · exact .inr (.inl processed)
    · exact impossible.elim

theorem length_contribute_all (contributions : List (Nat × Value)) :
    (work.contributeAll merge contributions).entries.length = work.entries.length := by
  induction contributions generalizing work with
  | nil => rfl
  | cons contribution rest ih => exact ih.trans (by simp)

include merges in
/-- When a run ends, every recorded value was processed and its contributions are covered. -/
theorem run_processed (processes : ∀ block value work later, work.entries.length = size →
      process block value work = .ok later → ∃ contributions, emits block value contributions ∧
        (∀ contribution ∈ contributions, contribution.1 < size) ∧
        later = work.contributeAll merge contributions) (sized : work.entries.length = size)
    (starts : ∀ block value, work.entry block = some value → work.queued[block]? = some true)
    (ran : run process fuel work = some (.ok later)) {value : Value}
    (found : later.entry block = some value) : Processed covers same emits later block value := by
  have kept := run_invariant
    (fun work => work.entries.length = size ∧ Settled covers same emits (fun _ _ => False) work)
    ?skips ?steps ⟨sized, fun block value found => .inl (starts block value found)⟩ ran
  case skips =>
    rintro work block rest first absent ⟨sized, settled⟩
    refine ⟨sized, settled_pop emits settled fun value found => ?_⟩
    rw [absent] at found
    cases found
  case steps =>
    rintro work block rest first value later found ⟨sized, settled⟩ processed
    obtain ⟨contributions, emitted, inside, rfl⟩ := processes block value (work.pop block rest first) later sized processed
    have inside : ∀ contribution ∈ contributions,
        contribution.1 < (work.pop block rest first).entries.length := by
      intro contribution member
      exact lt_of_lt_of_eq (inside contribution member) sized.symm
    -- the block being processed is set apart until its contributions are in
    have apart : Settled covers same emits (fun other current => other = block ∧ same current value)
        (work.pop block rest first) := settled_pop emits settled fun current isCurrent => by
      rw [found] at isCurrent
      cases isCurrent
      exact ⟨rfl, merges.sameRefl _⟩
    obtain ⟨settledApart, -, covered⟩ := contribute_all_spec merges emits
      (fun other current previous isApart alike => ⟨isApart.1, merges.sameTrans alike isApart.2⟩)
      inside apart
    refine ⟨(length_contribute_all _).trans sized, fun other current isCurrent => ?_⟩
    rcases settledApart other current isCurrent with flagged | processedThere | ⟨rfl, alike⟩
    · exact .inl flagged
    · exact .inr (.inl processedThere)
    · exact .inr (.inl ⟨value, contributions, alike, emitted, covered⟩)
  obtain ⟨⟨-, settled⟩, empty⟩ := kept
  rcases settled block value found with flagged | processed | impossible
  · have listed := later.listed block flagged
    rw [empty] at listed
    cases listed
  · exact processed
  · exact impossible.elim

end Fixpoint

/-! ### Where recorded values come from -/

section Origin

variable {merge : Value → Value → Value × Bool} {good : Nat → Value → Prop}
  {reason : Nat → Nat → Prop} {work : Worklist Value}

/-- Every value is good, or a block with a value has a reason to contribute there. -/
def Explained (good : Nat → Value → Prop) (reason : Nat → Nat → Prop) (work : Worklist Value) :
    Prop :=
  ∀ block value, work.entry block = some value →
    good block value ∨ ∃ source, (work.entry source).isSome ∧ reason source block

theorem is_some_contribute {block other : Nat} {incoming : Value}
    (inside : block < work.entries.length) (present : (work.entry other).isSome) :
    ((work.contribute merge block incoming).entry other).isSome := by
  by_cases here : other = block
  · subst here
    rw [entry_contribute_self inside]
    rfl
  · rwa [entry_contribute_other here]

variable (mergeGood : ∀ block existing incoming, good block existing → good block incoming → good block (merge existing incoming).1)

include mergeGood

theorem explained_contribute {incoming : Value}
    (inside : block < work.entries.length) (present : (work.entry source).isSome)
    (fine : good block incoming ∨ reason source block) (explained : Explained good reason work) :
    Explained good reason (work.contribute merge block incoming) := by
  intro other value found
  by_cases here : other = block
  · subst here
    rw [entry_contribute_self inside] at found
    rcases fine with goodIncoming | hasReason
    · unfold merged at found
      split at found
      · rename_i existing wasExisting
        cases found
        rcases explained other existing wasExisting with goodExisting | ⟨origin, isPresent, isReason⟩
        · exact .inl (mergeGood other existing incoming goodExisting goodIncoming)
        · exact .inr ⟨origin, is_some_contribute inside isPresent, isReason⟩
      · cases found
        exact .inl goodIncoming
    · exact .inr ⟨source, is_some_contribute inside present, hasReason⟩
  · rw [entry_contribute_other here] at found
    rcases explained other value found with isGood | ⟨origin, isPresent, isReason⟩
    · exact .inl isGood
    · exact .inr ⟨origin, is_some_contribute inside isPresent, isReason⟩

theorem explained_contribute_all
    (inside : ∀ contribution ∈ contributions, contribution.1 < work.entries.length)
    (fine : ∀ contribution ∈ contributions,
      good contribution.1 contribution.2 ∨ reason source contribution.1)
    (present : (work.entry source).isSome) (explained : Explained good reason work) :
    Explained good reason (work.contributeAll merge contributions) := by
  induction contributions generalizing work with
  | nil => exact explained
  | cons contribution rest ih =>
    obtain ⟨here, restInside⟩ := List.forall_mem_cons.mp inside
    obtain ⟨isFine, restFine⟩ := List.forall_mem_cons.mp fine
    exact ih (by simpa using restInside) restFine (is_some_contribute here present)
      (explained_contribute mergeGood here present isFine explained)

/-- At the end of a run every value is explained, if the first one is good and every
contribution of a block is good or has a reason. -/
theorem run_explained (processes : ∀ block value work later, work.entries.length = size →
      process block value work = .ok later → ∃ contributions, (∀ contribution ∈ contributions,
          contribution.1 < size ∧ (good contribution.1 contribution.2 ∨ reason block contribution.1)) ∧
        later = work.contributeAll merge contributions) (sized : work.entries.length = size)
    (starts : Explained good reason work)
    (ran : run process fuel work = some (.ok later)) : Explained good reason later := by
  have kept := run_invariant
    (fun work => work.entries.length = size ∧ Explained good reason work)
    (fun _ _ _ _ _ kept => kept) ?steps ⟨sized, starts⟩ ran
  case steps =>
    rintro work block rest first value later found ⟨sized, explained⟩ processed
    obtain ⟨contributions, fine, rfl⟩ :=
      processes block value (work.pop block rest first) later sized processed
    have inside : ∀ contribution ∈ contributions,
        contribution.1 < (work.pop block rest first).entries.length :=
      fun contribution member => lt_of_lt_of_eq (fine contribution member).1 sized.symm
    refine ⟨(length_contribute_all _).trans sized,
      explained_contribute_all mergeGood inside (fun contribution member =>
        (fine contribution member).2) ?_ explained⟩
    rw [entry_pop, found]
    rfl
  exact kept.1.2

end Origin

end Worklist

end RustcCodegenJvm.Library
