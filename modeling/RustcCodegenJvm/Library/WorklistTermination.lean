import RustcCodegenJvm.Library.Worklist

/-!
# When a worklist empties

A run ends when every reported change lowers a rank. The ranks are summed over
the blocks, so they live in an ordered cancellative monoid without infinite
descent. A block that gets its first value has no rank to lower; there the
number of blocks without a value goes down.
-/

namespace RustcCodegenJvm.Library.Worklist

open Option

section Sums

variable {Element Rank : Type} [AddCommMonoid Rank] [PartialOrder Rank]
  [IsOrderedCancelAddMonoid Rank] {rank : Element → Rank} {elements : List Element} {index : Nat}
  {before after : Element}

theorem sum_set_lt (found : elements[index]? = some before) (lower : rank after < rank before) :
    ((elements.set index after).map rank).sum < (elements.map rank).sum := by
  induction elements generalizing index with
  | nil => cases found
  | cons element rest ih =>
    cases index with
    | zero =>
      cases found
      simpa using lower
    | succ index => simpa using ih found

theorem sum_set_le (found : elements[index]? = some before) (lower : rank after ≤ rank before) :
    ((elements.set index after).map rank).sum ≤ (elements.map rank).sum := by
  induction elements generalizing index with
  | nil => cases found
  | cons element rest ih =>
    cases index with
    | zero =>
      cases found
      simpa using lower
    | succ index => simpa using ih found

end Sums

variable {Value Error Rank : Type}
  {process : Nat → Value → Worklist Value → Except Error (Worklist Value)}

theorem run_step {work : Worklist Value} {block : Nat} {rest : List Nat} (fuel : Nat)
    (first : work.pending = block :: rest) : run process (fuel + 1) work =
      match work.entry block with
      | none => run process fuel (work.pop block rest first)
      | some value =>
        match process block value (work.pop block rest first) with
        | .ok later => run process fuel later
        | .error error => some (.error error) := by
  rw [run]
  split
  · rename_i empty
    rw [first] at empty
    cases empty
  · rename_i head tail isHead
    have same := first.symm.trans isHead
    cases same
    rfl

theorem run_empty {work : Worklist Value} (fuel : Nat) (empty : work.pending = []) :
    run process (fuel + 1) work = some (.ok work) := by
  rw [run]
  split
  · rfl
  · rename_i isHead
    rw [empty] at isHead
    cases isHead

variable [AddCommMonoid Rank] [PartialOrder Rank]

structure Descends (merge : Value → Value → Value × Bool) (good : Nat → Value → Prop)
    (rank : Value → Rank) : Prop where
  keeps : ∀ {block existing incoming}, good block existing → good block incoming →
    good block (merge existing incoming).1
  lowers : ∀ {block existing incoming}, good block existing → good block incoming →
    rank (merge existing incoming).1 ≤ rank existing
  changes : ∀ {block existing incoming}, good block existing → good block incoming →
    (merge existing incoming).2 = true → rank (merge existing incoming).1 < rank existing

def AllGood (good : Nat → Value → Prop) (work : Worklist Value) : Prop :=
  ∀ block value, work.entry block = some value → good block value

/-- The blocks without a value, the rank of the values, and the length of the queue. -/
def potential (rank : Value → Rank) (work : Worklist Value) : Nat ×ₗ Rank ×ₗ Nat :=
  toLex (work.entries.countP Option.isNone,
    toLex ((work.entries.map fun entry => (entry.map rank).getD 0).sum, work.pending.length))

section Potential

variable [IsOrderedCancelAddMonoid Rank] {rank : Value → Rank} {good : Nat → Value → Prop} {merge : Value → Value → Value × Bool}
  {work later : Worklist Value} {block : Nat} {value incoming existing : Value}

theorem entry_of_get (found : work.entry block = some value) :
    work.entries[block]? = some (some value) := by
  unfold entry at found
  cases present : work.entries[block]? with
  | none =>
    rw [present] at found
    cases found
  | some recorded =>
    rw [present] at found
    exact congrArg some found

theorem count_record (found : work.entry block = some existing) :
    (work.record block value).entries.countP isNone =
      work.entries.countP isNone := by
  obtain ⟨inside, isEntry⟩ := List.getElem?_eq_some_iff.mp (entry_of_get found)
  simp [record, List.countP_set inside, isEntry]

theorem count_record_first (inside : block < work.entries.length)
    (absent : work.entry block = none) : (work.record block value).entries.countP isNone <
      work.entries.countP isNone := by
  have isEntry : work.entries[block] = none := by
    simpa [entry, inside] using absent
  have positive : 0 < work.entries.countP isNone :=
    List.countP_pos_iff.mpr ⟨none, isEntry ▸ List.getElem_mem inside, rfl⟩
  simp only [record, List.countP_set inside, isEntry, isNone_none, isNone_some]
  simp only [if_true, Bool.false_eq_true, if_false]
  omega

variable (descends : Descends merge good rank)

include descends

theorem potential_contribute (inside : block < work.entries.length) (allGood : AllGood good work)
    (isGood : good block incoming) :
    potential rank (work.contribute merge block incoming) ≤ potential rank work := by
  unfold contribute
  cases found : work.entry block with
  | none =>
    apply le_of_lt
    refine Prod.Lex.toLex_lt_toLex.mpr (.inl ?_)
    rw [entries_enqueue]
    exact count_record_first inside found
  | some existing =>
    have existingGood := allGood block existing found
    have isEntry := entry_of_get found
    dsimp only
    split
    case isTrue changed =>
      apply le_of_lt
      apply Prod.Lex.toLex_lt_toLex.mpr
      right
      rw [entries_enqueue]
      refine ⟨count_record found, Prod.Lex.toLex_lt_toLex.mpr (.inl ?_)⟩
      exact sum_set_lt isEntry (descends.changes existingGood isGood changed)
    case isFalse =>
      apply Prod.Lex.toLex_le_toLex.mpr
      right
      refine ⟨count_record found, ?_⟩
      have lower := descends.lowers existingGood isGood
      exact (Prod.Lex.toLex_mono ⟨sum_set_le isEntry lower, le_refl _⟩)

omit [AddCommMonoid Rank] [IsOrderedCancelAddMonoid Rank] in
theorem all_good_contribute (inside : block < work.entries.length) (allGood : AllGood good work)
    (isGood : good block incoming) : AllGood good (work.contribute merge block incoming) := by
  intro other value found
  by_cases here : other = block
  · subst here
    rw [entry_contribute_self inside] at found
    cases found
    unfold merged
    split
    · rename_i existing wasExisting
      exact descends.keeps (allGood other existing wasExisting) isGood
    · exact isGood
  · rw [entry_contribute_other here] at found
    exact allGood other value found

theorem potential_contribute_all {contributions : List (Nat × Value)} (allGood : AllGood good work)
    (fine : ∀ contribution ∈ contributions,
      contribution.1 < work.entries.length ∧ good contribution.1 contribution.2) :
    potential rank (work.contributeAll merge contributions) ≤ potential rank work ∧
      AllGood good (work.contributeAll merge contributions) := by
  induction contributions generalizing work with
  | nil => exact ⟨le_refl _, allGood⟩
  | cons contribution rest ih =>
    obtain ⟨⟨inside, isGood⟩, restFine⟩ := List.forall_mem_cons.mp fine
    have goodAfter := all_good_contribute descends inside allGood isGood
    have restEnds := ih goodAfter (by simpa using restFine)
    exact ⟨restEnds.1.trans (potential_contribute descends inside allGood isGood), restEnds.2⟩

omit descends

omit [IsOrderedCancelAddMonoid Rank] in
theorem potential_pop {rest : List Nat} (first : work.pending = block :: rest) :
    potential rank (work.pop block rest first) < potential rank work := by
  apply Prod.Lex.toLex_lt_toLex.mpr
  right
  refine ⟨rfl, Prod.Lex.toLex_lt_toLex.mpr (.inr ⟨rfl, ?_⟩)⟩
  simp [pop, first]

include descends in
/-- A run ends, with the queue empty or with an error, when every block contributes good values
and every reported change lowers the rank. -/
theorem run_ends [WellFoundedLT Rank] {size : Nat}
    (processes : ∀ block value work later, work.entries.length = size → good block value →
      process block value work = .ok later → ∃ contributions, (∀ contribution ∈ contributions,
          contribution.1 < size ∧ good contribution.1 contribution.2) ∧
        later = work.contributeAll merge contributions)
    (work : Worklist Value) (sized : work.entries.length = size) (allGood : AllGood good work) :
    ∃ fuel, (run process fuel work).isSome := by
  induction isPotential : potential rank work using WellFoundedLT.induction generalizing work with
  | ind bound ih =>
    subst isPotential
    cases pending : work.pending with
    | nil => exact ⟨1, by rw [run_empty 0 pending, isSome_some]⟩
    | cons block rest =>
      cases found : work.entry block with
      | none =>
        obtain ⟨fuel, ends⟩ := ih _ (potential_pop pending) (work.pop block rest pending) sized
          allGood rfl
        exact ⟨fuel + 1, by simpa only [run_step fuel pending, found] using ends⟩
      | some value =>
        cases ran : process block value (work.pop block rest pending) with
        | error error => exact ⟨1, by simp only [run_step 0 pending, found, ran, isSome_some]⟩
        | ok later =>
          obtain ⟨contributions, fine, rfl⟩ :=
            processes block value (work.pop block rest pending) later sized
              (allGood block value found) ran
          have sizedPop : (work.pop block rest pending).entries.length = size := sized
          obtain ⟨lower, goodAfter⟩ := potential_contribute_all descends
            (show AllGood good (work.pop block rest pending) from allGood) (by rwa [sizedPop])
          obtain ⟨fuel, ends⟩ := ih _ (lower.trans_lt (potential_pop pending)) _
            ((length_contribute_all _).trans sizedPop) goodAfter rfl
          exact ⟨fuel + 1, by simpa only [run_step fuel pending, found, ran] using ends⟩

end Potential

end RustcCodegenJvm.Library.Worklist
