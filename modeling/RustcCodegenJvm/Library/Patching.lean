import Mathlib

/-!
# Patching a list in place

A list of entries is patched at a list of indices, one after the other, where a
patch may fail. When no index is patched twice, what the patches leave is said
entry by entry.
-/

namespace RustcCodegenJvm.Library.Patching

variable {Entry Patch Error : Type}

/-- Applies each patch to the entry at its index; a patch sees whether the entry exists. -/
def patchAll (apply : Nat → Patch → Option Entry → Except Error Entry) :
    List Entry → List (Nat × Patch) → Except Error (List Entry)
  | entries, [] => .ok entries
  | entries, (index, patch) :: rest =>
    match apply index patch entries[index]? with
    | .ok entry => patchAll apply (entries.set index entry) rest
    | .error error => .error error

/-- What patching leaves at one index. -/
structure PatchedAt (apply : Nat → Patch → Option Entry → Except Error Entry)
    (patches : List (Nat × Patch)) (index : Nat) (before : Entry) (after : Option Entry) : Prop where
  untouched : (∀ patch, (index, patch) ∉ patches) → after = some before
  patched : ∀ patch, (index, patch) ∈ patches →
    ∃ entry, apply index patch (some before) = .ok entry ∧ after = some entry

theorem patch_all_at {apply : Nat → Patch → Option Entry → Except Error Entry}
    {patches : List (Nat × Patch)} (apart : patches.Pairwise fun first second => first.1 ≠ second.1)
    {entries patched : List Entry} (ran : patchAll apply entries patches = .ok patched)
    {index : Nat} {before : Entry} (found : entries[index]? = some before) :
    PatchedAt apply patches index before patched[index]? := by
  induction patches generalizing entries before with
  | nil =>
    cases ran
    exact ⟨fun _ => found, fun patch member => (List.not_mem_nil member).elim⟩
  | cons head rest ih =>
    obtain ⟨headIndex, headPatch⟩ := head
    obtain ⟨headApart, restApart⟩ := List.pairwise_cons.mp apart
    simp only [patchAll] at ran
    split at ran
    · rename_i entry applied
      by_cases isHead : headIndex = index
      · -- the rest of the patches stay away from this index
        subst isHead
        have inside : headIndex < entries.length := (List.getElem?_eq_some_iff.mp found).1
        have set : (entries.set headIndex entry)[headIndex]? = some entry := by
          simp [inside]
        have left : patched[headIndex]? = some entry :=
          (ih restApart ran set).untouched fun patch member => headApart _ member rfl
        refine ⟨fun free => (free headPatch List.mem_cons_self).elim, fun patch member => ?_⟩
        rcases List.mem_cons.mp member with isPatch | later
        · cases isPatch
          exact ⟨entry, found ▸ applied, left⟩
        · exact (headApart _ later rfl).elim
      · have kept : (entries.set headIndex entry)[index]? = some before := by
          rw [List.getElem?_set_ne isHead, found]
        obtain ⟨untouched, touched⟩ := ih restApart ran kept
        refine ⟨fun free => untouched fun patch member => free patch (List.mem_cons_of_mem _ member),
          fun patch member => ?_⟩
        rcases List.mem_cons.mp member with isPatch | later
        · cases isPatch
          exact (isHead rfl).elim
        · exact touched patch later
    · cases ran

end RustcCodegenJvm.Library.Patching
