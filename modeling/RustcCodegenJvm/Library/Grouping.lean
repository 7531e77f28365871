import RustcCodegenJvm.Library.AssociationList

/-!
# Grouping entries by their keys

Entries with names are put into groups whose keys match. The first name of a
group stands for all of them. Matching need not be an equivalence.
-/

namespace RustcCodegenJvm.Library.Grouping

open List

open scoped List

variable {Name Key : Type}

abbrev Groups (Name Key : Type) := List (Key × List Name)

section Definitions

variable (isMatch : Key → Key → Bool)

def addTo (name : Name) (key : Key) : Groups Name Key → Groups Name Key
  | [] => [(key, [name])]
  | group :: rest =>
    if isMatch group.1 key then (group.1, group.2 ++ [name]) :: rest
    else group :: addTo name key rest

def groupEntries (entries : List (Name × Key)) : Groups Name Key :=
  entries.foldl (fun groups entry => addTo isMatch entry.1 entry.2 groups) []

end Definitions

def firsts (groups : Groups Name Key) : List Name :=
  groups.filterMap fun group => group.2.head?

def redirects (groups : Groups Name Key) : List (Name × Name) :=
  groups.flatMap fun group =>
    match group.2 with
    | first :: rest => rest.map fun name => (name, first)
    | [] => []

/-- What holds of a group made from the entries. -/
def Shaped (isMatch : Key → Key → Bool) (entries : List (Name × Key)) (group : Key × List Name) : Prop :=
  ∃ first rest, group.2 = first :: rest ∧ (first, group.1) ∈ entries ∧
    ∀ name ∈ rest, ∃ key, (name, key) ∈ entries ∧ isMatch group.1 key = true

variable {isMatch : Key → Key → Bool} {entries : List (Name × Key)} {groups : Groups Name Key}
  {group : Key × List Name} {first : Name}

theorem Shaped.mono {more : List (Name × Key)} (within : entries ⊆ more)
    (shaped : Shaped isMatch entries group) : Shaped isMatch more group := by
  obtain ⟨first, rest, isNames, isFirst, others⟩ := shaped
  refine ⟨first, rest, isNames, within isFirst, ?_⟩
  intro name member
  obtain ⟨key, isEntry, isMatch⟩ := others name member
  exact ⟨key, within isEntry, isMatch⟩

theorem add_to_names (name : Name) (key : Key) (groups : Groups Name Key) :
    (addTo isMatch name key groups).flatMap Prod.snd ~ groups.flatMap Prod.snd ++ [name] := by
  induction groups with
  | nil => simp [addTo]
  | cons group rest ih =>
    unfold addTo
    split_ifs
    · simp only [flatMap_cons, append_assoc]
      apply Perm.append_left
      exact perm_append_comm
    · simp only [flatMap_cons, append_assoc]
      exact ih.append_left _

theorem add_to_shaped {name : Name} {key : Key} (isEntry : (name, key) ∈ entries)
    (shaped : ∀ group ∈ groups, Shaped isMatch entries group) :
    ∀ group ∈ addTo isMatch name key groups, Shaped isMatch entries group := by
  induction groups with
  | nil =>
    intro group member
    rw [addTo, mem_singleton] at member
    subst member
    exact ⟨name, [], rfl, isEntry, by simp⟩
  | cons group rest ih =>
    rw [forall_mem_cons] at shaped
    unfold addTo
    split_ifs with isMatched
    · rw [forall_mem_cons]
      refine ⟨?_, shaped.2⟩
      obtain ⟨first, others, isNames, isFirst, matched⟩ := shaped.1
      refine ⟨first, others ++ [name], by simp [isNames], isFirst, ?_⟩
      intro other member
      rcases mem_append.mp member with earlier | last
      · exact matched other earlier
      · rw [mem_singleton.mp last]
        exact ⟨key, isEntry, isMatched⟩
    · rw [forall_mem_cons]
      exact ⟨shaped.1, ih shaped.2⟩

theorem group_entries_spec (isMatch : Key → Key → Bool) (entries : List (Name × Key)) :
    (groupEntries isMatch entries).flatMap Prod.snd ~ entries.map Prod.fst ∧
      ∀ group ∈ groupEntries isMatch entries, Shaped isMatch entries group := by
  induction entries using reverseRecOn with
  | nil => simp [groupEntries]
  | append_singleton entries entry ih =>
    have unfolded : groupEntries isMatch (entries ++ [entry]) =
        addTo isMatch entry.1 entry.2 (groupEntries isMatch entries) := by
      simp [groupEntries]
    rw [unfolded]
    constructor
    · rw [map_append]
      exact (add_to_names _ _ _).trans (ih.1.append_right _)
    · apply add_to_shaped
      · simp
      · intro group member
        exact (ih.2 group member).mono (subset_append_left _ _)

theorem redirects_cons {rest : List Name}
    (isNames : group.2 = first :: rest) (groups : Groups Name Key) :
    redirects (group :: groups) = rest.map (fun name => (name, first)) ++ redirects groups := by
  simp [redirects, isNames]

theorem firsts_cons {rest : List Name}
    (isNames : group.2 = first :: rest) (groups : Groups Name Key) :
    firsts (group :: groups) = first :: firsts groups := by
  simp [firsts, isNames]

variable (shaped : ∀ group ∈ groups, Shaped isMatch entries group)

include shaped in
/-- Every name of the groups is either a first or redirected. -/
theorem firsts_append_redirects :
    firsts groups ++ (redirects groups).map Prod.fst ~ groups.flatMap Prod.snd := by
  induction groups with
  | nil => exact .nil
  | cons group groups ih =>
    rw [forall_mem_cons] at shaped
    obtain ⟨first, rest, isNames, -⟩ := shaped.1
    rw [redirects_cons isNames, firsts_cons isNames, flatMap_cons, isNames, map_append,
      map_map]
    have names : (rest.map (Prod.fst ∘ fun name => (name, first))) = rest := map_id rest
    rw [names, cons_append, cons_append]
    apply Perm.cons
    have swapped : firsts groups ++ (rest ++ (redirects groups).map Prod.fst) ~
        rest ++ (firsts groups ++ (redirects groups).map Prod.fst) := by
      rw [← append_assoc, ← append_assoc]
      exact perm_append_comm.append_right _
    exact swapped.trans ((ih shaped.2).append_left _)

include shaped in
theorem redirects_mem {name : Name} (member : (name, first) ∈ redirects groups) :
    first ∈ firsts groups ∧
      ∃ key key', (first, key) ∈ entries ∧ (name, key') ∈ entries ∧ isMatch key key' = true := by
  induction groups with
  | nil => cases member
  | cons group groups ih =>
    rw [forall_mem_cons] at shaped
    obtain ⟨head, rest, isNames, isFirst, matched⟩ := shaped.1
    rw [redirects_cons isNames] at member
    rw [firsts_cons isNames]
    rcases mem_append.mp member with here | later
    · obtain ⟨other, isOther, same⟩ := mem_map.mp here
      cases same
      obtain ⟨key, isEntry, isMatch⟩ := matched name isOther
      exact ⟨mem_cons_self, group.1, key, isFirst, isEntry, isMatch⟩
    · obtain ⟨isFirst, matched⟩ := ih shaped.2 later
      exact ⟨mem_cons_of_mem _ isFirst, matched⟩

section Representative

variable [DecidableEq Name]

def representative (groups : Groups Name Key) (name : Name) : Name :=
  ((redirects groups).lookup name).getD name

variable {name : Name}

theorem representative_first (distinct : (entries.map Prod.fst).Nodup)
    (isFirst : name ∈ firsts (groupEntries isMatch entries)) :
    representative (groupEntries isMatch entries) name = name := by
  obtain ⟨names, shaped⟩ := group_entries_spec isMatch entries
  rw [← ((firsts_append_redirects shaped).trans names).nodup_iff] at distinct
  have apart := (nodup_append.mp distinct).2.2
  unfold representative
  rw [AssociationList.lookup_absent]
  · rfl
  · intro redirected
    exact apart name isFirst name redirected rfl

/-- What stands for a name of the entries is a first, and is the name itself or has a
matching key. -/
theorem representative_spec (distinct : (entries.map Prod.fst).Nodup)
    (isName : name ∈ entries.map Prod.fst) :
    representative (groupEntries isMatch entries) name ∈ firsts (groupEntries isMatch entries) ∧
      (representative (groupEntries isMatch entries) name = name ∨
        ∃ key key', (representative (groupEntries isMatch entries) name, key) ∈ entries ∧
          (name, key') ∈ entries ∧ isMatch key key' = true) := by
  obtain ⟨names, shaped⟩ := group_entries_spec isMatch entries
  rw [← names.mem_iff, ← (firsts_append_redirects shaped).mem_iff, mem_append] at isName
  rcases isName with isFirst | redirected
  · rw [representative_first distinct isFirst]
    exact ⟨isFirst, .inl rfl⟩
  · obtain ⟨first, found⟩ := AssociationList.lookup_present redirected
    have isRepresentative : representative (groupEntries isMatch entries) name = first := by
      rw [representative, found]
      rfl
    obtain ⟨isFirst, matched⟩ := redirects_mem shaped (SortedMap.mem_of_lookup found)
    rw [isRepresentative]
    exact ⟨isFirst, .inr matched⟩

theorem representative_of_absent (absent : name ∉ entries.map Prod.fst) :
    representative (groupEntries isMatch entries) name = name := by
  obtain ⟨names, shaped⟩ := group_entries_spec isMatch entries
  rw [← names.mem_iff, ← (firsts_append_redirects shaped).mem_iff, mem_append] at absent
  rw [representative, AssociationList.lookup_absent fun redirected => absent (.inr redirected)]
  rfl

end Representative

end RustcCodegenJvm.Library.Grouping
