import Mathlib

/-!
# Maps as lists of entries

Looking up an entry, and finite maps over an ordered type kept in the order of
their keys.
-/

namespace RustcCodegenJvm.Library.SortedMap

open List

variable {Key Value : Type}

theorem lookup_cons [BEq Key] [LawfulBEq Key] [DecidableEq Key] (query key : Key) (value : Value)
    (rest : List (Key × Value)) :
    ((key, value) :: rest).lookup query = if query = key then some value else rest.lookup query := by
  rw [List.lookup_cons]
  by_cases same : query = key
  · simp [same]
  · rw [beq_false_of_ne same, if_neg same]

variable {entries : List (Key × Value)} {entry : Key × Value}

theorem mem_of_lookup [BEq Key] [LawfulBEq Key] {query : Key} {value : Value}
    (found : entries.lookup query = some value) :
    (query, value) ∈ entries := by
  induction entries with
  | nil => cases found
  | cons head rest ih =>
    rw [List.lookup_cons] at found
    split at found
    · next same =>
      cases found
      rw [eq_of_beq same]
      exact List.mem_cons_self
    · exact List.mem_cons_of_mem _ (ih found)

theorem lookup_map_values [BEq Key] [LawfulBEq Key] [DecidableEq Key] {Other : Type}
    (change : Key → Value → Other) (query : Key) (entries : List (Key × Value)) :
    (entries.map fun entry => (entry.1, change entry.1 entry.2)).lookup query =
      (entries.lookup query).map (change query) := by
  induction entries with
  | nil => rfl
  | cons entry rest ih =>
    rw [map_cons, lookup_cons, lookup_cons, ih]
    by_cases same : query = entry.1
    · simp [same]
    · simp [same]

variable [LinearOrder Key]

def insert (key : Key) (value : Value) : List (Key × Value) → List (Key × Value)
  | [] => [(key, value)]
  | (other, old) :: rest =>
    if key < other then (key, value) :: (other, old) :: rest
    else if key = other then (key, value) :: rest
    else (other, old) :: insert key value rest

def Sorted (entries : List (Key × Value)) : Prop :=
  entries.Pairwise fun first second => first.1 < second.1

theorem mem_insert {key : Key} {value : Value}
    (member : entry ∈ insert key value entries) : entry = (key, value) ∨ entry ∈ entries := by
  induction entries with
  | nil => exact .inl (mem_singleton.mp member)
  | cons head rest ih =>
    simp only [insert] at member
    split_ifs at member
    · exact mem_cons.mp member
    · exact (mem_cons.mp member).imp_right (mem_cons_of_mem _)
    · rcases mem_cons.mp member with isHead | later
      · exact .inr (isHead ▸ mem_cons_self)
      · exact (ih later).imp_right (mem_cons_of_mem _)

theorem insert_sorted (key : Key) (value : Value)
    (sorted : Sorted entries) : Sorted (insert key value entries) := by
  induction entries with
  | nil => exact pairwise_singleton _ _
  | cons head rest ih =>
    obtain ⟨above, restSorted⟩ := pairwise_cons.mp sorted
    simp only [insert]
    split_ifs with below same
    · refine pairwise_cons.mpr ⟨fun entry member => ?_, sorted⟩
      rcases mem_cons.mp member with isHead | later
      · exact isHead ▸ below
      · exact lt_trans below (above entry later)
    · exact pairwise_cons.mpr ⟨fun entry member => same ▸ above entry member, restSorted⟩
    · refine pairwise_cons.mpr ⟨fun entry member => ?_, ih restSorted⟩
      rcases mem_insert member with rfl | later
      · exact lt_of_le_of_ne (not_lt.mp below) (Ne.symm same)
      · exact above entry later

theorem lookup_insert [BEq Key] [LawfulBEq Key] (key query : Key) (value : Value)
    (entries : List (Key × Value)) : (insert key value entries).lookup query =
      if query = key then some value else entries.lookup query := by
  induction entries with
  | nil => exact lookup_cons query key value []
  | cons head rest ih =>
    obtain ⟨other, old⟩ := head
    simp only [insert]
    by_cases below : key < other
    · rw [if_pos below, lookup_cons]
    · rw [if_neg below]
      by_cases same : key = other
      · rw [if_pos same, lookup_cons, lookup_cons, same]
        split_ifs <;> rfl
      · rw [if_neg same, lookup_cons, lookup_cons, ih]
        by_cases isOther : query = other
        · have notKey : query ≠ key := fun isKey => same (isKey.symm.trans isOther)
          rw [if_pos isOther, if_neg notKey, if_pos isOther]
        · rw [if_neg isOther, if_neg isOther]

theorem head_le (sorted : Sorted entries) {first : Key × Value}
    (isFirst : entries.head? = some first) (member : entry ∈ entries) : first.1 ≤ entry.1 := by
  cases entries with
  | nil => cases isFirst
  | cons head rest =>
    cases isFirst
    rcases mem_cons.mp member with rfl | later
    · exact le_rfl
    · exact le_of_lt ((pairwise_cons.mp sorted).1 entry later)

theorem le_last (sorted : Sorted entries) {last : Key × Value}
    (isLast : entries.getLast? = some last) (member : entry ∈ entries) : entry.1 ≤ last.1 := by
  obtain ⟨before, rfl⟩ := getLast?_eq_some_iff.mp isLast
  rcases mem_append.mp member with early | atEnd
  · exact le_of_lt ((pairwise_append.mp sorted).2.2 entry early last (mem_singleton.mpr rfl))
  · rw [mem_singleton.mp atEnd]

end RustcCodegenJvm.Library.SortedMap
