import RustcCodegenJvm.Library.SortedMap

/-!
# Association lists

Maps as lists of entries in any order. With distinct keys a lookup finds exactly
the entries of the list.
-/

namespace RustcCodegenJvm.Library.AssociationList

open List

variable {Key Value : Type} [DecidableEq Key] {entries : List (Key × Value)} {key : Key}
  {value : Value}

theorem lookup_absent (absent : key ∉ entries.map Prod.fst) : entries.lookup key = none := by
  rw [lookup_eq_none_iff]
  intro entry member
  rw [bne_iff_ne]
  rintro rfl
  exact absent (mem_map_of_mem member)

theorem lookup_present (present : key ∈ entries.map Prod.fst) :
    ∃ value, entries.lookup key = some value := by
  induction entries with
  | nil => cases present
  | cons entry rest ih =>
    rw [SortedMap.lookup_cons]
    by_cases here : key = entry.1
    · exact ⟨entry.2, if_pos here⟩
    · rw [if_neg here]
      exact ih ((mem_cons.mp present).resolve_left here)

theorem lookup_is_some : (entries.lookup key).isSome ↔ key ∈ entries.map Prod.fst := by
  constructor
  · intro found
    by_contra absent
    rw [lookup_absent absent] at found
    cases found
  · intro present
    obtain ⟨value, found⟩ := lookup_present present
    rw [found]
    rfl

theorem lookup_iff_mem (distinct : (entries.map Prod.fst).Nodup) :
    entries.lookup key = some value ↔ (key, value) ∈ entries := by
  constructor
  · exact SortedMap.mem_of_lookup
  · intro member
    induction entries with
    | nil => cases member
    | cons entry rest ih =>
      rw [map_cons, nodup_cons] at distinct
      rw [SortedMap.lookup_cons]
      rcases mem_cons.mp member with rfl | later
      · exact if_pos rfl
      · have different : key ≠ entry.1 := by
          intro same
          exact distinct.1 (mem_map.mpr ⟨(key, value), later, same⟩)
        rw [if_neg different]
        exact ih distinct.2 later

theorem lookup_filter (kept : Key → Bool) : (entries.filter fun entry => kept entry.1).lookup key =
      if kept key then entries.lookup key else none := by
  induction entries with
  | nil => simp
  | cons entry rest ih =>
    by_cases here : key = entry.1
    · subst here
      cases isKept : kept entry.1 with
      | true =>
        rw [filter_cons_of_pos (by simpa using isKept), SortedMap.lookup_cons,
          SortedMap.lookup_cons]
        simp
      | false =>
        rw [filter_cons_of_neg (by simp [isKept]), ih]
        simp [isKept]
    · rw [SortedMap.lookup_cons, if_neg here, ← ih, filter_cons]
      split_ifs
      · rw [SortedMap.lookup_cons, if_neg here]
      · rfl

end RustcCodegenJvm.Library.AssociationList
