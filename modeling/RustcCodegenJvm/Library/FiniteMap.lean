import RustcCodegenJvm.Library.SortedMap

/-!
# Finite maps

Maps whose entries stand in the order of their keys, so that maps with the same
entries are equal.
-/

namespace RustcCodegenJvm.Library

structure FiniteMap (Key Value : Type) [LinearOrder Key] where
  entries : List (Key × Value)
  sorted : SortedMap.Sorted entries

namespace FiniteMap

variable {Key Value : Type} [LinearOrder Key]

def empty : FiniteMap Key Value := ⟨[], List.Pairwise.nil⟩

def get (map : FiniteMap Key Value) (key : Key) : Option Value := map.entries.lookup key

def insert (map : FiniteMap Key Value) (key : Key) (value : Value) : FiniteMap Key Value :=
  ⟨SortedMap.insert key value map.entries, SortedMap.insert_sorted key value map.sorted⟩

def retain (map : FiniteMap Key Value) (keep : Key → Value → Bool) : FiniteMap Key Value :=
  ⟨map.entries.filter fun entry => keep entry.1 entry.2, List.Pairwise.filter _ map.sorted⟩

def remove (map : FiniteMap Key Value) (key : Key) : FiniteMap Key Value := map.retain fun other _ => other ≠ key

def size (map : FiniteMap Key Value) : Nat := map.entries.length

def keys (map : FiniteMap Key Value) : List Key := map.entries.map Prod.fst

variable {map other : FiniteMap Key Value} {key query : Key} {value : Value}

theorem keys_nodup : map.keys.Nodup := by
  have distinct : map.keys.Pairwise (· < ·) := List.pairwise_map.mpr map.sorted
  exact distinct.imp fun less => ne_of_lt less

theorem mem_entries : (key, value) ∈ map.entries ↔ map.get key = some value := by
  constructor
  · intro member
    obtain ⟨entries, sorted⟩ := map
    unfold get
    induction entries with
    | nil => cases member
    | cons head rest ih =>
      obtain ⟨above, restSorted⟩ := List.pairwise_cons.mp sorted
      rw [SortedMap.lookup_cons]
      rcases List.mem_cons.mp member with here | later
      · rw [if_pos (congrArg Prod.fst here), ← here]
      · have different : key ≠ head.1 := ne_of_gt (above _ later)
        rw [if_neg different]
        exact ih restSorted later
  · exact SortedMap.mem_of_lookup

theorem mem_keys : key ∈ map.keys ↔ (map.get key).isSome := by
  rw [keys, List.mem_map, Option.isSome_iff_exists]
  constructor
  · rintro ⟨⟨_, value⟩, member, rfl⟩
    exact ⟨value, mem_entries.mp member⟩
  · rintro ⟨value, found⟩
    exact ⟨(key, value), mem_entries.mpr found, rfl⟩

@[simp] theorem get_empty : (empty : FiniteMap Key Value).get key = none := rfl

theorem get_insert : (map.insert key value).get query = if query = key then some value else map.get query :=
  SortedMap.lookup_insert key query value map.entries

@[simp] theorem get_retain {keep : Key → Value → Bool} :
    (map.retain keep).get key = some value ↔ map.get key = some value ∧ keep key value := by
  rw [← mem_entries, ← mem_entries]
  exact List.mem_filter

@[simp] theorem get_remove : (map.remove key).get query = if query = key then none else map.get query := by
  apply Option.ext
  intro value
  by_cases here : query = key <;> simp [remove, here]

theorem ext_of_subset (sameSize : map.size = other.size)
    (subset : ∀ key value, map.get key = some value → other.get key = some value) : map = other := by
  have distinct : map.entries.Nodup :=
    map.sorted.imp fun less same => absurd (congrArg Prod.fst same) (ne_of_lt less)
  have inside : map.entries ⊆ other.entries := by
    rintro ⟨key, value⟩ member
    exact mem_entries.mpr (subset key value (mem_entries.mp member))
  have permutes : map.entries.Perm other.entries :=
    (List.subperm_of_subset distinct inside).perm_of_length_le (le_of_eq sameSize.symm)
  have sameEntries : map.entries = other.entries := by
    apply permutes.eq_of_pairwise _ map.sorted other.sorted
    intro first second _ _ less greater
    exact absurd (less.trans greater) (lt_irrefl _)
  cases map
  cases other
  cases sameEntries
  rfl

variable (covers : ∀ key, (map.get key).isSome → (other.get key).isSome)

include covers

theorem size_le : map.size ≤ other.size := by
  have inside : map.keys ⊆ other.keys := fun key member => mem_keys.mpr (covers key (mem_keys.mp member))
  simpa [keys, size] using (List.subperm_of_subset keys_nodup inside).length_le

theorem covered
    (noLarger : other.size ≤ map.size) (found : (other.get key).isSome) : (map.get key).isSome := by
  have inside : map.keys ⊆ other.keys := fun key member => mem_keys.mpr (covers key (mem_keys.mp member))
  have permutes : map.keys.Perm other.keys :=
    (List.subperm_of_subset keys_nodup inside).perm_of_length_le (by simpa [keys, size] using noLarger)
  rw [← mem_keys, permutes.mem_iff]
  exact mem_keys.mpr found

end FiniteMap

end RustcCodegenJvm.Library
