import Mathlib

/-!
# Vectors that grow on demand

A list read with a default beyond its end, and written by growing it first. Only
the values that are read matter, so every write has one lemma about reading.
-/

namespace RustcCodegenJvm.Library.GrowingVector

open List

variable {Value : Type} (fill : Value)

def get (values : List Value) (index : Nat) : Value := values[index]?.getD fill

def resize (values : List Value) (length : Nat) : List Value :=
  values ++ List.replicate (length - values.length) fill

def update (values : List Value) (index : Nat) (change : Value → Value) : List Value :=
  (resize fill values (index + 1)).modify index change

def fillRange (values : List Value) (start length : Nat) (value : Value) : List Value :=
  (resize fill values (start + length)).mapIdx fun index old =>
    if start ≤ index ∧ index < start + length then value else old

variable {values : List Value}

theorem get_beyond {index : Nat} (beyond : values.length ≤ index) : get fill values index = fill := by
  rw [get, getElem?_eq_none beyond, Option.getD_none]

theorem get_inside {index : Nat} (inside : index < values.length) :
    values[index]? = some (get fill values index) := by
  rw [get, getElem?_eq_getElem inside, Option.getD_some]

theorem length_resize (values : List Value) (length : Nat) :
    length ≤ (resize fill values length).length := by
  simp only [resize, length_append, length_replicate]
  omega

@[simp] theorem length_update (index : Nat) (change : Value → Value) :
    (update fill values index change).length = max values.length (index + 1) := by
  simp only [update, resize, length_modify, length_append, length_replicate]
  omega

@[simp] theorem get_resize (length index : Nat) :
    get fill (resize fill values length) index = get fill values index := by
  unfold get resize
  by_cases inside : index < values.length
  · rw [getElem?_append_left inside]
  · rw [getElem?_append_right (by omega), getElem?_eq_none (by omega : values.length ≤ index),
      getElem?_replicate]
    split_ifs <;> rfl

@[simp] theorem get_update (index : Nat) (change : Value → Value) (other : Nat) :
    get fill (update fill values index change) other =
      if other = index then change (get fill values index) else get fill values other := by
  rw [get, update, getElem?_modify]
  by_cases same : other = index
  · subst same
    rw [get_inside fill (length_resize fill values (other + 1)), get_resize]
    simp
  · rw [← get_resize fill (index + 1) other]
    simp [same, Ne.symm same, get]

theorem update_congr {index : Nat} {change other : Value → Value}
    (same : change (get fill values index) = other (get fill values index)) :
    update fill values index change = update fill values index other := by
  apply ext_getElem?
  intro position
  rw [update, update, getElem?_modify, getElem?_modify]
  by_cases here : index = position
  · subst here
    rw [get_inside fill (length_resize fill values (index + 1)), get_resize]
    simpa using same
  · simp [here]

@[simp] theorem get_fill_range (start length : Nat) (value : Value) (index : Nat) :
    get fill (fillRange fill values start length value) index =
      if start ≤ index ∧ index < start + length then value else get fill values index := by
  rw [get, fillRange, getElem?_mapIdx, ← get_resize fill (start + length) index]
  by_cases inside : index < (resize fill values (start + length)).length
  · rw [get_inside fill inside]
    rfl
  · have long := length_resize fill values (start + length)
    rw [getElem?_eq_none (by omega), if_neg (by omega), get_beyond fill (by omega)]
    rfl

end RustcCodegenJvm.Library.GrowingVector
