import Mathlib

/-!
# Step functions that follow each other

A machine follows another along a map of states if each step of the other is one
or more of its own. Then both reach the same final states.
-/

namespace RustcCodegenJvm.Library

open Function

variable {First Second Third : Type}

/-- Each step on the left is at least one step on the right. -/
def Follows (first : First → First) (second : Second → Second) (image : First → Second) : Prop :=
  ∀ state, ∃ count, second^[count + 1] (image state) = image (first state)

namespace Follows

variable {first : First → First} {second : Second → Second} {third : Third → Third}
  {image : First → Second} {later : Second → Third}

theorem iterate (follows : Follows first second image) (count : Nat) (state : First) :
    ∃ more, count ≤ more ∧ second^[more] (image state) = image (first^[count] state) := by
  induction count generalizing state with
  | zero => exact ⟨0, Nat.le_refl 0, rfl⟩
  | succ count ih =>
    obtain ⟨steps, isStep⟩ := follows state
    obtain ⟨more, enough, isRest⟩ := ih (first state)
    refine ⟨more + (steps + 1), by omega, ?_⟩
    rw [iterate_add_apply, isStep, isRest, iterate_succ_apply]

theorem comp (head : Follows first second image) (tail : Follows second third later) :
    Follows first third (later ∘ image) := by
  intro state
  obtain ⟨steps, isStep⟩ := head state
  obtain ⟨more, enough, isRest⟩ := tail.iterate (steps + 1) (image state)
  obtain ⟨count, rfl⟩ : ∃ count, more = count + 1 := ⟨more - 1, by omega⟩
  exact ⟨count, by rw [comp_apply, isRest, isStep, comp_apply]⟩

theorem reaches_iff (follows : Follows first second image) {final : First}
    (stops : second (image final) = image final) (only : ∀ state, image state = image final → state = final)
    (state : First) :
    (∃ count, first^[count] state = final) ↔ ∃ count, second^[count] (image state) = image final := by
  constructor
  · rintro ⟨count, reached⟩
    obtain ⟨more, -, isImage⟩ := follows.iterate count state
    exact ⟨more, by rw [isImage, reached]⟩
  · rintro ⟨count, reached⟩
    obtain ⟨more, enough, isImage⟩ := follows.iterate count state
    obtain ⟨extra, rfl⟩ := Nat.exists_eq_add_of_le' enough
    rw [iterate_add_apply, reached, iterate_fixed stops] at isImage
    exact ⟨count, only _ isImage.symm⟩

end Follows

end RustcCodegenJvm.Library
