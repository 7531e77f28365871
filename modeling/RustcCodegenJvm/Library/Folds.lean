import Mathlib

/-!
# Left folds

What holds of the result of a fold, from what one step does.
-/

namespace RustcCodegenJvm.Library

open List

variable {State Element : Type} {step : State → Element → State} (holds : State → Prop)

theorem foldl_or_iff {adds : Element → Prop}
    (each : ∀ state element, holds (step state element) ↔ holds state ∨ adds element)
    (elements : List Element) (state : State) :
    holds (elements.foldl step state) ↔ holds state ∨ ∃ element ∈ elements, adds element := by
  induction elements generalizing state with
  | nil => simp
  | cons first rest ih => rw [foldl_cons, ih, each, exists_mem_cons_iff, or_assoc]

theorem foldl_and_iff {asks : Element → Prop}
    (each : ∀ state element, holds (step state element) ↔ holds state ∧ asks element)
    (elements : List Element) (state : State) :
    holds (elements.foldl step state) ↔ holds state ∧ ∀ element ∈ elements, asks element := by
  induction elements generalizing state with
  | nil => simp
  | cons first rest ih => rw [foldl_cons, ih, each, forall_mem_cons, and_assoc]

/-- What one element brings about and no element undoes. -/
theorem foldl_establishes {elements : List Element} {element : Element} (member : element ∈ elements)
    (brings : ∀ state, holds (step state element))
    (keeps : ∀ state other, holds state → holds (step state other)) (state : State) :
    holds (elements.foldl step state) := by
  obtain ⟨before, after, rfl⟩ := append_of_mem member
  rw [foldl_append, foldl_cons]
  exact foldlRecOn after step (brings _) fun state known other _ => keeps state other known

/-- A fold after which no change is reported has changed nothing. -/
theorem foldl_unchanged {reported : State → Bool} {passes : State → Element → Prop}
    (each : ∀ state element, reported (step state element) = false →
      step state element = state ∧ passes state element)
    {elements : List Element} {state : State} (unchanged : reported (elements.foldl step state) = false) :
    elements.foldl step state = state ∧ ∀ element ∈ elements, passes state element := by
  induction elements generalizing state with
  | nil => simp
  | cons first rest ih =>
    rw [foldl_cons] at unchanged ⊢
    obtain ⟨isRest, passed⟩ := ih unchanged
    rw [isRest] at unchanged
    obtain ⟨same, passes⟩ := each state first unchanged
    rw [same] at isRest passed ⊢
    exact ⟨isRest, forall_mem_cons.mpr ⟨passes, passed⟩⟩

end RustcCodegenJvm.Library
