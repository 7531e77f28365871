import Mathlib

/-!
# Successful runs of state-and-exception code

Inversion of the binds of `Except Error` and of `StateT State (Except Error)`: a
run that succeeds is a chain of runs that succeed. Proofs take a computation apart with these and do
not unfold the monad.
-/

namespace RustcCodegenJvm.Library.StateExcept

variable {State Error Value Result : Type}

theorem except_bind_ok {step : Except Error Value} {rest : Value → Except Error Result}
    {result : Result} (ran : (step >>= rest) = .ok result) :
    ∃ value, step = .ok value ∧ rest value = .ok result := by
  cases step with
  | error error => cases ran
  | ok value => exact ⟨value, rfl, ran⟩

variable {step : Value → Except Error Result}

theorem except_map_ok {values : List Value}
    {results : List Result} (ran : values.mapM step = .ok results) :
    List.Forall₂ (fun value result => step value = .ok result) values results := by
  induction values generalizing results with
  | nil =>
    cases ran
    exact .nil
  | cons value rest ih =>
    rw [List.mapM_cons] at ran
    obtain ⟨result, stepped, afterStep⟩ := except_bind_ok ran
    obtain ⟨others, mapped, returned⟩ := except_bind_ok afterStep
    cases returned
    exact .cons stepped (ih mapped)

theorem except_map_eq {expected : Value → Result}
    {values : List Value} {results : List Result} (ran : values.mapM step = .ok results)
    (known : ∀ value result, step value = .ok result → result = expected value) :
    results = values.map expected := by
  rw [← List.forall₂_eq_eq_eq, List.forall₂_map_right_iff]
  exact ((except_map_ok ran).imp fun value result stepped => known value result stepped).flip

variable {before after : State}

theorem bind_ok {step : StateT State (Except Error) Value}
    {rest : Value → StateT State (Except Error) Result} {result : Result}
    (ran : (step >>= rest).run before = .ok (result, after)) :
    ∃ value middle, step.run before = .ok (value, middle) ∧
      (rest value).run middle = .ok (result, after) := by
  cases first : step.run before with
  | error error =>
    rw [StateT.run_bind, first] at ran
    cases ran
  | ok pair =>
    rw [StateT.run_bind, first] at ran
    exact ⟨pair.1, pair.2, rfl, ran⟩

theorem pure_ok {value result : Value}
    (ran : (pure value : StateT State (Except Error) Value).run before = .ok (result, after)) :
    result = value ∧ after = before := by
  cases ran
  exact ⟨rfl, rfl⟩

theorem get_ok {result : State}
    (ran : (get : StateT State (Except Error) State).run before = .ok (result, after)) :
    result = before ∧ after = before := by
  cases ran
  exact ⟨rfl, rfl⟩

theorem modify_ok {change : State → State} {result : PUnit}
    (ran : (modify change : StateT State (Except Error) PUnit).run before = .ok (result, after)) :
    after = change before := by
  cases ran
  rfl

theorem throw_ok {error : Error} {result : Value}
    (ran : (throw error : StateT State (Except Error) Value).run before = .ok (result, after)) :
    False := by
  cases ran

end RustcCodegenJvm.Library.StateExcept
