import RustcCodegenJvm.Oomir.InstructionEquality

/-!
# Running retargeted instructions

An instruction with other targets reads, computes and assigns the same, and goes
to the new targets, as long as what instructions compute does not depend on the
labels they name.
-/

namespace RustcCodegenJvm.Program

open List

variable {rename : String → String}

/-- What instructions compute does not depend on the labels of blocks. -/
structure Environment.LabelBlind {Value World : Type} (environment : Environment Value World) : Prop where
  perform : ∀ (rename : String → String) (instruction : Instruction) values world,
    environment.perform (instruction.retarget rename).erase values world =
      environment.perform instruction.erase values world
  select : ∀ (rename : String → String) (instruction : Instruction) values,
    environment.select (instruction.retarget rename).erase values =
      environment.select instruction.erase values

variable {instructions others : List Instruction}

namespace Instruction

variable (rename) (instruction : Instruction)

@[simp] theorem reads_retarget : (instruction.retarget rename).reads = instruction.reads := by
  cases instruction with
  | scalar instruction => cases instruction <;> rfl
  | _ => rfl

@[simp] theorem dest_retarget : (instruction.retarget rename).dest = instruction.dest := by
  cases instruction with
  | scalar instruction => cases instruction <;> rfl
  | _ => rfl

def Role.retarget (rename : String → String) : Role → Role
  | .goto targets otherwise => .goto (targets.map rename) (rename otherwise)
  | role => role

theorem role_retarget : (instruction.retarget rename).role = instruction.role.retarget rename := by
  cases instruction with
  | scalar instruction =>
    cases instruction with
    | move dest src => cases src <;> rfl
    | switch discr targets otherwise => simp [retarget, role, Role.retarget]
    | _ => rfl
  | _ => rfl

variable {rename} {first second : Instruction}

theorem cases_eq {cases' others : List (Oomir.Constant × String)}
    (renamed : cases'.map (fun target => (target.1, rename target.2)) =
      others.map fun target => (target.1, rename target.2))
    (names : cases'.map Prod.snd = others.map Prod.snd) : cases' = others := by
  have values := congrArg (map Prod.fst) renamed
  simp only [map_map] at values
  exact (zip_of_prod values names).trans (zip_of_prod rfl rfl).symm

theorem eq_of_retarget (equal : first.same second = true)
    (retargeted : first.retarget rename = second.retarget rename) : first = second := by
  have names := same_targets equal
  unfold same at equal
  split at equal
  case h_1 instruction instruction' =>
    unfold Oomir.Instruction.same at equal
    split at equal
    case h_8 => simpa [targets] using names
    case h_9 =>
      simp only [targets, cons.injEq] at names
      simp only [retarget, scalar.injEq, Oomir.Instruction.branch.injEq] at retargeted
      simp [names, retargeted.1]
    case h_10 =>
      simp only [targets, cons.injEq] at names
      simp only [retarget, scalar.injEq, Oomir.Instruction.switch.injEq] at retargeted
      simp [names.1, retargeted.1, cases_eq retargeted.2.1 names.2]
    all_goals first | exact retargeted | cases equal
  case h_4 => simpa [targets] using names
  all_goals first | exact retargeted | cases equal

theorem same_list_eq_of_retarget {index : Nat} (equal : sameList instructions others = true)
    (retargeted : instructions[index]?.map (retarget rename) = others[index]?.map (retarget rename)) :
    instructions[index]? = others[index]? := by
  induction instructions generalizing others index with
  | nil =>
    cases others with
    | nil => rfl
    | cons => cases equal
  | cons instruction rest ih =>
    cases others with
    | nil => cases equal
    | cons instruction' rest' =>
      simp only [sameList, Bool.and_eq_true] at equal
      cases index with
      | zero =>
        simp only [getElem?_cons_zero, Option.map_some, Option.some.injEq] at retargeted ⊢
        exact eq_of_retarget equal.1 retargeted
      | succ index => exact ih equal.2 retargeted

end Instruction

section Runs

variable {Value World : Type} {environment : Environment Value World}

def Result.retarget (rename : String → String) : Result Value World → Result Value World
  | .goto target => .goto (rename target)
  | result => result

def Outcome.relabel (rename : String → String) : Outcome Value World → Outcome Value World
  | .running label index state => .running (rename label) index state
  | outcome => outcome

theorem act_retarget (blind : environment.LabelBlind) (instruction : Instruction) (values : List Value)
    (world : World) : act environment (instruction.retarget rename) values world =
      (act environment instruction values world).retarget rename := by
  unfold act
  rw [Instruction.role_retarget]
  cases instruction.role with
  | goto targets otherwise =>
    simp only [Instruction.Role.retarget, Result.retarget, blind.select, getD_eq_getElem?_getD,
      getElem?_map]
    cases targets[environment.select instruction.erase values]? <;> rfl
  | skip => rfl
  | rethrow | copy => cases values <;> rfl
  | «return» | throw | compute =>
    simp only [Instruction.Role.retarget, blind.perform, Instruction.dest_retarget]
    cases environment.perform instruction.erase values world <;> rfl

theorem execute_retarget (blind : environment.LabelBlind) (instruction : Instruction)
    (store : Store Value) (world : World) :
    execute environment (instruction.retarget rename) store world =
      (execute environment instruction store world).retarget rename := by
  unfold execute
  rw [Instruction.reads_retarget]
  cases instruction.reads.mapM store with
  | none => rfl
  | some values => exact act_retarget blind instruction values world

end Runs

/-! ### Regions -/

theorem after_retarget (active : Option String) (instruction : Instruction) :
    afterInstruction (active.map rename) (instruction.retarget rename) =
      (afterInstruction active instruction).map rename := by
  cases instruction with
  | scalar instruction => cases instruction <;> rfl
  | _ => rfl

theorem region_retarget (instructions : List Instruction) :
    region (instructions.map (Instruction.retarget rename)) = (region instructions).map rename := by
  induction instructions using reverseRecOn with
  | nil => rfl
  | append_singleton instructions instruction ih =>
    unfold region at ih ⊢
    simp only [map_append, map_cons, map_nil, foldl_append, foldl_cons,
      foldl_nil]
    rw [ih, after_retarget]

theorem fold_same {first second : List Instruction} (active : Option String) (index : Nat)
    (same : Instruction.sameList first second = true) :
    (first.take index).foldl afterInstruction active = (second.take index).foldl afterInstruction active := by
  induction first generalizing second active index with
  | nil =>
    cases second with
    | nil => rfl
    | cons => cases same
  | cons instruction rest ih =>
    cases second with
    | nil => cases same
    | cons instruction' rest' =>
      simp only [Instruction.sameList, Bool.and_eq_true] at same
      cases index with
      | zero => rfl
      | succ index =>
        simp only [take_succ_cons, foldl_cons]
        rw [Instruction.same_after active same.1]
        exact ih _ _ same.2

theorem proceed_retarget {Value World : Type} {label : String}
    {index : Nat} (sameRegion : region (others.take index) = (region (instructions.take index)).map rename)
    (state : State Value World) (result : Result Value World) :
    proceed others (rename label) index state (result.retarget rename) =
      (proceed instructions label index state result).relabel rename := by
  cases result with
  | thrown exception world =>
    simp only [proceed, Result.retarget, sameRegion]
    cases region (instructions.take index) <;> rfl
  | _ => rfl

end RustcCodegenJvm.Program
