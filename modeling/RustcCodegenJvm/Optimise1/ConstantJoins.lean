import RustcCodegenJvm.Optimise1.ConstantTermination

/-!
# Constants at joins

What the analysis finds at the start of a block is what every predecessor puts
out, as long as it meets no two constants that are equal and different. The
zeros of a float type are such a pair: at a join they are taken for one
constant, and the one of the first predecessor is kept.
-/

namespace RustcCodegenJvm.Optimise1

open Library
open Oomir hiding Instruction BasicBlock CodeBlock Function
open Program (Instruction BasicBlock CodeBlock Function)

def Admits (admitted : Constant → Prop) (state : ConstantMap) : Prop :=
  ∀ name constant, state.get name = some constant → admitted constant

/-- Admitted constants that are equal are identical, and blocks put out admitted constants. -/
structure TellsApart (library : FoldLibrary) (cfg : Cfg) (admitted : Constant → Prop) : Prop where
  apart : ∀ first second : Constant, admitted first → admitted second → first.same second → first = second
  kept : ∀ label instructions, cfg.instructionsOf label = some instructions →
    ∀ inState out, Admits admitted inState →
      calculateBlockOutputState library instructions inState = some out → Admits admitted out

section Joins

variable {library : FoldLibrary} {entry : String} {cfg : Cfg} {admitted : Constant → Prop}

theorem meet_admits {first second : ConstantMap} (isAdmitted : Admits admitted first) :
    Admits admitted (meetConstants first second) :=
  fun name constant found => isAdmitted name constant (get_meet.mp found).1

theorem constant_problem_exact (tells : TellsApart library cfg admitted) :
    ForwardFlow.Problem.Exact (constantProblem library entry cfg) (Admits admitted) where
  same := by
    intro first second firstAdmitted secondAdmitted same
    have ⟨sameSize, sameEntries⟩ := Bool.and_eq_true_iff.mp same
    apply FiniteMap.ext_of_subset (of_decide_eq_true sameSize)
    intro name constant found
    have entrySame := List.all_eq_true.mp sameEntries _ (FiniteMap.mem_entries.mpr found)
    obtain ⟨other, isOther, equal⟩ := (Option.any_eq_true _ _).mp entrySame
    rw [tells.apart constant other (firstAdmitted name constant found)
      (secondAdmitted name other isOther) equal]
    exact isOther
  transfer := by
    intro label inState out isAdmitted transferred
    obtain ⟨instructions, isBlock, ran⟩ := Option.bind_eq_some_iff.mp transferred
    exact tells.kept label instructions isBlock inState out isAdmitted ran
  meet _ _ firstAdmitted _ := meet_admits firstAdmitted

def Within (first second : ConstantMap) : Prop :=
  ∀ name constant, first.get name = some constant → second.get name = some constant

theorem constant_meets_within (tells : TellsApart library cfg admitted) :
    ForwardFlow.Problem.MeetsBelow (constantProblem library entry cfg) (Admits admitted) Within where
  refl _ _ _ found := found
  trans _ _ _ below above name constant found := above name constant (below name constant found)
  usableMeet _ _ firstAdmitted _ := meet_admits firstAdmitted
  left _ _ _ _ name constant found := (get_meet.mp found).1
  right first second firstAdmitted secondAdmitted name constant found := by
    obtain ⟨inFirst, other, inSecond, equal⟩ := get_meet.mp found
    rw [tells.apart constant other (firstAdmitted name constant inFirst)
      (secondAdmitted name other inSecond) equal]
    exact inSecond

theorem reachable_entry (noBlock : cfg.blocks.lookup entry = none) {label : String}
    (reachable : (constantProblem library entry cfg).Reachable label) : label = entry := by
  induction reachable with
  | entry => rfl
  | step _ isSuccessor ih =>
    rw [ih] at isSuccessor
    simp [constantProblem, successorsOf, noBlock] at isSuccessor

end Joins

/-- Both ways to the join assign the variable. -/
def joinOf (left right : Constant) : CodeBlock where
  entry := "entry"
  basicBlocks :=
    [("entry", ⟨"entry", [.scalar (.branch (.variable "c" .boolean) "left" "right")]⟩),
      ("left", ⟨"left", [.move "x" (.constant left), .jump "join"]⟩),
      ("right", ⟨"right", [.move "x" (.constant right), .jump "join"]⟩),
      ("join", ⟨"join", [.return (some (.variable "x" (Ty.fromConstant left)))]⟩)]

theorem join_reachable (left right : Constant) :
    (constantProblem .integral "entry" (buildCfg (joinOf left right))).Reachable "right" :=
  .step .entry (List.mem_cons_of_mem _ List.mem_cons_self)

theorem join_successor (left right : Constant) :
    "join" ∈ successorsOf (buildCfg (joinOf left right)).blocks "right" :=
  List.mem_cons_self

/-- A join of one integer admits only that. -/
theorem one_tells_apart :
    TellsApart .integral (buildCfg (joinOf (intConstant 1) (intConstant 1))) (· = intConstant 1) where
  apart first second isFirst isSecond _ := isFirst.trans isSecond.symm
  kept label instructions isBlock inState out isAdmitted ran := by
    obtain ⟨info, found, rfl⟩ := Option.map_eq_some_iff.mp isBlock
    have member := SortedMap.mem_of_lookup found
    have assigns : Admits (· = intConstant 1) (inState.insert "x" (intConstant 1)) := by
      intro name constant isFound
      rw [FiniteMap.get_insert] at isFound
      split_ifs at isFound
      · cases isFound
        rfl
      · exact isAdmitted name constant isFound
    simp only [buildCfg, joinOf, List.map_cons, List.map_nil, List.mem_cons, List.not_mem_nil, or_false,
      Prod.mk.injEq] at member
    rcases member with ⟨-, rfl⟩ | ⟨-, rfl⟩ | ⟨-, rfl⟩ | ⟨-, rfl⟩
    · cases ran
      exact isAdmitted
    · cases ran
      exact assigns
    · cases ran
      exact assigns
    · cases ran
      exact isAdmitted

def negativeZero : BitVec 64 := 0x8000000000000000

/-- The two ways bring the two zeros, and the join has the first. -/
def zerosJoin : CodeBlock := joinOf (.f64 0) (.f64 negativeZero)

end RustcCodegenJvm.Optimise1
