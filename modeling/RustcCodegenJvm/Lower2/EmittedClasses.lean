import Mathlib

/-!
# Emitted classes

`emit_generated_class` of `lower2.rs`: calls that generate classes share a registry, so that equal
classes are put out once. A call compares its bytecode with the variants of the same name, hash and
length, waiting for those that are still pending, and reserves a variant when none is left to compare.
The sections under the lock of the registry, and those under the lock of a variant, are one step each.
-/

namespace RustcCodegenJvm.Lower2.EmittedClasses

def bytecodeHash (bytecode : List UInt8) : UInt64 :=
  bytecode.foldl (fun hash byte => (hash ^^^ byte.toUInt64) * 0x100000001b3) 0xcbf29ce484222325

/-- `ready` is `none` while the variant is pending. -/
structure Variant where
  name : String
  hash : UInt64
  len : Nat
  ready : Option (List UInt8)

inductive Phase (Call : Type) where
  | looking (checked : List Call)
  | comparing (checked candidates : List Call)
  | waiting (checked : List Call) (candidate : Call) (rest : List Call)
  | reserved
  | returned

/-- A call reserves at most one variant, which is named after it. `variants` has them in order, and
`pushed` the calls that put out their class. -/
structure State (Call : Type) where
  variants : List Call
  variant : Call → Option Variant
  phase : Call → Phase Call
  pushed : List Call

section Steps

variable {Call : Type} [DecidableEq Call] (request : Call → String × List UInt8)

def State.start : State Call := ⟨[], fun _ => none, fun _ => .looking [], []⟩

def State.candidates (state : State Call) (call : Call) (checked : List Call) : List Call :=
  state.variants.filter fun key => key ∉ checked ∧ (state.variant key).any fun variant =>
    variant.name = (request call).1 ∧ variant.hash = bytecodeHash (request call).2 ∧
      variant.len = (request call).2.length

def State.move (state : State Call) (call : Call) (phase : Phase Call) : State Call :=
  { state with phase := Function.update state.phase call phase }

/-- What `notify_all` does to a call. -/
def Phase.notified (key : Call) : Phase Call → Phase Call
  | .waiting checked candidate rest =>
    if candidate = key then .comparing checked (candidate :: rest) else .waiting checked candidate rest
  | phase => phase

inductive Step (state : State Call) (call : Call) : State Call → Prop
  | look {checked} (isLooking : state.phase call = .looking checked)
      (found : state.candidates request call checked ≠ []) :
    Step state call (state.move call (.comparing checked (state.candidates request call checked)))
  | reserve {checked} (isLooking : state.phase call = .looking checked)
      (none : state.candidates request call checked = []) :
    Step state call { state.move call .reserved with
      variants := state.variants ++ [call]
      variant := Function.update state.variant call
        (some ⟨(request call).1, bytecodeHash (request call).2, (request call).2.length, .none⟩) }
  | publish {variant} (isReserved : state.phase call = .reserved) (own : state.variant call = some variant) :
    Step state call { state with
      variant := Function.update state.variant call (some { variant with ready := some (request call).2 })
      phase := Function.update (fun other => (state.phase other).notified call) call .returned
      pushed := call :: state.pushed }
  | wait {checked candidate rest variant} (isComparing : state.phase call = .comparing checked (candidate :: rest))
      (isVariant : state.variant candidate = some variant) (pending : variant.ready = none) :
    Step state call (state.move call (.waiting checked candidate rest))
  -- also without a notification
  | wake {checked candidate rest} (isWaiting : state.phase call = .waiting checked candidate rest) :
    Step state call (state.move call (.comparing checked (candidate :: rest)))
  | same {checked candidate rest variant} (isComparing : state.phase call = .comparing checked (candidate :: rest))
      (isVariant : state.variant candidate = some variant) (ready : variant.ready = some (request call).2) :
    Step state call (state.move call .returned)
  | differ {checked candidate rest variant previous}
      (isComparing : state.phase call = .comparing checked (candidate :: rest))
      (isVariant : state.variant candidate = some variant) (ready : variant.ready = some previous)
      (different : previous ≠ (request call).2) :
    Step state call (state.move call (.comparing (candidate :: checked) rest))
  | again {checked} (isComparing : state.phase call = .comparing checked []) :
    Step state call (state.move call (.looking checked))

def Leads (state later : State Call) : Prop := ∃ call, Step request state call later

def Phase.checked : Phase Call → List Call
  | .looking checked | .comparing checked _ | .waiting checked _ _ => checked
  | _ => []

def Phase.candidates : Phase Call → List Call
  | .comparing _ candidates => candidates
  | .waiting _ candidate rest => candidate :: rest
  | _ => []

structure Valid (state : State Call) : Prop where
  listed : ∀ key, state.variant key ≠ none → key ∈ state.variants
  own : ∀ key variant, state.variant key = some variant → variant.name = (request key).1 ∧
    variant.hash = bytecodeHash (request key).2 ∧ variant.len = (request key).2.length ∧
    (variant.ready = none ∧ state.phase key = .reserved ∨
      variant.ready = some (request key).2 ∧ key ∈ state.pushed)
  reserved : ∀ call, state.phase call = .reserved → (state.variant call).map Variant.ready = some none
  pushed : ∀ call ∈ state.pushed, state.phase call = .returned ∧ state.variant call ≠ none
  checked : ∀ call, ∀ key ∈ (state.phase call).checked, request key ≠ request call
  candidates : ∀ call, ∀ key ∈ (state.phase call).candidates,
    (state.variant key).map Variant.name = some (request call).1
  waiting : ∀ call checked candidate rest, state.phase call = .waiting checked candidate rest →
    (state.variant candidate).map Variant.ready = some none
  distinct : ∀ key other, state.variant key ≠ none → state.variant other ≠ none → key ≠ other →
    request key ≠ request other
  returned : ∀ call, state.phase call = .returned → ∃ key ∈ state.pushed, request key = request call
  once : state.pushed.Nodup

variable {request} {state later : State Call} {call : Call}

omit [DecidableEq Call] in
theorem start_valid : Valid request (State.start : State Call) := by
  constructor <;> simp [State.start, Phase.checked, Phase.candidates]

/-- Every variant like the class was compared with it. -/
theorem Valid.unlike (valid : Valid request state) {checked : List Call}
    (isLooking : state.phase call = .looking checked) (none : state.candidates request call checked = [])
    {key : Call} (isVariant : state.variant key ≠ .none) : request key ≠ request call := by
  intro same
  have unlisted := List.filter_eq_nil_iff.mp none key (valid.listed key isVariant)
  obtain ⟨variant, isVariant⟩ := Option.ne_none_iff_exists'.mp isVariant
  obtain ⟨isName, isHash, isLen, -⟩ := valid.own key variant isVariant
  have member : key ∈ checked := by simpa [isVariant, isName, isHash, isLen, same] using unlisted
  exact valid.checked call key (by rwa [isLooking]) same

/-- A call that is neither reserved nor returned goes on. -/
theorem Valid.move (valid : Valid request state) {phase : Phase Call}
    (active : state.phase call ≠ .reserved ∧ state.phase call ≠ .returned) (unreserved : phase ≠ .reserved)
    (checked : ∀ key ∈ phase.checked, request key ≠ request call)
    (candidates : ∀ key ∈ phase.candidates, (state.variant key).map Variant.name = some (request call).1)
    (waiting : ∀ checked candidate rest, phase = .waiting checked candidate rest →
      (state.variant candidate).map Variant.ready = some none)
    (returned : phase = .returned → ∃ key ∈ state.pushed, request key = request call) :
    Valid request (state.move call phase) := by
  obtain ⟨listed, own, isReserved, pushed, isChecked, areCandidates, isWaiting, distinct, isReturned, once⟩ := valid
  refine ⟨listed, ?_, ?_, ?_, ?_, ?_, ?_, distinct, ?_, once⟩
  all_goals
    simp only [State.move, Function.update_apply]
    grind

theorem Phase.notified_cases (key : Call) (phase : Phase Call) :
    (phase.notified key).checked = phase.checked ∧ (phase.notified key).candidates = phase.candidates ∧
      (phase.notified key = phase ∧ (∀ checked rest, phase ≠ .waiting checked key rest) ∨
        ∃ checked rest, phase = .waiting checked key rest ∧
          phase.notified key = .comparing checked (key :: rest)) := by
  fun_cases notified <;> grind [Phase.checked, Phase.candidates, notified]

theorem Step.valid (stepped : Step request state call later) (valid : Valid request state) :
    Valid request later := by
  have checked := valid.checked call
  have candidates := valid.candidates call
  cases stepped with
  | look isLooking found =>
    rw [isLooking] at checked
    refine valid.move (by simp [isLooking]) (by simp) checked ?_ (by simp) (by simp)
    intro key member
    have alike := (List.mem_filter.mp member).2
    simp only [decide_eq_true_eq, Option.any_eq_true] at alike
    grind
  | reserve isLooking none =>
    have unlike := @valid.unlike _ _ _ _ _ _ isLooking none
    obtain ⟨listed, own, isReserved, pushed, checked, candidates, waiting, distinct, returned, once⟩ := valid
    constructor
    all_goals
      simp only [State.move, Function.update_apply]
      grind [Phase.checked, Phase.candidates]
  | publish isReserved own =>
    obtain ⟨listed, owns, reserved, pushed, checked, candidates, waiting, distinct, returned, once⟩ := valid
    have notified := fun other => (state.phase other).notified_cases call
    constructor
    all_goals
      grind [Phase.checked, Phase.candidates]
  | wait isComparing isVariant pending =>
    rw [isComparing] at checked candidates
    exact valid.move (by simp [isComparing]) (by simp) checked candidates (by grind) (by simp)
  | wake isWaiting =>
    rw [isWaiting] at checked candidates
    exact valid.move (by simp [isWaiting]) (by simp) checked candidates (by simp) (by simp)
  | same isComparing isVariant ready =>
    rw [isComparing] at candidates
    refine valid.move (by simp [isComparing]) (by simp) (by simp [Phase.checked]) (by simp [Phase.candidates])
      (by simp) fun _ => ?_
    have owns := valid.own _ _ isVariant
    have named := candidates _ List.mem_cons_self
    grind
  | differ isComparing isVariant ready different =>
    rw [isComparing] at checked candidates
    have owns := valid.own _ _ isVariant
    refine valid.move (by simp [isComparing]) (by simp) (List.forall_mem_cons.mpr ⟨?_, checked⟩)
      (List.forall_mem_cons.mp candidates).2 (by simp) (by simp)
    grind
  | again isComparing =>
    rw [isComparing] at checked
    exact valid.move (by simp [isComparing]) (by simp) checked (by simp [Phase.candidates]) (by simp) (by simp)

theorem reachable_valid (run : Relation.ReflTransGen (Leads request) State.start state) :
    Valid request state := by
  induction run with
  | refl => exact start_valid
  | tail _ stepped valid =>
    obtain ⟨call, stepped⟩ := stepped
    exact stepped.valid valid

def Blocked (state : State Call) (call : Call) : Prop :=
  ∃ checked candidate rest, state.phase call = .waiting checked candidate rest

theorem Valid.publishes (valid : Valid request state) (isReserved : state.phase call = .reserved) :
    ¬Blocked state call ∧ ∃ later, Step request state call later := by
  obtain ⟨variant, isVariant, -⟩ := Option.map_eq_some_iff.mp (valid.reserved call isReserved)
  exact ⟨by simp [Blocked, isReserved], _, .publish isReserved isVariant⟩

theorem Valid.goes_on (valid : Valid request state) (unfinished : state.phase call ≠ .returned) :
    ∃ other, (other = call ∨ state.phase other = .reserved) ∧ ¬Blocked state other ∧
      ∃ later, Step request state other later := by
  cases isPhase : state.phase call with
  | waiting checked candidate rest =>
    obtain ⟨variant, isVariant, pending⟩ := Option.map_eq_some_iff.mp (valid.waiting _ _ _ _ isPhase)
    have isReserved : state.phase candidate = .reserved := by grind [valid.own candidate variant isVariant]
    exact ⟨candidate, .inr isReserved, valid.publishes isReserved⟩
  | reserved => exact ⟨call, .inl rfl, valid.publishes isPhase⟩
  | returned => exact absurd isPhase unfinished
  | looking checked =>
    refine ⟨call, .inl rfl, by simp [Blocked, isPhase], ?_⟩
    by_cases none : state.candidates request call checked = []
    · exact ⟨_, .reserve isPhase none⟩
    · exact ⟨_, .look isPhase none⟩
  | comparing checked candidates =>
    refine ⟨call, .inl rfl, by simp [Blocked, isPhase], ?_⟩
    cases candidates with
    | nil => exact ⟨_, .again isPhase⟩
    | cons candidate rest =>
      have known := valid.candidates call candidate (by simp [isPhase, Phase.candidates])
      obtain ⟨variant, isVariant, -⟩ := Option.map_eq_some_iff.mp known
      cases ready : variant.ready with
      | none => exact ⟨_, .wait isPhase isVariant ready⟩
      | some previous =>
        by_cases same : previous = (request call).2
        · exact ⟨_, .same isPhase isVariant (same ▸ ready)⟩
        · exact ⟨_, .differ isPhase isVariant ready same⟩

/-- Of the calls for a class one puts it out, and no call returns before the class is ready. While a
call is unfinished, it or one that has reserved a variant can go on. -/
theorem each_class_emitted_once (run : Relation.ReflTransGen (Leads request) State.start state) :
    (state.pushed.Pairwise fun first second => request first ≠ request second) ∧
      (∀ call, state.phase call = .returned → ∃ key ∈ state.pushed, request key = request call ∧
        (state.variant key).map Variant.ready = some (some (request call).2)) ∧
      ∀ call, state.phase call ≠ .returned → ∃ other, (other = call ∨ state.phase other = .reserved) ∧
        ¬Blocked state other ∧ ∃ later, Step request state other later := by
  have valid := reachable_valid run
  refine ⟨valid.once.imp_of_mem ?_, fun call isReturned => ?_, fun call => valid.goes_on⟩
  · intro first second isFirst isSecond
    exact valid.distinct first second (valid.pushed first isFirst).2 (valid.pushed second isSecond).2
  · obtain ⟨key, isPushed, same⟩ := valid.returned call isReturned
    obtain ⟨keyReturned, isVariant⟩ := valid.pushed key isPushed
    obtain ⟨variant, isVariant⟩ := Option.ne_none_iff_exists'.mp isVariant
    exact ⟨key, isPushed, same, by grind [valid.own key variant isVariant]⟩

end Steps

/-- Two calls for one class: the second waits for the first. -/
theorem each_class_emitted_once_of_two :
    ∃ state : State Bool, state.pushed = [false] ∧ state.phase true = .returned ∧
      ∃ key ∈ state.pushed, (state.variant key).map Variant.ready = some (some [1]) := by
  have start : Relation.ReflTransGen (Leads fun _ : Bool => ("A", [1])) State.start _ := .refl
  have looked := (start.tail ⟨false, .reserve rfl rfl⟩).tail ⟨true, .look rfl (by decide)⟩
  have run := ((looked.tail ⟨true, .wait rfl rfl rfl⟩).tail ⟨false, .publish rfl rfl⟩).tail
    ⟨true, .same rfl rfl rfl⟩
  obtain ⟨key, isPushed, -, ready⟩ := (each_class_emitted_once run).2.1 true rfl
  exact ⟨_, rfl, rfl, key, isPushed, ready⟩

end RustcCodegenJvm.Lower2.EmittedClasses
