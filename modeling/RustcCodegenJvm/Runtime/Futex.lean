import Mathlib

/-!
# Waking one waiter of a futex

The calls of `futexWait` in `ThreadSupport.java` on one address, in runs in which no timeout elapses.
The calls share the queue of the address, which stays in the table while they wait. What a call does
between two waits reads the word once; other threads may store any word in between. A call that was
notified returns from `Object.wait`, also when it is interrupted before it has the monitor again.
-/

namespace RustcCodegenJvm.Runtime.Futex

/-- Where a call is: before its first look at the word, in the wait set of the monitor, out of it by a
notification or by an interrupt, or past its end. -/
inductive Phase where
  | calling | waiting | notified | interrupted | returned
  deriving DecidableEq, Repr

structure Waiter where
  expected : BitVec 32
  timed : Bool

structure State (Call : Type) where
  word : BitVec 32
  phase : Call → Phase

section Steps

variable {Call : Type} [DecidableEq Call] (waiter : Call → Waiter)

def State.set (state : State Call) (call : Call) (phase : Phase) : State Call :=
  { state with phase := Function.update state.phase call phase }

/-- The test before the first wait. -/
def firstPhase (word : BitVec 32) (waiter : Waiter) : Phase :=
  if word ≠ waiter.expected then .returned else .waiting

/-- What follows a wait that was not interrupted: a call without a timeout returns, one with a timeout
looks at the word again. -/
def wokenPhase (word : BitVec 32) (waiter : Waiter) : Phase :=
  if ¬waiter.timed then .returned else if word ≠ waiter.expected then .returned else .waiting

inductive Step : State Call → State Call → Prop
  | store (state : State Call) (word : BitVec 32) : Step state { state with word }
  | call (state : State Call) (call : Call) (isCalling : state.phase call = .calling) :
    Step state (state.set call (firstPhase state.word (waiter call)))
  -- `futexWake` takes any call out of the wait set; so does a spurious wake-up
  | notify (state : State Call) (call : Call) (isWaiting : state.phase call = .waiting) :
    Step state (state.set call .notified)
  | interrupt (state : State Call) (call : Call) (isWaiting : state.phase call = .waiting) :
    Step state (state.set call .interrupted)
  | wake (state : State Call) (call : Call) (isNotified : state.phase call = .notified) :
    Step state (state.set call (wokenPhase state.word (waiter call)))
  | waitAgain (state : State Call) (call : Call) (isInterrupted : state.phase call = .interrupted) :
    Step state (state.set call .waiting)

/-- Whichever call a `futexWake` notifies, from then on some call that was waiting is not. -/
def KeepsWake (state : State Call) : Prop :=
  ∀ call, state.phase call = .waiting → ∀ later,
    Relation.ReflTransGen (Step waiter) (state.set call .notified) later →
      ∃ blocked, state.phase blocked = .waiting ∧ later.phase blocked ≠ .waiting

variable {waiter}

theorem notified_returns {call : Call} {state later : State Call} (untimed : (waiter call).timed = false)
    (stepped : Step waiter state later) (awake : state.phase call = .notified ∨ state.phase call = .returned) :
    later.phase call = .notified ∨ later.phase call = .returned := by
  have kept : ∀ other phase, other ≠ call → (state.set other phase).phase call = .notified ∨
      (state.set other phase).phase call = .returned := by
    intro other phase different
    simpa [State.set, different.symm] using awake
  cases stepped with
  | store => exact awake
  | wake other =>
    by_cases same : other = call
    · right
      simp [State.set, same, wokenPhase, untimed]
    · exact kept other _ same
  | call other before | notify other before | interrupt other before | waitAgain other before =>
    apply kept other
    rintro rfl
    simp [before] at awake

/-- One wake is never swallowed exactly if no waiting call has a timeout. -/
theorem single_wake_kept_iff (waiter : Call → Waiter) (state : State Call) :
    KeepsWake waiter state ↔ ∀ call, state.phase call = .waiting → (waiter call).timed = false := by
  constructor
  · intro keeps call isWaiting
    by_contra timed
    have stored : Step waiter _ _ := .store (state.set call .notified) (waiter call).expected
    have isNotified : (state.set call .notified).phase call = .notified := Function.update_self ..
    obtain ⟨blocked, wasWaiting, isNot⟩ := keeps call isWaiting _
      (.tail (.single stored) (.wake _ call isNotified))
    apply isNot
    by_cases same : blocked = call
    · simp [State.set, same, wokenPhase, timed]
    · simp [State.set, same, wasWaiting]
  · intro untimed call isWaiting later steps
    refine ⟨call, isWaiting, ?_⟩
    have awake : later.phase call = .notified ∨ later.phase call = .returned := by
      induction steps with
      | refl => exact .inl (Function.update_self ..)
      | tail _ stepped ih => exact notified_returns (untimed call isWaiting) stepped ih
    rcases awake with isNotified | isReturned
    · simp [isNotified]
    · simp [isReturned]

end Steps

/-- Two calls wait for the same word, the second one with a timeout. It is notified, finds the word
unchanged and waits again; the first one was never notified. -/
theorem timed_waiter_swallows_wake : ∃ later, Relation.ReflTransGen (Step fun timed => ⟨0, timed⟩)
        ((⟨0, fun _ => .waiting⟩ : State Bool).set true .notified) later ∧
      later.phase = fun _ => .waiting := by
  refine ⟨_, .single (.wake _ true rfl), ?_⟩
  funext call
  cases call <;> rfl

end RustcCodegenJvm.Runtime.Futex
