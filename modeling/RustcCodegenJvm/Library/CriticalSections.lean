import Mathlib

/-!
# Critical sections

Threads run jobs on a shared memory: a job takes its locks, reads and writes
places one at a time, and gives the locks back. Any other thread may move in
between. If every two jobs that could disturb each other have a lock in common,
then every run gives the results and the memory of the jobs taken one after the
other, in an order that keeps the order of each thread.
-/

namespace RustcCodegenJvm.Library.CriticalSections

open Function List

/-! ### Programs -/

/-- A sequence of accesses to shared places, each of which may depend on what was read. -/
inductive Program (Place Value Result : Type)
  | done (result : Result)
  | read (place : Place) (next : Value → Program Place Value Result)
  | write (place : Place) (value : Value) (next : Program Place Value Result)

namespace Program

variable {Place Value Result Next : Type}

def bind : Program Place Value Result → (Result → Program Place Value Next) →
    Program Place Value Next
  | done result, rest => rest result
  | read place next, rest => read place fun value => (next value).bind rest
  | write place value next, rest => write place value (next.bind rest)

instance : Monad (Program Place Value) where
  pure := done
  bind := bind

def Within (touches writes : Place → Prop) : Program Place Value Result → Prop
  | done _ => True
  | read place next => touches place ∧ ∀ value, (next value).Within touches writes
  | write place _ next => touches place ∧ writes place ∧ next.Within touches writes

variable {touches writes : Place → Prop} {program : Program Place Value Result}
  (within : program.Within touches writes)

include within

theorem Within.bind {rest : Result → Program Place Value Next} (restWithin : ∀ result, (rest result).Within touches writes) :
    (program >>= rest).Within touches writes := by
  induction program with
  | done result => exact restWithin result
  | read place next ih => exact ⟨within.1, fun value => ih value (within.2 value)⟩
  | write place value next ih => exact ⟨within.1, within.2.1, ih within.2.2⟩

theorem Within.mono {wider more : Place → Prop} (touched : ∀ place, touches place → wider place)
    (written : ∀ place, writes place → more place) : program.Within wider more := by
  induction program with
  | done result => exact trivial
  | read place next ih => exact ⟨touched _ within.1, fun value => ih value (within.2 value)⟩
  | write place value next ih => exact ⟨touched _ within.1, written _ within.2.1, ih within.2.2⟩

omit within

variable [DecidableEq Place]

def eval : Program Place Value Result → (Place → Value) → (Place → Value) × Result
  | done result, memory => (memory, result)
  | read place next, memory => (next (memory place)).eval memory
  | write place value next, memory => next.eval (Function.update memory place value)

theorem eval_bind (program : Program Place Value Result) (rest : Result → Program Place Value Next)
    (memory : Place → Value) :
    (program >>= rest).eval memory = (rest (program.eval memory).2).eval (program.eval memory).1 := by
  induction program generalizing memory with
  | done result => rfl
  | read place next ih => exact ih _ memory
  | write place value next ih => exact ih _

def Agrees (places : Place → Prop) (first second : Place → Value) : Prop :=
  ∀ place, places place → first place = second place

include within

theorem eval_agrees {first second : Place → Value} (agrees : Agrees touches first second) :
    (program.eval first).2 = (program.eval second).2 ∧
      Agrees touches (program.eval first).1 (program.eval second).1 := by
  induction program generalizing first second with
  | done result => exact ⟨rfl, agrees⟩
  | read place next ih =>
    simp only [eval, agrees place within.1]
    exact ih _ (within.2 _) agrees
  | write place value next ih =>
    apply ih within.2.2
    intro other touched
    by_cases same : other = place
    · simp [same]
    · simp [same, agrees other touched]

theorem eval_outside {memory : Place → Value} {place : Place} (outside : ¬writes place) :
    (program.eval memory).1 place = memory place := by
  induction program generalizing memory with
  | done result => rfl
  | read other next ih => exact ih _ (within.2 _)
  | write other value next ih =>
    have different : place ≠ other := by
      intro same
      exact outside (same ▸ within.2.1)
    rw [eval, ih within.2.2, update_of_ne different]

end Program

/-! ### Jobs and threads -/

/-- A program with the locks it runs under and the places it may access. -/
structure Job (Place Value Result Lock : Type) where
  locks : List Lock
  body : Program Place Value Result
  touches : Place → Prop
  writes : Place → Prop
  within : body.Within touches writes
  writes_touch : ∀ place, writes place → touches place

inductive Phase (Place Value Result Lock : Type)
  | idle
  | acquiring (job : Job Place Value Result Lock) (taken wanted : List Lock)
  | running (job : Job Place Value Result Lock) (rest : Program Place Value Result)
  | releasing (held : List Lock)

namespace Phase

variable {Place Value Result Lock : Type}

def held : Phase Place Value Result Lock → List Lock
  | idle => []
  | acquiring _ taken _ => taken
  | running job _ => job.locks
  | releasing rest => rest

def Holds (phase : Phase Place Value Result Lock) (lock : Lock) : Prop := lock ∈ phase.held

def unfinished : Phase Place Value Result Lock → List (Job Place Value Result Lock)
  | acquiring job _ _ | running job _ => [job]
  | _ => []

end Phase

structure ThreadState (Place Value Result Lock : Type) where
  phase : Phase Place Value Result Lock
  pending : List (Job Place Value Result Lock)
  results : List Result

structure Config (Thread Place Value Result Lock : Type) where
  memory : Place → Value
  thread : Thread → ThreadState Place Value Result Lock

section Steps

variable {Thread Place Value Result Lock : Type} [DecidableEq Place]

/-- What a thread may do while the locks that are busy are held by others. -/
inductive LocalStep (memory : Place → Value) (busy : Lock → Prop) :
    ThreadState Place Value Result Lock → (Place → Value) → ThreadState Place Value Result Lock → Prop
  | start (job : Job Place Value Result Lock) (pending : List (Job Place Value Result Lock))
      (results : List Result) :
    LocalStep memory busy ⟨.idle, job :: pending, results⟩ memory
      ⟨.acquiring job [] job.locks, pending, results⟩
  | acquire (job : Job Place Value Result Lock) (lock : Lock) (taken wanted : List Lock)
      (pending : List (Job Place Value Result Lock)) (results : List Result) (free : ¬busy lock) :
    LocalStep memory busy ⟨.acquiring job taken (lock :: wanted), pending, results⟩ memory
      ⟨.acquiring job (lock :: taken) wanted, pending, results⟩
  | enter (job : Job Place Value Result Lock) (taken : List Lock)
      (pending : List (Job Place Value Result Lock)) (results : List Result) :
    LocalStep memory busy ⟨.acquiring job taken [], pending, results⟩ memory
      ⟨.running job job.body, pending, results⟩
  | read (job : Job Place Value Result Lock) (place : Place)
      (next : Value → Program Place Value Result) (pending : List (Job Place Value Result Lock))
      (results : List Result) :
    LocalStep memory busy ⟨.running job (.read place next), pending, results⟩ memory
      ⟨.running job (next (memory place)), pending, results⟩
  | write (job : Job Place Value Result Lock) (place : Place) (value : Value)
      (next : Program Place Value Result) (pending : List (Job Place Value Result Lock))
      (results : List Result) :
    LocalStep memory busy ⟨.running job (.write place value next), pending, results⟩
      (Function.update memory place value) ⟨.running job next, pending, results⟩
  | finish (job : Job Place Value Result Lock) (result : Result)
      (pending : List (Job Place Value Result Lock)) (results : List Result) :
    LocalStep memory busy ⟨.running job (.done result), pending, results⟩ memory
      ⟨.releasing job.locks, pending, results ++ [result]⟩
  | release (lock : Lock) (held : List Lock) (pending : List (Job Place Value Result Lock))
      (results : List Result) :
    LocalStep memory busy ⟨.releasing (lock :: held), pending, results⟩ memory
      ⟨.releasing held, pending, results⟩
  | leave (pending : List (Job Place Value Result Lock)) (results : List Result) :
    LocalStep memory busy ⟨.releasing [], pending, results⟩ memory ⟨.idle, pending, results⟩

variable [DecidableEq Thread]

def Step (before after : Config Thread Place Value Result Lock) : Prop :=
  ∃ thread memory state,
    LocalStep before.memory (fun lock => ∃ other, other ≠ thread ∧ (before.thread other).phase.Holds lock)
      (before.thread thread) memory state ∧
    after = ⟨memory, Function.update before.thread thread state⟩

def Config.start (memory : Place → Value) (calls : Thread → List (Job Place Value Result Lock)) :
    Config Thread Place Value Result Lock :=
  ⟨memory, fun thread => ⟨.idle, calls thread, []⟩⟩

def Config.Finished (config : Config Thread Place Value Result Lock) : Prop :=
  ∀ thread, (config.thread thread).phase.unfinished = [] ∧ (config.thread thread).pending = []

/-! ### Schedules -/

section Schedules

variable [Fintype Thread] [DecidableEq Lock]

omit [DecidableEq Place] in
def Config.busy (config : Config Thread Place Value Result Lock) (thread : Thread) (lock : Lock) : Bool :=
  decide (∃ other, other ≠ thread ∧ lock ∈ (config.thread other).phase.held)

/-- The one thing a thread can do next, if it is not blocked or finished. -/
def ThreadState.next (memory : Place → Value) (busy : Lock → Bool) :
    ThreadState Place Value Result Lock → Option ((Place → Value) × ThreadState Place Value Result Lock)
  | ⟨.idle, [], _⟩ => none
  | ⟨.idle, job :: pending, results⟩ => some (memory, ⟨.acquiring job [] job.locks, pending, results⟩)
  | ⟨.acquiring job taken (lock :: wanted), pending, results⟩ =>
    if busy lock then none else some (memory, ⟨.acquiring job (lock :: taken) wanted, pending, results⟩)
  | ⟨.acquiring job _ [], pending, results⟩ => some (memory, ⟨.running job job.body, pending, results⟩)
  | ⟨.running job (.read place next), pending, results⟩ =>
    some (memory, ⟨.running job (next (memory place)), pending, results⟩)
  | ⟨.running job (.write place value next), pending, results⟩ =>
    some (Function.update memory place value, ⟨.running job next, pending, results⟩)
  | ⟨.running job (.done result), pending, results⟩ =>
    some (memory, ⟨.releasing job.locks, pending, results ++ [result]⟩)
  | ⟨.releasing (_ :: held), pending, results⟩ => some (memory, ⟨.releasing held, pending, results⟩)
  | ⟨.releasing [], pending, results⟩ => some (memory, ⟨.idle, pending, results⟩)

/-- The named threads move in turn; a blocked one passes. -/
def Config.schedule (config : Config Thread Place Value Result Lock) :
    List Thread → Config Thread Place Value Result Lock
  | [] => config
  | thread :: rest =>
    match (config.thread thread).next config.memory (config.busy thread) with
    | some (memory, state) => Config.schedule ⟨memory, Function.update config.thread thread state⟩ rest
    | none => config.schedule rest

omit [DecidableEq Lock] in
theorem ThreadState.next_step {memory after : Place → Value} {busy : Lock → Bool}
    {before state : ThreadState Place Value Result Lock} (moved : before.next memory busy = some (after, state)) :
    LocalStep memory (fun lock => busy lock = true) before after state := by
  unfold ThreadState.next at moved
  split at moved
  · exact absurd moved (by simp)
  · cases moved
    exact .start _ _ _
  · split at moved
    · exact absurd moved (by simp)
    · next free =>
      cases moved
      exact .acquire _ _ _ _ _ _ free
  · cases moved
    exact .enter _ _ _ _
  · cases moved
    exact .read _ _ _ _ _
  · cases moved
    exact .write _ _ _ _ _ _
  · cases moved
    exact .finish _ _ _ _
  · cases moved
    exact .release _ _ _ _
  · cases moved
    exact .leave _ _

theorem Config.schedule_run (config : Config Thread Place Value Result Lock) (threads : List Thread) :
    Relation.ReflTransGen Step config (config.schedule threads) := by
  induction threads generalizing config with
  | nil => exact .refl
  | cons thread rest ih =>
    rw [Config.schedule]
    split
    · next memory state moved =>
      have step := ThreadState.next_step moved
      have isBusy : (fun lock => config.busy thread lock = true) =
          fun lock => ∃ other, other ≠ thread ∧ (config.thread other).phase.Holds lock := by
        simp [Config.busy, Phase.Holds]
      rw [isBusy] at step
      exact .head ⟨thread, memory, state, step, rfl⟩ (ih _)
    · exact ih config

end Schedules

/-! ### Sequential runs -/

def sequential (memory : Place → Value) :
    List (Thread × Job Place Value Result Lock) → (Place → Value) × List (Thread × Result)
  | [] => (memory, [])
  | (thread, job) :: rest =>
    ((sequential (job.body.eval memory).1 rest).1,
      (thread, (job.body.eval memory).2) :: (sequential (job.body.eval memory).1 rest).2)

omit [DecidableEq Thread] in
theorem sequential_append (memory : Place → Value) (order : List (Thread × Job Place Value Result Lock))
    (thread : Thread) (job : Job Place Value Result Lock) :
    sequential memory (order ++ [(thread, job)]) = ((job.body.eval (sequential memory order).1).1,
        (sequential memory order).2 ++ [(thread, (job.body.eval (sequential memory order).1).2)]) := by
  induction order generalizing memory with
  | nil => rfl
  | cons first rest ih =>
    rw [cons_append, sequential, ih]
    rfl

def ofThread {Entry : Type} (thread : Thread) (entries : List (Thread × Entry)) : List Entry :=
  entries.filterMap fun entry => if entry.1 = thread then some entry.2 else none

theorem of_thread_append {Entry : Type} (thread other : Thread) (entries : List (Thread × Entry))
    (entry : Entry) : ofThread thread (entries ++ [(other, entry)]) =
      if other = thread then ofThread thread entries ++ [entry] else ofThread thread entries := by
  unfold ofThread
  split
  · next same => simp [same]
  · next different => simp [different]

theorem two_entries {Entry : Type} {order : List (Bool × Entry)} {first second : Entry}
    (isFirst : ofThread false order = [first]) (isSecond : ofThread true order = [second]) :
    order = [(false, first), (true, second)] ∨ order = [(true, second), (false, first)] := by
  have empty : ∀ entries : List (Bool × Entry), ofThread false entries = [] → ofThread true entries = [] →
      entries = [] := by
    intro entries noneFalse noneTrue
    cases entries with
    | nil => rfl
    | cons entry rest =>
      obtain ⟨thread, value⟩ := entry
      cases thread <;> simp [ofThread] at noneFalse noneTrue
  cases order with
  | nil => simp [ofThread] at isFirst
  | cons entry rest =>
    obtain ⟨thread, value⟩ := entry
    cases rest with
    | nil => cases thread <;> simp [ofThread] at isFirst isSecond
    | cons next others =>
      obtain ⟨other, nextValue⟩ := next
      cases thread <;> cases other <;> simp [ofThread] at isFirst isSecond
      · left
        simp [isFirst.1, isSecond.1, empty others (by simpa [ofThread] using isFirst.2)
          (by simpa [ofThread] using isSecond.2)]
      · right
        simp [isFirst.1, isSecond.1, empty others (by simpa [ofThread] using isFirst.2)
          (by simpa [ofThread] using isSecond.2)]

/-! ### Linearization -/

/-- Neither job writes what the other one touches. -/
def Independent (first second : Job Place Value Result Lock) : Prop :=
  ∀ place, ¬(first.writes place ∧ second.touches place) ∧ ¬(second.writes place ∧ first.touches place)

/-- Jobs of different threads are independent or have a lock in common. -/
def Guarded (calls : Thread → List (Job Place Value Result Lock)) : Prop :=
  ∀ first second, first ≠ second → ∀ job ∈ calls first, ∀ other ∈ calls second,
    Independent job other ∨ ∃ lock, lock ∈ job.locks ∧ lock ∈ other.locks

def Exclusive (threads : Thread → ThreadState Place Value Result Lock) : Prop :=
  ∀ first second lock, first ≠ second → (threads first).phase.Holds lock →
    ¬(threads second).phase.Holds lock

def Untouched (threads : Thread → ThreadState Place Value Result Lock) (place : Place) : Prop :=
  ∀ thread job rest, (threads thread).phase = .running job rest → ¬job.writes place

section Updates

omit [DecidableEq Place]

variable {threads : Thread → ThreadState Place Value Result Lock} {thread : Thread}
  {state : ThreadState Place Value Result Lock}

theorem Exclusive.update (exclusive : Exclusive threads)
    (holds : ∀ lock, state.phase.Holds lock → (threads thread).phase.Holds lock ∨
      ∀ other, other ≠ thread → ¬(threads other).phase.Holds lock) :
    Exclusive (Function.update threads thread state) := by
  have alone : ∀ lock, state.phase.Holds lock → ∀ other, other ≠ thread →
      ¬(threads other).phase.Holds lock := by
    intro lock isHeld other different
    rcases holds lock isHeld with before | free
    · exact exclusive thread other lock different.symm before
    · exact free other different
  intro first second lock different firstHolds
  by_cases isFirst : first = thread
  · subst isFirst
    rw [update_self] at firstHolds
    rw [update_of_ne different.symm]
    exact alone lock firstHolds second different.symm
  · rw [update_of_ne isFirst] at firstHolds
    by_cases isSecond : second = thread
    · subst isSecond
      rw [update_self]
      exact fun secondHolds => alone lock secondHolds first isFirst firstHolds
    · rw [update_of_ne isSecond]
      exact exclusive first second lock different firstHolds

theorem Untouched.before {place : Place} (untouched : Untouched (Function.update threads thread state) place)
    (keeps : ∀ job rest, (threads thread).phase = .running job rest → job.writes place →
      ∃ next, state.phase = .running job next) : Untouched threads place := by
  intro other job rest running writes
  by_cases same : other = thread
  · subst same
    obtain ⟨next, isRunning⟩ := keeps job rest running writes
    exact untouched other job next (by rw [update_self, isRunning]) writes
  · exact untouched other job rest (by rw [update_of_ne same, running]) writes

end Updates

/-- The jobs finished so far, in the order in which they finished, explain the configuration: a
running job is on the way to what it would do to the memory of the finished ones. -/
structure Linearized (calls : Thread → List (Job Place Value Result Lock)) (initial : Place → Value)
    (config : Config Thread Place Value Result Lock)
    (order : List (Thread × Job Place Value Result Lock)) : Prop where
  programOrder : ∀ thread, ofThread thread order ++ (config.thread thread).phase.unfinished ++
    (config.thread thread).pending = calls thread
  results : ∀ thread, (config.thread thread).results = ofThread thread (sequential initial order).2
  exclusive : Exclusive config.thread
  acquired : ∀ thread job taken wanted, (config.thread thread).phase = .acquiring job taken wanted →
    ∀ lock ∈ job.locks, lock ∈ taken ∨ lock ∈ wanted
  progress : ∀ thread job rest, (config.thread thread).phase = .running job rest →
    rest.Within job.touches job.writes ∧
      (rest.eval config.memory).2 = (job.body.eval (sequential initial order).1).2 ∧
      Program.Agrees job.touches (rest.eval config.memory).1 (job.body.eval (sequential initial order).1).1
  settled : ∀ place, Untouched config.thread place →
    config.memory place = (sequential initial order).1 place

variable {after : Config Thread Place Value Result Lock} {otherJob : Job Place Value Result Lock}

namespace Linearized

variable {calls : Thread → List (Job Place Value Result Lock)} {initial : Place → Value}
  {config : Config Thread Place Value Result Lock}
  {order : List (Thread × Job Place Value Result Lock)} {thread : Thread}
  {state : ThreadState Place Value Result Lock}

variable {job : Job Place Value Result Lock} {pending : List (Job Place Value Result Lock)}
  {results : List Result}

/-- What is left of a running job does to the memory what the job does to the memory of the finished
ones. -/
def Progress (initial memory : Place → Value) (order : List (Thread × Job Place Value Result Lock))
    (job : Job Place Value Result Lock) (rest : Program Place Value Result) : Prop :=
  rest.Within job.touches job.writes ∧
    (rest.eval memory).2 = (job.body.eval (sequential initial order).1).2 ∧
    Program.Agrees job.touches (rest.eval memory).1 (job.body.eval (sequential initial order).1).1

variable (linearized : Linearized calls initial config order)

include linearized

theorem unfinished_mem (unfinished : job ∈ (config.thread thread).phase.unfinished) :
    job ∈ calls thread := by
  rw [← linearized.programOrder thread]
  simp [unfinished]

variable (guarded : Guarded calls)

include guarded

/-- Two jobs of which one holds all its locks and the other runs are independent. -/
theorem independent {other : Thread}
    {rest : Program Place Value Result} (different : thread ≠ other)
    (unfinished : job ∈ (config.thread thread).phase.unfinished)
    (holds : ∀ lock ∈ job.locks, (config.thread thread).phase.Holds lock)
    (running : (config.thread other).phase = .running otherJob rest) : Independent job otherJob := by
  have isOther : otherJob ∈ (config.thread other).phase.unfinished := by
    rw [running]
    exact mem_singleton_self _
  rcases guarded thread other different job (linearized.unfinished_mem unfinished) otherJob
    (linearized.unfinished_mem isOther) with isIndependent | ⟨lock, inJob, inOther⟩
  · exact isIndependent
  · have otherHolds : (config.thread other).phase.Holds lock := by
      rw [running]
      exact inOther
    exact absurd otherHolds (linearized.exclusive thread other lock different (holds lock inJob))

theorem running_independent {other : Thread}
    {rest otherRest : Program Place Value Result} (different : thread ≠ other)
    (running : (config.thread thread).phase = .running job rest)
    (otherRunning : (config.thread other).phase = .running otherJob otherRest) :
    Independent job otherJob := by
  apply linearized.independent guarded different _ _ otherRunning
  · rw [running]
    exact mem_singleton_self _
  · rw [running]
    exact fun _ member => member

omit guarded

theorem update {memory : Place → Value} {later : List (Thread × Job Place Value Result Lock)}
    (isProgram : ofThread thread later ++ state.phase.unfinished ++ state.pending = calls thread)
    (isResults : state.results = ofThread thread (sequential initial later).2)
    (others : ∀ other, other ≠ thread → ofThread other later = ofThread other order ∧
      ofThread other (sequential initial later).2 = ofThread other (sequential initial order).2 ∧
      ∀ job rest, (config.thread other).phase = .running job rest → Progress initial memory later job rest)
    (holds : ∀ lock, state.phase.Holds lock → (config.thread thread).phase.Holds lock ∨
      ∀ other, other ≠ thread → ¬(config.thread other).phase.Holds lock)
    (acquired : ∀ job taken wanted, state.phase = .acquiring job taken wanted →
      ∀ lock ∈ job.locks, lock ∈ taken ∨ lock ∈ wanted)
    (progress : ∀ job rest, state.phase = .running job rest → Progress initial memory later job rest)
    (settled : ∀ place, Untouched (Function.update config.thread thread state) place →
      memory place = (sequential initial later).1 place) :
    Linearized calls initial ⟨memory, Function.update config.thread thread state⟩ later := by
  constructor
  · apply (forall_update_iff config.thread fun thread state =>
      ofThread thread later ++ state.phase.unfinished ++ state.pending = calls thread).mpr
    refine ⟨isProgram, fun other different => ?_⟩
    rw [(others other different).1]
    exact linearized.programOrder other
  · apply (forall_update_iff config.thread fun thread state =>
      state.results = ofThread thread (sequential initial later).2).mpr
    refine ⟨isResults, fun other different => ?_⟩
    rw [(others other different).2.1]
    exact linearized.results other
  · exact linearized.exclusive.update holds
  · apply (forall_update_iff config.thread fun _ state => ∀ job taken wanted,
      state.phase = .acquiring job taken wanted → ∀ lock ∈ job.locks, lock ∈ taken ∨ lock ∈ wanted).mpr
    exact ⟨acquired, fun other _ => linearized.acquired other⟩
  · apply (forall_update_iff config.thread fun _ state => ∀ job rest,
      state.phase = .running job rest → Progress initial memory later job rest).mpr
    exact ⟨progress, fun other different => (others other different).2.2⟩
  · exact settled

theorem replace
    {before : ThreadState Place Value Result Lock} (isState : config.thread thread = before)
    (sameOrder : state.phase.unfinished ++ state.pending = before.phase.unfinished ++ before.pending)
    (sameResults : state.results = before.results)
    (holds : ∀ lock, state.phase.Holds lock → before.phase.Holds lock ∨
      ∀ other, other ≠ thread → ¬(config.thread other).phase.Holds lock)
    (acquired : ∀ job taken wanted, state.phase = .acquiring job taken wanted →
      ∀ lock ∈ job.locks, lock ∈ taken ∨ lock ∈ wanted)
    (progress : ∀ job rest, state.phase = .running job rest → Progress initial config.memory order job rest)
    (keeps : ∀ job rest, before.phase = .running job rest → ∃ next, state.phase = .running job next) :
    Linearized calls initial ⟨config.memory, Function.update config.thread thread state⟩ order := by
  subst isState
  apply linearized.update _ (sameResults.trans (linearized.results thread))
    (fun other _ => ⟨rfl, rfl, linearized.progress other⟩) holds acquired progress
  · intro place untouched
    exact linearized.settled place (untouched.before fun job rest running _ => keeps job rest running)
  · rw [← linearized.programOrder thread, append_assoc, sameOrder, append_assoc]

include guarded

theorem enter_step {taken : List Lock}
    (isState : config.thread thread = ⟨.acquiring job taken [], pending, results⟩) :
    Linearized calls initial ⟨config.memory,
      Function.update config.thread thread ⟨.running job job.body, pending, results⟩⟩ order := by
  have acquiring : (config.thread thread).phase = .acquiring job taken [] := by
    rw [isState]
  have holds : ∀ lock ∈ job.locks, (config.thread thread).phase.Holds lock := by
    intro lock member
    rw [acquiring]
    exact (linearized.acquired _ _ _ _ acquiring lock member).resolve_right not_mem_nil
  have agrees : Program.Agrees job.touches config.memory (sequential initial order).1 := by
    intro place isTouched
    apply linearized.settled
    intro other otherJob rest running isWritten
    have different : thread ≠ other := by
      rintro rfl
      rw [acquiring] at running
      cases running
    have unfinished : job ∈ (config.thread thread).phase.unfinished := by
      rw [acquiring]
      exact mem_singleton_self _
    have apart := linearized.independent guarded different unfinished holds running
    exact (apart place).2 ⟨isWritten, isTouched⟩
  refine linearized.replace isState rfl rfl ?_ ?_ ?_ ?_
  · intro lock member
    have isHeld := holds lock member
    rw [isState] at isHeld
    exact .inl isHeld
  · exact fun _ _ _ isAcquiring => nomatch isAcquiring
  · intro _ _ isRunning
    cases isRunning
    exact ⟨job.within, Program.eval_agrees job.within agrees⟩
  · exact fun _ _ isRunning => nomatch isRunning

/-- A running job writes a place: no other running job touches it. -/
theorem write_step {place : Place} {value : Value} {next : Program Place Value Result}
    (isState : config.thread thread = ⟨.running job (.write place value next), pending, results⟩) :
    Linearized calls initial ⟨Function.update config.memory place value,
      Function.update config.thread thread ⟨.running job next, pending, results⟩⟩ order := by
  have running : (config.thread thread).phase = .running job (.write place value next) := by
    rw [isState]
  obtain ⟨within, sameResult, agrees⟩ := linearized.progress _ _ _ running
  apply linearized.update
  · rw [← linearized.programOrder thread, isState]
    rfl
  · rw [← linearized.results thread, isState]
  · intro other different
    refine ⟨rfl, rfl, fun otherJob rest otherRunning => ?_⟩
    obtain ⟨otherWithin, otherResult, otherAgrees⟩ := linearized.progress _ _ _ otherRunning
    have apart := linearized.running_independent guarded different.symm running otherRunning
    have unchanged : Program.Agrees otherJob.touches (Function.update config.memory place value)
        config.memory := by
      intro touched isTouched
      have elsewhere : touched ≠ place := by
        intro same
        exact (apart place).1 ⟨within.2.1, same ▸ isTouched⟩
      rw [update_of_ne elsewhere]
    obtain ⟨evalResult, evalAgrees⟩ := Program.eval_agrees otherWithin unchanged
    exact ⟨otherWithin, evalResult.trans otherResult,
      fun touched isTouched => (evalAgrees touched isTouched).trans (otherAgrees touched isTouched)⟩
  · rw [running]
    exact fun _ isHeld => .inl isHeld
  · exact fun _ _ _ isAcquiring => nomatch isAcquiring
  · intro _ _ isRunning
    cases isRunning
    exact ⟨within.2.2, sameResult, agrees⟩
  · intro other untouched
    have elsewhere : other ≠ place := by
      intro same
      exact untouched thread job next (by simp) (same ▸ within.2.1)
    have before := untouched.before (fun otherJob rest isRunning _ => by
      rw [running] at isRunning
      cases isRunning
      exact ⟨next, rfl⟩)
    exact (update_of_ne elsewhere _ _).trans (linearized.settled other before)

theorem finish_step {result : Result}
    (isState : config.thread thread = ⟨.running job (.done result), pending, results⟩) :
    Linearized calls initial ⟨config.memory,
      Function.update config.thread thread ⟨.releasing job.locks, pending, results ++ [result]⟩⟩
      (order ++ [(thread, job)]) := by
  have running : (config.thread thread).phase = .running job (.done result) := by
    rw [isState]
  obtain ⟨-, sameResult, agrees⟩ := linearized.progress _ _ _ running
  have isResult : (job.body.eval (sequential initial order).1).2 = result := sameResult.symm
  apply linearized.update
  · rw [← linearized.programOrder thread, isState, of_thread_append, if_pos rfl]
    simp [Phase.unfinished]
  · rw [sequential_append, of_thread_append, if_pos rfl, ← linearized.results thread, isState, isResult]
  · intro other different
    rw [sequential_append, of_thread_append, if_neg different.symm, of_thread_append, if_neg different.symm]
    refine ⟨rfl, rfl, fun otherJob rest otherRunning => ?_⟩
    obtain ⟨otherWithin, otherResult, otherAgrees⟩ := linearized.progress _ _ _ otherRunning
    have apart := linearized.running_independent guarded different.symm running otherRunning
    have unchanged : Program.Agrees otherJob.touches (sequential initial order).1
        (job.body.eval (sequential initial order).1).1 := by
      intro place isTouched
      exact (Program.eval_outside job.within fun isWritten => (apart place).1 ⟨isWritten, isTouched⟩).symm
    obtain ⟨evalResult, evalAgrees⟩ := Program.eval_agrees otherJob.within unchanged
    rw [Progress, sequential_append]
    exact ⟨otherWithin, otherResult.trans evalResult,
      fun place isTouched => (otherAgrees place isTouched).trans (evalAgrees place isTouched)⟩
  · rw [running]
    exact fun _ isHeld => .inl isHeld
  · exact fun _ _ _ isAcquiring => nomatch isAcquiring
  · exact fun _ _ isRunning => nomatch isRunning
  · intro place untouched
    rw [sequential_append]
    by_cases isWritten : job.writes place
    · exact agrees place (job.writes_touch place isWritten)
    · have before := untouched.before (fun otherJob rest isRunning otherWrites => by
        rw [running] at isRunning
        cases isRunning
        exact absurd otherWrites isWritten)
      rw [Program.eval_outside job.within isWritten]
      exact linearized.settled place before

theorem step (stepped : Step config after) :
    ∃ later, Linearized calls initial after later := by
  obtain ⟨thread, memory, state, moved, rfl⟩ := stepped
  generalize isState : config.thread thread = before at moved
  cases moved with
  | write job place value next pending results => exact ⟨order, linearized.write_step guarded isState⟩
  | finish job result pending results => exact ⟨_, linearized.finish_step guarded isState⟩
  | enter job taken pending results => exact ⟨order, linearized.enter_step guarded isState⟩
  | start job pending results =>
    refine ⟨order, linearized.replace isState rfl rfl (fun _ isHeld => nomatch isHeld) ?_
      (fun _ _ isRunning => nomatch isRunning) fun _ _ isRunning => nomatch isRunning⟩
    intro _ _ _ isAcquiring lock member
    cases isAcquiring
    exact .inr member
  | acquire job lock taken wanted pending results free =>
    refine ⟨order, linearized.replace isState rfl rfl ?_ ?_ (fun _ _ isRunning => nomatch isRunning)
      fun _ _ isRunning => nomatch isRunning⟩
    · intro other isHeld
      rcases mem_cons.mp isHeld with rfl | before
      · exact .inr fun thread different isBusy => free ⟨thread, different, isBusy⟩
      · exact .inl before
    · intro _ _ _ isAcquiring other member
      cases isAcquiring
      have before := linearized.acquired thread job taken (lock :: wanted) (by rw [isState]) other member
      simp only [mem_cons] at before ⊢
      tauto
  | read job place next pending results =>
    refine ⟨order, linearized.replace isState rfl rfl (fun _ isHeld => .inl isHeld)
      (fun _ _ _ isAcquiring => nomatch isAcquiring) ?_ ?_⟩
    · intro _ _ isRunning
      cases isRunning
      obtain ⟨within, sameResult, agrees⟩ :=
        linearized.progress thread job (.read place next) (by rw [isState])
      exact ⟨within.2 _, sameResult, agrees⟩
    · intro _ _ isRunning
      cases isRunning
      exact ⟨_, rfl⟩
  | release lock held pending results =>
    exact ⟨order, linearized.replace isState rfl rfl (fun _ isHeld => .inl (mem_cons_of_mem _ isHeld))
      (fun _ _ _ isAcquiring => nomatch isAcquiring) (fun _ _ isRunning => nomatch isRunning)
      fun _ _ isRunning => nomatch isRunning⟩
  | leave pending results =>
    exact ⟨order, linearized.replace isState rfl rfl (fun _ isHeld => nomatch isHeld)
      (fun _ _ _ isAcquiring => nomatch isAcquiring) (fun _ _ isRunning => nomatch isRunning)
      fun _ _ isRunning => nomatch isRunning⟩

omit guarded

/-- When all jobs are finished, the order explains all results and the whole memory. -/
theorem finished (isFinished : config.Finished) : (∀ thread, ofThread thread order = calls thread) ∧
      (∀ thread, (config.thread thread).results = ofThread thread (sequential initial order).2) ∧
      config.memory = (sequential initial order).1 := by
  refine ⟨fun thread => ?_, linearized.results, ?_⟩
  · have programOrder := linearized.programOrder thread
    rw [(isFinished thread).1, (isFinished thread).2, append_nil, append_nil] at programOrder
    exact programOrder
  · funext place
    apply linearized.settled
    intro thread job rest running
    have noJob := (isFinished thread).1
    rw [running] at noJob
    cases noJob

omit linearized

theorem start (calls : Thread → List (Job Place Value Result Lock)) (initial : Place → Value) :
    Linearized calls initial (Config.start initial calls) [] where
  programOrder _ := rfl
  results _ := rfl
  exclusive _ _ _ _ isHeld := nomatch isHeld
  acquired _ _ _ _ isAcquiring := nomatch isAcquiring
  progress _ _ _ isRunning := nomatch isRunning
  settled _ _ := rfl

include guarded in
theorem run (steps : Relation.ReflTransGen Step (Config.start initial calls) after) :
    ∃ later, Linearized calls initial after later := by
  induction steps with
  | refl => exact ⟨[], start calls initial⟩
  | tail _ stepped ih =>
    obtain ⟨between, linearized⟩ := ih
    exact linearized.step guarded stepped

end Linearized

/-! ### Calls -/

section Calls

variable {Call : Type} {jobOf : Call → Job Place Value Result Lock}

omit [DecidableEq Place] in
theorem order_of_calls {order : List (Thread × Job Place Value Result Lock)}
    {calls : Thread → List Call} (same : ∀ thread, ofThread thread order = (calls thread).map jobOf) :
    ∃ callOrder : List (Thread × Call), callOrder.map (fun entry => (entry.1, jobOf entry.2)) = order ∧
      ∀ thread, ofThread thread callOrder = calls thread := by
  induction order generalizing calls with
  | nil =>
    refine ⟨[], rfl, fun thread => ?_⟩
    exact (map_eq_nil_iff.mp (same thread).symm).symm
  | cons entry rest ih =>
    obtain ⟨thread, job⟩ := entry
    have own := same thread
    simp only [ofThread, filterMap_cons, if_true] at own
    obtain ⟨call, others, isCalls, rfl, isRest⟩ := map_eq_cons_iff.mp own.symm
    have restSame : ∀ other, ofThread other rest =
        ((Function.update calls thread others) other).map jobOf := by
      intro other
      by_cases isThread : other = thread
      · subst isThread
        rw [update_self]
        exact isRest.symm
      · rw [update_of_ne isThread, ← same other]
        simp [ofThread, Ne.symm isThread]
    obtain ⟨callOrder, isOrder, isProgram⟩ := ih restSame
    refine ⟨(thread, call) :: callOrder, by rw [map_cons, isOrder], fun other => ?_⟩
    have program := isProgram other
    by_cases isThread : other = thread
    · subst isThread
      rw [update_self] at program
      rw [isCalls, ← program]
      simp [ofThread]
    · rw [update_of_ne isThread] at program
      rw [← program]
      simp [ofThread, Ne.symm isThread]

/-- Guarded calls are linearizable: a run that finishes them has the results and the memory of the
calls taken one after the other, in an order that keeps the order of each thread. -/
theorem guarded_linearizable {calls : Thread → List Call} {initial : Place → Value}
    (guarded : Guarded fun thread => (calls thread).map jobOf)
    (steps : Relation.ReflTransGen Step (Config.start initial fun thread => (calls thread).map jobOf) after)
    (isFinished : after.Finished) :
    ∃ order : List (Thread × Call), (∀ thread, ofThread thread order = calls thread) ∧
      (∀ thread, (after.thread thread).results = ofThread thread
        (sequential initial (order.map fun entry => (entry.1, jobOf entry.2))).2) ∧
      after.memory = (sequential initial (order.map fun entry => (entry.1, jobOf entry.2))).1 := by
  obtain ⟨jobOrder, linearized⟩ := Linearized.run guarded steps
  obtain ⟨isProgram, results, memory⟩ := linearized.finished isFinished
  obtain ⟨order, rfl, isCalls⟩ := order_of_calls isProgram
  exact ⟨order, isCalls, results, memory⟩

end Calls

end Steps

end RustcCodegenJvm.Library.CriticalSections
