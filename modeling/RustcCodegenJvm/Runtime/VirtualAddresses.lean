import Mathlib

/-!
# Virtual addresses

How `Pointer.java` hands out numeric addresses: `allocateAddress` moves `NEXT_ADDRESS` on with a
compare-and-set, and `allocationBase` keeps what it got in the allocation's info and in a cache. The
latter runs in the monitor of `ALLOCATIONS`; the cache is also read outside of it, and tokens are asked
for by any thread at any time. The second cache and the published ranges only hold bases that
`allocationBase` returned before.
-/

namespace RustcCodegenJvm.Runtime.VirtualAddress

/-- `Math.addExact` of two longs that are not negative. -/
def addExact (first second : Nat) : Option Nat :=
  if first + second < 2 ^ 63 then some (first + second) else none

/-- `value & -(1L << exponent)` -/
def alignDown (value exponent : Nat) : Nat := value / 2 ^ exponent * 2 ^ exponent

/-- Room for the address past the end, in steps of 16. -/
def span (byteCapacity : Nat) : Option Nat := do
  let requiredSpan ← addExact byteCapacity 1
  return max 16 (alignDown (← addExact requiredSpan 15) 4)

/-- A round of the loop: the address, and what `NEXT_ADDRESS` is set to if it still is `current`. -/
def allocateAddress (current span exponent : Nat) : Option (Nat × Nat) := do
  let aligned := alignDown (← addExact current (2 ^ exponent - 1)) exponent
  return (aligned, ← addExact aligned span)

/-- Alignments are given by their logarithm: every caller rejects one that is no power of two. -/
def recordAlignment (exponent current : Nat) : Nat := if exponent ≤ 4 then current else exponent

/-- The capacity of an allocation and the alignments recorded for it, the last one first. -/
structure Layout where
  capacity : Nat
  recorded : List Nat

def Layout.alignment (layout : Layout) : Nat := layout.recorded.foldr recordAlignment 4

/-- What the thread in the monitor of `ALLOCATIONS` does. -/
inductive Inside (Allocation : Type) where
  | looking (allocation : Allocation)
  | fetching (allocation : Allocation)
  | bumping (allocation : Allocation) (read : Option Nat)
  | saving (allocation : Allocation) (base : Nat)
  | caching (allocation : Allocation) (base : Nat)

/-- `token` has what a thread that asks for a token read last. The last two fields only record what
happened: the addresses set aside, for an allocation or as a token, and the bases returned. -/
structure State (Thread Allocation : Type) where
  next : Nat
  base : Allocation → Option Nat
  cache : Allocation → Option Nat
  inside : Option (Inside Allocation)
  token : Thread → Option Nat
  issued : List (Option Allocation × Nat)
  answers : List (Allocation × Nat)

section Steps

variable {Thread Allocation : Type} (layout : Allocation → Layout)

def State.start : State Thread Allocation :=
  ⟨0x1_0000_0000, fun _ => none, fun _ => none, none, fun _ => none, [], []⟩

/-- A compare-and-set that fails changes nothing: the thread reads again. -/
inductive Step [DecidableEq Thread] [DecidableEq Allocation] (state : State Thread Allocation) :
    State Thread Allocation → Prop
  -- `numericAddress` before it enters the monitor
  | answer {allocation base} (cached : state.cache allocation = some base) :
    Step state { state with answers := (allocation, base) :: state.answers }
  | enter (allocation : Allocation) (free : state.inside = none) :
    Step state { state with inside := some (.looking allocation) }
  | hit {allocation base} (isInside : state.inside = some (.looking allocation))
      (cached : state.cache allocation = some base) :
    Step state { state with inside := none, answers := (allocation, base) :: state.answers }
  | miss {allocation} (isInside : state.inside = some (.looking allocation))
      (absent : state.cache allocation = none) :
    Step state { state with inside := some (.fetching allocation) }
  | fetch {allocation base} (isInside : state.inside = some (.fetching allocation))
      (known : state.base allocation = some base) :
    Step state { state with inside := some (.caching allocation base) }
  | ask {allocation} (isInside : state.inside = some (.fetching allocation))
      (unknown : state.base allocation = none) :
    Step state { state with inside := some (.bumping allocation none) }
  | read {allocation before} (isInside : state.inside = some (.bumping allocation before)) :
    Step state { state with inside := some (.bumping allocation (some state.next)) }
  | swap {allocation size base after} (isInside : state.inside = some (.bumping allocation (some state.next)))
      (isSize : span (layout allocation).capacity = some size)
      (got : allocateAddress state.next size (layout allocation).alignment = some (base, after)) :
    Step state { state with
      next := after, inside := some (.saving allocation base), issued := (some allocation, base) :: state.issued }
  -- an `ArithmeticException` leaves the monitor
  | throw {allocation before} (isInside : state.inside = some (.bumping allocation before)) :
    Step state { state with inside := none }
  | save {allocation base} (isInside : state.inside = some (.saving allocation base)) :
    Step state { state with
      base := Function.update state.base allocation (some base), inside := some (.caching allocation base) }
  | publish {allocation base} (isInside : state.inside = some (.caching allocation base)) :
    Step state { state with
      cache := Function.update state.cache allocation (some base), inside := none
      answers := (allocation, base) :: state.answers }
  | readToken (thread : Thread) :
    Step state { state with token := Function.update state.token thread (some state.next) }
  | swapToken (thread : Thread) {address after} (wasRead : state.token thread = some state.next)
      (got : allocateAddress state.next 16 4 = some (address, after)) :
    Step state { state with
      next := after, token := Function.update state.token thread none, issued := (none, address) :: state.issued }

/-- A token takes 16 bytes; an allocation also has the address past its end. -/
def extent : Option Allocation → Nat
  | none => 15
  | some allocation => (layout allocation).capacity

def exponent : Option Allocation → Nat
  | none => 4
  | some allocation => (layout allocation).alignment

def range (entry : Option Allocation × Nat) : Set Nat := Set.Icc entry.2 (entry.2 + extent layout entry.1)

structure Valid (state : State Thread Allocation) : Prop where
  above : 2 ^ 32 ≤ state.next
  placed : ∀ entry ∈ state.issued, 2 ^ exponent layout entry.1 ∣ entry.2 ∧ 2 ^ 32 ≤ entry.2 ∧
    entry.2 + extent layout entry.1 < state.next
  apart : state.issued.Pairwise fun later earlier => Disjoint (range layout later) (range layout earlier)
  given : ∀ allocation base, state.base allocation = some base ∨ state.cache allocation = some base ∨
    (allocation, base) ∈ state.answers ∨ state.inside = some (.saving allocation base) ∨
    state.inside = some (.caching allocation base) → (some allocation, base) ∈ state.issued
  saved : ∀ allocation base, (some allocation, base) ∈ state.issued →
    state.base allocation = some base ∨ state.inside = some (.saving allocation base)
  fresh : ∀ allocation read base, state.inside = some (.bumping allocation read) ∨
    state.inside = some (.saving allocation base) → state.base allocation = none

variable {layout} {state later : State Thread Allocation}

theorem add_exact_some {first second sum : Nat} (added : addExact first second = some sum) :
    sum = first + second := by
  unfold addExact at added
  split at added
  · exact (Option.some.inj added).symm
  · cases added

theorem lt_align_down (value exponent : Nat) : value < alignDown value exponent + 2 ^ exponent :=
  Nat.lt_div_mul_add (Nat.two_pow_pos exponent)

theorem span_covers {capacity size : Nat} (isSize : span capacity = some size) : capacity < size := by
  obtain ⟨required, isRequired, rest⟩ := Option.bind_eq_some_iff.mp isSize
  obtain ⟨padded, isPadded, isMax⟩ := Option.bind_eq_some_iff.mp rest
  have rounded := lt_align_down padded 4
  have isSize := Option.some.inj isMax
  rw [add_exact_some isPadded, add_exact_some isRequired] at rounded isSize
  omega

theorem allocate_address_spec {current size exponent address after : Nat}
    (got : allocateAddress current size exponent = some (address, after)) :
    current ≤ address ∧ 2 ^ exponent ∣ address ∧ after = address + size := by
  obtain ⟨padded, isPadded, rest⟩ := Option.bind_eq_some_iff.mp got
  obtain ⟨sum, isSum, isPair⟩ := Option.bind_eq_some_iff.mp rest
  cases isPair
  have rounded := lt_align_down padded exponent
  have isPadded := add_exact_some isPadded
  exact ⟨by omega, Nat.dvd_mul_left _ _, add_exact_some isSum⟩

/-- A range that is set aside lies behind all the earlier ones. -/
theorem Valid.issue (valid : Valid layout state) (owner : Option Allocation) {size address after : Nat}
    (covers : extent layout owner < size)
    (got : allocateAddress state.next size (exponent layout owner) = some (address, after)) :
    2 ^ 32 ≤ after ∧
      (∀ entry ∈ (owner, address) :: state.issued, 2 ^ exponent layout entry.1 ∣ entry.2 ∧ 2 ^ 32 ≤ entry.2 ∧
        entry.2 + extent layout entry.1 < after) ∧
      ((owner, address) :: state.issued).Pairwise fun later earlier =>
        Disjoint (range layout later) (range layout earlier) := by
  obtain ⟨behind, aligned, rfl⟩ := allocate_address_spec got
  have above := valid.above
  refine ⟨by omega, List.forall_mem_cons.mpr ⟨⟨aligned, by dsimp only; omega⟩, fun entry member => ?_⟩,
    List.pairwise_cons.mpr ⟨fun entry member => ?_, valid.apart⟩⟩
  · have ⟨isAligned, isAbove, ends⟩ := valid.placed entry member
    exact ⟨isAligned, isAbove, by omega⟩
  · have ends := (valid.placed entry member).2.2
    apply Set.disjoint_left.mpr
    intro byte inLater inEarlier
    have lower : address ≤ byte := inLater.1
    have upper := inEarlier.2
    omega

theorem Step.valid [DecidableEq Thread] [DecidableEq Allocation] (stepped : Step layout state later)
    (valid : Valid layout state) : Valid layout later := by
  obtain ⟨above, placed, apart, given, saved, fresh⟩ := id valid
  cases stepped with
  | swap isInside isSize got =>
    obtain ⟨above, placed, apart⟩ := valid.issue (some _) (span_covers isSize) got
    exact ⟨above, placed, apart, by grind, by grind, by grind⟩
  | swapToken thread wasRead got =>
    obtain ⟨above, placed, apart⟩ := valid.issue none (Nat.lt_succ_self 15) got
    exact ⟨above, placed, apart, by grind, by grind, by grind⟩
  | save isInside =>
    have unsaved := fresh _ none _ (.inr isInside)
    exact ⟨above, placed, apart, by grind [Function.update_apply], by grind [Function.update_apply], by grind⟩
  | publish isInside => exact ⟨above, placed, apart, by grind [Function.update_apply], by grind, by grind⟩
  | _ => exact ⟨above, placed, apart, by grind, by grind, by grind⟩

theorem reachable_valid [DecidableEq Thread] [DecidableEq Allocation]
    (run : Relation.ReflTransGen (Step layout) State.start state) : Valid layout state := by
  induction run with
  | refl =>
    exact ⟨Nat.le_refl _, by simp [State.start], by simp [State.start], by simp [State.start],
      by simp [State.start], by simp [State.start]⟩
  | tail _ stepped valid => exact stepped.valid valid

theorem Valid.once (valid : Valid layout state) {allocation : Allocation} {base other : Nat}
    (first : (some allocation, base) ∈ state.issued) (second : (some allocation, other) ∈ state.issued) :
    base = other := by
  have fresh := valid.fresh allocation none
  have saved := valid.saved allocation
  grind

theorem recorded_le_alignment (layout : Layout) :
    ∀ exponent ∈ layout.recorded.head?, exponent ≤ layout.alignment := by
  have atLeast (recorded : List Nat) : 4 ≤ recorded.foldr recordAlignment 4 := by
    induction recorded with
    | nil => rfl
    | cons exponent rest known => grind [recordAlignment]
  unfold Layout.alignment
  cases layout.recorded with
  | nil => simp
  | cons exponent rest => grind [recordAlignment]

/-- Whatever the threads do: an allocation has one base, every base returned is that one, and it is
aligned; the ranges of all allocations and tokens are disjoint. -/
theorem virtual_addresses_never_overlap [DecidableEq Thread] [DecidableEq Allocation]
    (run : Relation.ReflTransGen (Step layout) State.start state) :
    (∀ allocation base, (allocation, base) ∈ state.answers → (some allocation, base) ∈ state.issued) ∧
      (∀ allocation base other, (some allocation, base) ∈ state.issued →
        (some allocation, other) ∈ state.issued → base = other) ∧
      (∀ allocation base, (some allocation, base) ∈ state.issued →
        (∀ exponent ∈ (layout allocation).recorded.head?, 2 ^ exponent ∣ base) ∧ 2 ^ 32 ≤ base) ∧
      state.issued.Pairwise fun first second => Disjoint (range layout first) (range layout second) := by
  have valid := reachable_valid run
  refine ⟨fun allocation base answered => valid.given _ _ (.inr (.inr (.inl answered))),
    fun _ _ _ first second => valid.once first second, fun allocation base member => ?_, valid.apart⟩
  have ⟨aligned, above, _⟩ := valid.placed _ member
  exact ⟨fun exponent recorded =>
    Nat.dvd_trans (Nat.pow_dvd_pow 2 (recorded_le_alignment _ exponent recorded)) aligned, above⟩

end Steps

/-- An allocation of 100 bytes gets its base, then a token is asked for. -/
theorem virtual_addresses_never_overlap_token :
    ∃ state : State Unit Unit, state.answers = [((), 2 ^ 32)] ∧
      state.issued = [(none, 2 ^ 32 + 112), (some (), 2 ^ 32)] ∧
      state.issued.Pairwise fun first second =>
        Disjoint (range (fun _ => ⟨100, [5]⟩) first) (range (fun _ => ⟨100, [5]⟩) second) := by
  have start : Relation.ReflTransGen (Step fun _ => ⟨100, [5]⟩) (State.start : State Unit Unit) _ := .refl
  have bumped := ((((start.tail (.enter () rfl)).tail (.miss rfl rfl)).tail (.ask rfl rfl)).tail
    (.read rfl)).tail (.swap rfl rfl rfl)
  have run := (((bumped.tail (.save rfl)).tail (.publish rfl)).tail (.readToken ())).tail (.swapToken () rfl rfl)
  exact ⟨_, rfl, rfl, (virtual_addresses_never_overlap run).2.2.2⟩

end RustcCodegenJvm.Runtime.VirtualAddress
