import RustcCodegenJvm.Library.GrowingVector

/-!
# Linear scan

Intervals of time get the first free slots, in the order in which they start. An
interval holds its slots until a later one starts after its end. Slots that are
occupied from the beginning and held by no interval stay occupied.
-/

namespace RustcCodegenJvm.Library.LinearScan

open GrowingVector

variable {Key : Type}

def cells (slot width : Nat) : Finset Nat := Finset.Ico slot (slot + width)

@[simp] theorem mem_cells {slot width cell : Nat} :
    cell ∈ cells slot width ↔ slot ≤ cell ∧ cell < slot + width :=
  Finset.mem_Ico

structure Interval (Key : Type) where
  key : Key
  first : Nat
  last : Nat
  width : Nat

def Interval.contains (interval : Interval Key) (time : Nat) : Prop :=
  interval.first ≤ time ∧ time ≤ interval.last

structure Held where
  last : Nat
  slot : Nat
  width : Nat
deriving DecidableEq

namespace Held

def cells (held : Held) : Finset Nat := LinearScan.cells held.slot held.width

/-- The order of a queue that gives the earliest end first. -/
def Precedes (first second : Held) : Prop :=
  first.last < second.last ∨ first.last = second.last ∧
    (first.slot < second.slot ∨ first.slot = second.slot ∧ first.width ≤ second.width)

instance : DecidableRel Precedes := fun first second => by
  unfold Precedes
  infer_instance

end Held

structure Scan (Key : Type) where
  occupied : List Bool
  active : List Held
  placed : List (Interval Key × Nat)

/-! ### The scan -/

def setOccupancy (occupied : List Bool) (slot width : Nat) (value : Bool) : List Bool :=
  fillRange false occupied slot width value

/-- The first slots that are free, from the candidate on. -/
def firstFit (occupied : List Bool) (width : Nat) : Nat → Nat → Nat
  | 0, candidate => candidate
  | fuel + 1, candidate =>
    match (List.range width).find? fun offset => get false occupied (candidate + offset) with
    | some offset => firstFit occupied width fuel (candidate + offset + 1)
    | none => candidate

def expire (time : Nat) : List Held → List Bool → List Held × List Bool
  | [], occupied => ([], occupied)
  | held :: rest, occupied =>
    if time ≤ held.last then (held :: rest, occupied)
    else expire time rest (setOccupancy occupied held.slot held.width false)

/-- One interval gets its slots; there is none when they are out of bounds. -/
def place (start bound : Nat) (scan : Scan Key) (interval : Interval Key) : Option (Scan Key) :=
  let (active, occupied) := expire interval.first scan.active scan.occupied
  let slot := firstFit occupied interval.width occupied.length start
  if slot ≤ bound then
    some {
      occupied := setOccupancy occupied slot interval.width true
      active := active.orderedInsert Held.Precedes ⟨interval.last, slot, interval.width⟩
      placed := scan.placed ++ [(interval, slot)] }
  else none

def run (start bound : Nat) (scan : Scan Key) (intervals : List (Interval Key)) : Option (Scan Key) :=
  intervals.foldlM (place start bound) scan

/-! ### First fit -/

section FirstFit

variable {occupied : List Bool} {width : Nat}

theorem first_fit_ge (fuel candidate : Nat) : candidate ≤ firstFit occupied width fuel candidate := by
  induction fuel generalizing candidate with
  | zero => exact Nat.le_refl candidate
  | succ fuel ih =>
    unfold firstFit
    split
    · next offset _ =>
      have later := ih (candidate + offset + 1)
      omega
    · exact Nat.le_refl candidate

theorem first_fit_free {fuel candidate : Nat} (enough : occupied.length ≤ candidate + fuel) {cell : Nat}
    (inside : cell ∈ cells (firstFit occupied width fuel candidate) width) : get false occupied cell = false := by
  induction fuel generalizing candidate with
  | zero =>
    rw [firstFit, mem_cells] at inside
    exact get_beyond false (by omega)
  | succ fuel ih =>
    unfold firstFit at inside
    split at inside
    · exact ih (by omega) inside
    · next free =>
      rw [mem_cells] at inside
      have isFree := List.find?_eq_none.mp free (cell - candidate) (List.mem_range.mpr (by omega))
      rw [Nat.add_sub_cancel' inside.1] at isFree
      simpa using isFree

end FirstFit

/-! ### Expiry -/

theorem expire_cases (time : Nat) (active : List Held) (occupied : List Bool) :
    ∃ expired, active = expired ++ (expire time active occupied).1 ∧
      (∀ held ∈ expired, held.last < time) ∧ ∀ cell, (∀ held ∈ expired, cell ∉ held.cells) →
          get false (expire time active occupied).2 cell = get false occupied cell := by
  induction active generalizing occupied with
  | nil => exact ⟨[], rfl, by simp, fun _ _ => rfl⟩
  | cons held rest ih =>
    unfold expire
    split_ifs with going
    · exact ⟨[], rfl, by simp, fun _ _ => rfl⟩
    · obtain ⟨expired, isRest, ended, same⟩ := ih (setOccupancy occupied held.slot held.width false)
      refine ⟨held :: expired, by rw [List.cons_append, ← isRest], ?_, ?_⟩
      · intro other member
        rcases List.mem_cons.mp member with rfl | later
        · omega
        · exact ended other later
      · intro cell outside
        rw [same cell fun other later => outside other (List.mem_cons_of_mem held later)]
        have apart := outside held List.mem_cons_self
        rw [Held.cells, mem_cells] at apart
        rw [setOccupancy, get_fill_range, if_neg apart]

/-! ### What a scan keeps -/

section Soundness

variable (reserved : Nat → Prop) (start : Nat)

/-- Two placements that share a time share no slot. -/
def Apart (first second : Interval Key × Nat) : Prop :=
  ∀ time, first.1.contains time → second.1.contains time →
    Disjoint (cells first.2 first.1.width) (cells second.2 second.1.width)

instance : Std.Symm (Apart : Interval Key × Nat → Interval Key × Nat → Prop) where
  symm _ _ apart time inSecond inFirst := (apart time inFirst inSecond).symm

structure Placed (now : Nat) (active : List Held) (placement : Interval Key × Nat) : Prop where
  above : start ≤ placement.2
  free : ∀ cell ∈ cells placement.2 placement.1.width, ¬reserved cell
  held : placement.1.last < now ∨ ⟨placement.1.last, placement.2, placement.1.width⟩ ∈ active

structure Sound (now : Nat) (scan : Scan Key) : Prop where
  held : ∀ held ∈ scan.active, ∀ cell ∈ held.cells, get false scan.occupied cell = true
  kept : ∀ cell, reserved cell → get false scan.occupied cell = true
  distinct : scan.active.Pairwise fun first second => Disjoint first.cells second.cells
  free : ∀ held ∈ scan.active, ∀ cell ∈ held.cells, ¬reserved cell
  placed : ∀ placement ∈ scan.placed, Placed reserved start now scan.active placement
  apart : scan.placed.Pairwise Apart

variable {reserved start}

variable {now bound : Nat} {scan later : Scan Key} {interval : Interval Key}

theorem Sound.expired {time : Nat} (sound : Sound reserved start now scan) (forward : now ≤ time) :
    Sound reserved start time { scan with
        active := (expire time scan.active scan.occupied).1
        occupied := (expire time scan.active scan.occupied).2 } := by
  obtain ⟨expired, isActive, ended, same⟩ := expire_cases time scan.active scan.occupied
  generalize (expire time scan.active scan.occupied).1 = active at isActive
  have distinct := sound.distinct
  rw [isActive, List.pairwise_append] at distinct
  have isHeld : ∀ held ∈ active, held ∈ scan.active := by
    intro held member
    rw [isActive]
    exact List.mem_append_right expired member
  have wasHeld : ∀ held ∈ expired, held ∈ scan.active := by
    intro held member
    rw [isActive]
    exact List.mem_append_left active member
  constructor
  case held =>
    intro held member cell inside
    rw [same cell, sound.held held (isHeld held member) cell inside]
    intro other gone overlap
    exact Finset.disjoint_left.mp (distinct.2.2 other gone held member) overlap inside
  case kept =>
    intro cell isReserved
    rw [same cell, sound.kept cell isReserved]
    intro other gone inside
    exact sound.free other (wasHeld other gone) cell inside isReserved
  case distinct => exact distinct.2.1
  case free =>
    intro held member
    exact sound.free held (isHeld held member)
  case placed =>
    intro placement member
    have before := sound.placed placement member
    refine ⟨before.above, before.free, ?_⟩
    rcases before.held with earlier | going
    · left
      omega
    · rw [isActive, List.mem_append] at going
      rcases going with gone | going
      · exact .inl (ended _ gone)
      · exact .inr going
  case apart => exact sound.apart

theorem Sound.take {slot : Nat}
    (sound : Sound reserved start interval.first scan) (above : start ≤ slot)
    (isFree : ∀ cell ∈ cells slot interval.width, get false scan.occupied cell = false) :
    Sound reserved start interval.first
      { occupied := setOccupancy scan.occupied slot interval.width true
        active := scan.active.orderedInsert Held.Precedes ⟨interval.last, slot, interval.width⟩
        placed := scan.placed ++ [(interval, slot)] } := by
  have members (held : Held) :
      held ∈ scan.active.orderedInsert Held.Precedes ⟨interval.last, slot, interval.width⟩ ↔
        held = ⟨interval.last, slot, interval.width⟩ ∨ held ∈ scan.active := by
    rw [List.mem_orderedInsert]
  have stays (cell : Nat) (isTrue : get false scan.occupied cell = true) :
      get false (setOccupancy scan.occupied slot interval.width true) cell = true := by
    rw [setOccupancy, get_fill_range]
    split_ifs <;> first | rfl | exact isTrue
  have unheld : ∀ held ∈ scan.active, Disjoint (cells slot interval.width) held.cells := by
    intro held member
    rw [Finset.disjoint_left]
    intro cell inside overlap
    have isTrue := sound.held held member cell overlap
    rw [isFree cell inside] at isTrue
    cases isTrue
  have unreserved : ∀ cell ∈ cells slot interval.width, ¬reserved cell := by
    intro cell inside isReserved
    have isTrue := sound.kept cell isReserved
    rw [isFree cell inside] at isTrue
    cases isTrue
  constructor
  case held =>
    intro held member cell inside
    rcases (members held).mp member with rfl | before
    · rw [Held.cells, mem_cells] at inside
      rw [setOccupancy, get_fill_range, if_pos inside]
    · exact stays cell (sound.held held before cell inside)
  case kept =>
    intro cell isReserved
    exact stays cell (sound.kept cell isReserved)
  case distinct =>
    have symmetric : ∀ {first second : Held}, Disjoint first.cells second.cells →
        Disjoint second.cells first.cells := fun disjoint => disjoint.symm
    apply ((List.perm_orderedInsert Held.Precedes _ scan.active).pairwise_iff symmetric).mpr
    exact List.pairwise_cons.mpr ⟨unheld, sound.distinct⟩
  case free =>
    intro held member
    rcases (members held).mp member with rfl | before
    · exact unreserved
    · exact sound.free held before
  case placed =>
    intro placement member
    rcases List.mem_append.mp member with before | isLast
    · have placed := sound.placed placement before
      refine ⟨placed.above, placed.free, ?_⟩
      rcases placed.held with ended | going
      · exact .inl ended
      · exact .inr ((members _).mpr (.inr going))
    · rw [List.mem_singleton] at isLast
      rw [isLast]
      exact ⟨above, unreserved, .inr ((members _).mpr (.inl rfl))⟩
  case apart =>
    rw [List.pairwise_append]
    refine ⟨sound.apart, List.pairwise_singleton _ _, ?_⟩
    intro placement member last isLast time within starts
    rw [List.mem_singleton] at isLast
    rw [isLast] at starts ⊢
    -- an interval that goes on when this one starts still holds its slots
    rcases (sound.placed placement member).held with ended | going
    · have ends := within.2
      have begins := starts.1
      dsimp only at begins
      omega
    · exact (unheld _ going).symm

theorem Sound.place (sound : Sound reserved start now scan) (forward : now ≤ interval.first)
    (ran : place start bound scan interval = some later) :
    Sound reserved start interval.first later := by
  unfold LinearScan.place at ran
  dsimp only at ran
  split_ifs at ran
  cases ran
  apply (sound.expired forward).take (first_fit_ge _ _)
  intro cell inside
  exact first_fit_free (Nat.le_add_left _ start) inside

theorem place_placed (ran : place start bound scan interval = some later) :
    later.placed.map Prod.fst = scan.placed.map Prod.fst ++ [interval] := by
  unfold LinearScan.place at ran
  dsimp only at ran
  split_ifs at ran
  cases ran
  simp

/-- A scan over intervals in the order of their starts is sound, and places all of them. -/
theorem Sound.run {intervals : List (Interval Key)}
    (sound : Sound reserved start now scan) (forward : ∀ interval ∈ intervals, now ≤ interval.first)
    (sorted : intervals.Pairwise fun first second => first.first ≤ second.first)
    (ran : run start bound scan intervals = some later) :
    (∃ time, Sound reserved start time later) ∧
      later.placed.map Prod.fst = scan.placed.map Prod.fst ++ intervals := by
  induction intervals generalizing now scan with
  | nil =>
    cases ran
    exact ⟨⟨now, sound⟩, by simp⟩
  | cons interval rest ih =>
    obtain ⟨middle, isMiddle, ran⟩ := Option.bind_eq_some_iff.mp ran
    have ⟨starts, restSorted⟩ := List.pairwise_cons.mp sorted
    have stepped := sound.place (forward interval List.mem_cons_self) isMiddle
    obtain ⟨soundLater, isPlaced⟩ := ih stepped starts restSorted ran
    refine ⟨soundLater, ?_⟩
    rw [isPlaced, place_placed isMiddle, List.append_assoc, List.singleton_append]

end Soundness

end RustcCodegenJvm.Library.LinearScan
