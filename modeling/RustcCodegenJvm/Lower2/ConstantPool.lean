import RustcCodegenJvm.Jvm.ConstantPool
import RustcCodegenJvm.Library.StateExcept

/-!
# The interned constant pool

`constant_pool.rs` wraps the class-file pool with a map from a constant's key to
the index it already has, so equal constants share one entry. The wrapped pool
is append-only; the structure below carries the fact every reader of an index
relies on, that an interned key really sits at its index.
-/

namespace RustcCodegenJvm.Lower2

open Jvm Library StateExcept

structure InternedConstantPool where
  pool : ConstantPool
  constants : List (ConstantKey × Nat)
  interned : ∀ key index, constants.lookup key = some index → pool.get index = some key

variable {key : ConstantKey}

namespace InternedConstantPool

def Includes (later earlier : InternedConstantPool) : Prop := later.pool.Includes earlier.pool

def empty : InternedConstantPool where
  pool := ⟨[]⟩
  constants := []
  interned := fun _ _ found => by cases found

theorem intern_added {interner : InternedConstantPool} {later : ConstantPool}
    {index : Nat} (added : interner.pool.add key = .ok (index, later)) :
    ∀ other found, ((key, index) :: interner.constants).lookup other = some found →
      later.get found = some other := by
  obtain ⟨present, includes⟩ := ConstantPool.add_spec added
  intro other found looked
  rw [List.lookup_cons] at looked
  split at looked
  · rename_i same
    cases looked
    rw [eq_of_beq same]
    exact present
  · exact includes _ _ (interner.interned _ _ looked)

def add (interner : InternedConstantPool) (key : ConstantKey) :
    Except JvmError (Nat × InternedConstantPool) :=
  match interner.constants.lookup key with
  | some index => .ok (index, interner)
  | none =>
    match added : interner.pool.add key with
    | .ok (index, later) => .ok (index, ⟨later, (key, index) :: interner.constants,
        intern_added added⟩)
    | .error error => .error error

theorem add_spec {interner later : InternedConstantPool} {index : Nat}
    (added : interner.add key = .ok (index, later)) :
    later.pool.get index = some key ∧ later.Includes interner := by
  unfold add at added
  split at added
  · rename_i found known
    cases added
    exact ⟨interner.interned _ _ known, ConstantPool.Includes.refl _⟩
  · split at added
    · rename_i fresh pool grown
      cases added
      exact ConstantPool.add_spec grown
    · cases added

theorem Includes.refl (interner : InternedConstantPool) : interner.Includes interner :=
  ConstantPool.Includes.refl _

theorem Includes.trans {first second third : InternedConstantPool}
    (upper : third.Includes second) (lower : second.Includes first) : third.Includes first :=
  ConstantPool.Includes.trans upper lower

end InternedConstantPool

abbrev Emit := StateT InternedConstantPool (Except JvmError)

variable {descriptor : String}

namespace InternedConstantPool

def addKey (key : ConstantKey) : Emit Nat := fun interner => interner.add key

def addUtf8 (value : String) : Emit Nat := addKey (.utf8 value)

def addInteger (value : JInt) : Emit Nat := addKey (.integer value)

def addFloat (bits : BitVec 32) : Emit Nat := addKey (.float bits)

def addLong (value : JLong) : Emit Nat := addKey (.long value)

def addDouble (bits : BitVec 64) : Emit Nat := addKey (.double bits)

def addClass (name : String) : Emit Nat := do
  addKey (.class (← addUtf8 name))

def addString (value : String) : Emit Nat := do
  addKey (.string (← addUtf8 value))

def addNameAndType (name descriptor : String) : Emit Nat := do
  let nameIndex ← addUtf8 name
  let descriptorIndex ← addUtf8 descriptor
  addKey (.nameAndType nameIndex descriptorIndex)

def addFieldRef (classIndex : Nat) (name descriptor : String) : Emit Nat := do
  addKey (.fieldRef classIndex (← addNameAndType name descriptor))

def addMethodRef (classIndex : Nat) (name descriptor : String) : Emit Nat := do
  addKey (.methodRef classIndex (← addNameAndType name descriptor))

/-- `add_class`, `add_string` and the other constants that only name a text. -/
def addText (constant : Nat → ConstantKey) (value : String) : Emit Nat := do
  addKey (constant (← addUtf8 value))

/-- `add_field_ref` and the other constants that end in a name and a type. -/
def addNamed (constant : Nat → ConstantKey) (name descriptor : String) : Emit Nat := do
  addKey (constant (← addNameAndType name descriptor))

def addInterfaceMethodRef (classIndex : Nat) : String → String → Emit Nat :=
  addNamed (.interfaceMethodRef classIndex)

def addMethodHandle (referenceKind referenceIndex : Nat) : Emit Nat :=
  addKey (.methodHandle referenceKind referenceIndex)

def addMethodType : String → Emit Nat := addText .methodType

def addDynamic (bootstrapMethodAttrIndex : Nat) : String → String → Emit Nat :=
  addNamed (.dynamic bootstrapMethodAttrIndex)

def addInvokeDynamic (bootstrapMethodAttrIndex : Nat) : String → String → Emit Nat :=
  addNamed (.invokeDynamic bootstrapMethodAttrIndex)

def addModule : String → Emit Nat := addText .module

def addPackage : String → Emit Nat := addText .package

variable {before after : InternedConstantPool} {index : Nat} {name : String}

theorem add_key_spec (ran : (addKey key).run before = .ok (index, after)) :
    after.pool.get index = some key ∧ after.Includes before :=
  add_spec ran

theorem add_class_spec (ran : (addClass name).run before = .ok (index, after)) :
    after.pool.classAt index = some name ∧ after.Includes before := by
  obtain ⟨nameIndex, middle, named, classed⟩ := bind_ok ran
  obtain ⟨nameAt, nameGrows⟩ := add_key_spec named
  obtain ⟨classAt, classGrows⟩ := add_key_spec classed
  exact ⟨ConstantPool.class_at_of_get classAt (classGrows _ _ nameAt), classGrows.trans nameGrows⟩

theorem add_name_and_type_spec
    (ran : (addNameAndType name descriptor).run before = .ok (index, after)) :
    after.pool.nameAndTypeAt index = some (name, descriptor) ∧ after.Includes before := by
  obtain ⟨nameIndex, first, named, rest⟩ := bind_ok ran
  obtain ⟨descriptorIndex, second, described, paired⟩ := bind_ok rest
  obtain ⟨nameAt, firstGrows⟩ := add_key_spec named
  obtain ⟨descriptorAt, secondGrows⟩ := add_key_spec described
  obtain ⟨pairAt, thirdGrows⟩ := add_key_spec paired
  refine ⟨?_, thirdGrows.trans (secondGrows.trans firstGrows)⟩
  have nameFound := ConstantPool.utf8_at_of_get (thirdGrows _ _ (secondGrows _ _ nameAt))
  have descriptorFound := ConstantPool.utf8_at_of_get (thirdGrows _ _ descriptorAt)
  simp [ConstantPool.nameAndTypeAt, pairAt, nameFound, descriptorFound]

theorem add_method_ref_spec {classIndex : Nat} {owner : String}
    (classed : before.pool.classAt classIndex = some owner)
    (ran : (addMethodRef classIndex name descriptor).run before = .ok (index, after)) :
    after.pool.memberAt index = some ⟨owner, name, descriptor⟩ ∧ after.Includes before := by
  obtain ⟨pairIndex, middle, paired, referred⟩ := bind_ok ran
  obtain ⟨pairAt, pairGrows⟩ := add_name_and_type_spec paired
  obtain ⟨referenceAt, referenceGrows⟩ := add_key_spec referred
  refine ⟨?_, referenceGrows.trans pairGrows⟩
  have classFound := referenceGrows.class_at (pairGrows.class_at classed)
  have pairFound := referenceGrows.name_and_type_at pairAt
  simp [ConstantPool.memberAt, ConstantPool.memberParts, referenceAt, classFound, pairFound]

/-! ### Sequences of requests -/

inductive Request
  | single (constant : ConstantKey)
  | text (constant : Nat → ConstantKey) (value : String)
  | nameAndType (name descriptor : String)
  | named (constant : Nat → ConstantKey) (name descriptor : String)

def Request.run : Request → Emit Nat
  | .single constant => addKey constant
  | .text constant value => addText constant value
  | .nameAndType name descriptor => addNameAndType name descriptor
  | .named constant name descriptor => addNamed constant name descriptor

def PairAt (pool : ConstantPool) (index : Nat) (name descriptor : String) : Prop :=
  ∃ nameIndex descriptorIndex, pool.get index = some (.nameAndType nameIndex descriptorIndex) ∧
    pool.get nameIndex = some (.utf8 name) ∧ pool.get descriptorIndex = some (.utf8 descriptor)

/-- The index leads to the constant that was asked for, through the indices it refers to. -/
def Request.Resolves (pool : ConstantPool) (index : Nat) : Request → Prop
  | .single constant => pool.get index = some constant
  | .text constant value => ∃ textIndex, pool.get index = some (constant textIndex) ∧
      pool.get textIndex = some (.utf8 value)
  | .nameAndType name descriptor => PairAt pool index name descriptor
  | .named constant name descriptor => ∃ pairIndex, pool.get index = some (constant pairIndex) ∧
      PairAt pool pairIndex name descriptor

/-- One entry was asked for; a request that fails half way leaves the entries it already has. -/
def Adds (before after : InternedConstantPool) : Prop :=
  ∃ key index, before.add key = .ok (index, after)

def Complete (interner : InternedConstantPool) : Prop :=
  ∀ index key, interner.pool.get index = some key → interner.constants.lookup key = some index

variable {before after : InternedConstantPool}

theorem Adds.includes (adds : Adds before after) : after.Includes before := by
  obtain ⟨key, index, added⟩ := adds
  exact (add_spec added).2

theorem Adds.complete (adds : Adds before after) (complete : Complete before) : Complete after := by
  obtain ⟨key, index, added⟩ := adds
  unfold add at added
  split at added
  · cases added
    exact complete
  · rename_i unknown
    split at added
    · rename_i fresh pool grown
      cases added
      intro other found present
      rw [List.lookup_cons]
      rcases ConstantPool.get_added grown present with old | ⟨isIndex, isKey⟩
      · have known := complete other found old
        have differs : (found == key) = false := by
          rw [beq_eq_false_iff_ne]
          intro same
          rw [same, unknown] at known
          cases known
        rw [differs]
        exact known
      · rw [isKey, beq_self_eq_true, isIndex]
    · cases added

variable {request : Request}

section Reached

variable {before after later : InternedConstantPool}

theorem reached_includes (reached : Relation.ReflTransGen Adds before after) :
    after.Includes before := by
  induction reached with
  | refl => exact Includes.refl before
  | tail _ adds ih => exact adds.includes.trans ih

theorem reached_complete (reached : Relation.ReflTransGen Adds before after)
    (complete : Complete before) : Complete after := by
  induction reached with
  | refl => exact complete
  | tail _ adds ih => exact adds.complete ih

variable {index : Nat}

theorem Complete.add_again (complete : Complete before)
    (present : before.pool.get index = some key) :
    (addKey key).run before = .ok (index, before) := by
  change before.add key = _
  rw [add, complete index key present]

variable {name : String}

theorem Includes.pair_at (includes : after.Includes before)
    (pair : PairAt before.pool index name descriptor) : PairAt after.pool index name descriptor := by
  obtain ⟨nameIndex, descriptorIndex, atIndex, atName, atDescriptor⟩ := pair
  exact ⟨nameIndex, descriptorIndex, includes _ _ atIndex, includes _ _ atName,
    includes _ _ atDescriptor⟩

theorem Includes.resolves (includes : after.Includes before)
    (resolves : request.Resolves before.pool index) : request.Resolves after.pool index := by
  cases request with
  | single => exact includes _ _ resolves
  | text =>
    obtain ⟨textIndex, atIndex, atText⟩ := resolves
    exact ⟨textIndex, includes _ _ atIndex, includes _ _ atText⟩
  | nameAndType => exact Includes.pair_at includes resolves
  | named =>
    obtain ⟨pairIndex, atIndex, atPair⟩ := resolves
    exact ⟨pairIndex, includes _ _ atIndex, Includes.pair_at includes atPair⟩

theorem pair_ran (ran : (addNameAndType name descriptor).run before = .ok (index, after)) :
    Relation.ReflTransGen Adds before after ∧ PairAt after.pool index name descriptor := by
  obtain ⟨nameIndex, first, named, rest⟩ := bind_ok ran
  obtain ⟨descriptorIndex, second, described, paired⟩ := bind_ok rest
  obtain ⟨atName, -⟩ := add_key_spec named
  obtain ⟨atDescriptor, describes⟩ := add_key_spec described
  obtain ⟨atPair, pairs⟩ := add_key_spec paired
  exact ⟨.tail (.tail (.single ⟨_, _, named⟩) ⟨_, _, described⟩) ⟨_, _, paired⟩,
    nameIndex, descriptorIndex, atPair, pairs _ _ (describes _ _ atName), pairs _ _ atDescriptor⟩

theorem request_ran (ran : request.run.run before = .ok (index, after)) :
    Relation.ReflTransGen Adds before after ∧ request.Resolves after.pool index := by
  cases request with
  | single => exact ⟨.single ⟨_, _, ran⟩, (add_key_spec ran).1⟩
  | text =>
    obtain ⟨textIndex, middle, texts, adds⟩ := bind_ok ran
    obtain ⟨atIndex, includes⟩ := add_key_spec adds
    exact ⟨.tail (.single ⟨_, _, texts⟩) ⟨_, _, adds⟩, textIndex, atIndex,
      includes _ _ (add_key_spec texts).1⟩
  | nameAndType => exact pair_ran ran
  | named =>
    obtain ⟨pairIndex, middle, pairs, adds⟩ := bind_ok ran
    obtain ⟨reached, pair⟩ := pair_ran pairs
    obtain ⟨atIndex, includes⟩ := add_key_spec adds
    exact ⟨.tail reached ⟨_, _, adds⟩, pairIndex, atIndex, Includes.pair_at includes pair⟩

theorem Complete.pair_again (complete : Complete before)
    (pair : PairAt before.pool index name descriptor) :
    (addNameAndType name descriptor).run before = .ok (index, before) := by
  obtain ⟨nameIndex, descriptorIndex, atPair, atName, atDescriptor⟩ := pair
  rw [addNameAndType, StateT.run_bind, addUtf8, complete.add_again atName]
  change (StateT.run (addUtf8 descriptor) before >>= _) = _
  rw [addUtf8, complete.add_again atDescriptor]
  exact complete.add_again atPair

/-- Asking again for a constant that an index leads to gives the index and adds nothing. -/
theorem Complete.request_again (complete : Complete before)
    (resolves : request.Resolves before.pool index) :
    request.run.run before = .ok (index, before) := by
  cases request with
  | single => exact complete.add_again resolves
  | text =>
    obtain ⟨textIndex, atIndex, atText⟩ := resolves
    rw [Request.run, addText, StateT.run_bind, addUtf8, complete.add_again atText]
    exact complete.add_again atIndex
  | nameAndType => exact complete.pair_again resolves
  | named =>
    obtain ⟨pairIndex, atIndex, atPair⟩ := resolves
    rw [Request.run, addNamed, StateT.run_bind, complete.pair_again atPair]
    exact complete.add_again atIndex

/-- Over every sequence of requests: no constant has two indices, a returned index leads to what was
asked for and keeps doing so, a later request for it returns the same index, and every index keeps
its entry. -/
theorem constants_are_interned {index : Nat} (reached : Relation.ReflTransGen Adds empty before)
    (ran : request.run.run before = .ok (index, after))
    (further : Relation.ReflTransGen Adds after later) :
    (∀ first second key, later.pool.get first = some key → later.pool.get second = some key →
      first = second) ∧
    request.Resolves later.pool index ∧ request.run.run later = .ok (index, later) ∧
    ∀ other key, before.pool.get other = some key → later.pool.get other = some key := by
  obtain ⟨during, resolves⟩ := request_ran ran
  have complete : Complete later := by
    apply reached_complete ((reached.trans during).trans further)
    intro other key present
    simp [empty, ConstantPool.get] at present
  have stays := Includes.resolves (reached_includes further) resolves
  refine ⟨?_, stays, complete.request_again stays, reached_includes (during.trans further)⟩
  intro first second key atFirst atSecond
  have known := complete first key atFirst
  rw [complete second key atSecond] at known
  exact (Option.some.inj known).symm

theorem constants_are_interned_class :
    ∃ index later, (addClass "A").run empty = .ok (index, later) ∧
      (Request.text .class "A").Resolves later.pool index ∧
      (addClass "A").run later = .ok (index, later) := by
  have added : ∃ index later, (Request.text .class "A").run.run empty = .ok (index, later) :=
    ⟨_, _, rfl⟩
  obtain ⟨index, later, ran⟩ := added
  obtain ⟨-, resolves, again, -⟩ := constants_are_interned .refl ran .refl
  exact ⟨index, later, ran, resolves, again⟩

end Reached

end InternedConstantPool

end RustcCodegenJvm.Lower2
