import RustcCodegenJvm.Jvm.Instruction

/-!
# The class-file constant pool

An append-only list of constants. Entry `i` has index `i + 1`, and the entry
after a `long` or `double` is unusable. References are pairs of indices, so a
reader follows them; the functions at the end do that for classes and members.
-/

namespace RustcCodegenJvm.Jvm

open Option

/-- A pool entry under the key it is interned by; floats are their bits. -/
inductive ConstantKey
  | utf8 (value : String)
  | integer (value : JInt)
  | float (bits : BitVec 32)
  | long (value : JLong)
  | double (bits : BitVec 64)
  | class (nameIndex : Nat)
  | string (stringIndex : Nat)
  | fieldRef (classIndex nameAndTypeIndex : Nat)
  | methodRef (classIndex nameAndTypeIndex : Nat)
  | interfaceMethodRef (classIndex nameAndTypeIndex : Nat)
  | nameAndType (nameIndex descriptorIndex : Nat)
  | methodHandle (referenceKind referenceIndex : Nat)
  | methodType (descriptorIndex : Nat)
  | dynamic (bootstrapMethodAttrIndex nameAndTypeIndex : Nat)
  | invokeDynamic (bootstrapMethodAttrIndex nameAndTypeIndex : Nat)
  | module (nameIndex : Nat)
  | package (nameIndex : Nat)
deriving DecidableEq

inductive JvmError
  | verificationError (context message : String)
  | constantPoolFull
  | invalidConstantPoolIndex (index : Nat)
  | invalidConstantPoolIndexType (index : Nat)
  | invalidDescriptor (descriptor : String)
deriving DecidableEq

def objectClass : String := "java/lang/Object"

structure ConstantPool where
  entries : List (Option ConstantKey)

variable {key found : ConstantKey} {value name : String}

namespace ConstantPool

def get (pool : ConstantPool) (index : Nat) : Option ConstantKey :=
  if index = 0 then none else (pool.entries[index - 1]?).join

def slots (key : ConstantKey) : List (Option ConstantKey) :=
  match key with
  | .long _ | .double _ => [some key, none]
  | _ => [some key]

def add (pool : ConstantPool) (key : ConstantKey) : Except JvmError (Nat × ConstantPool) :=
  if pool.entries.length + (slots key).length < 65536 then
    .ok (pool.entries.length + 1, ⟨pool.entries ++ slots key⟩)
  else .error .constantPoolFull

def Includes (later earlier : ConstantPool) : Prop :=
  ∀ index key, earlier.get index = some key → later.get index = some key

theorem Includes.refl (pool : ConstantPool) : pool.Includes pool := fun _ _ found => found

theorem Includes.trans {first second third : ConstantPool}
    (upper : third.Includes second) (lower : second.Includes first) : third.Includes first :=
  fun index key found => upper index key (lower index key found)

theorem slots_get {position : Nat}
    (present : ((slots key)[position]?).join = some found) : position = 0 ∧ found = key := by
  unfold slots at present
  split at present
  all_goals
    cases position with
    | zero =>
      cases present
      exact ⟨rfl, rfl⟩
    | succ position => cases position <;> simp at present

theorem slots_head (key : ConstantKey) : (slots key)[0]? = some (some key) := by
  cases key <;> rfl

theorem add_spec {pool later : ConstantPool} {index : Nat}
    (added : pool.add key = .ok (index, later)) :
    later.get index = some key ∧ later.Includes pool := by
  unfold add at added
  split at added
  · cases added
    refine ⟨?_, ?_⟩
    · simp [get, List.getElem?_append_right, slots_head]
    · intro other present found
      unfold get at found ⊢
      split at found
      · cases found
      · rename_i nonzero
        have inside : other - 1 < pool.entries.length := by
          by_contra outside
          rw [List.getElem?_eq_none (by omega)] at found
          cases found
        rw [if_neg nonzero, List.getElem?_append_left inside]
        exact found
  · cases added

theorem get_added {pool later : ConstantPool} {index other : Nat}
    (added : pool.add key = .ok (index, later)) (present : later.get other = some found) :
    pool.get other = some found ∨ (other = index ∧ found = key) := by
  unfold add at added
  split at added
  · cases added
    unfold get at present ⊢
    split at present
    · cases present
    · rename_i nonzero
      rw [if_neg nonzero]
      by_cases inside : other - 1 < pool.entries.length
      · rw [List.getElem?_append_left inside] at present
        exact .inl present
      · rw [List.getElem?_append_right (Nat.le_of_not_lt inside)] at present
        obtain ⟨isFirst, isKey⟩ := slots_get present
        exact .inr ⟨by omega, isKey⟩
  · cases added

/-! ### Reading references -/

def utf8At (pool : ConstantPool) (index : Nat) : Option String :=
  match pool.get index with
  | some (.utf8 value) => some value
  | _ => none

def classAt (pool : ConstantPool) (index : Nat) : Option String :=
  match pool.get index with
  | some (.class nameIndex) => pool.utf8At nameIndex
  | _ => none

def nameAndTypeAt (pool : ConstantPool) (index : Nat) : Option (String × String) :=
  match pool.get index with
  | some (.nameAndType nameIndex descriptorIndex) => do
    return (← pool.utf8At nameIndex, ← pool.utf8At descriptorIndex)
  | _ => none

structure Member where
  owner : String
  name : String
  descriptor : String
deriving DecidableEq

def memberParts : ConstantKey → Option (Nat × Nat)
  | .fieldRef classIndex nameAndTypeIndex => some (classIndex, nameAndTypeIndex)
  | .methodRef classIndex nameAndTypeIndex => some (classIndex, nameAndTypeIndex)
  | .interfaceMethodRef classIndex nameAndTypeIndex => some (classIndex, nameAndTypeIndex)
  | _ => none

def memberAt (pool : ConstantPool) (index : Nat) : Option Member := do
  let key ← pool.get index
  let (classIndex, nameAndTypeIndex) ← memberParts key
  let owner ← pool.classAt classIndex
  let (name, descriptor) ← pool.nameAndTypeAt nameAndTypeIndex
  return ⟨owner, name, descriptor⟩

theorem utf8_at_of_get {pool : ConstantPool} {index : Nat}
    (found : pool.get index = some (.utf8 value)) : pool.utf8At index = some value := by
  rw [utf8At, found]

theorem class_at_of_get {pool : ConstantPool} {index nameIndex : Nat}
    (found : pool.get index = some (.class nameIndex))
    (named : pool.get nameIndex = some (.utf8 name)) : pool.classAt index = some name := by
  rw [classAt, found]
  exact utf8_at_of_get named

section Growth

variable {later earlier : ConstantPool} {index : Nat} (grows : later.Includes earlier)

include grows

theorem Includes.utf8_at
    (found : earlier.utf8At index = some value) : later.utf8At index = some value := by
  unfold utf8At at found
  split at found
  · rename_i present
    cases found
    exact utf8_at_of_get (grows _ _ present)
  · cases found

theorem Includes.class_at
    (found : earlier.classAt index = some name) : later.classAt index = some name := by
  unfold classAt at found
  split at found
  · rename_i present
    rw [classAt, grows _ _ present]
    exact grows.utf8_at found
  · cases found

theorem Includes.name_and_type_at {pair : String × String}
    (found : earlier.nameAndTypeAt index = some pair) :
    later.nameAndTypeAt index = some pair := by
  unfold nameAndTypeAt at found
  split at found
  · rename_i nameIndex descriptorIndex present
    simp only [bind_eq_bind, bind_eq_some_iff, pure_def,
      some.injEq] at found
    obtain ⟨name, nameAt, descriptor, descriptorAt, rfl⟩ := found
    rw [nameAndTypeAt, grows _ _ present]
    simp [grows.utf8_at nameAt, grows.utf8_at descriptorAt]
  · cases found

theorem Includes.member_at {member : Member}
    (found : earlier.memberAt index = some member) : later.memberAt index = some member := by
  simp only [memberAt, bind_eq_bind, bind_eq_some_iff, pure_def,
    some.injEq] at found ⊢
  obtain ⟨key, present, parts, split, owner, ownerAt, pair, pairAt, named⟩ := found
  exact ⟨key, grows _ _ present, parts, split, owner, grows.class_at ownerAt,
    pair, grows.name_and_type_at pairAt, named⟩

end Growth

end ConstantPool

end RustcCodegenJvm.Jvm
