import Mathlib

/-!
The names of the JVM methods generated for free functions
(`lower1/naming.rs`, `lower1/jvm_names.rs`, `lower1/types.rs`, `stable_hash.rs`).
Identifier and generic-argument tokens are joined by underscores, which both may
contain themselves. All texts that are measured here are ASCII, so that a list of
characters has the length of the Rust string.
-/

namespace RustcCodegenJvm.Lower1.MethodNames

open List

def isNameChar (ch : Char) : Bool := ch.isAlphanum || ch == '_'

/-- The loop of `jvm_identifier` and `sanitize_name_token`: `out` is the text pushed
so far, last character first. -/
def replaceSeparators : List Char → List Char → Bool → List Char
  | [], out, _ => out
  | ch :: rest, out, previousWasSeparator =>
      if isNameChar ch then replaceSeparators rest (ch :: out) false
      else if !previousWasSeparator && !out.isEmpty then
        replaceSeparators rest ('_' :: out) true
      else replaceSeparators rest out previousWasSeparator

/-- The loop, then the trailing underscores are popped. -/
def cleaned (raw : List Char) : List Char :=
  ((replaceSeparators raw [] false).dropWhile (· == '_')).reverse

def jvmIdentifier (raw : List Char) : List Char :=
  match cleaned raw with
  | [] => "jvm_unnamed".toList
  | first :: rest => if first.isDigit then '_' :: first :: rest else first :: rest

def sanitizeNameToken (raw : List Char) : List Char :=
  if cleaned raw = [] then "Type".toList else cleaned raw

theorem sanitize_name_token_nonempty (raw : List Char) : sanitizeNameToken raw ≠ [] := by
  unfold sanitizeNameToken
  split
  · decide
  · assumption

/-- `short_hash`: FNV-1a over the bytes, its first `length` hexadecimal digits. -/
def shortHash (input : List Char) (length : Nat) : List Char :=
  let hash := (input.flatMap String.utf8EncodeChar).foldl
    (fun hash byte => (hash ^^^ byte.toUInt64) * 0x100000001b3) (0xcbf29ce484222325 : UInt64)
  let digits := Nat.toDigits 16 hash.toNat
  (List.replicate (16 - digits.length) '0' ++ digits).take length

def readableName (base readableSuffix : List Char) : List Char :=
  if readableSuffix = [] then base else base ++ '_' :: readableSuffix

def completeIdentity (readableSuffix identity : List Char) : List Char :=
  identity ++ '\x00' :: readableSuffix

def readableOrHashedName (base readableSuffix identity : List Char) (maxLen : Nat) : List Char :=
  let readable := readableName base readableSuffix
  if readable.length ≤ maxLen then readable
  else base ++ '_' :: shortHash (completeIdentity readableSuffix identity) 10

def maxMonoFnNameLen : Nat := 128

/-- The suffix of a list of generic arguments. -/
def genericSuffix (arguments : List (List Char)) : List Char :=
  ['_'].intercalate (arguments.map sanitizeNameToken)

/-- The name `mono_fn_name_from_instance` gives a free function; `identity` is its
`stable_def_identity`. -/
def monoFnName (identity identifier : List Char) (arguments : List (List Char)) : List Char :=
  readableOrHashedName (jvmIdentifier identifier) (genericSuffix arguments) identity
    maxMonoFnNameLen

/-- The words of a generated name: identifier and tokens cut at their underscores. -/
def nameWords (identifier : List Char) (arguments : List (List Char)) : List (List Char) :=
  (jvmIdentifier identifier).splitOn '_' ++
    arguments.flatMap fun argument => (sanitizeNameToken argument).splitOn '_'

theorem split_on_injective {left right : List Char} :
    left.splitOn '_' = right.splitOn '_' ↔ left = right := by
  constructor
  · intro same
    rw [← @List.intercalate_splitOn _ left _ _ '_', same, intercalate_splitOn]
  · intro same
    rw [same]

theorem generic_suffix_cons (argument : List Char) (arguments : List (List Char)) :
    genericSuffix (argument :: arguments) =
      readableName (sanitizeNameToken argument) (genericSuffix arguments) := by
  cases arguments with
  | nil => simp [genericSuffix, readableName]
  | cons next rest =>
      have nonempty : genericSuffix (next :: rest) ≠ [] := by
        cases rest <;> simp [genericSuffix, sanitize_name_token_nonempty]
      rw [readableName, if_neg nonempty]
      simp [genericSuffix]

/-- A suffix is the words of its tokens. -/
theorem readable_name_words (base : List Char) (arguments : List (List Char)) :
    (readableName base (genericSuffix arguments)).splitOn '_' = base.splitOn '_' ++
        arguments.flatMap fun argument => (sanitizeNameToken argument).splitOn '_' := by
  induction arguments generalizing base with
  | nil => simp [genericSuffix, readableName]
  | cons argument arguments induction =>
      have nonempty : genericSuffix (argument :: arguments) ≠ [] := by
        rw [generic_suffix_cons, readableName]
        split <;> simp [sanitize_name_token_nonempty]
      rw [readableName, if_neg nonempty, splitOn_append_cons_self, generic_suffix_cons,
        induction, flatMap_cons]

/-- Two readable names are one exactly when identifier and tokens have the same words. -/
theorem readable_name_eq_iff (left right : List Char) (lefts rights : List (List Char)) :
    readableName (jvmIdentifier left) (genericSuffix lefts) =
        readableName (jvmIdentifier right) (genericSuffix rights) ↔
      nameWords left lefts = nameWords right rights := by
  rw [← split_on_injective, readable_name_words, readable_name_words]
  rfl

def isReadable (identifier : List Char) (arguments : List (List Char)) : Bool :=
  (readableName (jvmIdentifier identifier) (genericSuffix arguments)).length ≤ maxMonoFnNameLen

def hashedName (identity identifier : List Char) (arguments : List (List Char)) : List Char :=
  jvmIdentifier identifier ++
    '_' :: shortHash (completeIdentity (genericSuffix arguments) identity) 10

section Names

variable (leftIdentity left rightIdentity right : List Char) (lefts rights : List (List Char))

/-- When two functions get one name: readable names of the same words, hashed names of one
function and the same words, or a readable name spelled like a hashed one. -/
def Collide : Prop :=
  (isReadable left lefts ∧ isReadable right rights ∧
      nameWords left lefts = nameWords right rights) ∨
    (¬isReadable left lefts ∧ ¬isReadable right rights ∧
      left = right ∧ nameWords left lefts = nameWords right rights) ∨
    (isReadable left lefts ∧ ¬isReadable right rights ∧
      readableName (jvmIdentifier left) (genericSuffix lefts) =
        hashedName rightIdentity right rights) ∨
    (¬isReadable left lefts ∧ isReadable right rights ∧ hashedName leftIdentity left lefts =
        readableName (jvmIdentifier right) (genericSuffix rights))

variable (lengths : leftIdentity.length = rightIdentity.length)
  (identities : leftIdentity = rightIdentity ↔ left = right)
  (noCollision : shortHash (completeIdentity (genericSuffix lefts) leftIdentity) 10 =
        shortHash (completeIdentity (genericSuffix rights) rightIdentity) 10 →
      completeIdentity (genericSuffix lefts) leftIdentity =
        completeIdentity (genericSuffix rights) rightIdentity)

include lengths identities noCollision

/-- The suffix that the hash sees has lost the borders of the tokens. -/
theorem hashed_name_eq_iff :
    hashedName leftIdentity left lefts = hashedName rightIdentity right rights ↔
      left = right ∧ nameWords left lefts = nameWords right rights := by
  constructor
  · intro same
    have digits (input : List Char) : (shortHash input 10).length = 10 := by
      simp only [shortHash, length_take, length_append, length_replicate]
      omega
    have hashes := (append_inj' same (by simp [digits])).2
    have complete := noCollision (cons.inj hashes).2
    have parts := append_inj complete lengths
    have sameFunction := identities.mp parts.1
    have sameSuffix := (cons.inj parts.2).2
    refine ⟨sameFunction, ?_⟩
    rw [← readable_name_eq_iff, sameFunction, sameSuffix]
  · intro same
    obtain ⟨rfl, words⟩ := same
    have suffixes : genericSuffix lefts = genericSuffix rights := by
      rw [← readable_name_eq_iff, readableName, readableName] at words
      split at words <;> split at words <;> simp_all
    rw [hashedName, hashedName, suffixes, identities.mpr rfl]

end Names

end RustcCodegenJvm.Lower1.MethodNames
