import RustcCodegenJvm.Lower1.MethodNames
import RustcCodegenJvm.Oomir.Constant

/-!
# Names of tuple classes

`generate_tuple_jvm_class_name` of `lower1/types.rs`. A readable name joins the names of the
carriers by underscores; a hash is added when a registry of the run has it for other carriers.
-/

namespace RustcCodegenJvm.Lower1.TupleNames

open Oomir MethodNames

/-- With the arms of `readable_oomir_type_name` that it falls through to. -/
def readableTupleAbiTypeName : Ty → List Char
  | .class name => sanitizeNameToken name.toList
  | .interface name => 'I' :: sanitizeNameToken name.toList
  | .array inner => readableTupleAbiTypeName inner ++ "Array".toList
  | .slice inner => readableTupleAbiTypeName inner ++ "Slice".toList
  | .pointer inner => "Ptr".toList ++ readableTupleAbiTypeName inner
  | .reference inner | .mutableReference inner => "Ref".toList ++ readableTupleAbiTypeName inner
  | .boolean => "bool".toList
  | .char => "char".toList
  | .int kind => (if kind.signed then 'i' else 'u') :: Nat.toDigits 10 kind.width
  | .f16 => "f16".toList
  | .f32 => "f32".toList
  | .f64 => "f64".toList
  | .str => "Str".toList
  | .void => "Void".toList
  | .unit => "Unit".toList

/-- The carriers of a tuple, and the joined names of its Rust types. -/
structure Request where
  oomirElementTypes : List Ty
  identity : List Char

def maxTupleNameLen : Nat := 180

def tupleName (suffix : List Char) : List Char := "org/rustlang/core/Tuple_".toList ++ suffix

def readableTupleName (request : Request) : List Char :=
  tupleName (genericSuffix (request.oomirElementTypes.map readableTupleAbiTypeName))

def disambiguated (request : Request) : List Char :=
  let hash := shortHash request.identity 10
  let name := readableTupleName request ++ '_' :: hash
  if name.length ≤ maxTupleNameLen then name else tupleName hash

abbrev TupleAbis := List (List Char × List Ty)

/-- The field types of the classes of a unit; `none` for an interface. -/
abbrev DataTypes := List (List Char × Option (List Ty))

def generateTupleJvmClassName (request : Request) (dataTypes : DataTypes) (tupleAbis : TupleAbis) :
    List Char × TupleAbis :=
  let name := readableTupleName request
  let localIncompatibleCollision := match dataTypes.lookup name with
    | some fields => fields != some request.oomirElementTypes
    | none => false
  if name.length ≤ maxTupleNameLen then
    let crate := match tupleAbis.lookup name with
      | some existing => (existing != request.oomirElementTypes, tupleAbis)
      | none => (false, (name, request.oomirElementTypes) :: tupleAbis)
    (if !localIncompatibleCollision && !crate.1 then name else disambiguated request, crate.2)
  else (disambiguated request, tupleAbis)

/-- A request of one unit of a run; `ty_to_oomir_type` then defines the class, other callers do not. -/
structure Call extends Request where
  codegenUnit : Nat
  defines : Bool

def runNames (dataTypes : Nat → DataTypes) (tupleAbis : TupleAbis) :
    List Call → List (Request × List Char)
  | [] => []
  | call :: rest =>
    let types := dataTypes call.codegenUnit
    let named := generateTupleJvmClassName call.toRequest types tupleAbis
    let defined := if call.defines && (types.lookup named.1).isNone then
      (named.1, some call.oomirElementTypes) :: types else types
    (call.toRequest, named.1) ::
      runNames (Function.update dataTypes call.codegenUnit defined) named.2 rest

/-- The name in an empty run. -/
def freshName (request : Request) : List Char :=
  if (readableTupleName request).length ≤ maxTupleNameLen then readableTupleName request
  else disambiguated request

theorem fresh_run_name (request : Request) :
    (generateTupleJvmClassName request [] []).1 = freshName request := by
  simp only [generateTupleJvmClassName, freshName]
  split_ifs <;> simp_all

variable (requests : Set Request)

def NamesApart : Prop :=
  ∀ first ∈ requests, ∀ second ∈ requests,
    freshName first = freshName second → first.oomirElementTypes = second.oomirElementTypes

/-- Every name is there as the fresh name of a request, with its carriers. -/
def Registered {α : Type} (wrap : List Ty → α) (entries : List (List Char × α)) : Prop :=
  ∀ entry ∈ entries, ∃ request ∈ requests,
    freshName request = entry.1 ∧ wrap request.oomirElementTypes = entry.2

variable {requests} {α : Type} {wrap : List Ty → α} {entries : List (List Char × α)}
  {request : Request} (requested : request ∈ requests)

include requested

theorem registered_cons (known : Registered requests wrap entries) :
    Registered requests wrap ((freshName request, wrap request.oomirElementTypes) :: entries) :=
  List.forall_mem_cons.mpr ⟨⟨request, requested, rfl, rfl⟩, known⟩

theorem registered_lookup (apart : NamesApart requests) (known : Registered requests wrap entries)
    (found : α) (present : entries.lookup (freshName request) = some found) :
    found = wrap request.oomirElementTypes := by
  obtain ⟨before, after, rfl, -⟩ := List.lookup_eq_some_iff.mp present
  obtain ⟨other, otherRequested, sameName, carriers⟩ :=
    known (freshName request, found) (by simp)
  exact carriers.symm.trans (congrArg wrap (apart other otherRequested request requested sameName))

theorem generated_fresh {dataTypes : DataTypes} {tupleAbis : TupleAbis} (apart : NamesApart requests)
    (types : Registered requests some dataTypes) (abis : Registered requests id tupleAbis) :
    (generateTupleJvmClassName request dataTypes tupleAbis).1 = freshName request ∧
      Registered requests id (generateTupleJvmClassName request dataTypes tupleAbis).2 := by
  by_cases short : (readableTupleName request).length ≤ maxTupleNameLen
  · have fresh : freshName request = readableTupleName request := if_pos short
    have inUnit := registered_lookup requested apart types
    have inCrate := registered_lookup requested apart abis
    have grown := registered_cons requested abis
    rw [fresh] at inUnit inCrate grown ⊢
    simp only [generateTupleJvmClassName, if_pos short]
    split <;> split
    · simp [inUnit _ ‹_›, inCrate _ ‹_›, abis]
    · simpa [inUnit _ ‹_›] using grown
    · simp [inCrate _ ‹_›, abis]
    · simpa using grown
  · simp [generateTupleJvmClassName, freshName, short, abis]

omit requested

theorem run_names_fresh (apart : NamesApart requests) (calls : List Call)
    (requested : ∀ call ∈ calls, call.toRequest ∈ requests) (dataTypes : Nat → DataTypes)
    (tupleAbis : TupleAbis) (types : ∀ index, Registered requests some (dataTypes index))
    (abis : Registered requests id tupleAbis) :
    ∀ named ∈ runNames dataTypes tupleAbis calls,
      named.1 ∈ requests ∧ named.2 = freshName named.1 := by
  induction calls generalizing dataTypes tupleAbis with
  | nil => simp [runNames]
  | cons call rest ih =>
    obtain ⟨wanted, others⟩ := List.forall_mem_cons.mp requested
    obtain ⟨sameName, later⟩ := generated_fresh wanted apart (types _) abis
    refine List.forall_mem_cons.mpr ⟨⟨wanted, sameName⟩, ih others _ _ (fun index => ?_) later⟩
    rw [Function.update_apply, sameName]
    split_ifs
    · exact registered_cons wanted (types _)
    · exact types _
    · exact types index

end RustcCodegenJvm.Lower1.TupleNames
