import RustcCodegenJvm.Jvm.ConstantPool
import RustcCodegenJvm.Library.ByteReader

/-!
# Class bundles

The backend writes the classes of a shard into one file, `write_class_bundle` in
`lower2.rs`, and the linker reads them back, `collect_class_bundle_reader`. A
bundle is a magic number and then a record for each class: the lengths of its
name and of its bytes, the name, the bytes. Failures of the file system are not
modelled, and `usize` has 64 bits.
-/

namespace RustcCodegenJvm.Linker

open Jvm Library ByteReader StateExcept List

def classBundleMagic : Bytes := [82, 67, 74, 86, 77, 66, 49, 0]

def utf8Bytes (text : String) : Bytes := text.toUTF8.data.toList

def fromUtf8 (bytes : Bytes) : Option String := String.fromUTF8? ⟨⟨bytes⟩⟩

theorem from_utf8_bytes (text : String) : fromUtf8 (utf8Bytes text) = some text := by
  have isBytes : (⟨⟨utf8Bytes text⟩⟩ : ByteArray) = text.toUTF8 := rfl
  have valid : text.toUTF8.IsValidUTF8 := text.isValidUTF8
  rw [fromUtf8, isBytes, String.fromUTF8?, dif_pos valid]
  rfl

/-! ### The writer -/

def recordBytes (name : String) (bytecode : Bytes) : Bytes :=
  toLittleEndian 4 (utf8Bytes name).length ++ (toLittleEndian 8 bytecode.length ++
    (utf8Bytes name ++ bytecode))

def writeRecords (context : String) : List (String × Bytes) → Except JvmError Bytes
  | [] => .ok []
  | (name, bytecode) :: classes =>
    if (utf8Bytes name).length < 2 ^ 32 then
      if bytecode.length < 2 ^ 64 then do
        let rest ← writeRecords context classes
        return recordBytes name bytecode ++ rest
      else .error (.verificationError context "JVM class data exceeds bundle format limit")
    else .error (.verificationError context "JVM class name exceeds bundle format limit")

def writeClassBundle (context : String) (classes : List (String × Bytes)) : Except JvmError Bytes := do
  let records ← writeRecords context classes
  return classBundleMagic ++ records

/-! ### The reader -/

structure ClassInfo where
  jarEntryName : String
  data : Bytes
deriving DecidableEq

inductive BundleError
  /-- `read_exact` -/
  | unexpectedEof
  | invalidData (message : String)
  /-- The error of `String::from_utf8` -/
  | invalidUtf8
deriving DecidableEq

def readClassName (nameLength : Nat) : StateT Bytes (Except BundleError) String := do
  let name ← readExact .unexpectedEof nameLength
  match fromUtf8 name with
  | some name => return name
  | none => throw .invalidUtf8

/-- What follows the first byte of a record. -/
def readClass (path : String) (firstByte : UInt8) : StateT Bytes (Except BundleError) ClassInfo := do
  let nameLengthBytes ← readExact .unexpectedEof 3
  let classLengthBytes ← readExact .unexpectedEof 8
  if ofLittleEndian classLengthBytes < 2 ^ 64 then
    let name ← readClassName (ofLittleEndian (firstByte :: nameLengthBytes))
    let bytes ← readExact .unexpectedEof (ofLittleEndian classLengthBytes)
    return ⟨name ++ ".class", bytes⟩
  else throw (.invalidData ("class length exceeds this host's address space in " ++ path))

theorem read_class_shortens {path : String} {firstByte : UInt8} {data rest : Bytes} {class_ : ClassInfo}
    (ran : readClass path firstByte data = .ok (class_, rest)) : rest.length ≤ data.length := by
  obtain ⟨nameLengthBytes, afterFirst, first, ran⟩ := bind_ok ran
  obtain ⟨classLengthBytes, afterSecond, second, ran⟩ := bind_ok ran
  have firstShorter := read_exact_shortens first
  have secondShorter := read_exact_shortens second
  split at ran
  · obtain ⟨name, afterName, named, ran⟩ := bind_ok ran
    obtain ⟨bytes, afterBytes, read, ran⟩ := bind_ok ran
    obtain ⟨-, rfl⟩ := pure_ok ran
    obtain ⟨nameBytes, afterNameBytes, third, named⟩ := bind_ok named
    have thirdShorter := read_exact_shortens third
    have fourthShorter := read_exact_shortens read
    split at named
    · obtain ⟨-, rfl⟩ := pure_ok named
      omega
    · exact absurd named (throw_ok)
  · exact absurd ran (throw_ok)

/-- The loop ends when no byte is left in front of a record. -/
def readClasses (path : String) (data : Bytes) : Except BundleError (List ClassInfo) :=
  match data with
  | [] => .ok []
  | firstByte :: data =>
    match _ran : readClass path firstByte data with
    | .ok (class_, rest) => do
      let classes ← readClasses path rest
      return class_ :: classes
    | .error error => .error error
termination_by data.length
decreasing_by
  have shorter := read_class_shortens _ran
  simp only [length_cons]
  omega

def collectClassBundleReader (path : String) (data : Bytes) : Except BundleError (List ClassInfo) := do
  let (magic, data) ← readExact .unexpectedEof classBundleMagic.length data
  if magic = classBundleMagic then readClasses path data
  else .error (.invalidData (path ++ " is not a JVM class bundle"))

/-! ### Round trips -/

def WithinLimits (class_ : String × Bytes) : Prop :=
  (utf8Bytes class_.1).length < 2 ^ 32 ∧ class_.2.length < 2 ^ 64

def classInfo (class_ : String × Bytes) : ClassInfo := ⟨class_.1 ++ ".class", class_.2⟩

def records (classes : List (String × Bytes)) : Bytes :=
  (classes.map fun class_ => recordBytes class_.1 class_.2).flatten

variable {classes : List (String × Bytes)}

theorem write_records_ok {context : String} (limits : ∀ class_ ∈ classes, WithinLimits class_) :
    writeRecords context classes = .ok (records classes) := by
  induction classes with
  | nil => rfl
  | cons class_ rest ih =>
    obtain ⟨nameFits, dataFits⟩ := limits class_ mem_cons_self
    rw [writeRecords, if_pos nameFits, if_pos dataFits,
      ih fun other member => limits other (mem_cons_of_mem _ member)]
    rfl

variable {cut : Nat}

section Records

variable {path : String} {class_ : String × Bytes}

theorem record_split (class_ : String × Bytes) : ∃ firstByte nameLengthBytes,
    recordBytes class_.1 class_.2 = firstByte :: (nameLengthBytes ++
      (toLittleEndian 8 class_.2.length ++ (utf8Bytes class_.1 ++ class_.2))) ∧
    nameLengthBytes.length = 3 ∧
    firstByte :: nameLengthBytes = toLittleEndian 4 (utf8Bytes class_.1).length :=
  ⟨_, _, rfl, to_little_endian_length 3 _, rfl⟩

theorem read_class_name_bind {Result : Type} (name : String) (rest : Bytes)
    (next : String → StateT Bytes (Except BundleError) Result) :
    (readClassName (utf8Bytes name).length >>= next) (utf8Bytes name ++ rest) = next name rest := by
  unfold readClassName
  rw [bind_assoc, read_exact_bind rfl, from_utf8_bytes]
  rfl

theorem read_class_name_bind_cut {Result : Type} {name : String} {rest : Bytes}
    {next : String → StateT Bytes (Except BundleError) Result}
    (inside : cut < (utf8Bytes name ++ rest).length)
    (later : ∀ shorter, shorter < rest.length → next name (rest.take shorter) = .error .unexpectedEof) :
    (readClassName (utf8Bytes name).length >>= next) ((utf8Bytes name ++ rest).take cut) =
      .error .unexpectedEof := by
  unfold readClassName
  rw [bind_assoc]
  apply read_exact_bind_cut rfl inside
  intro shorter below
  rw [from_utf8_bytes]
  exact later shorter below

theorem read_classes_record (limits : WithinLimits class_) (rest : Bytes) :
    readClasses path (recordBytes class_.1 class_.2 ++ rest) = (do
      let classes ← readClasses path rest
      return classInfo class_ :: classes) := by
  obtain ⟨firstByte, nameLengthBytes, isRecord, isThree, isLength⟩ := record_split class_
  have isName := of_to_little_endian (show (utf8Bytes class_.1).length < 256 ^ 4 from limits.1)
  have isData := of_to_little_endian (show class_.2.length < 256 ^ 8 from limits.2)
  have ran : readClass path firstByte (nameLengthBytes ++ (toLittleEndian 8 class_.2.length ++
      (utf8Bytes class_.1 ++ (class_.2 ++ rest)))) = .ok (classInfo class_, rest) := by
    unfold readClass
    rw [read_exact_bind isThree, read_exact_bind (to_little_endian_length 8 _), isData, if_pos limits.2,
      isLength, isName, read_class_name_bind, read_exact_bind rfl]
    rfl
  rw [isRecord]
  simp only [cons_append, append_assoc]
  rw [readClasses]
  split
  · next found foundRest isFound =>
    rw [ran] at isFound
    cases isFound
    rfl
  · next error isFound =>
    rw [ran] at isFound
    cases isFound

theorem read_classes_records {classes : List (String × Bytes)}
    (limits : ∀ class_ ∈ classes, WithinLimits class_) (rest : Bytes) :
    readClasses path (records classes ++ rest) = (do
      let others ← readClasses path rest
      return classes.map classInfo ++ others) := by
  induction classes with
  | nil => simp [records]
  | cons class_ later ih =>
    have isRecords : records (class_ :: later) ++ rest =
        recordBytes class_.1 class_.2 ++ (records later ++ rest) := by
      simp [records]
    rw [isRecords, read_classes_record (limits class_ mem_cons_self),
      ih fun other member => limits other (mem_cons_of_mem _ member)]
    simp

theorem read_classes_cut (limits : WithinLimits class_) (some : 0 < cut)
    (inside : cut < (recordBytes class_.1 class_.2).length) :
    readClasses path ((recordBytes class_.1 class_.2).take cut) = .error .unexpectedEof := by
  obtain ⟨firstByte, nameLengthBytes, isRecord, isThree, isLength⟩ := record_split class_
  obtain ⟨cut, rfl⟩ := Nat.exists_eq_succ_of_ne_zero some.ne'
  have isName := of_to_little_endian (show (utf8Bytes class_.1).length < 256 ^ 4 from limits.1)
  have isData := of_to_little_endian (show class_.2.length < 256 ^ 8 from limits.2)
  rw [isRecord] at inside ⊢
  rw [take_succ_cons, readClasses]
  have ran : readClass path firstByte ((nameLengthBytes ++ (toLittleEndian 8 class_.2.length ++
      (utf8Bytes class_.1 ++ class_.2))).take cut) = .error .unexpectedEof := by
    apply read_exact_bind_cut isThree (by simpa using inside)
    intro shorter below
    apply read_exact_bind_cut (to_little_endian_length 8 _) below
    intro shorter below
    rw [isData, if_pos limits.2, isLength, isName]
    apply read_class_name_bind_cut below
    intro shorter below
    apply read_exact_bind_short
    rw [length_take]
    omega
  split
  · next found foundRest isFound =>
    rw [ran] at isFound
    cases isFound
  · next error isFound =>
    rw [ran] at isFound
    cases isFound
    rfl

end Records

/-- The lengths of the bundles of the first classes. -/
def IsRecordBoundary (classes : List (String × Bytes)) (cut : Nat) : Prop :=
  ∃ count, cut = classBundleMagic.length + (records (classes.take count)).length

theorem inside_record (below : cut < (records classes).length)
    (between : ∀ count, cut ≠ (records (classes.take count)).length) :
    ∃ earlier class_ later inner, classes = earlier ++ class_ :: later ∧ 0 < inner ∧
      inner < (recordBytes class_.1 class_.2).length ∧
      (records classes).take cut = records earlier ++ (recordBytes class_.1 class_.2).take inner := by
  induction classes generalizing cut with
  | nil => simp [records] at below
  | cons class_ later ih =>
    have isRecords : records (class_ :: later) = recordBytes class_.1 class_.2 ++ records later := by
      simp [records]
    by_cases inFirst : cut < (recordBytes class_.1 class_.2).length
    · refine ⟨[], class_, later, cut, rfl, ?_, inFirst, ?_⟩
      · apply Nat.pos_of_ne_zero
        exact between 0
      · rw [isRecords, take_append_of_le_length inFirst.le]
        rfl
    · have below : cut - (recordBytes class_.1 class_.2).length < (records later).length := by
        rw [isRecords, length_append] at below
        omega
      have between : ∀ count, cut - (recordBytes class_.1 class_.2).length ≠
          (records (later.take count)).length := by
        intro count same
        apply between (count + 1)
        rw [take_succ_cons]
        simp only [records, map_cons, flatten_cons, length_append] at same ⊢
        omega
      obtain ⟨earlier, found, rest, inner, isLater, some, inside, taken⟩ := ih below between
      refine ⟨class_ :: earlier, found, rest, inner, by rw [isLater, cons_append], some, inside, ?_⟩
      rw [isRecords, take_append, take_of_length_le (Nat.le_of_not_lt inFirst), taken]
      simp [records]

section Magic

variable (path : String)

theorem read_after_magic (data : Bytes) :
    collectClassBundleReader path (classBundleMagic ++ data) = readClasses path data := rfl

theorem read_cut_magic {data : Bytes} (short : data.length < classBundleMagic.length) :
    collectClassBundleReader path data = .error .unexpectedEof := by
  rw [collectClassBundleReader, readExact, if_neg (Nat.not_le_of_lt short)]
  rfl

end Magic

theorem cut_is_rejected {path : String} (limits : ∀ class_ ∈ classes, WithinLimits class_)
    (below : cut < (classBundleMagic ++ records classes).length) (between : ¬IsRecordBoundary classes cut) :
    collectClassBundleReader path ((classBundleMagic ++ records classes).take cut) =
      .error .unexpectedEof := by
  by_cases inMagic : cut < classBundleMagic.length
  · apply read_cut_magic
    rw [length_take]
    omega
  · rw [length_append] at below
    rw [take_append, take_of_length_le (Nat.le_of_not_lt inMagic), read_after_magic]
    have isBetween : ∀ count, cut - classBundleMagic.length ≠ (records (classes.take count)).length := by
      intro count same
      apply between
      exact ⟨count, by omega⟩
    obtain ⟨earlier, class_, later, inner, isClasses, some, inside, taken⟩ :=
      inside_record (by omega) isBetween
    rw [isClasses] at limits
    rw [taken, read_classes_records fun other member => limits other (mem_append_left _ member),
      read_classes_cut (limits class_ (by simp)) some inside]
    rfl

/-- What the writer produces is read back, and is rejected when it is cut inside a record. -/
theorem class_bundle_round_trips (context path : String) (classes : List (String × Bytes))
    (limits : ∀ class_ ∈ classes, WithinLimits class_) :
    ∃ data, writeClassBundle context classes = .ok data ∧
      collectClassBundleReader path data = .ok (classes.map classInfo) ∧
      ∀ cut, cut < data.length → ¬IsRecordBoundary classes cut →
        ∃ error, collectClassBundleReader path (data.take cut) = .error error := by
  refine ⟨classBundleMagic ++ records classes, ?_, ?_, ?_⟩
  · rw [writeClassBundle, write_records_ok limits]
    rfl
  · have whole := @read_classes_records path classes limits []
    rw [append_nil] at whole
    rw [read_after_magic, whole, readClasses]
    simp
  · intro cut below between
    exact ⟨.unexpectedEof, cut_is_rejected limits below between⟩

theorem class_bundle_round_trips_on_one_class :
    ∃ data, writeClassBundle "test" [("test/Generic", [202, 254])] = .ok data ∧
      collectClassBundleReader "test.jvmbundle" data = .ok [⟨"test/Generic.class", [202, 254]⟩] := by
  have limits : ∀ class_ ∈ [("test/Generic", ([202, 254] : Bytes))], WithinLimits class_ := by
    intro class_ member
    rw [mem_singleton] at member
    rw [member]
    exact ⟨by decide, by decide⟩
  obtain ⟨data, written, read, -⟩ :=
    class_bundle_round_trips "test" "test.jvmbundle" [("test/Generic", [202, 254])] limits
  exact ⟨data, written, read⟩

end RustcCodegenJvm.Linker
