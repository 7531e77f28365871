import RustcCodegenJvm.Library.StateExcept

/-!
# Reading bytes

A reader consumes the front of a list of bytes. An exact read fails when too few
are left, so a reader that is a chain of exact reads accepts what was written for
it and rejects every cut of it. Numbers are little endian.
-/

namespace RustcCodegenJvm.Library.ByteReader

abbrev Bytes := List UInt8

/-! ### Little endian -/

def toLittleEndian : Nat → Nat → Bytes
  | 0, _ => []
  | count + 1, value => UInt8.ofNat (value % 256) :: toLittleEndian count (value / 256)

def ofLittleEndian : Bytes → Nat
  | [] => 0
  | byte :: rest => byte.toNat + 256 * ofLittleEndian rest

@[simp] theorem to_little_endian_length (count value : Nat) : (toLittleEndian count value).length = count := by
  induction count generalizing value with
  | zero => rfl
  | succ count ih => simp [toLittleEndian, ih]

theorem of_to_little_endian {count value : Nat} (fits : value < 256 ^ count) :
    ofLittleEndian (toLittleEndian count value) = value := by
  induction count generalizing value with
  | zero =>
    have isZero : value = 0 := by simpa using fits
    simp [isZero, toLittleEndian, ofLittleEndian]
  | succ count ih =>
    have smaller : value / 256 < 256 ^ count := by
      apply Nat.div_lt_of_lt_mul
      rwa [pow_succ, Nat.mul_comm] at fits
    have low : (UInt8.ofNat (value % 256)).toNat = value % 256 := by
      simp
    rw [toLittleEndian, ofLittleEndian, ih smaller, low]
    exact Nat.mod_add_div value 256

/-! ### Exact reads -/

section Reads

variable {Error : Type}

def readExact (ended : Error) (count : Nat) : StateT Bytes (Except Error) Bytes := fun data =>
  if count ≤ data.length then .ok (data.take count, data.drop count) else .error ended

variable {ended : Error} {count : Nat} {front rest data : Bytes} {Result : Type}
  {next : Bytes → StateT Bytes (Except Error) Result}

theorem read_exact_bind (isCount : front.length = count) :
    (readExact ended count >>= next) (front ++ rest) = next front rest := by
  have enough : count ≤ (front ++ rest).length := by simp [← isCount]
  have taken : readExact ended count (front ++ rest) = .ok (front, rest) := by
    rw [readExact, if_pos enough, List.take_left' isCount, List.drop_left' isCount]
  change (readExact ended count (front ++ rest) >>= fun result => next result.1 result.2) = _
  rw [taken]
  rfl

theorem read_exact_bind_short (short : data.length < count) :
    (readExact ended count >>= next) data = .error ended := by
  have failed : readExact ended count data = .error ended := by
    rw [readExact, if_neg (by omega)]
  change (readExact ended count data >>= fun result => next result.1 result.2) = _
  rw [failed]
  rfl

/-- If every cut of the rest is rejected after a read, every cut of the whole is. -/
theorem read_exact_bind_cut (isCount : front.length = count) {cut : Nat}
    (inside : cut < (front ++ rest).length)
    (later : ∀ shorter, shorter < rest.length → next front (rest.take shorter) = .error ended) :
    (readExact ended count >>= next) ((front ++ rest).take cut) = .error ended := by
  by_cases short : cut < count
  · apply read_exact_bind_short
    rw [List.length_take]
    omega
  · have isFront : (front ++ rest).take cut = front ++ rest.take (cut - count) := by
      rw [List.take_append, List.take_of_length_le (by omega), isCount]
    rw [isFront, read_exact_bind isCount]
    apply later
    rw [List.length_append] at inside
    omega

theorem read_exact_shortens (ran : readExact ended count data = .ok (front, rest)) : rest.length ≤ data.length := by
  unfold readExact at ran
  split at ran
  · cases ran
    simp
  · cases ran

end Reads

end RustcCodegenJvm.Library.ByteReader
