import Mathlib

/-!
# Response files

`parse_response_lines` of `java-linker/src/main.rs`. In the MSVC style backslashes are not escaped:
a quote of the argument is the only one that follows a backslash of the escaping.
-/

namespace RustcCodegenJvm.Linker.ResponseFile

open List

/-- `str::lines`; the carriage return that it strips is one of those trimmed below. -/
def lines : List Char → List (List Char)
  | [] => []
  | '\n' :: rest => [] :: lines rest
  | character :: rest =>
    match lines rest with
    | [] => [[character]]
    | line :: more => (character :: line) :: more

def stripQuotes : List Char → List Char
  | '"' :: rest => if rest.getLast? = some '"' then rest.dropLast else '"' :: rest
  | line => line

variable (msvcQuoting : Bool)

def unescape : List Char → List Char
  | [] => []
  | [character] => [character]
  | character :: next :: rest =>
    if character = '\\' ∧ (msvcQuoting → next = '"') then next :: unescape rest
    else character :: unescape (next :: rest)

def parseLine (line : List Char) : Option (List Char) :=
  let line := line.rdropWhile (· == '\r')
  if line = [] then none
  else some (unescape msvcQuoting (if msvcQuoting then stripQuotes line else line))

def parseResponseLines (content : List Char) : List (List Char) :=
  (lines content).filterMap (parseLine msvcQuoting)

/-- What is written for an argument: backslashes before backslashes and spaces, or before quotes. -/
def escape (argument : List Char) : List Char :=
  argument.flatMap fun character =>
    if (if msvcQuoting then character = '"' else character = '\\' ∨ character = ' ') then
      ['\\', character]
    else [character]

def written (argument : List Char) : List Char :=
  if msvcQuoting then '"' :: (escape true argument ++ ['"']) else escape false argument

theorem lines_line {line : List Char} (unbroken : '\n' ∉ line) (rest : List Char) :
    lines (line ++ '\n' :: rest) = line :: lines rest := by
  induction line with
  | nil => rfl
  | cons character line ih =>
    have other : character ≠ '\n' := by rintro rfl; simp at unbroken
    have later := ih fun member => unbroken (by simp [member])
    simp [lines, later]

variable {msvcQuoting}

theorem unescape_plain {character : Char} {text : List Char}
    (plain : character = '\\' → msvcQuoting = true ∧ text.head? ≠ some '"') :
    unescape msvcQuoting (character :: text) = character :: unescape msvcQuoting text := by
  cases text with
  | nil => rfl
  | cons next rest =>
    rw [unescape, if_neg]
    rintro ⟨isBackslash, isQuote⟩
    obtain ⟨isMsvc, notQuote⟩ := plain isBackslash
    exact notQuote (congrArg some (isQuote isMsvc))

theorem escape_head (argument : List Char) : (escape true argument).head? ≠ some '"' := by
  cases argument with
  | nil => simp [escape]
  | cons character rest => by_cases isQuote : character = '"' <;> simp [escape, isQuote]

theorem unescape_escape (argument : List Char) :
    unescape msvcQuoting (escape msvcQuoting argument) = argument := by
  induction argument with
  | nil => rfl
  | cons character rest ih =>
    rw [escape, flatMap_cons, ← escape]
    split_ifs with isMsvc escaped escaped
    · subst isMsvc
      rw [cons_append, singleton_append, unescape, if_pos ⟨rfl, fun _ => escaped⟩, ih]
    · subst isMsvc
      rw [singleton_append, unescape_plain fun _ => ⟨rfl, escape_head rest⟩, ih]
    · rw [cons_append, singleton_append, unescape, if_pos ⟨rfl, fun msvc => absurd msvc isMsvc⟩, ih]
    · rw [singleton_append, unescape_plain fun isBackslash => absurd (.inl isBackslash) escaped, ih]

variable {argument : List Char}

theorem written_ends (nonempty : argument ≠ []) (ends : argument.getLast? ≠ some '\r') :
    ∃ text last, written msvcQuoting argument = text ++ [last] ∧ last ≠ '\r' := by
  cases msvcQuoting with
  | true => exact ⟨'"' :: escape true argument, '"', rfl, by decide⟩
  | false =>
    obtain ⟨front, last, rfl⟩ := (eq_nil_or_concat argument).resolve_left nonempty
    have other : last ≠ '\r' := by simpa using ends
    by_cases escaped : last = '\\' ∨ last = ' '
    · exact ⟨escape false front ++ ['\\'], last, by simp [written, escape, escaped], other⟩
    · exact ⟨escape false front, last, by simp [written, escape, escaped], other⟩

theorem parse_written (nonempty : argument ≠ []) (ends : argument.getLast? ≠ some '\r') :
    parseLine msvcQuoting (written msvcQuoting argument) = some argument := by
  obtain ⟨text, last, isWritten, other⟩ := written_ends nonempty ends
  have untrimmed : (written msvcQuoting argument).rdropWhile (· == '\r') = written msvcQuoting argument := by
    rw [isWritten, rdropWhile_concat_neg]
    simpa using other
  have unquoted : (if msvcQuoting then stripQuotes (written msvcQuoting argument)
      else written msvcQuoting argument) = escape msvcQuoting argument := by
    cases msvcQuoting <;> simp [written, stripQuotes]
  rw [parseLine, untrimmed, if_neg (by simp [isWritten]), unquoted, unescape_escape]

theorem written_unbroken (unbroken : '\n' ∉ argument) : '\n' ∉ written msvcQuoting argument := by
  have escaped (style : Bool) : '\n' ∉ escape style argument := by
    intro member
    obtain ⟨character, isMember, isBreak⟩ := mem_flatMap.mp member
    have same : character = '\n' := by split_ifs at isBreak <;> simpa [eq_comm] using isBreak
    exact unbroken (same ▸ isMember)
  cases msvcQuoting <;> simp [written, escaped]

/-- What is written for a list of arguments is read back. -/
theorem parse_response_lines_written (arguments : List (List Char))
    (plain : ∀ argument ∈ arguments, argument ≠ [] ∧ '\n' ∉ argument ∧ argument.getLast? ≠ some '\r') :
    parseResponseLines msvcQuoting (arguments.flatMap fun argument =>
      written msvcQuoting argument ++ ['\n']) = arguments := by
  induction arguments with
  | nil => rfl
  | cons argument rest ih =>
    obtain ⟨⟨nonempty, unbroken, ends⟩, others⟩ := List.forall_mem_cons.mp plain
    rw [parseResponseLines, List.flatMap_cons, List.append_assoc, List.singleton_append,
      lines_line (written_unbroken unbroken), List.filterMap_cons, parse_written nonempty ends]
    exact congrArg (argument :: ·) (ih others)

/-- A path that ends in a backslash, and a quoted name. -/
theorem parse_response_lines_written_path :
    parseResponseLines true ([['a', ' ', '\\'], ['"', 'b', '"']].flatMap fun argument =>
      written true argument ++ ['\n']) = [['a', ' ', '\\'], ['"', 'b', '"']] :=
  parse_response_lines_written _ (by decide)

end RustcCodegenJvm.Linker.ResponseFile
