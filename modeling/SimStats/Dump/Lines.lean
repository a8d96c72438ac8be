import SimStats.Files
import SimStats.Text.Blank

/-!
# The lines of a file

A file is read line by line, and whether its bytes are text is found out line by line too: bytes
that are no UTF-8 matter only to those who read as far as their line. A line ends at a line feed or
at the end of the file. Readers here look at lines without the blanks at their ends, which takes
care of a carriage return before the line feed.
-/

namespace SimStats

/-- A line as it comes out of a file: its text without blanks at its ends, or why it could not be
read. -/
abbrev RawLine := Except Fault String

namespace RawLine

/-- Splits at line feeds; what follows the last one is a line unless it is empty. -/
def splitBytes (bytes : List UInt8) : List (List UInt8) :=
  match bytes with
  | [] => []
  | b :: rest =>
    (b :: rest).takeWhile (· != 10) :: splitBytes (((b :: rest).dropWhile (· != 10)).drop 1)
termination_by bytes.length
decreasing_by
  have h := (List.dropWhile_suffix (l := b :: rest) (· != 10)).length_le
  cases hd : (b :: rest).dropWhile (· != 10) with
  | nil => simp
  | cons c r =>
    rw [hd] at h
    simp only [List.drop_succ_cons, List.drop_zero, List.length_cons] at *
    omega

/-- The line with the given bytes. -/
def ofBytes (bytes : List UInt8) : RawLine :=
  match String.fromUTF8? ⟨bytes.toArray⟩ with
  | some s => .ok (Text.trim s)
  | none => .error .notText

end RawLine

namespace Entry

/-- The lines of a file. A directory can be opened, but its first line cannot be read. -/
def lines : Entry → Except Fault (List RawLine)
  | .closed fault => .error fault
  | .directory => .ok [.error .isDirectory]
  | .file content => .ok ((RawLine.splitBytes content.data.toList).map RawLine.ofBytes)

end Entry

end SimStats
