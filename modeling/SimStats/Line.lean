import SimStats.Text.Blank
import SimStats.Tree.Insert

/-!
# Content lines

A content line names one statistic: a name, a number, any further columns, and after the first `#` a
description. Fields stand between blanks. The name is cut into segments at the separators of the
format, and no segment may be empty; all but the last are categories.
-/

namespace SimStats

/-- What a content line says: a statistic and the categories it belongs to. -/
structure Line where
  /-- all segments of the name but the last -/
  categories : List String
  /-- the statistic, named by the last segment -/
  stat : Stat
  deriving DecidableEq

namespace Line

/-- The columns of a line as they are written. -/
structure Fields where
  /-- the whole name -/
  name : List Char
  /-- the value column -/
  value : List Char
  /-- the text after the first `#`, without blanks at its ends -/
  description : List Char
  deriving DecidableEq

/-- Splits off the first field, and the blanks after it. -/
def takeField? (s : List Char) : Option (List Char × List Char) :=
  let s := Text.trimStart s
  if s = [] then none
  else some (s.takeWhile (!Text.isBlank ·), Text.trimStart (s.dropWhile (!Text.isBlank ·)))

/-- Splits a line into its columns. Something has to follow the value, and there has to be a `#`
in it. -/
def fields? (s : List Char) : Option Fields := do
  let (name, s) ← takeField? s
  let (value, rest) ← takeField? s
  if '#' ∈ rest then
    some ⟨name, value, Text.trimChars ((rest.dropWhile (· != '#')).drop 1)⟩
  else none

/-- Reads a line without blanks at its ends. -/
def parseTrimmed (separators : List String) (s : List Char) : Except LineError Line :=
  match fields? s with
  | none => .error .malformedLine
  | some fields =>
    let name := String.ofList fields.name
    let segments := Path.split separators name
    if "" ∈ segments then .error (.emptySegment name)
    else
      let token := String.ofList fields.value
      match Value.ofToken? token with
      | none => .error (.malformedValue token)
      | some value =>
        .ok ⟨segments.dropLast, segments.getLastD "", value, String.ofList fields.description⟩

/-- Reads a line. -/
def parse (separators : List String) (line : String) : Except LineError Line :=
  parseTrimmed separators (Text.trimChars line.toList)

/-- The segments of the statistic's name. -/
def segments (l : Line) : List String := l.categories ++ [l.stat.name]

end Line

/-- The separators of names where no format says otherwise. -/
def standardSeparators : List String := [".", "::"]

namespace Group

/-- Adds the statistic of a content line. -/
def addLine (g : Group) (separators : List String) (line : String) : Except LineError Group :=
  (Line.parse separators line).bind fun l => g.insert l.categories l.stat

end Group

end SimStats
