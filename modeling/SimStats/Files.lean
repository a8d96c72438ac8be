/-!
# What a path leads to

All that the library asks of a file system: whether something can be opened at a path, and what it
holds. A directory can be opened like a file, and only reading from it fails.
-/

namespace SimStats

/-- Why something cannot be opened or read. -/
inductive Fault where
  /-- there is nothing at the path -/
  | missing
  /-- the path leads through something that is no directory -/
  | notDirectory
  /-- a directory was read -/
  | isDirectory
  /-- the path or a name in it is too long -/
  | nameTooLong
  /-- the path holds a character that no path can hold -/
  | nulInPath
  /-- what was read is no text -/
  | notText
  /-- anything else, in the words of the system -/
  | other (text : String)
  deriving DecidableEq, Repr

/-- The fault in words. -/
def Fault.message : Fault → String
  | .missing => "No such file or directory (os error 2)"
  | .notDirectory => "Not a directory (os error 20)"
  | .isDirectory => "Is a directory (os error 21)"
  | .nameTooLong => "File name too long (os error 36)"
  | .nulInPath => "file name contained an unexpected NUL byte"
  | .notText => "stream did not contain valid UTF-8"
  | .other text => text

/-- What a path leads to. -/
inductive Entry where
  /-- nothing that can be opened -/
  | closed (fault : Fault)
  /-- a directory -/
  | directory
  /-- a file with its bytes -/
  | file (content : ByteArray)

/-- A file system at one moment. -/
abbrev Files := String → Entry

namespace Entry

/-- The whole text of a file. -/
def text : Entry → Except Fault String
  | .closed fault => .error fault
  | .directory => .error .isDirectory
  | .file content =>
    match String.fromUTF8? content with
    | some s => .ok s
    | none => .error .notText

end Entry

/-- `name` as seen from the directory `dir`. A name that starts at the root stays as it is. -/
def joinPath (dir name : String) : String :=
  if name.toList.head? = some '/' then name
  else if dir.toList.getLast?.all (· == '/') then dir ++ name
  else dir ++ "/" ++ name

end SimStats
