import SimStats.Files
import SimStats.Path

/-!
# A directory in memory

`Listing.files` makes a file system of a list of files below one directory, which is the directory
that relative paths start from. A path is walked name by name: every name but the last has to lead
to a directory, `.` stays and `..` goes up. Outside the directory nothing is known, so no name leads
anywhere from there.
-/

namespace SimStats

/-- Something that is listed. -/
inductive Listed where
  /-- a file with its bytes -/
  | file (content : ByteArray)
  /-- a directory -/
  | directory

/-- What is below a directory, each with the names that lead to it. The directories on the way are
not listed themselves. -/
abbrev Listing := List (List String × Listed)

namespace Listing

/-- Where a walk has got to. -/
inductive Place where
  /-- at the end of these names -/
  | inside (names : List String)
  /-- above the directory -/
  | outside
  deriving DecidableEq, Repr

/-- The longest name, in bytes. -/
def nameLimit : Nat := 255

/-- The longest path, in bytes. -/
def pathLimit : Nat := 4095

/-- What is at the end of the given names. -/
def at? (l : Listing) (names : List String) : Option Listed :=
  match l.lookup names with
  | some found => some found
  | none =>
    if names = [] || l.any fun e => names.isPrefixOf e.1 then some .directory else none

/-- Whether a place is a directory. -/
def isDirectory (l : Listing) : Place → Bool
  | .outside => true
  | .inside names =>
    match l.at? names with
    | some .directory => true
    | _ => false

/-- Follows one name. -/
def step (l : Listing) (place : Place) (name : String) : Except Fault Place :=
  if !l.isDirectory place then .error .notDirectory
  else if name = "" ∨ name = "." then .ok place
  else if name = ".." then
    match place with
    | .inside [] => .ok .outside
    | .inside names => .ok (.inside names.dropLast)
    | .outside => .ok .outside
  else if nameLimit < name.utf8ByteSize then .error .nameTooLong
  else
    match place with
    | .outside => .error .missing
    | .inside names =>
      if (l.at? (names ++ [name])).isSome then .ok (.inside (names ++ [name]))
      else .error .missing

/-- Follows names one after the other. -/
def walk (l : Listing) (place : Place) : List String → Except Fault Place
  | [] => .ok place
  | name :: rest => (l.step place name).bind fun place => walk l place rest

/-- What a path leads to. -/
def entry (l : Listing) (path : String) : Entry :=
  if '\x00' ∈ path.toList then .closed .nulInPath
  else if path = "" then .closed .missing
  else if pathLimit < path.utf8ByteSize then .closed .nameTooLong
  else
    let start := if path.toList.head? = some '/' then .outside else .inside []
    match l.walk start (Path.split ["/"] path) with
    | .error fault => .closed fault
    | .ok .outside => .directory
    | .ok (.inside names) =>
      match l.at? names with
      | some (.file content) => .file content
      | some .directory => .directory
      | none => .closed .missing

/-- The names of a relative path that has neither `.` nor `..` in it. -/
def namesOf (path : String) : List String := (Path.split ["/"] path).filter (· != "")

/-- The file system in which exactly these files are below the starting directory. -/
def files (l : Listing) : Files := l.entry

end Listing

end SimStats
