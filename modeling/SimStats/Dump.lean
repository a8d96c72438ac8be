import SimStats.Dump.Lines
import SimStats.Error
import SimStats.Tree.Flatten

/-!
# Dumps

A statistics file holds any number of dumps one after the other. A dump opens with a line that is
the begin marker and goes on to the next line that is the end marker, or to the end of the file;
text between dumps is skipped, and a begin marker inside a dump opens no other one for its reader,
but counts for those who look for a later dump. Each content line adds a statistic to the tree, and
one refused line refuses the dump.

`Dump.read` reads the dump with a given number and reads no further than its end marker.
`Dump.query` finds the node at a path.
-/

namespace SimStats

/-- The statistics of one dump, and the separators of the paths into it. -/
structure Dump where
  /-- all statistics -/
  root : Group
  /-- what stands between the segments of a path -/
  separators : List String
  deriving DecidableEq

namespace Dump

/-! ## Reading -/

/-- Why no dump with the number that is looked for was found. -/
inductive SeekError where
  /-- the lines ended before -/
  | notFound
  /-- a line could not be read -/
  | unreadable (fault : Fault)
  deriving DecidableEq

/-- The lines after the `n`-th line that is the marker. -/
def seek (marker : String) : Nat → List RawLine → Except SeekError (List RawLine)
  | 0, lines => .ok lines
  | _ + 1, [] => .error .notFound
  | _ + 1, .error fault :: _ => .error (.unreadable fault)
  | n + 1, .ok line :: lines =>
    if line = marker then seek marker n lines else seek marker (n + 1) lines

/-- Adds the content lines up to the end marker to a tree. -/
def readBody (origin : String) (format : Format) : Group → List RawLine → Except Error Group
  | g, [] => .ok g
  | _, .error fault :: _ => .error (.unreadable origin fault)
  | g, .ok line :: lines =>
    if line = "" then readBody origin format g lines
    else if line = format.endMarker then .ok g
    else
      match g.addLine format.separators line with
      | .error cause => .error (.lineRefused line cause)
      | .ok g => readBody origin format g lines

/-- Reads dump number `index` of the given lines. Errors call the lines `origin`. -/
def read (origin : String) (format : Format) (index : Nat) (lines : List RawLine) :
    Except Error Dump :=
  if index = 0 then .error .invalidDumpIndex
  else
    match format.problem? with
    | some cause => .error (.config cause)
    | none =>
      match seek format.beginMarker index lines with
      | .error .notFound => .error (.dumpNotFound origin index)
      | .error (.unreadable fault) => .error (.unreadable origin fault)
      | .ok body =>
        (readBody origin format (.empty format.rootName) body).map fun root =>
          { root, separators := format.separators }

/-- What errors call bytes that come from no file. -/
def nameless : String := "<reader>"

/-- Reads a dump from bytes. -/
def ofBytes (format : Format) (index : Nat) (bytes : ByteArray) : Except Error Dump :=
  read nameless format index ((RawLine.splitBytes bytes.data.toList).map RawLine.ofBytes)

/-- Reads a dump of the file at `path`. -/
def load (files : Files) (format : Format) (path : String) (index : Nat) : Except Error Dump :=
  match (files path).lines with
  | .error fault => .error (.unreadable path fault)
  | .ok lines => read path format index lines

/-- The number of lines that are the marker, if all lines can be read. -/
def countMarkers (marker : String) : List RawLine → Except Fault Nat
  | [] => .ok 0
  | .error fault :: _ => .error fault
  | .ok line :: lines =>
    (countMarkers marker lines).map fun n => if line = marker then n + 1 else n

/-- The number of dumps in the file at `path`. -/
def count (files : Files) (format : Format) (path : String) : Except Error Nat :=
  match format.problem? with
  | some cause => .error (.config cause)
  | none =>
    ((files path).lines.bind (countMarkers format.beginMarker)).mapError (.unreadable path)

/-! ## Asking -/

/-- The node at a path; the empty path is the root. -/
def query (d : Dump) (path : String) : Except Error Node :=
  let segments := if path = "" then [] else Path.split d.separators path
  match (Node.group d.root).descend segments with
  | some n => .ok n
  | none => .error (.pathNotFound path)

/-- The category at a path. -/
def group (d : Dump) (path : String) : Except Error Group :=
  (d.query path).bind fun
    | .group g => .ok g
    | .stat _ => .error (.wrongKind path .statistic .category)

/-- The statistic at a path. -/
def stat (d : Dump) (path : String) : Except Error Stat :=
  (d.query path).bind fun
    | .stat s => .ok s
    | .group _ => .error (.wrongKind path .category .statistic)

/-- The number of the statistic at a path. -/
def value (d : Dump) (path : String) : Except Error Value := (d.stat path).map Stat.value

/-- All values by their keys. -/
def flatten (d : Dump) : Keyed Value := d.root.flatten

end Dump

end SimStats
