import SimStats.Json.Text
import SimStats.Json.Value
import SimStats.Line
import SimStats.Text.Word

/-!
# The format of a statistics file

A format says which lines open and close a dump, at which separators names are cut, and what the
root of the tree is called. `Format.problem?` finds what makes a format unusable: markers are
compared with lines without blanks at their ends, so they may not have any themselves; a separator
that holds a blank or a word character would cut ordinary names apart.
-/

namespace SimStats

/-- How the dumps of a file are delimited and their names cut. -/
structure Format where
  /-- the line that opens a dump -/
  beginMarker : String
  /-- the line that closes a dump -/
  endMarker : String
  /-- what stands between the segments of a name -/
  separators : List String
  /-- the name of the root -/
  rootName : String
  deriving DecidableEq, Repr

/-- One of the two markers. -/
inductive Marker where
  /-- the one that opens a dump -/
  | opening
  /-- the one that closes a dump -/
  | closing
  deriving DecidableEq, Repr

/-- The marker in words. -/
def Marker.text : Marker → String
  | .opening => "begin"
  | .closing => "end"

/-- What is wrong with a configuration. -/
inductive ConfigError where
  /-- it is no JSON, or not of the right shape -/
  | json
  /-- a marker is empty -/
  | emptyMarker (marker : Marker)
  /-- a marker begins or ends with a blank -/
  | paddedMarker (marker : Marker) (text : String)
  /-- the markers are the same -/
  | sameMarkers
  /-- there is no separator -/
  | noSeparators
  /-- a separator is empty -/
  | emptySeparator
  /-- a separator holds a blank or a word character -/
  | wordSeparator (separator : String)
  deriving DecidableEq, Repr

/-- The error as a sentence. -/
def ConfigError.message : ConfigError → String
  | .json => "JSON"
  | .emptyMarker marker => marker.text ++ " marker is empty"
  | .paddedMarker marker text =>
    marker.text ++ " marker '" ++ text ++ "' has surrounding whitespace"
  | .sameMarkers => "begin and end markers are identical"
  | .noSeparators => "no separators configured"
  | .emptySeparator => "empty separator"
  | .wordSeparator separator =>
    "separator '" ++ separator ++ "' contains whitespace or word characters"

namespace Format

/-- The format that the simulator writes. -/
def standard : Format where
  beginMarker := "---------- Begin Simulation Statistics ----------"
  endMarker := "---------- End Simulation Statistics   ----------"
  separators := standardSeparators
  rootName := "all"

/-! ## Usable formats -/

/-- What is wrong with a marker. -/
def markerProblem? (marker : Marker) (text : String) : Option ConfigError :=
  if text = "" then some (.emptyMarker marker)
  else if Text.trim text ≠ text then some (.paddedMarker marker text)
  else none

/-- What is wrong with a separator. -/
def separatorProblem? (separator : String) : Option ConfigError :=
  if separator = "" then some .emptySeparator
  else if separator.toList.any fun c => Text.isBlank c || Text.isWord c then
    some (.wordSeparator separator)
  else none

/-- The first thing that is wrong with a format. -/
def problem? (f : Format) : Option ConfigError :=
  (markerProblem? .opening f.beginMarker).or <|
  (markerProblem? .closing f.endMarker).or <|
  (if f.beginMarker = f.endMarker then some .sameMarkers else none).or <|
  (if f.separators = [] then some .noSeparators else none).or <|
  f.separators.findSome? separatorProblem?

/-- Accepts a usable format. -/
def validate (f : Format) : Except ConfigError Unit :=
  match f.problem? with
  | none => .ok ()
  | some e => .error e

/-! ## Formats as JSON -/

/-- The names of the fields in JSON, in order. -/
def fieldNames : List String := ["begin_marker", "end_marker", "separators", "root_name"]

/-- The format as a JSON text. -/
def toJson (f : Format) : String :=
  Json.objectText [
    ("begin_marker", Json.quote f.beginMarker),
    ("end_marker", Json.quote f.endMarker),
    ("separators", Json.arrayText (f.separators.map Json.quote)),
    ("root_name", Json.quote f.rootName)]

/-- Reads the fields of a format; those that are missing are as in the standard format. -/
def ofValue? (v : Json) : Option Format := do
  let fields ← v.record? fieldNames
  let beginMarker ← Json.field? fields "begin_marker" Json.text? standard.beginMarker
  let endMarker ← Json.field? fields "end_marker" Json.text? standard.endMarker
  let separators ← Json.field? fields "separators" Json.texts? standard.separators
  let rootName ← Json.field? fields "root_name" Json.text? standard.rootName
  pure { beginMarker, endMarker, separators, rootName }

/-- Reads a usable format from a JSON text. -/
def ofJson (text : String) : Except ConfigError Format :=
  match (Json.parse? text).bind ofValue? with
  | none => .error .json
  | some f => f.validate.map fun _ => f

end Format

end SimStats
