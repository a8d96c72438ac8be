import SimStats.Files
import SimStats.Format

/-!
# What can go wrong

Every question to the library is answered or refused with an `Error`, which names the cause.
`Error.message` puts it in words.
-/

namespace SimStats

/-- Why a question is not answered. -/
inductive Error where
  /-- something could not be opened or read -/
  | unreadable (path : String) (fault : Fault)
  /-- dumps are counted from one, and number zero was asked for -/
  | invalidDumpIndex
  /-- there are fewer dumps than that -/
  | dumpNotFound (path : String) (index : Nat)
  /-- a content line of the dump is refused -/
  | lineRefused (line : String) (cause : LineError)
  /-- the path leads nowhere -/
  | pathNotFound (path : String)
  /-- the path leads to the other kind of node -/
  | wrongKind (path : String) (found expected : Kind)
  /-- a configuration cannot be used -/
  | config (cause : ConfigError)
  /-- the number of cycles at the path is not positive -/
  | noCycles (path : String) (cycles : Float)
  deriving DecidableEq

namespace Error

/-- The error as a sentence. -/
def message : Error → String
  | .unreadable path fault => "could not read '" ++ path ++ "': " ++ fault.message
  | .invalidDumpIndex => "dump index must be 1 or greater"
  | .dumpNotFound path index => "dump " ++ toString index ++ " not found in '" ++ path ++ "'"
  | .lineRefused line cause => "error parsing '" ++ line ++ "': " ++ cause.message
  | .pathNotFound path => "no statistic or category at '" ++ path ++ "'"
  | .wrongKind path found expected =>
    "'" ++ path ++ "' is a " ++ found.text ++ ", not a " ++ expected.text
  | .config cause => "invalid configuration: " ++ cause.message
  | .noCycles path cycles =>
    "cannot compute IPC: '" ++ path ++ "' is " ++ Value.plain.render cycles

/-- Whether the error is that there is no file at the path. -/
def isMissingFile : Error → Bool
  | .unreadable _ .missing => true
  | _ => false

end Error

/-- The text of a whole file. -/
def readText (files : Files) (path : String) : Except Error String :=
  (files path).text.mapError (.unreadable path)

/-- Reads a usable format from a JSON file. -/
def Format.load (files : Files) (path : String) : Except Error Format :=
  (readText files path).bind fun text => (Format.ofJson text).mapError .config

end SimStats
