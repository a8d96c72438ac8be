import SimStats.Report

/-!
# Commands

What can be asked from a terminal, and the answers. A command first reads the configuration files it
names and then does what is requested. A request is answered whole or not at all, except that a
comparison of several files prints what it has before it stops at the first file that fails.

Progress reports are left out: they go to standard error and have no part in the answer, so that no
function here looks at `Command.verbose`.
-/

namespace SimStats

/-- What is asked. -/
inductive Request where
  /-- the statistic or the category at a path -/
  | query (file path : String) (index : Nat) (json : Bool)
  /-- all statistics -/
  | flatten (file : String) (index : Nat) (json : Bool)
  /-- the number of dumps -/
  | dumps (file : String)
  /-- instructions per cycle of each file -/
  | ipc (files : List String) (index : Nat)
  /-- the classes of executed instructions -/
  | mix (file : String) (index : Nat)
  deriving DecidableEq, Repr

/-- A request with the configuration files it is to be answered by. -/
structure Command where
  /-- the file with the format, if it is not the standard one -/
  format : Option String
  /-- the file with the paths of derived numbers, if they are not the standard ones -/
  metricPaths : Option String
  /-- whether progress is to be reported on standard error, which is not described here -/
  verbose : Bool
  /-- what is asked -/
  request : Request
  deriving DecidableEq, Repr

/-- What a command prints, and why it stopped if it did. -/
structure Outcome where
  /-- the answer -/
  output : String
  /-- the error that ended it -/
  error : Option Error
  deriving DecidableEq

namespace Outcome

/-- The outcome of a request that is answered whole or not at all. -/
def ofExcept : Except Error String → Outcome
  | .ok output => ⟨output, none⟩
  | .error e => ⟨"", some e⟩

/-- The status a program ends with. -/
def status (o : Outcome) : Nat := if o.error.isNone then 0 else 1

/-- What is printed about the error. -/
def complaint (o : Outcome) : String :=
  match o.error with
  | none => ""
  | some e => "Error: " ++ e.message ++ "\n"

end Outcome

namespace Request

/-- The answer to a query: the bare value of a statistic, or whatever is at the path as a list. -/
def queryAnswer (json : Bool) : Node → String
  | .stat s => if json then Report.flat true (Node.stat s).flatten else s.value.text ++ "\n"
  | .group g => Report.flat json g.flatten

/-- The line about one file in a comparison. -/
def ipcLine (files : Files) (format : Format) (paths : MetricPaths) (index : Nat) (file : String) :
    Except Error String :=
  (Dump.load files format file index).bind fun d =>
    (d.ipc paths).map fun x => Report.ipcRow file x ++ "\n"

/-- The lines about several files, up to the first that fails. -/
def ipcLines (files : Files) (format : Format) (paths : MetricPaths) (index : Nat) :
    List String → Outcome
  | [] => ⟨"", none⟩
  | file :: rest =>
    match ipcLine files format paths index file with
    | .error e => ⟨"", some e⟩
    | .ok line =>
      let o := ipcLines files format paths index rest
      { o with output := line ++ o.output }

/-- Answers a request. -/
def answer (files : Files) (format : Format) (paths : MetricPaths) : Request → Outcome
  | .query file path index json => .ofExcept <|
    (Dump.load files format file index).bind fun d =>
      (d.query path).map (queryAnswer json)
  | .flatten file index json => .ofExcept <|
    (Dump.load files format file index).map fun d => Report.flat json d.flatten
  | .dumps file => .ofExcept <|
    (Dump.count files format file).map fun n => toString n ++ "\n"
  | .ipc list index => ipcLines files format paths index list
  | .mix file index => .ofExcept <|
    (Dump.load files format file index).bind fun d =>
      (d.mix paths).map fun s => Report.lines (Report.mixRows s)

end Request

namespace Command

/-- The format a command asks for. -/
def loadFormat (files : Files) (c : Command) : Except Error Format :=
  match c.format with
  | none => .ok .standard
  | some path => Format.load files path

/-- The paths of derived numbers a command asks for. -/
def loadMetricPaths (files : Files) (c : Command) : Except Error MetricPaths :=
  match c.metricPaths with
  | none => .ok .standard
  | some path => MetricPaths.load files path

/-- Runs a command. -/
def run (files : Files) (c : Command) : Outcome :=
  match c.loadFormat files with
  | .error e => ⟨"", some e⟩
  | .ok format =>
    match c.loadMetricPaths files with
    | .error e => ⟨"", some e⟩
    | .ok paths => c.request.answer files format paths

/-- The paths that running a command may look at. -/
def reads (c : Command) : List String :=
  c.format.toList ++ c.metricPaths.toList ++
    match c.request with
    | .query file _ _ _ => [file]
    | .flatten file _ _ => [file]
    | .dumps file => [file]
    | .ipc files _ => files
    | .mix file _ => [file]

end Command

end SimStats
