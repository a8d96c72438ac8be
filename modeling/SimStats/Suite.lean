import SimStats.Metrics

/-!
# Suites

A suite of benchmarks leaves one statistics file per benchmark in a directory, named for the
benchmark with a common ending. `Suite.collect` gathers the statistics of those that have a file;
`Suite.ipc` compares benchmarks that all have to have one.
-/

namespace SimStats

/-- A directory with one statistics file per benchmark. -/
structure Suite where
  /-- the directory -/
  dir : String
  /-- what follows the benchmark in a file's name -/
  ending : String
  /-- the number of the dump that is read from each file -/
  index : Nat
  /-- the format of the files -/
  format : Format

namespace Suite

/-- The suite in a directory with the usual file names, of which the first dump is read. -/
def ofDir (dir : String) : Suite where
  dir
  ending := "_stats.txt"
  index := 1
  format := .standard

/-- The path of a benchmark's file. -/
def pathOf (s : Suite) (benchmark : String) : String := joinPath s.dir (benchmark ++ s.ending)

/-- Reads the dump of one benchmark. -/
def load (files : Files) (s : Suite) (benchmark : String) : Except Error Dump :=
  Dump.load files s.format (s.pathOf benchmark) s.index

/-- Adds the flat statistics of the benchmarks to a table. Benchmarks without a file are passed
over. -/
def collectInto (files : Files) (s : Suite) (table : Keyed (Keyed Value)) :
    List String → Except Error (Keyed (Keyed Value))
  | [] => .ok table
  | benchmark :: rest =>
    match s.load files benchmark with
    | .ok dump => collectInto files s (table.insert benchmark dump.flatten) rest
    | .error e => if e.isMissingFile then collectInto files s table rest else .error e

/-- The flat statistics of the benchmarks that have a file. -/
def collect (files : Files) (s : Suite) (benchmarks : List String) :
    Except Error (Keyed (Keyed Value)) :=
  collectInto files s .empty benchmarks

/-- Instructions per cycle of one benchmark. -/
def ipcOf (files : Files) (s : Suite) (paths : MetricPaths) (benchmark : String) :
    Except Error Float :=
  (s.load files benchmark).bind fun dump => dump.ipc paths

/-- Instructions per cycle of each benchmark with its name, up to the first error. -/
def ipcPairs (files : Files) (s : Suite) (paths : MetricPaths) :
    List String → Except Error (List (String × Float))
  | [] => .ok []
  | benchmark :: rest =>
    (s.ipcOf files paths benchmark).bind fun x =>
      (ipcPairs files s paths rest).map fun l => (benchmark, x) :: l

/-- Instructions per cycle of each benchmark, in the given order. -/
def ipc (files : Files) (s : Suite) (paths : MetricPaths) (benchmarks : List String) :
    Except Error Series :=
  (s.ipcPairs files paths benchmarks).map Series.ofPairs

end Suite

end SimStats
