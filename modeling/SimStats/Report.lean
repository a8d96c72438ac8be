import SimStats.Json.Number
import SimStats.Metrics
import SimStats.Text.Column

/-!
# Reports

How answers look on a terminal. Flat statistics are printed with one key and value to a line, the
values in one column, or as a JSON object with one member to a line.
-/

namespace SimStats.Report

/-- Lines as one text, every line ended. -/
def lines (l : List String) : String := String.join (l.map (· ++ "\n"))

/-- The width of the column of keys: the size in bytes of the longest key. -/
def keyWidth (m : Keyed Value) : Nat := m.keys.foldl (fun w key => max w key.utf8ByteSize) 0

/-- One line for each value, after its key. -/
def plainRows (m : Keyed Value) : List String :=
  m.entries.map fun e => Text.padRight (keyWidth m) e.1 ++ " " ++ e.2.text

/-- Ends every row but the last with a comma. -/
def withCommas : List String → List String
  | [] => []
  | [row] => [row]
  | row :: rest => (row ++ ",") :: withCommas rest

/-- The values as the lines of a JSON object. -/
def jsonRows (m : Keyed Value) : List String :=
  match m.entries with
  | [] => ["\x7b\x7d"]
  | entries =>
    let members := entries.map fun e => "  " ++ Json.quote e.1 ++ ": " ++ Json.number e.2
    "\x7b" :: withCommas members ++ ["\x7d"]

/-- Flat statistics in the chosen style. -/
def flat (json : Bool) (m : Keyed Value) : String :=
  lines (if json then jsonRows m else plainRows m)

/-- The number of instructions per cycle that a file gives. -/
def ipcRow (path : String) (x : Float) : String :=
  Text.padRight 40 path ++ " " ++ Value.plain.fixed 4 x

/-- One line for each class of instructions, with its number and its share. -/
def mixRows (s : Series) : List String :=
  (s.pairs.zip s.percentages).map fun row =>
    Text.padRight 24 row.1.1 ++ " " ++ Text.padLeft 14 (Value.plain.render row.1.2)
      ++ " (" ++ Value.plain.fixed 2 row.2 ++ "%)"

end SimStats.Report
