import SimStats.Format

/-!
# Where derived numbers are read from

The paths of the statistics behind the derived numbers. They differ between simulated machines, so a
configuration can name them; what it leaves out is as in a machine with one processor.
-/

namespace SimStats

/-- The statistics that derived numbers are computed from. -/
structure MetricPaths where
  /-- the number of instructions that were executed -/
  instructions : String
  /-- the number of cycles that took -/
  cycles : String
  /-- the category that counts instructions by class -/
  mix : String
  /-- the key of the sum within that category -/
  totalKey : String
  deriving DecidableEq, Repr

namespace MetricPaths

/-- The paths of a machine with one processor. -/
def standard : MetricPaths where
  instructions := "simInsts"
  cycles := "system.cpu.numCycles"
  mix := "system.cpu.exec_context.thread_0.statExecutedInstType"
  totalKey := "total"

/-- The names of the fields in JSON, in order. -/
def fieldNames : List String := ["sim_insts", "num_cycles", "inst_mix", "total_key"]

/-- The paths as a JSON text. -/
def toJson (p : MetricPaths) : String :=
  Json.objectText [
    ("sim_insts", Json.quote p.instructions),
    ("num_cycles", Json.quote p.cycles),
    ("inst_mix", Json.quote p.mix),
    ("total_key", Json.quote p.totalKey)]

/-- Reads the paths; those that are missing are as in the standard ones. -/
def ofValue? (v : Json) : Option MetricPaths := do
  let fields ← v.record? fieldNames
  let instructions ← Json.field? fields "sim_insts" Json.text? standard.instructions
  let cycles ← Json.field? fields "num_cycles" Json.text? standard.cycles
  let mix ← Json.field? fields "inst_mix" Json.text? standard.mix
  let totalKey ← Json.field? fields "total_key" Json.text? standard.totalKey
  pure { instructions, cycles, mix, totalKey }

/-- Reads the paths from a JSON text. -/
def ofJson (text : String) : Except ConfigError MetricPaths :=
  match (Json.parse? text).bind ofValue? with
  | none => .error .json
  | some p => .ok p

end MetricPaths

end SimStats
