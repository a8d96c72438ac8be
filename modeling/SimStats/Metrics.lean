import SimStats.Dump
import SimStats.MetricPaths
import SimStats.Series

/-!
# Derived numbers

Two numbers that users of a simulator look at first: how many instructions it executed per cycle,
and how the executed instructions divide into classes.
-/

namespace SimStats

/-- Reads the paths of derived numbers from a JSON file. -/
def MetricPaths.load (files : Files) (path : String) : Except Error MetricPaths :=
  (readText files path).bind fun text => (MetricPaths.ofJson text).mapError .config

namespace Dump

/-- Instructions per cycle over the whole dump. There have to be cycles. -/
def ipc (d : Dump) (paths : MetricPaths) : Except Error Float :=
  (d.value paths.instructions).bind fun instructions =>
  (d.value paths.cycles).bind fun cycles =>
    let cycles := cycles.toFloat
    if cycles.isNaN || cycles <= 0.0 then .error (.noCycles paths.cycles cycles)
    else .ok (instructions.toFloat / cycles)

/-- The numbers of executed instructions by class, without their sum and without the classes that
never occurred. -/
def mix (d : Dump) (paths : MetricPaths) : Except Error Series :=
  (d.group paths.mix).map fun g => ((Series.ofGroup g).without paths.totalKey).nonZero

end Dump

end SimStats
