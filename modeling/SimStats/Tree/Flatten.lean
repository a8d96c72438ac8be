import SimStats.Keyed
import SimStats.Path
import SimStats.Tree.Basic

/-!
# A tree as a flat map

Flattening gives every statistic a key, the names on the way to it joined with dots, and lists the
values in key order. Keys are relative to the category that is flattened. Names may themselves hold
dots, so two statistics can have one key; the one that comes later in the walk, which visits
siblings in name order and a category's children in its place, is the one that stays.
-/

namespace SimStats

namespace Forest

/-- Enters the statistics of a chain whose parent has the given key. -/
def flattenInto (parent : Option String) : Forest → Keyed Value → Keyed Value
  | .nil, flat => flat
  | .stat s rest, flat => rest.flattenInto parent (flat.insert (Path.below parent s.name) s.value)
  | .group n children rest, flat =>
    rest.flattenInto parent (children.flattenInto (some (Path.below parent n)) flat)

/-- The statistics with the segments that lead to them, in the order of the walk. -/
def leaves : Forest → List (List String × Stat)
  | .nil => []
  | .stat s rest => ([s.name], s) :: rest.leaves
  | .group n children rest =>
    children.leaves.map (fun leaf => (n :: leaf.1, leaf.2)) ++ rest.leaves

end Forest

namespace Group

/-- The values below the category, by their keys. -/
def flatten (g : Group) : Keyed Value := g.children.flattenInto none .empty

/-- The statistics below the category with the segments that lead to them. -/
def leaves (g : Group) : List (List String × Stat) := g.children.leaves

end Group

namespace Node

/-- The values at or below the node; a statistic is listed under its own name. -/
def flatten : Node → Keyed Value
  | .stat s => Keyed.empty.insert s.name s.value
  | .group g => g.flatten

end Node

end SimStats
