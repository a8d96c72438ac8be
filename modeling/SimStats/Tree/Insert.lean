import SimStats.LineError
import SimStats.Path
import SimStats.Tree.Basic

/-!
# Adding a statistic

`Group.insert` puts a statistic below a list of categories and creates the categories that are
missing. A name means one thing: if a category on the way is already a statistic, or if the place is
already taken, nothing is added and the error names the node in the way. Both are found out by
walking the tree as it is, before anything is built, so a refused statistic leaves no trace.
-/

namespace SimStats

namespace Node

/-- The categories up to the first that is a statistic instead. -/
def obstacle? (n : Node) : List String → Option (List String)
  | [] => none
  | category :: rest =>
    match n.get? category with
    | none => none
    | some (.stat _) => some [category]
    | some (.group g) => ((Node.group g).obstacle? rest).map (category :: ·)

end Node

namespace Forest

/-- The chain with `s` at its place in name order; a sibling with that name is replaced. -/
def put (s : Stat) : Forest → Forest
  | .nil => .stat s .nil
  | .stat t rest =>
    if s.name = t.name then .stat s rest
    else if s.name < t.name then .stat s (.stat t rest)
    else .stat t (rest.put s)
  | .group n children rest =>
    if s.name = n then .stat s rest
    else if s.name < n then .stat s (.group n children rest)
    else .group n children (rest.put s)

/-- Changes the children of the category `name`, which is created if it is missing. Fails with the
category's name if that is a statistic, and with the whole way to the obstacle if `change` fails. -/
def alter (name : String) (change : Forest → Except (List String) Forest) :
    Forest → Except (List String) Forest
  | .nil => ((change .nil).mapError (name :: ·)).map fun c => .group name c .nil
  | .stat t rest =>
    if name = t.name then .error [name]
    else if name < t.name then
      ((change .nil).mapError (name :: ·)).map fun c => .group name c (.stat t rest)
    else (rest.alter name change).map fun r => .stat t r
  | .group n children rest =>
    if name = n then ((change children).mapError (name :: ·)).map fun c => .group n c rest
    else if name < n then
      ((change .nil).mapError (name :: ·)).map fun c => .group name c (.group n children rest)
    else (rest.alter name change).map fun r => .group n children r

/-- Puts `s` below the given categories. Fails with the categories up to the first that is a
statistic. -/
def place (s : Stat) : List String → Forest → Except (List String) Forest
  | [], f => .ok (f.put s)
  | category :: rest, f => f.alter category (place s rest)

end Forest

namespace Group

/-- The key of the place `name` below `categories`. -/
def placeKey (categories : List String) (name : String) : String :=
  let parent := Path.key categories
  if parent = "" then name else parent ++ "." ++ name

/-- The key of the node that is in the way of `name` below `categories`. -/
def conflict? (g : Group) (categories : List String) (name : String) : Option String :=
  match (Node.group g).obstacle? categories with
  | some path => some (Path.key path)
  | none => ((Node.group g).descend (categories ++ [name])).map fun _ => placeKey categories name

/-- Adds a statistic below the given categories. -/
def insert (g : Group) (categories : List String) (s : Stat) : Except LineError Group :=
  match g.conflict? categories s.name with
  | some key => .error (.conflictingKey key)
  | none =>
    match g.children.place s categories with
    | .ok children => .ok { g with children }
    | .error path => .error (.conflictingKey (Path.key path))

end Group

end SimStats
