import SimStats.Value

/-!
# The tree of statistics

A dump is a tree: categories hold statistics and further categories. The children of a category are
a `Forest`, a chain of siblings each of which is a statistic or a category with a chain of its own.
Siblings are looked up by name, and every operation of the library keeps them in ascending order of
their names, so a chain is read off in name order.
-/

namespace SimStats

/-- A named number with a description. -/
structure Stat where
  /-- the last segment of its name -/
  name : String
  /-- its number -/
  value : Value
  /-- the text after the `#` -/
  description : String
  deriving DecidableEq

/-- A chain of siblings. -/
inductive Forest where
  /-- no more siblings -/
  | nil
  /-- a statistic, then more siblings -/
  | stat (s : Stat) (rest : Forest)
  /-- a category with its children, then more siblings -/
  | group (name : String) (children rest : Forest)
  deriving DecidableEq

/-- A category. -/
structure Group where
  /-- the segment it stands for -/
  name : String
  /-- what it holds -/
  children : Forest
  deriving DecidableEq

/-- What a path can lead to. -/
inductive Node where
  /-- a statistic -/
  | stat (s : Stat)
  /-- a category -/
  | group (g : Group)
  deriving DecidableEq

/-- The two kinds of node. -/
inductive Kind where
  /-- a statistic -/
  | statistic
  /-- a category -/
  | category
  deriving DecidableEq, Repr

/-- The kind in words. -/
def Kind.text : Kind → String
  | .statistic => "statistic"
  | .category => "category"

namespace Node

/-- The last segment of the node's path. -/
def name : Node → String
  | .stat s => s.name
  | .group g => g.name

/-- Whether the node is a statistic or a category. -/
def kind : Node → Kind
  | .stat _ => .statistic
  | .group _ => .category

/-- The statistic, if the node is one. -/
def stat? : Node → Option Stat
  | .stat s => some s
  | .group _ => none

/-- The category, if the node is one. -/
def group? : Node → Option Group
  | .stat _ => none
  | .group g => some g

end Node

/-! ## Reading a chain of siblings -/

namespace Forest

/-- The siblings in order. -/
def toList : Forest → List Node
  | .nil => []
  | .stat s rest => .stat s :: rest.toList
  | .group n children rest => .group ⟨n, children⟩ :: rest.toList

/-- The sibling called `name`. -/
def get? (name : String) : Forest → Option Node
  | .nil => none
  | .stat s rest => if s.name = name then some (.stat s) else rest.get? name
  | .group n children rest =>
    if n = name then some (.group ⟨n, children⟩) else rest.get? name

/-- The number of statistics, those of categories included. -/
def count : Forest → Nat
  | .nil => 0
  | .stat _ rest => 1 + rest.count
  | .group _ children rest => children.count + rest.count

end Forest

/-! ## Walking down -/

namespace Group

/-- A category without children. -/
def empty (name : String) : Group := ⟨name, .nil⟩

/-- The child called `name`. -/
def get? (g : Group) (name : String) : Option Node := g.children.get? name

/-- The child called `name`, if it is a statistic. -/
def stat? (g : Group) (name : String) : Option Stat := (g.get? name).bind Node.stat?

/-- The child called `name`, if it is a category. -/
def group? (g : Group) (name : String) : Option Group := (g.get? name).bind Node.group?

/-- The children in name order. -/
def toList (g : Group) : List Node := g.children.toList

/-- The number of children. -/
def size (g : Group) : Nat := g.toList.length

/-- The number of statistics below the category. -/
def count (g : Group) : Nat := g.children.count

end Group

namespace Node

/-- The child called `name`; a statistic has none. -/
def get? (n : Node) (name : String) : Option Node := n.group?.bind fun g => g.get? name

/-- The node that the segments lead to. -/
def descend (n : Node) : List String → Option Node
  | [] => some n
  | segment :: rest => (n.get? segment).bind fun child => child.descend rest

@[simp] theorem get?_stat (s : Stat) (name : String) : (Node.stat s).get? name = none := rfl

@[simp] theorem get?_group (g : Group) (name : String) :
    (Node.group g).get? name = g.children.get? name := rfl

@[simp] theorem descend_nil (n : Node) : n.descend [] = some n := rfl

@[simp] theorem descend_cons (n : Node) (segment : String) (rest : List String) :
    n.descend (segment :: rest) = (n.get? segment).bind fun child => child.descend rest := rfl

theorem descend_append (n : Node) (p q : List String) :
    n.descend (p ++ q) = (n.descend p).bind fun child => child.descend q := by
  induction p generalizing n with
  | nil => rfl
  | cons segment p ih =>
    cases h : n.get? segment with
    | none => simp [h]
    | some child => simp [h, ih]

end Node

end SimStats
