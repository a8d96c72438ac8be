import SimStats.Json.Number
import SimStats.Json.Text
import SimStats.Tree.Flatten

/-!
# Labelled series

A flat map is keyed by name, a chart or a table wants positions. A `Series` holds labels and numbers
in two parallel lists; filtering one pairs the lists up again, so what is left over in the longer of
two unequal lists is dropped there.
-/

namespace SimStats

/-- Labels and the numbers that belong to them, position by position. -/
structure Series where
  /-- the labels -/
  labels : List String
  /-- the numbers -/
  values : List Float
  deriving DecidableEq

namespace Series

/-- The series without entries. -/
def empty : Series := ⟨[], []⟩

/-- The series of a list of pairs. -/
def ofPairs (l : List (String × Float)) : Series := ⟨l.map Prod.fst, l.map Prod.snd⟩

/-- The pairs of a series. -/
def pairs (s : Series) : List (String × Float) := s.labels.zip s.values

/-- The series of a flat map, in key order. -/
def ofKeyed (m : Keyed Value) : Series := ofPairs (m.entries.map fun e => (e.1, e.2.toFloat))

/-- The series of all statistics below a category, in key order. -/
def ofGroup (g : Group) : Series := ofKeyed g.flatten

/-- Adds an entry at the end. -/
def push (s : Series) (label : String) (value : Float) : Series :=
  ⟨s.labels ++ [label], s.values ++ [value]⟩

/-- The entries that satisfy `keep`. -/
def filter (keep : String × Float → Bool) (s : Series) : Series := ofPairs (s.pairs.filter keep)

/-- Drops the entries with the given label. -/
def without (s : Series) (label : String) : Series := s.filter fun e => e.1 != label

/-- Drops the entries that are zero, of either sign. -/
def nonZero (s : Series) : Series := s.filter fun e => !(e.2 == 0.0)

/-- The sum of the numbers from first to last. It starts from minus zero, which adds nothing to any
number, itself included. -/
def total (s : Series) : Float := s.values.foldl (· + ·) (-0.0)

/-- Each number as a percentage of the total; zeros if the total is zero. -/
def percentages (s : Series) : List Float :=
  let total := s.total
  if total == 0.0 then s.values.map fun _ => 0.0
  else s.values.map fun v => v / total * 100.0

/-- The number of labels. -/
def size (s : Series) : Nat := s.labels.length

/-- The series as a JSON text. -/
def toJson (s : Series) : String :=
  Json.objectText [
    ("labels", Json.arrayText (s.labels.map Json.quote)),
    ("values", Json.arrayText (s.values.map fun v => Json.number (.float v)))]

/-- Pairing up what was built from pairs gives them back. -/
@[simp] theorem pairs_ofPairs (l : List (String × Float)) : (ofPairs l).pairs = l := by
  induction l with
  | nil => rfl
  | cons e l ih => exact congrArg (e :: ·) ih

@[simp] theorem pairs_empty : empty.pairs = [] := rfl

end Series

end SimStats
