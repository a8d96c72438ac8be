import SimStats.Number.Layout
import SimStats.Number.Literal

/-!
# The number of a statistic

A simulator writes counters and rates in one column. Counters stay exact: a token that is an integer
within 64 bits becomes an integer, and every other numeric token a double.
-/

namespace SimStats

/-- The number of a statistic. -/
inductive Value where
  /-- a counter -/
  | int (n : Int64)
  /-- a rate or a ratio -/
  | float (x : Float)
  deriving DecidableEq

namespace Value

/-- The integer as a 64-bit number, if it is in range. -/
def int64? (n : Int) : Option Int64 :=
  if Int64.minValue.toInt ≤ n ∧ n ≤ Int64.maxValue.toInt then some (Int64.ofInt n) else none

/-- The value of a literal. -/
def ofLiteral : Literal → Value
  | .integer negative n =>
    match int64? (if negative then -(n : Int) else n) with
    | some k => .int k
    | none => .float (Literal.integer negative n).toFloat
  | l => .float l.toFloat

/-- Reads the value column of a line; `none` for what is no number. -/
def ofToken? (token : String) : Option Value := (Literal.read? token.toList).map ofLiteral

/-- Whether the value is a counter. -/
def isInt : Value → Bool
  | .int _ => true
  | .float _ => false

/-- The value as a double, rounded to the nearest one if it is a large counter. -/
def toFloat : Value → Float
  | .int n => Float.ofInt n.toInt
  | .float x => x

/-- The counter, if the value is one. -/
def toInt? : Value → Option Int64
  | .int n => some n
  | .float _ => none

/-- Plain text never has an exponent, and a whole number no decimal point. -/
def plain : Layout where
  tie := .up
  writesOut := fun _ => true
  wholeEnd := []
  nan := "NaN"
  infinity := "inf"
  minusInfinity := "-inf"

/-- The plain text of a value. -/
def text : Value → String
  | .int n => toString n.toInt
  | .float x => plain.render x

end Value

end SimStats
