import SimStats.Value

/-!
# Values as JSON numbers
-/

namespace SimStats.Json

/-- JSON text writes a double out while its first digit is between the fifth decimal place and the
sixteenth digit before the point, a whole number with `.0`; JSON has no infinite numbers. -/
def numberLayout : Layout where
  tie := .toEven
  writesOut := fun e => -5 ≤ e && e ≤ 15
  wholeEnd := ['.', '0']
  nan := "null"
  infinity := "null"
  minusInfinity := "null"

/-- The JSON text of a value. -/
def number : Value → String
  | .int n => toString n.toInt
  | .float x => numberLayout.render x

end SimStats.Json
