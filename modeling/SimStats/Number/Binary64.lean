import SimStats.Number.Ratio

/-!
# Doubles by their magnitude bits

Without its sign bit, the pattern of a double is a number between `0` and `infinity`, and larger
numbers are larger doubles. The pattern `b < infinity` stands for the exact value `significand b * 2
^ exponent b`. In the other direction `nearest` rounds a fraction to the pattern of the closest
double, halves to the even pattern; what is too large becomes `infinity`.

One formula serves all sizes: with `q` the exponent of the last place and `m` the fraction counted
in units of `2 ^ q`, the pattern is `(q + 1074) * 2 ^ 52 + m`. For a normal number the leading one
of `m` carries into the exponent field, and so does a rounding that reaches the next power of two.
-/

namespace SimStats.Binary64

/-- The pattern of positive infinity. Patterns below it are finite. -/
def infinity : Nat := 2047 * Nat.pow 2 52

/-- The pattern's digits as a whole number, with the leading one that normal numbers leave out. -/
def significand (b : Nat) : Nat :=
  if b < Nat.pow 2 52 then b else b % Nat.pow 2 52 + Nat.pow 2 52

/-- The power of two by which the significand is scaled. -/
def exponent (b : Nat) : Int := (max (b / Nat.pow 2 52) 1 : Nat) - 1075

/-- The exact value of a finite pattern. -/
def toRatio (b : Nat) : Ratio := (Ratio.ofNat (significand b)).scale 2 (exponent b)

/-- The exponent of the last place of doubles near `r`. -/
def lastPlace (r : Ratio) : Int := max (-1074) (r.log2 - 52)

/-- The pattern of the double closest to `r`. -/
def nearest (r : Ratio) : Nat :=
  if r.num = 0 then 0
  else
    let q := lastPlace r
    min infinity ((q + 1074).toNat * Nat.pow 2 52 + (r.scale 2 (-q)).round .toEven)

theorem nearest_le_infinity (r : Ratio) : nearest r ≤ infinity := by
  unfold nearest
  split
  · exact Nat.zero_le _
  · exact Nat.min_le_left _ _

/-- The double with the given sign and magnitude. -/
def toFloat (negative : Bool) (b : Nat) : Float :=
  Float.ofBits (UInt64.ofNat (if negative then Nat.pow 2 63 + b else b))

/-- Whether the sign bit of `x` is set. -/
def signBit (x : Float) : Bool := Nat.pow 2 63 ≤ x.toBits.toNat

/-- The pattern of `x` without its sign bit. -/
def magnitude (x : Float) : Nat := x.toBits.toNat % Nat.pow 2 63

end SimStats.Binary64
