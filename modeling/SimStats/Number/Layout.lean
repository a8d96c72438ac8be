import SimStats.Number.Decimal

/-!
# Doubles as text

`Layout` is a style in which doubles are written with their shortest digits: when the digits are
written out and when with an exponent, how a whole number ends, and what stands for the numbers that
have no digits. `Layout.render` writes a double in such a style; `fixed` writes one with a given
number of decimal places, its exact value rounded with halves to even.
-/

namespace SimStats

namespace Decimal

/-- The number written without an exponent, with at least one digit before a decimal point. -/
def positional (d : Decimal) : List Char :=
  if 0 ≤ d.exponent then d.digits ++ List.replicate d.exponent.toNat '0'
  else
    let places := (-d.exponent).toNat
    let padded := List.replicate (places + 1 - d.digits.length) '0' ++ d.digits
    padded.take (padded.length - places) ++ '.' :: padded.drop (padded.length - places)

/-- The number written with one digit before the point and an exponent that always has its sign. -/
def scientific (d : Decimal) : List Char :=
  let sign := if d.leading < 0 then '-' else '+'
  let fraction := if d.digits.length ≤ 1 then [] else '.' :: d.digits.drop 1
  d.digits.take 1 ++ fraction ++ 'e' :: sign :: Nat.toDigits 10 d.leading.natAbs

end Decimal

/-- A style for writing doubles with their shortest digits. -/
structure Layout where
  /-- which of two equally near digit strings is taken -/
  tie : Tie
  /-- whether a number whose first digit counts this power of ten is written out -/
  writesOut : Int → Bool
  /-- what follows a whole number that is written out -/
  wholeEnd : List Char
  /-- the text of what is not a number -/
  nan : String
  /-- the text of infinity -/
  infinity : String
  /-- the text of minus infinity -/
  minusInfinity : String

namespace Layout

/-- The digits of a decimal in this style. -/
def digits (l : Layout) (d : Decimal) : List Char :=
  if l.writesOut d.leading then
    d.positional ++ (if 0 ≤ d.exponent then l.wholeEnd else [])
  else d.scientific

/-- Writes `x` as `finite` does if it is a finite number, and by its name otherwise. -/
def named (l : Layout) (finite : Nat → List Char) (x : Float) : String :=
  let b := Binary64.magnitude x
  if b < Binary64.infinity then
    String.ofList ((if Binary64.signBit x then ['-'] else []) ++ finite b)
  else if b = Binary64.infinity then
    if Binary64.signBit x then l.minusInfinity else l.infinity
  else l.nan

/-- The shortest text of `x` in this style. -/
def render (l : Layout) (x : Float) : String :=
  l.named (fun b => l.digits (Decimal.shortest l.tie b)) x

/-- The text of `x` with a fixed number of decimal places. -/
def fixed (l : Layout) (places : Nat) (x : Float) : String :=
  l.named (fun b =>
    Decimal.positional ⟨((Binary64.toRatio b).scale 10 places).round .toEven, -(places : Int)⟩) x

end Layout

end SimStats
