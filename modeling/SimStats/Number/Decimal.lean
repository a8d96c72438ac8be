import SimStats.Number.Binary64

/-!
# Decimal numbers

A decimal is a whole number of units of a power of ten. `Decimal.nearest` reads one as a double.
`Decimal.shortest` goes the other way: among the decimals that read back as a given double it takes
one with the fewest digits, and of those the nearest to the double. It tries one digit, two digits
and so on up to seventeen, each time the two neighbours of the exact value on that grid; whether a
neighbour reads back is asked of `nearest` itself, so a result reads back by construction. Should no
grid have a hit, the exact value of the double, written out in full, is the answer.
-/

namespace SimStats

/-- The number `coeff * 10 ^ exponent`. -/
structure Decimal where
  /-- the digits, as a whole number -/
  coeff : Nat
  /-- the power of ten that the last digit counts -/
  exponent : Int
  deriving DecidableEq, Repr

namespace Decimal

/-- The value as a fraction. -/
def toRatio (d : Decimal) : Ratio := (Ratio.ofNat d.coeff).scale 10 d.exponent

/-- The magnitude bits of the double closest to `d`. -/
def nearest (d : Decimal) : Nat := Binary64.nearest d.toRatio

/-- The digits of the coefficient, first digit first. -/
def digits (d : Decimal) : List Char := Nat.toDigits 10 d.coeff

/-- The power of ten that the first digit counts. -/
def leading (d : Decimal) : Int := d.exponent + d.digits.length - 1

/-- No positive double is below `10 ^ (-deepest)`. -/
def deepest : Nat := 330

/-- The number of digits before the decimal point of `v`, the value of a positive double; zero or
negative for one below a tenth. -/
def pointPosition (v : Ratio) : Int :=
  (Nat.toDigits 10 (v.scale 10 deepest).floor).length - (deepest : Int)

/-- `c` units of `10 ^ (point - n)`, where `10 ^ n` units are written with the single digit one. -/
def onGrid (point : Int) (n c : Nat) : Decimal :=
  if c = Nat.pow 10 n then ⟨1, point⟩ else ⟨c, point - n⟩

/-- The neighbours of the value `v` on the grid of `n` digits, the nearer first. -/
def candidates (tie : Tie) (v : Ratio) (point : Int) (n : Nat) : List Decimal :=
  ((v.scale 10 (n - point)).neighbours tie).map (onGrid point n)

/-- The most digits that any double needs. -/
def mostDigits : Nat := 17

/-- The exact value of a finite pattern as a decimal. -/
def exact (b : Nat) : Decimal :=
  let q := Binary64.exponent b
  ⟨Binary64.significand b * Nat.pow 2 q.toNat * Nat.pow 5 (-q).toNat, min q 0⟩

/-- The fewest digits that read back as the double with magnitude bits `b`. -/
def shortest (tie : Tie) (b : Nat) : Decimal :=
  if b = 0 then ⟨0, 0⟩
  else
    let v := Binary64.toRatio b
    let point := pointPosition v
    ((List.range mostDigits).findSome? fun n =>
      (candidates tie v point (n + 1)).find? fun d => d.nearest == b).getD (exact b)

end Decimal

end SimStats
