import SimStats.Number.Decimal

/-!
# Number literals

The grammar of a number token: an optional sign, then either a word (`inf`, `infinity`, `nan`, in
any mix of cases) or digits with at most one decimal point among them, at least one digit, and an
optional exponent. `Literal.read?` accepts exactly that. It keeps apart the literals that are digits
only, which a reader may want as integers.
-/

namespace SimStats

/-- A number as it was written. -/
inductive Literal where
  /-- a sign and digits, nothing else -/
  | integer (negative : Bool) (magnitude : Nat)
  /-- digits with a decimal point or an exponent -/
  | decimal (negative : Bool) (magnitude : Decimal)
  /-- the word for infinity -/
  | infinity (negative : Bool)
  /-- the word for what is not a number -/
  | nan
  deriving DecidableEq, Repr

namespace Literal

/-- Splits an optional sign off. -/
def takeSign : List Char → Bool × List Char
  | '-' :: s => (true, s)
  | '+' :: s => (false, s)
  | s => (false, s)

/-- The number that ASCII digits denote. -/
def natOfDigits (s : List Char) : Nat := Nat.ofDigitChars 10 s 0

/-- From here on further exponent digits are ignored; every double is far within. -/
def exponentLimit : Nat := 65536

/-- The number that the digits of an exponent denote, cut off beyond `exponentLimit`. -/
def exponentOfDigits (s : List Char) : Nat :=
  s.foldl (fun e c => if e < exponentLimit then 10 * e + (c.toNat - '0'.toNat) else e) 0

/-- The exponent part: nothing, or a mark, an optional sign and digits up to the end. -/
def readExponent? : List Char → Option Int
  | [] => some 0
  | mark :: s =>
    let (negative, ds) := takeSign s
    if (mark = 'e' ∨ mark = 'E') ∧ ds ≠ [] ∧ ds.all Char.isDigit then
      some (if negative then -(exponentOfDigits ds : Int) else exponentOfDigits ds)
    else none

/-- Splits off a decimal point and the digits after it, if there is one. -/
def takeFraction : List Char → List Char × List Char
  | '.' :: s => (s.takeWhile Char.isDigit, s.dropWhile Char.isDigit)
  | s => ([], s)

/-- The part after the sign, when it begins with a digit or a point. -/
def readDigits? (negative : Bool) (s : List Char) : Option Literal :=
  let whole := s.takeWhile Char.isDigit
  let rest := s.dropWhile Char.isDigit
  let (fraction, mark) := takeFraction rest
  if whole = [] ∧ fraction = [] then none
  else if rest = [] then some (.integer negative (natOfDigits whole))
  else (readExponent? mark).map fun e =>
    .decimal negative ⟨natOfDigits (whole ++ fraction), e - fraction.length⟩

/-- Reads a whole token. -/
def read? (s : List Char) : Option Literal :=
  let (negative, body) := takeSign s
  let word := body.map Char.toLower
  if word = "inf".toList ∨ word = "infinity".toList then some (.infinity negative)
  else if word = "nan".toList then some .nan
  else readDigits? negative body

/-- The double closest to the literal. -/
def toFloat : Literal → Float
  | .integer negative n => Binary64.toFloat negative (Decimal.nearest ⟨n, 0⟩)
  | .decimal negative d => Binary64.toFloat negative d.nearest
  | .infinity negative => Binary64.toFloat negative Binary64.infinity
  | .nan => Binary64.toFloat false (Binary64.infinity + Nat.pow 2 51)

end Literal

end SimStats
