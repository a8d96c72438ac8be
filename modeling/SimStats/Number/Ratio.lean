/-!
# Non-negative fractions and their rounding

The numbers between a decimal text and a double are fractions of natural numbers. This module holds
the three things the rest of `Number` does with them: scaling by a power of a base, finding the
binary order of magnitude, and rounding to a whole number with a chosen rule for halves.

Fractions are not reduced, and a denominator is positive wherever one is built here.
-/

namespace SimStats

/-- What becomes of a fraction that lies exactly between two whole numbers. -/
inductive Tie where
  /-- the even neighbour -/
  | toEven
  /-- the larger neighbour -/
  | up
  deriving DecidableEq, Repr

/-- The fraction `num / den`. -/
structure Ratio where
  /-- numerator -/
  num : Nat
  /-- denominator -/
  den : Nat
  deriving DecidableEq, Repr

namespace Ratio

/-- A whole number as a fraction. -/
def ofNat (n : Nat) : Ratio := ⟨n, 1⟩

/-- Multiplies by `base ^ e`, where `e` may be negative. -/
def scale (r : Ratio) (base : Nat) (e : Int) : Ratio :=
  ⟨r.num * base.pow e.toNat, r.den * base.pow (-e).toNat⟩

/-- The largest whole number that is not above the fraction. -/
def floor (r : Ratio) : Nat := r.num / r.den

/-- The nearest whole number; a half goes where `tie` says. -/
def round (tie : Tie) (r : Ratio) : Nat :=
  let below := r.num / r.den
  let twice := 2 * (r.num % r.den)
  if twice < r.den then below
  else if r.den < twice then below + 1
  else match tie with
    | .up => below + 1
    | .toEven => below + below % 2

/-- The two whole numbers around the fraction, the nearer one first. -/
def neighbours (tie : Tie) (r : Ratio) : List Nat :=
  let near := r.round tie
  [near, if near = r.floor then near + 1 else r.floor]

/-- The largest `e` with `2 ^ e ≤ num / den`, for a positive fraction. The difference of the two
logarithms is that number or one more, and one comparison decides. -/
def log2 (r : Ratio) : Int :=
  let e : Int := (r.num.log2 : Int) - (r.den.log2 : Int)
  if r.num * Nat.pow 2 (-e).toNat < r.den * Nat.pow 2 e.toNat then e - 1 else e

@[simp] theorem scale_zero (r : Ratio) (base : Nat) : r.scale base 0 = r := by
  simp [scale]

theorem den_scale_pos {r : Ratio} {base : Nat} {e : Int} (hr : 0 < r.den) (hb : 0 < base) :
    0 < (r.scale base e).den :=
  Nat.mul_pos hr (Nat.pow_pos hb)

/-- Rounding a whole number changes nothing. -/
@[simp] theorem round_ofNat (tie : Tie) (n : Nat) : (ofNat n).round tie = n := by
  simp [round, ofNat, Nat.mod_one]

/-- The rounded number is the floor or the next one. -/
theorem round_eq_floor_or (tie : Tie) (r : Ratio) :
    r.round tie = r.floor ∨ r.round tie = r.floor + 1 := by
  simp only [round, floor]
  split
  · exact Or.inl rfl
  · split
    · exact Or.inr rfl
    · cases tie
      · rcases Nat.mod_two_eq_zero_or_one (r.num / r.den) with h | h <;> simp [h]
      · exact Or.inr rfl

end Ratio

end SimStats
