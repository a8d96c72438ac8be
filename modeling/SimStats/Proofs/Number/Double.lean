import SimStats.Proofs.Number.Bits
import SimStats.Proofs.Number.Closest
import SimStats.Proofs.Number.Grammar

/-!
# The double of a number

A literal with digits in it has a number, and its double is what that number is rounded to: no other
finite double is closer, in a tie the pattern is even, and only what is at least halfway from the
largest double to the next power of two becomes infinity (`Literal.toFloat_rounding`). In particular
an integer that is too large for a counter is read as the double closest to it
(`Value.ofToken?_rounding`).
-/

namespace SimStats

namespace Binary64

/-! ## Signs -/

/-- The number with the given magnitude and a minus in front or none. -/
def signed (negative : Bool) (v : ℚ) : ℚ := if negative then -v else v

variable (negative : Bool) {v w : ℚ}

theorem abs_signed : |signed negative v| = |v| := by
  cases negative
  · rfl
  · exact abs_neg v

/-- Numbers of one sign are as far apart as their magnitudes. -/
theorem abs_signed_sub_signed : |signed negative v - signed negative w| = |v - w| := by
  cases negative
  · rfl
  · rw [signed, if_pos rfl, signed, if_pos rfl, neg_sub_neg, abs_sub_comm]

/-- Between numbers of two signs there is all of both. -/
theorem abs_signed_not_sub_signed (hv : 0 ≤ v) (hw : 0 ≤ w) :
    |signed (!negative) v - signed negative w| = v + w := by
  cases negative
  · rw [signed, Bool.not_false, if_pos rfl, signed, if_neg Bool.false_ne_true, ← neg_add', abs_neg,
      abs_of_nonneg (add_nonneg hv hw)]
  · rw [signed, Bool.not_true, if_neg Bool.false_ne_true, signed, if_pos rfl, sub_neg_eq_add,
      abs_of_nonneg (add_nonneg hv hw)]

/-! ## Rounding to doubles -/

theorem value_zero : value 0 = 0 :=
  (Ratio.toRat_eq_zero_iff (den_toRatio_pos 0)).mpr (num_toRatio_eq_zero_iff.mpr rfl)

theorem value_nonneg (b : Nat) : 0 ≤ value b :=
  value_zero.symm.trans_le (value_strictMono.monotone (Nat.zero_le b))

/-- The exact value of a finite double. -/
def toRat (x : Float) : ℚ := signed (signBit x) (value (magnitude x))

/-- The double is what the number `v` is rounded to. -/
structure Rounding (v : ℚ) (x : Float) : Prop where
  /-- it is a number or infinity -/
  number : magnitude x ≤ infinity
  /-- it has the sign of the number -/
  sign : v = signed (signBit x) |v|
  /-- it is infinity for what is halfway beyond the largest double, or more -/
  infinity_iff : magnitude x = infinity ↔ value (infinity - 1) + value infinity ≤ 2 * |v|
  /-- no finite double is closer to the number -/
  le : magnitude x < infinity → ∀ y, magnitude y < infinity → |toRat x - v| ≤ |toRat y - v|
  /-- it is the even one if another one is as close -/
  even : magnitude x < infinity → ∀ y, magnitude y < infinity → toRat y ≠ toRat x →
    |toRat y - v| = |toRat x - v| → magnitude x % 2 = 0

/-- Among patterns of both signs, the closest is the one with the sign of the number. -/
theorem Closest.signed {c : Nat} (h : Closest v c) (hv : 0 ≤ v) (other : Bool) (b : Nat) :
    |signed negative (value c) - signed negative v| ≤
        |signed other (value b) - signed negative v| ∧
      (signed other (value b) ≠ signed negative (value c) →
        |signed other (value b) - signed negative v| =
          |signed negative (value c) - signed negative v| → c % 2 = 0) := by
  rw [abs_signed_sub_signed]
  rcases eq_or_ne other negative with rfl | hne
  · rw [abs_signed_sub_signed]
    exact ⟨h.le b, fun hvalue => h.even b fun hb => hvalue (hb ▸ rfl)⟩
  · obtain rfl : other = !negative := Bool.eq_not_of_ne hne
    have hzero : |value 0 - v| = v := by
      rw [value_zero, zero_sub, abs_neg, abs_of_nonneg hv]
    have hc := h.le 0
    have hb := value_nonneg b
    rw [hzero] at hc
    rw [abs_signed_not_sub_signed negative hb hv]
    refine ⟨hc.trans (le_add_of_nonneg_left hb), fun _ heq => ?_⟩
    -- the other one is zero, and so is as close as positive zero
    rcases eq_or_ne 0 c with rfl | hne
    · rfl
    · exact h.even 0 hne (hzero.trans (le_antisymm (heq ▸ le_add_of_nonneg_left hb) hc))

/-- A fraction is rounded to the double with its sign and the closest pattern. -/
theorem rounding_toFloat {r : Ratio} (hr : 0 < r.den) :
    Rounding (signed negative r.toRat) (toFloat negative (nearest r)) := by
  have hle := nearest_le_infinity r
  have hpos : 0 ≤ r.toRat := div_nonneg (Nat.cast_nonneg _) (Nat.cast_nonneg _)
  have hmagnitude := magnitude_toFloat negative hle
  have hsign := signBit_toFloat negative hle
  have hclosest (hfinite : magnitude (toFloat negative (nearest r)) < infinity) (y : Float) :=
    (nearest_closest hr (hmagnitude.symm.trans_lt hfinite)).signed negative hpos (signBit y)
      (magnitude y)
  refine ⟨?_, ?_, ?_, fun hfinite y _ => ?_, fun hfinite y _ => ?_⟩
  · rw [hmagnitude]
    exact hle
  · rw [hsign, abs_signed, abs_of_nonneg hpos]
  · rw [hmagnitude, abs_signed, abs_of_nonneg hpos]
    exact nearest_eq_infinity_iff hr
  · rw [toRat, hsign, hmagnitude]
    exact (hclosest hfinite y).1
  · rw [toRat, toRat, hsign, hmagnitude]
    exact (hclosest hfinite y).2

end Binary64

/-! ## Literals and tokens -/

namespace Literal

/-- The number of a literal, if it has digits. -/
def number? : Literal → Option ℚ
  | .integer negative n => some (Binary64.signed negative n)
  | .decimal negative d => some (Binary64.signed negative (d.coeff * (10 : ℚ) ^ d.exponent))
  | .infinity _ => none
  | .nan => none

/-- The double of a literal is its number, rounded. -/
theorem toFloat_rounding {l : Literal} {v : ℚ} (h : l.number? = some v) :
    Binary64.Rounding v l.toFloat := by
  have hdecimal (negative : Bool) (d : Decimal) :
      Binary64.Rounding (Binary64.signed negative (d.coeff * (10 : ℚ) ^ d.exponent))
        (Binary64.toFloat negative d.nearest) := by
    rw [← Decimal.toRat_toRatio]
    exact Binary64.rounding_toFloat negative d.den_toRatio_pos
  cases l with
  | integer negative n =>
    obtain rfl := Option.some.inj h
    have hinteger := hdecimal negative ⟨n, 0⟩
    rwa [zpow_zero, mul_one] at hinteger
  | decimal negative d =>
    obtain rfl := Option.some.inj h
    exact hdecimal negative d
  | infinity negative => cases h
  | nan => cases h

end Literal

namespace Value

/-- Digits that denote an integer beyond 64 bits are read as the double closest to it. -/
theorem ofToken?_rounding {token : String} {m : Int} (h : Literal.Denotes token.toList m)
    (hrange : ¬ (-Int.pow 2 63 ≤ m ∧ m ≤ Int.pow 2 63 - 1)) :
    ∃ x, ofToken? token = some (.float x) ∧ Binary64.Rounding m x := by
  refine ⟨_, ofToken?_of_denotes h hrange, Literal.toFloat_rounding ?_⟩
  rw [Literal.number?, Option.some_inj, Binary64.signed, Nat.cast_natAbs, Int.cast_abs]
  split
  · next hneg =>
    have hle : (m : ℚ) ≤ 0 := by exact_mod_cast (of_decide_eq_true hneg).le
    rw [abs_of_nonpos hle, neg_neg]
  · next hneg =>
    have hle : (0 : ℚ) ≤ m := by exact_mod_cast Int.not_lt.mp fun h => hneg (decide_eq_true h)
    exact abs_of_nonneg hle

end Value

end SimStats
