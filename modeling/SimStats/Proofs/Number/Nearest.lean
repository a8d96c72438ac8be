import SimStats.Number.Decimal
import SimStats.Proofs.Number.Ratio

/-!
# Rounding to the closest double

The closest double is a matter of the value, not of the fraction that holds it (`nearest_congr`).
The exact value of a double is rounded to that double (`nearest_toRatio`), so the shortest digits of
a double, which are tried against the rounding and fall back on the exact value, always read back
(`Decimal.nearest_shortest`). A value that is rounded to a positive finite double is neither far
above nor far below one (`log2_of_nearest`), and so is the power of ten that its first digit counts
(`Decimal.leading_of_nearest`).
-/

namespace SimStats

namespace Binary64

variable {r s : Ratio} {b : Nat}

/-! ## The exact value of a double -/

theorem pow_fractionBits : Nat.pow 2 52 = 4503599627370496 := rfl

theorem den_toRatio_pos (b : Nat) : 0 < (toRatio b).den :=
  Ratio.den_scale_pos Nat.one_pos Nat.two_pos

theorem toRat_toRatio (b : Nat) : (toRatio b).toRat = significand b * (2 : ℚ) ^ exponent b := by
  rw [toRatio, Ratio.toRat_scale _ Nat.two_pos, Ratio.toRat_ofNat, Nat.cast_ofNat]

theorem significand_eq_zero_iff : significand b = 0 ↔ b = 0 := by
  rw [significand, pow_fractionBits]
  split <;> omega

theorem significand_lt (b : Nat) : significand b < 2 ^ 53 := by
  rw [significand, pow_fractionBits]
  split <;> omega

theorem toNat_exponent (b : Nat) :
    (exponent b + 1074).toNat = max (b / Nat.pow 2 52) 1 - 1 := by
  rw [exponent]
  omega

/-- The exponent and the significand of a double are its pattern. -/
theorem pattern_eq (b : Nat) :
    (exponent b + 1074).toNat * Nat.pow 2 52 + significand b = b := by
  rw [toNat_exponent, significand, pow_fractionBits]
  split <;> omega

theorem num_toRatio_eq_zero_iff : (toRatio b).num = 0 ↔ b = 0 := by
  have htwo : (2 : ℚ) ^ exponent b ≠ 0 := zpow_ne_zero _ two_ne_zero
  rw [← Ratio.toRat_eq_zero_iff (den_toRatio_pos b), toRat_toRatio, mul_eq_zero,
    or_iff_left htwo, Nat.cast_eq_zero, significand_eq_zero_iff]

/-- A power of two above the significand is one above the value. -/
theorem log2_toRatio_lt (hb : b ≠ 0) {k : Nat} (h : significand b < 2 ^ k) :
    (toRatio b).log2 < k + exponent b := by
  have hnum : 0 < (toRatio b).num := Nat.pos_of_ne_zero (mt num_toRatio_eq_zero_iff.mp hb)
  have hpos := Ratio.toRat_pos hnum (den_toRatio_pos b)
  rw [Ratio.log2_eq_log hnum (den_toRatio_pos b), ← Int.lt_zpow_iff_log_lt Nat.one_lt_two hpos,
    toRat_toRatio, Nat.cast_ofNat, zpow_add₀ two_ne_zero, zpow_natCast]
  exact mul_lt_mul_of_pos_right (by exact_mod_cast h) (zpow_pos two_pos _)

/-- A power of two that the significand reaches is one that the value reaches. -/
theorem le_log2_toRatio (hb : b ≠ 0) {k : Nat} (h : 2 ^ k ≤ significand b) :
    k + exponent b ≤ (toRatio b).log2 := by
  have hnum : 0 < (toRatio b).num := Nat.pos_of_ne_zero (mt num_toRatio_eq_zero_iff.mp hb)
  have hpos := Ratio.toRat_pos hnum (den_toRatio_pos b)
  rw [Ratio.log2_eq_log hnum (den_toRatio_pos b), ← Int.zpow_le_iff_le_log Nat.one_lt_two hpos,
    toRat_toRatio, Nat.cast_ofNat, zpow_add₀ two_ne_zero, zpow_natCast]
  exact mul_le_mul_of_nonneg_right (by exact_mod_cast h) (zpow_pos two_pos _).le

/-- Near the value of a double, the last place is that of the double. -/
theorem lastPlace_toRatio (hb : b ≠ 0) : lastPlace (toRatio b) = exponent b := by
  rw [lastPlace]
  by_cases hsmall : b < Nat.pow 2 52
  · have hsignificand : significand b < 2 ^ 52 := by
      rw [significand, if_pos hsmall]
      exact hsmall
    have hlog := log2_toRatio_lt hb hsignificand
    have hexponent : exponent b = -1074 := by
      rw [exponent, Nat.div_eq_of_lt hsmall]
      rfl
    omega
  · have hsignificand : 2 ^ 52 ≤ significand b := by
      rw [significand, if_neg hsmall]
      exact Nat.le_add_left ..
    have hlow := le_log2_toRatio hb hsignificand
    have hhigh := log2_toRatio_lt hb (significand_lt b)
    have hexponent : -1074 ≤ exponent b := by
      rw [exponent]
      omega
    omega

/-! ## Rounding -/

/-- The closest double depends on the value alone. -/
theorem nearest_congr (hr : 0 < r.den) (hs : 0 < s.den) (h : r.toRat = s.toRat) :
    nearest r = nearest s := by
  have hzero : r.num = 0 ↔ s.num = 0 := by
    rw [← Ratio.toRat_eq_zero_iff hr, h, Ratio.toRat_eq_zero_iff hs]
  by_cases hnum : r.num = 0
  · rw [nearest, nearest, if_pos hnum, if_pos (hzero.mp hnum)]
  · have hlog : r.log2 = s.log2 := by
      rw [Ratio.log2_eq_log (Nat.pos_of_ne_zero hnum) hr, h,
        Ratio.log2_eq_log (Nat.pos_of_ne_zero (mt hzero.mpr hnum)) hs]
    have hplace : lastPlace r = lastPlace s := by rw [lastPlace, lastPlace, hlog]
    have hround (e : Int) : (r.scale 2 e).round .toEven = (s.scale 2 e).round .toEven := by
      refine Ratio.round_congr (Ratio.den_scale_pos hr Nat.two_pos)
        (Ratio.den_scale_pos hs Nat.two_pos) ?_
      rw [Ratio.toRat_scale r Nat.two_pos, h, Ratio.toRat_scale s Nat.two_pos]
    rw [nearest, nearest, if_neg hnum, if_neg (mt hzero.mpr hnum)]
    dsimp only
    rw [hplace, hround]

/-- The value of a finite double is rounded to that double. -/
theorem nearest_toRatio (hb : b < infinity) : nearest (toRatio b) = b := by
  by_cases hzero : b = 0
  · rw [nearest, if_pos (num_toRatio_eq_zero_iff.mpr hzero), hzero]
  · have hvalue : ((toRatio b).scale 2 (-exponent b)).toRat = significand b := by
      rw [Ratio.toRat_scale _ Nat.two_pos, toRat_toRatio, Nat.cast_ofNat, mul_assoc,
        ← zpow_add₀ two_ne_zero, Int.add_right_neg, zpow_zero, mul_one]
    have hround : ((toRatio b).scale 2 (-exponent b)).round .toEven = significand b :=
      Ratio.round_of_toRat_eq (Ratio.den_scale_pos (den_toRatio_pos b) Nat.two_pos) hvalue
    rw [nearest, if_neg (mt num_toRatio_eq_zero_iff.mp hzero)]
    dsimp only
    rw [lastPlace_toRatio hzero, hround, pattern_eq, Nat.min_eq_right hb.le]

/-- What is rounded to a positive finite double is of an ordinary size. -/
theorem log2_of_nearest (hr : 0 < r.den) (hzero : nearest r ≠ 0) (hfinite : nearest r < infinity) :
    -1075 ≤ r.log2 ∧ r.log2 ≤ 1023 := by
  have hnum : r.num ≠ 0 := fun hnum => hzero (by rw [nearest, if_pos hnum])
  have hpos := Ratio.toRat_pos (Nat.pos_of_ne_zero hnum) hr
  have hlog := Ratio.log2_eq_log (Nat.pos_of_ne_zero hnum) hr
  have hden (e : Int) : 0 < (r.scale 2 e).den := Ratio.den_scale_pos hr Nat.two_pos
  have hvalue (e : Int) : (r.scale 2 (-e)).toRat = r.toRat / (2 : ℚ) ^ e := by
    rw [Ratio.toRat_scale _ Nat.two_pos, Nat.cast_ofNat, zpow_neg, div_eq_mul_inv]
  rw [nearest, if_neg hnum] at hzero hfinite
  dsimp only at hzero hfinite
  refine ⟨?_, ?_⟩
  · by_contra hlow
    have hplace : lastPlace r = -1074 := by
      rw [lastPlace]
      omega
    -- less than half of the least positive double
    have hhalf : (r.scale 2 (- -1074)).toRat < 2⁻¹ := by
      rw [hvalue, div_lt_iff₀ (zpow_pos two_pos _), ← zpow_neg_one, ← zpow_add₀ two_ne_zero]
      exact (Int.lt_zpow_iff_log_lt Nat.one_lt_two hpos).mpr (by rw [← hlog]; omega)
    rw [hplace, Ratio.round_eq_zero_of_toRat_lt (hden _) hhalf] at hzero
    exact hzero rfl
  · by_contra hhigh
    have hplace : lastPlace r = r.log2 - 52 := by
      rw [lastPlace]
      omega
    have hone : ((2 ^ 52 : Nat) : ℚ) ≤ (r.scale 2 (-(r.log2 - 52))).toRat := by
      rw [hvalue, le_div_iff₀ (zpow_pos two_pos _), Nat.cast_pow, Nat.cast_ofNat, ← zpow_natCast,
        ← zpow_add₀ two_ne_zero]
      refine (Int.zpow_le_iff_le_log Nat.one_lt_two hpos).mpr ?_
      rw [← hlog]
      exact Int.le_of_eq (by omega)
    have hround : 2 ^ 52 ≤ (r.scale 2 (-(r.log2 - 52))).round .toEven :=
      Ratio.le_round_of_le_toRat (hden _) hone
    have hinfinity : infinity = 2047 * 4503599627370496 := rfl
    rw [hplace, min_lt_iff, or_iff_right (lt_irrefl _), pow_fractionBits, hinfinity] at hfinite
    omega

end Binary64

namespace Decimal

variable {d d' : Decimal} {b : Nat}

/-! ## Decimals -/

theorem den_toRatio_pos (d : Decimal) : 0 < d.toRatio.den :=
  Ratio.den_scale_pos Nat.one_pos Nat.ofNat_pos

theorem toRat_toRatio (d : Decimal) : d.toRatio.toRat = d.coeff * (10 : ℚ) ^ d.exponent := by
  have hten : 0 < 10 := Nat.ofNat_pos
  rw [toRatio, Ratio.toRat_scale _ hten, Ratio.toRat_ofNat, Nat.cast_ofNat]

theorem nearest_congr (h : d.toRatio.toRat = d'.toRatio.toRat) : d.nearest = d'.nearest :=
  Binary64.nearest_congr d.den_toRatio_pos d'.den_toRatio_pos h

/-- Zeros after the last digit count nothing. -/
theorem nearest_shift (c k : Nat) (e : Int) :
    nearest ⟨c * 10 ^ k, e - k⟩ = nearest ⟨c, e⟩ := by
  refine nearest_congr ?_
  rw [toRat_toRatio, toRat_toRatio, Nat.cast_mul, Nat.cast_pow, Nat.cast_ofNat, mul_assoc,
    ← zpow_natCast, ← zpow_add₀ (by norm_num), add_sub_cancel]

/-- A power of two is as many tens and fives, or so many tens less fives. -/
theorem zpow_two_eq (q : Int) :
    (2 : ℚ) ^ q = 2 ^ q.toNat * 5 ^ (-q).toNat * (10 : ℚ) ^ min q 0 := by
  rcases le_total 0 q with hq | hq
  · have hneg : (-q).toNat = 0 := by omega
    have hpos : (q.toNat : Int) = q := Int.toNat_of_nonneg hq
    rw [hneg, min_eq_right hq, pow_zero, zpow_zero, mul_one, mul_one, ← zpow_natCast, hpos]
  · have hpos : q.toNat = 0 := by omega
    have hneg : ((-q).toNat : Int) = -q := Int.toNat_of_nonneg (by omega)
    have hten : (10 : ℚ) = 5 * 2 := by norm_num
    rw [hpos, min_eq_left hq, pow_zero, one_mul, ← zpow_natCast, hneg, hten, mul_zpow, ← mul_assoc,
      ← zpow_add₀ (by norm_num), neg_add_cancel, zpow_zero, one_mul]

/-- The exact digits of a double have its value. -/
theorem toRat_exact (b : Nat) : (exact b).toRatio.toRat = (Binary64.toRatio b).toRat := by
  rw [toRat_toRatio, Binary64.toRat_toRatio, zpow_two_eq, exact]
  dsimp only
  rw [Nat.pow_eq, Nat.pow_eq]
  push_cast
  rw [mul_assoc, mul_assoc, mul_assoc]

theorem nearest_exact (hb : b < Binary64.infinity) : (exact b).nearest = b :=
  (Binary64.nearest_congr (den_toRatio_pos _) (Binary64.den_toRatio_pos b) (toRat_exact b)).trans
    (Binary64.nearest_toRatio hb)

/-- The shortest digits of a finite double read back as that double. -/
theorem nearest_shortest (tie : Tie) (hb : b < Binary64.infinity) :
    (shortest tie b).nearest = b := by
  rw [shortest]
  split
  · next hzero =>
    rw [hzero]
    rfl
  · dsimp only
    cases hfound : (List.range mostDigits).findSome? fun n =>
        (candidates tie (Binary64.toRatio b) (pointPosition (Binary64.toRatio b)) (n + 1)).find?
          fun d => d.nearest == b with
    | none => exact nearest_exact hb
    | some d =>
      obtain ⟨n, -, hn⟩ := List.exists_of_findSome?_eq_some hfound
      have hreads : (d.nearest == b) = true := by simpa using List.find?_some hn
      exact eq_of_beq hreads

/-! ## The first digit -/

theorem coeff_ne_zero_of_nearest (h : d.nearest ≠ 0) : d.coeff ≠ 0 := by
  intro hzero
  refine h (if_pos ?_)
  rw [toRatio, Ratio.scale, hzero]
  exact Nat.zero_mul _

/-- A coefficient has as many digits as its powers of ten say. -/
theorem pow_length_le_coeff (hd : d.coeff ≠ 0) : 10 ^ (d.digits.length - 1) ≤ d.coeff := by
  have hpos : 0 < d.digits.length := List.length_pos_iff.mpr Nat.toDigits_ne_nil
  by_contra hlt
  have hone : d.digits.length - 1 ≠ 0 := by
    intro hone
    rw [hone] at hlt
    omega
  have hle : d.digits.length ≤ d.digits.length - 1 :=
    (Nat.length_toDigits_le_iff (by decide) (Nat.pos_of_ne_zero hone)).mpr (Nat.not_le.mp hlt)
  omega

theorem coeff_lt_pow_length (d : Decimal) : d.coeff < 10 ^ d.digits.length :=
  (Nat.length_toDigits_le_iff (by decide)
    (List.length_pos_iff.mpr Nat.toDigits_ne_nil)).mp (Nat.le_refl _)

/-- The value of a decimal begins with the power of ten that its first digit counts. -/
theorem zpow_leading_le (hd : d.coeff ≠ 0) : (10 : ℚ) ^ d.leading ≤ d.toRatio.toRat := by
  have hlength : ((d.digits.length - 1 : Nat) : Int) = d.digits.length - 1 :=
    Nat.cast_pred (List.length_pos_iff.mpr Nat.toDigits_ne_nil)
  have hleading : d.leading = ((d.digits.length - 1 : Nat) : Int) + d.exponent := by
    rw [leading, hlength]
    omega
  rw [toRat_toRatio, hleading, zpow_add₀ (by norm_num), zpow_natCast]
  exact mul_le_mul_of_nonneg_right (by exact_mod_cast pow_length_le_coeff hd)
    (zpow_pos (by norm_num) _).le

theorem lt_zpow_leading (d : Decimal) : d.toRatio.toRat < (10 : ℚ) ^ (d.leading + 1) := by
  have hleading : d.leading + 1 = (d.digits.length : Int) + d.exponent := by
    rw [leading]
    omega
  rw [toRat_toRatio, hleading, zpow_add₀ (by norm_num), zpow_natCast]
  exact mul_lt_mul_of_pos_right (by exact_mod_cast d.coeff_lt_pow_length)
    (zpow_pos (by norm_num) _)

/-- The first digit of a positive finite double counts no extreme power of ten. -/
theorem leading_of_nearest (hzero : d.nearest ≠ 0) (hfinite : d.nearest < Binary64.infinity) :
    -1076 ≤ d.leading ∧ d.leading ≤ 1023 := by
  have hcoeff := coeff_ne_zero_of_nearest hzero
  have hlow := zpow_leading_le hcoeff
  have hhigh := d.lt_zpow_leading
  have hpos : 0 < d.toRatio.toRat := lt_of_lt_of_le (zpow_pos (by norm_num) _) hlow
  have hnum : 0 < d.toRatio.num := Nat.pos_of_ne_zero fun h =>
    hpos.ne' ((Ratio.toRat_eq_zero_iff d.den_toRatio_pos).mpr h)
  obtain ⟨hleast, hmost⟩ := Binary64.log2_of_nearest d.den_toRatio_pos hzero hfinite
  rw [Ratio.log2_eq_log hnum d.den_toRatio_pos] at hleast hmost
  refine ⟨?_, ?_⟩
  · by_contra hsmall
    have htwo : (10 : ℚ) ^ (d.leading + 1) ≤ 2 ^ (d.leading + 1) := by
      have hinv : (10 : ℚ)⁻¹ ^ (-(d.leading + 1)) ≤ 2⁻¹ ^ (-(d.leading + 1)) :=
        zpow_le_zpow_left₀ (by omega) (by norm_num) (by norm_num)
      rwa [inv_zpow', inv_zpow', Int.neg_neg] at hinv
    have hlog := (Int.lt_zpow_iff_log_lt Nat.one_lt_two hpos).mp (hhigh.trans_le htwo)
    omega
  · by_contra hlarge
    have htwo : (2 : ℚ) ^ d.leading ≤ 10 ^ d.leading :=
      zpow_le_zpow_left₀ (by omega) (by norm_num) (by norm_num)
    have hlog := (Int.zpow_le_iff_le_log Nat.one_lt_two hpos).mp (htwo.trans hlow)
    omega

end Decimal

end SimStats
