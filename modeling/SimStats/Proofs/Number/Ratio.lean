import Mathlib.Data.Int.Log
import Mathlib.Data.Rat.Floor
import SimStats.Number.Ratio

/-!
# The values of fractions

Fractions are not reduced, so one number is many fractions. What is done with a fraction depends on
its value alone (`Ratio.toRat`): scaling multiplies it (`toRat_scale`), the binary order of
magnitude is the logarithm of it (`log2_eq_log`), and equal values are rounded alike
(`round_congr`).
-/

namespace SimStats.Ratio

variable {r s : Ratio} {tie : Tie}

/-- The value of a fraction. -/
def toRat (r : Ratio) : ℚ := r.num / r.den

@[simp] theorem toRat_ofNat (n : Nat) : (ofNat n).toRat = n := by
  simp [toRat, ofNat]

theorem toRat_pos (hnum : 0 < r.num) (hden : 0 < r.den) : 0 < r.toRat :=
  div_pos (Nat.cast_pos.mpr hnum) (Nat.cast_pos.mpr hden)

theorem toRat_eq_zero_iff (hden : 0 < r.den) : r.toRat = 0 ↔ r.num = 0 := by
  have hne : (r.den : ℚ) ≠ 0 := Nat.cast_ne_zero.mpr hden.ne'
  rw [toRat, div_eq_zero_iff, or_iff_left hne, Nat.cast_eq_zero]

/-- Fractions of one value agree crosswise. -/
theorem toRat_eq_iff (hr : 0 < r.den) (hs : 0 < s.den) :
    r.toRat = s.toRat ↔ r.num * s.den = s.num * r.den := by
  have hr' : (r.den : ℚ) ≠ 0 := Nat.cast_ne_zero.mpr hr.ne'
  have hs' : (s.den : ℚ) ≠ 0 := Nat.cast_ne_zero.mpr hs.ne'
  rw [toRat, toRat, div_eq_div_iff hr' hs']
  exact_mod_cast Iff.rfl

/-! ## Scaling -/

/-- Scaling multiplies the value. -/
theorem toRat_scale (r : Ratio) {base : Nat} (hbase : 0 < base) (e : Int) :
    (r.scale base e).toRat = r.toRat * (base : ℚ) ^ e := by
  have hne : (base : ℚ) ≠ 0 := Nat.cast_ne_zero.mpr hbase.ne'
  have he : e = (e.toNat : Int) - ((-e).toNat : Int) := by omega
  have hpow : (base : ℚ) ^ e = (base : ℚ) ^ e.toNat / (base : ℚ) ^ (-e).toNat := by
    conv_lhs => rw [he]
    rw [zpow_sub₀ hne, zpow_natCast, zpow_natCast]
  rw [hpow, toRat, toRat, scale, Nat.pow_eq, Nat.pow_eq]
  push_cast
  exact mul_div_mul_comm ..

/-! ## The order of magnitude -/

/-- Whether a value is below a power of two is seen from the numerator and the denominator. -/
theorem toRat_lt_zpow_iff (hden : 0 < r.den) (e : Int) :
    r.toRat < (2 : ℚ) ^ e ↔ r.num * 2 ^ (-e).toNat < r.den * 2 ^ e.toNat := by
  have hscaled : r.toRat < (2 : ℚ) ^ e ↔ (r.scale 2 (-e)).toRat < 1 := by
    rw [toRat_scale _ Nat.two_pos, Nat.cast_ofNat, zpow_neg, ← div_eq_mul_inv,
      div_lt_one (zpow_pos Nat.ofNat_pos e)]
  have hpos : (0 : ℚ) < (r.scale 2 (-e)).den :=
    Nat.cast_pos.mpr (den_scale_pos hden Nat.two_pos)
  rw [hscaled, toRat, div_lt_one hpos, Nat.cast_lt, scale, Int.neg_neg, Nat.pow_eq, Nat.pow_eq]

/-- The difference of the logarithms is at most one more than the logarithm of the value. -/
theorem zpow_le_toRat (hnum : 0 < r.num) (hden : 0 < r.den) :
    (2 : ℚ) ^ ((r.num.log2 : Int) - r.den.log2 - 1) ≤ r.toRat := by
  have hn : ((2 ^ r.num.log2 : Nat) : ℚ) ≤ r.num :=
    Nat.cast_le.mpr (Nat.log2_self_le hnum.ne')
  have hd : (r.den : ℚ) ≤ (2 ^ (r.den.log2 + 1) : Nat) :=
    Nat.cast_le.mpr Nat.lt_log2_self.le
  have hpow : (2 : ℚ) ^ ((r.num.log2 : Int) - r.den.log2 - 1) =
      ((2 ^ r.num.log2 : Nat) : ℚ) / (2 ^ (r.den.log2 + 1) : Nat) := by
    rw [sub_sub, zpow_sub₀ two_ne_zero, zpow_natCast, ← Nat.cast_add_one, zpow_natCast]
    push_cast
    rfl
  rw [hpow, toRat]
  exact div_le_div₀ (Nat.cast_nonneg _) hn (Nat.cast_pos.mpr hden) hd

theorem toRat_lt_zpow (hden : 0 < r.den) :
    r.toRat < (2 : ℚ) ^ ((r.num.log2 : Int) - r.den.log2 + 1) := by
  have hn : (r.num : ℚ) < (2 ^ (r.num.log2 + 1) : Nat) := Nat.cast_lt.mpr Nat.lt_log2_self
  have hd : ((2 ^ r.den.log2 : Nat) : ℚ) ≤ r.den :=
    Nat.cast_le.mpr (Nat.log2_self_le hden.ne')
  have hpow : (2 : ℚ) ^ ((r.num.log2 : Int) - r.den.log2 + 1) =
      ((2 ^ (r.num.log2 + 1) : Nat) : ℚ) / (2 ^ r.den.log2 : Nat) := by
    rw [sub_add_eq_add_sub, zpow_sub₀ two_ne_zero, zpow_natCast, ← Nat.cast_add_one, zpow_natCast]
    push_cast
    rfl
  rw [hpow, toRat]
  exact div_lt_div₀ hn hd (Nat.cast_nonneg _) (Nat.cast_pos.mpr (Nat.two_pow_pos _))

/-- The binary order of magnitude is the logarithm of the value, rounded down. -/
theorem log2_eq_log (hnum : 0 < r.num) (hden : 0 < r.den) : r.log2 = Int.log 2 r.toRat := by
  have hpos : 0 < r.toRat := toRat_pos hnum hden
  have hlow := (Int.zpow_le_iff_le_log Nat.one_lt_two hpos).mp (zpow_le_toRat hnum hden)
  have hhigh := (Int.lt_zpow_iff_log_lt Nat.one_lt_two hpos).mp (toRat_lt_zpow hden)
  have hiff := toRat_lt_zpow_iff hden ((r.num.log2 : Int) - r.den.log2)
  rw [log2, Nat.pow_eq, Nat.pow_eq]
  split
  · next hlt =>
    have hlog := (Int.lt_zpow_iff_log_lt Nat.one_lt_two hpos).mp (hiff.mpr hlt)
    omega
  · next hge =>
    have hlog := (Int.zpow_le_iff_le_log Nat.one_lt_two hpos).mp (not_lt.mp (mt hiff.mp hge))
    omega

/-! ## Rounding -/

theorem round_expand (r : Ratio) {k : Nat} (hk : 0 < k) :
    (⟨r.num * k, r.den * k⟩ : Ratio).round tie = r.round tie := by
  have hdiv : r.num * k / (r.den * k) = r.num / r.den := Nat.mul_div_mul_right _ _ hk
  have hmod : 2 * (r.num * k % (r.den * k)) = 2 * (r.num % r.den) * k := by
    rw [Nat.mul_mod_mul_right, Nat.mul_assoc]
  simp only [round, hdiv, hmod, Nat.mul_lt_mul_right hk]

/-- Fractions of one value are rounded alike. -/
theorem round_congr (hr : 0 < r.den) (hs : 0 < s.den) (h : r.toRat = s.toRat) :
    r.round tie = s.round tie := by
  rw [← round_expand r hs, ← round_expand s hr, (toRat_eq_iff hr hs).mp h, Nat.mul_comm r.den]

/-- A fraction whose value is whole is rounded to it. -/
theorem round_of_toRat_eq {n : Nat} (hden : 0 < r.den) (h : r.toRat = n) : r.round tie = n := by
  rw [round_congr hden Nat.one_pos (h.trans (toRat_ofNat n).symm), round_ofNat]

/-- Rounding does not go below a whole number that the value has reached. -/
theorem le_round_of_le_toRat {n : Nat} (hden : 0 < r.den) (h : (n : ℚ) ≤ r.toRat) :
    n ≤ r.round tie := by
  have hfloor : n ≤ r.floor := by
    rw [toRat, le_div_iff₀ (Nat.cast_pos.mpr hden)] at h
    exact (Nat.le_div_iff_mul_le hden).mpr (by exact_mod_cast h)
  rcases round_eq_floor_or tie r with hround | hround <;> omega

/-- What is less than a half is rounded to zero. -/
theorem round_eq_zero_of_toRat_lt (hden : 0 < r.den) (h : r.toRat < 2⁻¹) : r.round tie = 0 := by
  have htwice : 2 * r.num < r.den := by
    rw [toRat, div_lt_iff₀ (Nat.cast_pos.mpr hden), lt_inv_mul_iff₀ two_pos] at h
    exact_mod_cast h
  have hlt : r.num < r.den := by omega
  simp only [round, Nat.div_eq_of_lt hlt, Nat.mod_eq_of_lt hlt, htwice, if_true]

end SimStats.Ratio
