import Mathlib.Tactic.Tauto
import SimStats.Proofs.Number.Nearest

/-!
# The closest double is the closest

Larger patterns are larger doubles (`Binary64.value_strictMono`), so of all doubles the closest one
to a value is one of two whose patterns follow each other: the value lies between them. Rounding to
the last place chooses between the two, by their distances and in a tie by their patterns
(`Binary64.nearest_closest`). Patterns from infinity on count as the powers of two would go on; a
value that is closest to one of these is beyond all doubles
(`Binary64.nearest_eq_infinity_iff`).
-/

namespace SimStats

/-! ## Rounding to whole numbers -/

namespace Ratio

/-- The value is between the whole number below it and the next one. -/
theorem floor_le_toRat {r : Ratio} (hden : 0 < r.den) :
    (r.floor : ℚ) ≤ r.toRat ∧ r.toRat < r.floor + 1 := by
  have hpos : (0 : ℚ) < r.den := Nat.cast_pos.mpr hden
  rw [toRat, le_div_iff₀ hpos, div_lt_iff₀ hpos]
  have hlow : r.floor * r.den ≤ r.num := Nat.div_mul_le_self ..
  have hhigh : r.num < (r.floor + 1) * r.den := Nat.lt_mul_of_div_lt (Nat.lt_succ_self _) hden
  exact ⟨by exact_mod_cast hlow, by exact_mod_cast hhigh⟩

/-- The remainder is what the value is above the whole number below it. -/
theorem toRat_sub_floor {r : Ratio} (hden : 0 < r.den) :
    2 * (r.toRat - r.floor) * r.den = (2 * (r.num % r.den) : Nat) := by
  have hne : (r.den : ℚ) ≠ 0 := Nat.cast_ne_zero.mpr hden.ne'
  have hdiv : ((r.floor * r.den + r.num % r.den : Nat) : ℚ) = r.num := by
    exact_mod_cast Nat.div_add_mod' ..
  rw [toRat, mul_assoc, sub_mul, div_mul_cancel₀ _ hne, ← hdiv]
  push_cast
  ring

/-- Rounding goes to the nearer of the two whole numbers, and in a tie to the even one. -/
theorem round_toEven_cases {r : Ratio} (hden : 0 < r.den) :
    (2 * (r.toRat - r.floor) < 1 ∧ r.round .toEven = r.floor) ∨
    (1 < 2 * (r.toRat - r.floor) ∧ r.round .toEven = r.floor + 1) ∨
    (2 * (r.toRat - r.floor) = 1 ∧ r.round .toEven = r.floor + r.floor % 2) := by
  have hpos : (0 : ℚ) < r.den := Nat.cast_pos.mpr hden
  have htwice := toRat_sub_floor hden
  rcases Nat.lt_trichotomy (2 * (r.num % r.den)) r.den with hlt | heq | hgt
  · refine Or.inl ⟨?_, if_pos hlt⟩
    rw [← mul_lt_mul_iff_left₀ hpos, one_mul, htwice]
    exact_mod_cast hlt
  · refine Or.inr (Or.inr ⟨?_, ?_⟩)
    · refine mul_right_cancel₀ hpos.ne' ?_
      rw [one_mul, htwice, heq]
    · rw [round, heq]
      exact (if_neg (Nat.lt_irrefl _)).trans (if_neg (Nat.lt_irrefl _))
  · refine Or.inr (Or.inl ⟨?_, (if_neg hgt.asymm).trans (if_pos hgt)⟩)
    rw [← mul_lt_mul_iff_left₀ hpos, one_mul, htwice]
    exact_mod_cast hgt

end Ratio

namespace Binary64

/-! ## The values of patterns -/

/-- The exact value of a pattern. From infinity on, patterns go on like finite ones. -/
def value (b : Nat) : ℚ := (toRatio b).toRat

theorem value_eq (b : Nat) : value b = significand b * (2 : ℚ) ^ exponent b := toRat_toRatio b

/-- The pattern with `m` units of `2 ^ q`. -/
def pattern (q : Int) (m : Nat) : Nat := (q + 1074).toNat * Nat.pow 2 52 + m

theorem pattern_succ (q : Int) (m : Nat) : pattern q (m + 1) = pattern q m + 1 :=
  (Nat.add_assoc ..).symm

theorem pattern_exponent_significand (b : Nat) : pattern (exponent b) (significand b) = b :=
  pattern_eq b

/-- The last place of `2 ^ q` fits `m` units: they have all the digits of a normal number, or it is
the least one. -/
def Fits (q : Int) (m : Nat) : Prop := -1074 ≤ q ∧ (q = -1074 ∨ Nat.pow 2 52 ≤ m)

theorem fits_exponent_significand (b : Nat) : Fits (exponent b) (significand b) := by
  rw [Fits, exponent, significand, pow_fractionBits]
  split <;> omega

/-- Units that fit have their value, and so have those that carry into the next power of two. -/
theorem value_pattern {q : Int} {m : Nat} (h : Fits q m) (hm : m ≤ Nat.pow 2 53) :
    value (pattern q m) = m * (2 : ℚ) ^ q := by
  obtain ⟨hq, hlow⟩ := h
  have hpow : Nat.pow 2 53 = 9007199254740992 := rfl
  rw [pow_fractionBits] at hlow
  rw [hpow] at hm
  rw [value_eq]
  rcases Nat.lt_or_eq_of_le hm with hlt | rfl
  · have hsignificand : significand (pattern q m) = m := by
      rw [significand, pattern, pow_fractionBits]
      split <;> omega
    have hexponent : exponent (pattern q m) = q := by
      rw [exponent, pattern, pow_fractionBits]
      omega
    rw [hsignificand, hexponent]
  · have hsignificand : significand (pattern q 9007199254740992) = 4503599627370496 := by
      rw [significand, pattern, pow_fractionBits]
      split <;> omega
    have hexponent : exponent (pattern q 9007199254740992) = q + 1 := by
      rw [exponent, pattern, pow_fractionBits]
      omega
    rw [hsignificand, hexponent, zpow_add_one₀ two_ne_zero]
    push_cast
    ring

/-- Larger patterns are larger doubles. -/
theorem value_strictMono : StrictMono value := by
  refine strictMono_nat_of_lt_succ fun b => ?_
  have hfits := fits_exponent_significand b
  have hnext : Fits (exponent b) (significand b + 1) :=
    ⟨hfits.1, hfits.2.imp_right fun h => h.trans (Nat.le_succ _)⟩
  have hb : b + 1 = pattern (exponent b) (significand b + 1) := by
    rw [pattern_succ, pattern_exponent_significand]
  rw [hb, value_pattern hnext (significand_lt b), value_eq]
  exact mul_lt_mul_of_pos_right (by exact_mod_cast Nat.lt_succ_self _) (zpow_pos two_pos _)

/-! ## The closest pattern -/

/-- No pattern has a value that is closer to `x` than that of `c`, and `c` is even if another one is
as close. -/
structure Closest (x : ℚ) (c : Nat) : Prop where
  /-- others are not closer -/
  le (b : Nat) : |value c - x| ≤ |value b - x|
  /-- in a tie it is the even one -/
  even (b : Nat) : b ≠ c → |value b - x| = |value c - x| → c % 2 = 0

variable {x : ℚ} {b k : Nat}

/-- Below a value, smaller patterns are farther away. -/
theorem le_dist_of_le (hx : value k ≤ x) (hb : b ≤ k) :
    |value k - x| ≤ |value b - x| ∧ (|value b - x| = |value k - x| → b = k) := by
  have hle := value_strictMono.monotone hb
  rw [abs_sub_comm, abs_of_nonneg (sub_nonneg.mpr hx), abs_sub_comm,
    abs_of_nonneg (sub_nonneg.mpr (hle.trans hx))]
  exact ⟨sub_le_sub_left hle x, fun h => value_strictMono.injective (sub_right_injective h)⟩

/-- Above a value, larger patterns are farther away. -/
theorem le_dist_of_ge (hx : x ≤ value k) (hb : k ≤ b) :
    |value k - x| ≤ |value b - x| ∧ (|value b - x| = |value k - x| → b = k) := by
  have hle := value_strictMono.monotone hb
  rw [abs_of_nonneg (sub_nonneg.mpr hx), abs_of_nonneg (sub_nonneg.mpr (hx.trans hle))]
  exact ⟨sub_le_sub_right hle x, fun h => value_strictMono.injective (sub_left_injective h)⟩

/-- Of two patterns around a value, the one that is not farther away is the closest of all. -/
theorem Closest.of_between {c d : Nat} (hlow : value k ≤ x) (hhigh : x ≤ value (k + 1))
    (hcd : c = k ∧ d = k + 1 ∨ c = k + 1 ∧ d = k) (hnear : |value c - x| ≤ |value d - x|)
    (htie : |value d - x| = |value c - x| → c % 2 = 0) : Closest x c := by
  -- one of the two stands between the value and any other pattern
  have hstands (b : Nat) : ∃ e, (e = c ∨ e = d) ∧ |value e - x| ≤ |value b - x| ∧
      (|value b - x| = |value e - x| → b = e) := by
    rcases Nat.lt_or_ge k b with hb | hb
    · exact ⟨k + 1, by tauto, le_dist_of_ge hhigh hb⟩
    · exact ⟨k, by tauto, le_dist_of_le hlow hb⟩
  refine ⟨fun b => ?_, fun b hne heq => ?_⟩
  · obtain ⟨e, rfl | rfl, hle, -⟩ := hstands b
    · exact hle
    · exact hnear.trans hle
  · obtain ⟨e, rfl | rfl, hle, heq'⟩ := hstands b
    · exact absurd (heq' heq) hne
    · exact htie (le_antisymm (hle.trans heq.le) hnear)

/-! ## Rounding -/

variable {r : Ratio}

/-- The pattern that rounding to the last place gives, were there no infinity. -/
def rounded (r : Ratio) : Nat :=
  if r.num = 0 then 0
  else pattern (lastPlace r) ((r.scale 2 (-lastPlace r)).round .toEven)

theorem nearest_eq_min (r : Ratio) : nearest r = min infinity (rounded r) := by
  rw [nearest, rounded]
  split
  · rfl
  · rfl

/-- In units of the last place, the whole number below a value fits, and so does the next one. -/
theorem fits_floor (hr : 0 < r.den) (hnum : r.num ≠ 0) :
    Fits (lastPlace r) (r.scale 2 (-lastPlace r)).floor ∧
      (r.scale 2 (-lastPlace r)).floor < Nat.pow 2 53 := by
  have hpos := Ratio.toRat_pos (Nat.pos_of_ne_zero hnum) hr
  have hlog := Ratio.log2_eq_log (Nat.pos_of_ne_zero hnum) hr
  have hden : 0 < (r.scale 2 (-lastPlace r)).den := Ratio.den_scale_pos hr Nat.two_pos
  have hvalue : (r.scale 2 (-lastPlace r)).toRat = r.toRat / (2 : ℚ) ^ lastPlace r := by
    rw [Ratio.toRat_scale _ Nat.two_pos, Nat.cast_ofNat, zpow_neg, div_eq_mul_inv]
  obtain ⟨hfloor, hnext⟩ := Ratio.floor_le_toRat hden
  refine ⟨⟨le_max_left .., ?_⟩, ?_⟩
  · refine (em (lastPlace r = -1074)).imp_right fun hne => ?_
    have hplace : lastPlace r = r.log2 - 52 := by
      rw [lastPlace] at hne ⊢
      omega
    have hreach : ((2 ^ 52 : Nat) : ℚ) ≤ (r.scale 2 (-lastPlace r)).toRat := by
      rw [hvalue, le_div_iff₀ (zpow_pos two_pos _), Nat.cast_pow, Nat.cast_ofNat, ← zpow_natCast,
        ← zpow_add₀ two_ne_zero]
      refine (Int.zpow_le_iff_le_log Nat.one_lt_two hpos).mpr ?_
      rw [← hlog, hplace]
      exact Int.le_of_eq (by omega)
    exact Nat.lt_succ_iff.mp (by exact_mod_cast hreach.trans_lt hnext)
  · have hbound : (r.scale 2 (-lastPlace r)).toRat < ((2 ^ 53 : Nat) : ℚ) := by
      rw [hvalue, div_lt_iff₀ (zpow_pos two_pos _), Nat.cast_pow, Nat.cast_ofNat, ← zpow_natCast,
        ← zpow_add₀ two_ne_zero]
      refine (Int.lt_zpow_iff_log_lt Nat.one_lt_two hpos).mpr ?_
      rw [← hlog, lastPlace]
      omega
    exact_mod_cast hfloor.trans_lt hbound

/-- Units of the last place are rounded to the closest pattern. -/
theorem closest_round {q : Int} {s : Ratio} (hden : 0 < s.den) (hfits : Fits q s.floor)
    (hlt : s.floor < Nat.pow 2 53) :
    Closest (s.toRat * 2 ^ q) (pattern q (s.round .toEven)) := by
  have hunit : (0 : ℚ) < 2 ^ q := zpow_pos two_pos q
  have hnext : Fits q (s.floor + 1) :=
    ⟨hfits.1, hfits.2.imp_right fun h => h.trans (Nat.le_succ _)⟩
  have hlow : value (pattern q s.floor) = s.floor * 2 ^ q := value_pattern hfits hlt.le
  have hhigh : value (pattern q s.floor + 1) = (s.floor + 1) * 2 ^ q := by
    rw [← pattern_succ, value_pattern hnext hlt, Nat.cast_add_one]
  obtain ⟨hfloor, hceil⟩ := Ratio.floor_le_toRat hden
  have hbelow : value (pattern q s.floor) ≤ s.toRat * 2 ^ q := by
    rw [hlow]
    exact mul_le_mul_of_nonneg_right hfloor hunit.le
  have habove : s.toRat * 2 ^ q ≤ value (pattern q s.floor + 1) := by
    rw [hhigh]
    exact mul_le_mul_of_nonneg_right hceil.le hunit.le
  have hdown : |value (pattern q s.floor) - s.toRat * 2 ^ q| = (s.toRat - s.floor) * 2 ^ q := by
    rw [abs_sub_comm, abs_of_nonneg (sub_nonneg.mpr hbelow), hlow, sub_mul]
  have hup : |value (pattern q s.floor + 1) - s.toRat * 2 ^ q| =
      (s.floor + 1 - s.toRat) * 2 ^ q := by
    rw [abs_of_nonneg (sub_nonneg.mpr habove), hhigh, ← sub_mul]
  have heven : pattern q s.floor % 2 = s.floor % 2 := by
    rw [pattern, pow_fractionBits]
    omega
  have hk (hhalf : 2 * (s.toRat - s.floor) ≤ 1)
      (htie : 2 * (s.toRat - s.floor) = 1 → pattern q s.floor % 2 = 0) :
      Closest (s.toRat * 2 ^ q) (pattern q s.floor) := by
    refine .of_between hbelow habove (Or.inl ⟨rfl, rfl⟩) ?_ ?_
    · rw [hdown, hup, mul_le_mul_iff_left₀ hunit]
      linarith
    · rw [hdown, hup, mul_left_inj' hunit.ne']
      exact fun h => htie (by linarith)
  have hk1 (hhalf : 1 ≤ 2 * (s.toRat - s.floor))
      (htie : 2 * (s.toRat - s.floor) = 1 → (pattern q s.floor + 1) % 2 = 0) :
      Closest (s.toRat * 2 ^ q) (pattern q s.floor + 1) := by
    refine .of_between hbelow habove (Or.inr ⟨rfl, rfl⟩) ?_ ?_
    · rw [hdown, hup, mul_le_mul_iff_left₀ hunit]
      linarith
    · rw [hdown, hup, mul_left_inj' hunit.ne']
      exact fun h => htie (by linarith)
  rcases Ratio.round_toEven_cases hden with ⟨hhalf, hround⟩ | ⟨hhalf, hround⟩ | ⟨hhalf, hround⟩
  · rw [hround]
    exact hk hhalf.le fun htie => absurd htie hhalf.ne
  · rw [hround, pattern_succ]
    exact hk1 hhalf.le fun htie => absurd htie hhalf.ne'
  · rcases Nat.mod_two_eq_zero_or_one s.floor with hparity | hparity
    · rw [hround, hparity]
      exact hk hhalf.le fun _ => heven.trans hparity
    · rw [hround, hparity, pattern_succ]
      exact hk1 hhalf.ge fun _ => by omega

/-- The rounded pattern is the closest one. -/
theorem closest_rounded (hr : 0 < r.den) : Closest r.toRat (rounded r) := by
  by_cases hnum : r.num = 0
  · have hzero : r.toRat = value 0 := by
      rw [(Ratio.toRat_eq_zero_iff hr).mpr hnum, value, eq_comm,
        Ratio.toRat_eq_zero_iff (den_toRatio_pos 0), num_toRatio_eq_zero_iff]
    rw [rounded, if_pos hnum, hzero]
    refine ⟨fun b => ?_, fun b _ _ => rfl⟩
    rw [sub_self, abs_zero]
    exact abs_nonneg _
  · obtain ⟨hfits, hlt⟩ := fits_floor hr hnum
    have hvalue : r.toRat = (r.scale 2 (-lastPlace r)).toRat * 2 ^ lastPlace r := by
      rw [Ratio.toRat_scale _ Nat.two_pos, Nat.cast_ofNat, mul_assoc, ← zpow_add₀ two_ne_zero,
        Int.add_left_neg, zpow_zero, mul_one]
    rw [rounded, if_neg hnum, hvalue]
    exact closest_round (Ratio.den_scale_pos hr Nat.two_pos) hfits hlt

/-- A value is rounded to the closest double, and in a tie to the even one. -/
theorem nearest_closest (hr : 0 < r.den) (hfinite : nearest r < infinity) :
    Closest r.toRat (nearest r) := by
  have hrounded : nearest r = rounded r := by
    rw [nearest_eq_min] at hfinite ⊢
    omega
  rw [hrounded]
  exact closest_rounded hr

/-- A value is beyond all doubles if it is at least halfway from the largest one to the next power
of two. -/
theorem nearest_eq_infinity_iff (hr : 0 < r.den) :
    nearest r = infinity ↔ value (infinity - 1) + value infinity ≤ 2 * r.toRat := by
  have hclosest := closest_rounded hr
  have hlast : infinity = infinity - 1 + 1 := rfl
  have hstep : value (infinity - 1) < value infinity := value_strictMono (by decide)
  rw [nearest_eq_min, min_eq_left_iff]
  refine ⟨fun h => ?_, fun h => ?_⟩
  · have hle := hclosest.le (infinity - 1)
    have hvalue := value_strictMono.monotone h
    by_contra hlt
    rw [abs_of_nonneg (by linarith)] at hle
    rcases abs_cases (value (infinity - 1) - r.toRat) with ⟨habs, -⟩ | ⟨habs, -⟩ <;>
      rw [habs] at hle <;> linarith
  · by_contra hlt
    have hbelow : rounded r ≤ infinity - 1 := by omega
    have hvalue := value_strictMono.monotone hbelow
    have hle := hclosest.le infinity
    rw [abs_sub_comm, abs_of_nonneg (by linarith)] at hle
    have hx : r.toRat ≤ value infinity := by
      by_contra hbeyond
      rw [abs_sub_comm, abs_of_nonneg (by linarith)] at hle
      linarith
    rw [abs_of_nonneg (by linarith)] at hle
    -- halfway there is a tie, which the odd pattern of the largest double loses
    have htie : value (infinity - 1) = value (rounded r) := le_antisymm (by linarith) hvalue
    have hpattern := value_strictMono.injective htie
    have hodd := hclosest.even infinity (by omega) (by
      rw [abs_of_nonneg (by linarith), abs_sub_comm, abs_of_nonneg (by linarith)]
      linarith)
    rw [← hpattern] at hodd
    revert hodd
    decide

end Binary64

end SimStats
