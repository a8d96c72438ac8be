import Mathlib
import SimStats.Value

/-!
# Doubles that are zero

There are two doubles that are zero, one of each sign, and comparing a double with zero finds these
two; what is not a number is not among them (`Binary64.beq_zero`). A counter is rounded when it is
converted to a double, but rounding does not make a zero of it unless it is one
(`Binary64.isZero_ofInt_iff`), so that a value can be compared with zero before or after
(`Value.isZero_toFloat_iff`).

Doubles are rounded by shifting the digits of a significand out until the rest fits. The significand
of a number that is not below the least positive double is longer than what is shifted out, and what
is left of it has a place among the bits of a double that are clear in a zero.
-/

namespace SimStats

namespace Binary64

open Float.Model Float.Model.UnpackedFloat

/-- The double is zero, with either sign. -/
def IsZero (x : Float) : Prop := x = 0.0 ∨ x = -0.0

instance : DecidablePred IsZero := fun x => inferInstanceAs (Decidable (x = 0.0 ∨ x = -0.0))

/-- Comparing with zero finds the two zeros. -/
theorem beq_zero (x : Float) : (x == 0.0) = decide (IsZero x) := by
  have hzero : (0.0 : Float) = 0 := by decide
  have hpositive : (0 : Float) ≠ Float.nan := by decide
  have hnegative : (-0 : Float) ≠ Float.nan := by decide
  rw [Bool.eq_iff_iff, decide_eq_true_iff, IsZero, hzero, Float.beq_iff_ne_nan_and_eq]
  constructor
  · rintro ⟨-, -, h | ⟨h, -⟩ | ⟨h, -⟩⟩
    · exact Or.inl h
    · exact Or.inl h
    · exact Or.inr h
  · rintro (rfl | rfl)
    · exact ⟨hpositive, hpositive, Or.inl rfl⟩
    · exact ⟨hnegative, hpositive, Or.inr (Or.inr ⟨rfl, rfl⟩)⟩

/-! ## The bits of a zero -/

/-- The bits that the number is packed into are those of no zero. -/
def Nonzero (u : UnpackedFloat) : Prop :=
  ∀ s, u.pack Format.binary64 ≠ packedZero Format.binary64 s

theorem isZero_iff_toBitVec {x : Float} :
    IsZero x ↔ ∃ s, x.toModel.toBits.toBitVec = packedZero Format.binary64 s := by
  have hpositive : (0.0 : Float).toBits.toBitVec = packedZero Format.binary64 .positive := by
    decide
  have hnegative : (-0.0 : Float).toBits.toBitVec = packedZero Format.binary64 .negative := by
    decide
  rw [IsZero, ← Float.toBits_inj, ← Float.toBits_inj, ← UInt64.toBitVec_inj,
    ← UInt64.toBitVec_inj, hpositive, hnegative]
  constructor
  · rintro (h | h)
    · exact ⟨_, h⟩
    · exact ⟨_, h⟩
  · rintro ⟨s, h⟩
    cases s with
    | negative => exact Or.inr h
    | positive => exact Or.inl h

theorem not_isZero_ofModel_iff {u : UnpackedFloat} :
    ¬ IsZero ⟨Float.Model.pack u⟩ ↔ Nonzero u := by
  rw [isZero_iff_toBitVec, not_exists]
  rfl

theorem not_isZero_iff {x : Float} : ¬ IsZero x ↔ Nonzero x.toModel.unpack := by
  rw [isZero_iff_toBitVec, not_exists, Nonzero, Float.Model.unpack,
    pack_unpack_of_valid x.toModel.valid]

/-- The components of a zero are clear. -/
theorem packComponents_ne_packedZero {b : BitVec 11} {f : BitVec 52} (h : b ≠ 0#11 ∨ f ≠ 0#52)
    (s s' : Sign) : packComponents Format.binary64 s b f ≠ packedZero Format.binary64 s' := by
  intro heq
  have hexponent := congrArg unpackExponent heq
  have hfraction := congrArg unpackMantissa heq
  rw [packedZero, unpackExponent_packComponents, unpackExponent_packComponents] at hexponent
  rw [packedZero, unpackMantissa_packComponents, unpackMantissa_packComponents] at hfraction
  exact h.elim (absurd hexponent) (absurd hfraction)

variable {m : Nat} {e : Int}

/-- A significand that fits is packed into a fraction that is not clear, or a leading one goes with
it and is counted in the exponent. -/
theorem nonzero_finite {s : Sign} {h : 0 < m} (hm : m < 2 ^ 53) (he : -1074 ≤ e) :
    Nonzero (.finite s m e h) := by
  intro s'
  have hofNat {n w : Nat} (hpos : 0 < n) (hlt : n < 2 ^ w) : BitVec.ofNat w n ≠ 0#w := by
    intro hzero
    have hn := congrArg BitVec.toNat hzero
    rw [BitVec.toNat_ofNat, Nat.mod_eq_of_lt hlt, BitVec.toNat_zero] at hn
    omega
  have hbias : (Format.binary64.exponentBias : Int) = 1023 := rfl
  rw [UnpackedFloat.pack]
  dsimp only
  rw [hbias]
  split
  · exact packComponents_ne_packedZero (Or.inl (by decide)) s s'
  · split
    · exact packComponents_ne_packedZero (Or.inl (hofNat (by omega) (by omega))) s s'
    · next hsubnormal =>
      have hlog : m.log2 ≠ 52 := fun hlog => hsubnormal (congrArg (· + 1) hlog)
      have hlt := (Nat.log2_lt h.ne').mpr hm
      have hsmall : m < 2 ^ 52 := (Nat.log2_lt h.ne').mp (by omega)
      exact packComponents_ne_packedZero (Or.inr (hofNat h hsmall)) s s'

/-- The significand of a double fits, and its last place is not below that of the least one. -/
theorem bounds_of_unpack {b : BitVec 64} {s : Sign} {h : 0 < m}
    (hb : UnpackedFloat.unpack Format.binary64 b = .finite s m e h) : m < 2 ^ 53 ∧ -1074 ≤ e := by
  have hbias : (Format.binary64.exponentBias : Int) = 1023 := rfl
  have hfraction := (@unpackMantissa Format.binary64 b).isLt
  have hwhole := (1#1 ++ @unpackMantissa Format.binary64 b).isLt
  rw [UnpackedFloat.unpack] at hb
  dsimp only at hb
  rw [hbias] at hb
  split at hb
  · split at hb <;> cases hb
  · split at hb
    · next hclear =>
      split at hb
      · cases hb
      · cases hb
        rw [hclear]
        exact ⟨hfraction.trans (by decide), by decide⟩
    · next hset =>
      have hpos := BitVec.toNat_pos_of_ne_zero hset
      cases hb
      exact ⟨hwhole, by omega⟩

/-! ## Rounding -/

theorem mantissa_shiftRight (em : ExtendedMantissa) (k : Nat) :
    (em >>> k).mantissa = em.mantissa / 2 ^ k := by
  induction k with
  | zero => exact (Nat.div_one _).symm
  | succ k ih =>
    have hstep : (em >>> (k + 1)).mantissa = (em >>> k).mantissa / 2 := rfl
    rw [hstep, ih, Nat.div_div_eq_div_mul, Nat.pow_succ]

theorem le_roundedMantissa (em : ExtendedMantissa) : em.mantissa ≤ em.roundedMantissa := by
  obtain ⟨m, roundBit, stickyBit⟩ := em
  cases roundBit <;> cases stickyBit <;>
    simp [ExtendedMantissa.roundedMantissa, ExtendedMantissa.accuracy, Accuracy.roundToNearestEven]

theorem targetExponent_eq (m : Nat) (e : Int) :
    Format.binary64.targetExponent (totalExponent m e) = max (m.log2 + e - 52) (-1074) := by
  have hleast : Format.binary64.minExponent = -1074 := by decide
  have hbits : (Format.binary64.mantissaBits : Int) = 53 := rfl
  rw [Format.targetExponent, totalExponent, hleast, hbits]
  congr 1
  omega

/-- The significand of a number from the least positive double on is shifted until it fits, and then
something is left of it. -/
theorem bounds_of_shift {k : Nat} (hm : 2 ^ k ≤ m) (he : -1074 ≤ k + e) :
    let r := shiftToTargetExponent Format.binary64 m e .exact
    0 < r.1.mantissa ∧ r.1.mantissa < 2 ^ 53 ∧ -1074 ≤ r.2 := by
  have hne : m ≠ 0 := ((Nat.two_pow_pos k).trans_le hm).ne'
  have hlog := (Nat.le_log2 hne).mpr hm
  dsimp only [shiftToTargetExponent, shiftToExponent]
  rw [mantissa_shiftRight, targetExponent_eq]
  generalize hn : (max (m.log2 + e - 52) (-1074) - e).toNat = n
  have hle : 2 ^ n ≤ m :=
    (Nat.pow_le_pow_right Nat.two_pos (by omega)).trans (Nat.log2_self_le hne)
  have hlt : m < 2 ^ 53 * 2 ^ n := by
    rw [← Nat.pow_add]
    exact Nat.lt_log2_self.trans_le (Nat.pow_le_pow_right Nat.two_pos (by omega))
  refine ⟨Nat.div_pos hle (Nat.two_pow_pos n), ?_, by omega⟩
  exact (Nat.div_lt_iff_lt_mul (Nat.two_pow_pos n)).mpr hlt

/-- A number from the least positive double on is not rounded to zero. -/
theorem nonzero_roundWithAccuracy (s : Sign) {k : Nat} (hm : 2 ^ k ≤ m) (he : -1074 ≤ k + e) :
    Nonzero (roundWithAccuracy Format.binary64 s m e .exact) := by
  obtain ⟨hpos, -, hlow⟩ := bounds_of_shift hm he
  rw [roundWithAccuracy]
  generalize shiftToTargetExponent Format.binary64 m e .exact = first at hpos hlow
  -- rounding can carry into one more digit, for which the significand is shifted again
  have hrounded : 0 < first.1.roundedMantissa := hpos.trans_le (le_roundedMantissa _)
  obtain ⟨hpos', hlt', hlow'⟩ := bounds_of_shift (k := 0) (e := first.2) hrounded (by omega)
  dsimp only
  rw [dif_neg hpos'.ne']
  exact nonzero_finite hlt' hlow'

theorem nonzero_round {n : Nat} (hn : 0 < n) (s : Sign) :
    Nonzero (UnpackedFloat.round Format.binary64 s n 0) := by
  dsimp only [UnpackedFloat.round, decreaseExponent]
  rw [targetExponent_eq]
  refine nonzero_roundWithAccuracy s (k := 0) ?_ (by omega)
  rw [Nat.shiftLeft_eq]
  exact Nat.mul_pos hn (Nat.two_pow_pos _)

theorem nonzero_mul {s s' : Sign} {m' : Nat} {e' : Int} {h : 0 < m} {h' : 0 < m'} {k : Nat}
    (hm : 2 ^ k ≤ m * m') (he : -1074 ≤ k + (e + e')) :
    Nonzero (UnpackedFloat.mul Format.binary64 (.finite s m e h) (.finite s' m' e' h')) :=
  nonzero_roundWithAccuracy (s * s') hm he

/-! ## Counters -/

/-- One, as the power of ten by which a whole number is scaled. -/
def one : Float := Float.ofBits 0x3FF0000000000000

theorem not_isZero_mul_one {x : Float} (hx : ¬ IsZero x) : ¬ IsZero (x * one) := by
  have hmul : x * one = ⟨.pack (.mul Format.binary64 x.toModel.unpack
      (.finite .positive (2 ^ 52) (-52) (by decide)))⟩ := rfl
  rw [not_isZero_iff] at hx
  rw [hmul, not_isZero_ofModel_iff]
  cases hunpack : x.toModel.unpack with
  | notANumber =>
    rw [hunpack] at hx
    exact hx
  | infinity s =>
    rw [hunpack] at hx
    cases s <;> exact hx
  | zero s =>
    rw [hunpack] at hx
    exact absurd rfl (hx s)
  | finite s m e h =>
    obtain ⟨-, hlow⟩ := bounds_of_unpack hunpack
    exact nonzero_mul (Nat.le_mul_of_pos_left (2 ^ 52) h) (by omega)

theorem not_isZero_neg {x : Float} (hx : ¬ IsZero x) : ¬ IsZero (-x) := by
  have hneg : -x = ⟨.pack x.toModel.unpack.neg⟩ := rfl
  rw [not_isZero_iff] at hx
  rw [hneg, not_isZero_ofModel_iff]
  cases hunpack : x.toModel.unpack with
  | notANumber =>
    rw [hunpack] at hx
    exact hx
  | infinity s => cases s <;> intro s' <;> cases s' <;> decide
  | zero s =>
    rw [hunpack] at hx
    exact absurd rfl (hx s)
  | finite s m e h =>
    obtain ⟨hlt, hlow⟩ := bounds_of_unpack hunpack
    exact nonzero_finite hlt hlow

theorem not_isZero_toFloat {n : UInt64} (hn : 0 < n.toNat) : ¬ IsZero n.toFloat := by
  have hfloat : n.toFloat = ⟨.pack (.ofUInt64 Format.binary64 n)⟩ := rfl
  have hround : UnpackedFloat.ofUInt64 Format.binary64 n =
      UnpackedFloat.round Format.binary64 .positive n.toNat 0 := by
    have hcompare : compare (n.toNat : Int) 0 = .gt := Int.compare_eq_gt.mpr (by omega)
    rw [UnpackedFloat.ofUInt64, UnpackedFloat.ofNat, UnpackedFloat.ofInt, UnpackedFloat.normalize,
      hcompare]
    rfl
  rw [hfloat, not_isZero_ofModel_iff, hround]
  exact nonzero_round hn _

theorem nonzero_ofScientific {n : Nat} (hn : 0 < n) :
    Nonzero (UnpackedFloat.ofScientific Format.binary64 n 0) := by
  have hlimit : (0 : Int) ≤ 2 ^ Format.binary64.exponentBits := by decide
  rw [UnpackedFloat.ofScientific, dif_neg hn.ne', if_neg (by omega), if_neg (by omega),
    if_pos (Int.le_refl 0)]
  refine nonzero_mul (k := 0) ?_ (by decide)
  rw [Nat.shiftLeft_eq]
  exact Nat.mul_pos (Nat.mul_pos hn (Nat.two_pow_pos _)) Nat.one_pos

/-- Small numbers are converted as words, and large ones digit by digit. -/
theorem not_isZero_ofNat {n : Nat} (hn : 0 < n) : ¬ IsZero (Float.ofNat n) := by
  have hof : Float.ofNat n = Float.ofScientific n false 0 := rfl
  rw [hof, Float.ofScientific]
  split
  · next h =>
    have hword : n.toUInt64.toNat = n := Nat.mod_eq_of_lt (h.1.trans (by decide))
    exact not_isZero_mul_one (not_isZero_toFloat (hword.symm ▸ hn))
  · exact not_isZero_ofModel_iff.mpr (nonzero_ofScientific hn)

/-- An integer is rounded to zero only if it is zero. -/
theorem isZero_ofInt_iff {n : Int} : IsZero (Float.ofInt n) ↔ n = 0 := by
  constructor
  · contrapose
    intro hn
    cases n with
    | ofNat n => exact not_isZero_ofNat (Nat.pos_of_ne_zero fun h => hn (congrArg _ h))
    | negSucc n => exact not_isZero_neg (not_isZero_ofNat n.succ_pos)
  · rintro rfl
    decide

end Binary64

/-! ## Values -/

namespace Value

/-- The counter is zero, or the double is. -/
def IsZero : Value → Prop
  | .int n => n = 0
  | .float x => Binary64.IsZero x

/-- Converting a value to a double neither makes a zero of it nor takes one away. -/
theorem isZero_toFloat_iff {v : Value} : Binary64.IsZero v.toFloat ↔ v.IsZero := by
  cases v with
  | int n =>
    have hzero : (0 : Int64).toInt = 0 := rfl
    rw [toFloat, Binary64.isZero_ofInt_iff, ← hzero, Int64.toInt_inj]
    rfl
  | float x => rfl

end Value

end SimStats
