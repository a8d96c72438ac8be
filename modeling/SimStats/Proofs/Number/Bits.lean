import Mathlib
import SimStats.Number.Binary64

/-!
# Doubles as signs and magnitudes

A double is its sign bit and the pattern below it (`Binary64.toFloat_magnitude`). In the other
direction every sign and every pattern up to infinity make a double that has this sign and this
pattern (`Binary64.signBit_toFloat`, `Binary64.magnitude_toFloat`); beyond infinity there is only
one pattern, that of what is not a number.
-/

namespace SimStats.Binary64

open Float.Model.UnpackedFloat

theorem pow_magnitudeBits : Nat.pow 2 63 = 9223372036854775808 := rfl

/-- A double is its sign and its magnitude. -/
theorem toFloat_magnitude (x : Float) : toFloat (signBit x) (magnitude x) = x := by
  have hlt := x.toBits.toNat_lt
  have hbits : (if signBit x then Nat.pow 2 63 + magnitude x else magnitude x) =
      x.toBits.toNat := by
    rw [signBit, magnitude, pow_magnitudeBits]
    split
    · next hsign =>
      have := of_decide_eq_true hsign
      omega
    · next hsign =>
      rw [decide_eq_true_eq] at hsign
      omega
  rw [toFloat, hbits, UInt64.ofNat_toNat, Float.ofBits_toBits]

/-- The bits of a double that is made of them, unless they are those of what is not a number. -/
theorem toNat_toBits_ofBits {n : Nat} (hlt : n < 2 ^ 64) (hn : n % Nat.pow 2 63 ≤ infinity) :
    (Float.ofBits (UInt64.ofNat n)).toBits.toNat = n := by
  have hbits : (UInt64.ofNat n).toBitVec.toNat = n := Nat.mod_eq_of_lt hlt
  have hnumber : @isNaNBits Float.Model.Format.binary64 (UInt64.ofNat n).toBitVec = false := by
    rw [isNaNBits, decide_eq_false_iff_not]
    rintro ⟨hexponent, hfraction⟩
    -- all ones in the exponent and a fraction that is not clear are above infinity
    have hones : n / 4503599627370496 % 2048 = 2047 := by
      have h := congrArg BitVec.toNat hexponent
      rw [unpackExponent_def, BitVec.extractLsb'_toNat, hbits, Nat.shiftRight_eq_div_pow] at h
      exact h
    have hset : n % 4503599627370496 ≠ 0 := by
      have h := mt BitVec.toNat_inj.mp hfraction
      rw [unpackMantissa_def, BitVec.extractLsb'_toNat, hbits] at h
      exact h
    have hinfinity : infinity = 2047 * 4503599627370496 := rfl
    rw [pow_magnitudeBits, hinfinity] at hn
    omega
  have hpack := @pack_unpack Float.Model.Format.binary64 (UInt64.ofNat n).toBitVec (by decide)
  rw [hnumber] at hpack
  have hof : (Float.ofBits (UInt64.ofNat n)).toBits.toBitVec = (UInt64.ofNat n).toBitVec := hpack
  rw [← UInt64.toNat_toBitVec, hof, hbits]

variable (negative : Bool) {b : Nat}

theorem toNat_toBits_toFloat (hb : b ≤ infinity) :
    (toFloat negative b).toBits.toNat = if negative then Nat.pow 2 63 + b else b := by
  have hinfinity : infinity = 2047 * 4503599627370496 := rfl
  rw [toFloat]
  refine toNat_toBits_ofBits ?_ ?_
  · rw [pow_magnitudeBits]
    split <;> omega
  · rw [pow_magnitudeBits]
    split <;> omega

theorem magnitude_toFloat (hb : b ≤ infinity) : magnitude (toFloat negative b) = b := by
  have hinfinity : infinity = 2047 * 4503599627370496 := rfl
  rw [magnitude, toNat_toBits_toFloat negative hb, pow_magnitudeBits]
  split <;> omega

theorem signBit_toFloat (hb : b ≤ infinity) : signBit (toFloat negative b) = negative := by
  have hinfinity : infinity = 2047 * 4503599627370496 := rfl
  rw [signBit, toNat_toBits_toFloat negative hb, pow_magnitudeBits]
  cases negative with
  | false =>
    rw [if_neg Bool.false_ne_true]
    exact decide_eq_false (by omega)
  | true => exact decide_eq_true (Nat.le_add_right ..)

end SimStats.Binary64
