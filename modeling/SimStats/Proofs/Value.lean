import Mathlib.Data.List.TakeWhile
import SimStats.Text.Blank
import SimStats.Value

/-!
# The text of a counter

A counter is written with a minus sign if it is negative and with its digits
(`toList_toString_int`). The value column that holds this text reads as the counter again
(`Value.ofToken?_text`). Every integer within 64 bits is a counter, and no other one is
(`Value.int64?_eq_none_iff`).
-/

namespace SimStats

/-! ## Digits -/

theorem toLower_of_isDigit {c : Char} (h : c.isDigit = true) : c.toLower = c := by
  refine dif_neg ?_
  rw [Char.isDigit, Bool.and_eq_true, decide_eq_true_eq, decide_eq_true_eq] at h
  rintro ⟨hupper, -⟩
  have hlow := UInt32.le_iff_toNat_le.mp h.2
  have hhigh := UInt32.le_iff_toNat_le.mp hupper
  have hnine : '9'.val.toNat = 57 := rfl
  have hA : 'A'.val.toNat = 65 := rfl
  omega

theorem Text.isBlank_of_isDigit {c : Char} (h : c.isDigit = true) : isBlank c = false := by
  rw [Char.isDigit, Bool.and_eq_true, decide_eq_true_eq, decide_eq_true_eq] at h
  have hlow : 48 ≤ c.toNat := UInt32.le_iff_toNat_le.mp h.1
  have hhigh : c.toNat ≤ 57 := UInt32.le_iff_toNat_le.mp h.2
  simp [isBlank]
  omega

namespace Literal

/-- Digits spell none of the words. -/
theorem word_ne_of_digits {s word : List Char} (h : ∀ c ∈ s, c.isDigit = true)
    (hword : ∃ c ∈ word, c.isDigit = false) : s.map Char.toLower ≠ word := by
  rintro rfl
  obtain ⟨c, hc, hfalse⟩ := hword
  obtain ⟨d, hd, rfl⟩ := List.mem_map.mp hc
  rw [toLower_of_isDigit (h d hd), h d hd] at hfalse
  cases hfalse

theorem readDigits?_of_digits (negative : Bool) {s : List Char} (hne : s ≠ [])
    (h : ∀ c ∈ s, c.isDigit = true) :
    readDigits? negative s = some (.integer negative (natOfDigits s)) := by
  rw [readDigits?, List.takeWhile_eq_self_iff.mpr h, List.dropWhile_eq_nil_iff.mpr h]
  simp [takeFraction, hne]

/-- Digits, after a sign or not, are an integer. -/
theorem read?_of_takeSign {s digits : List Char} {negative : Bool}
    (hsign : takeSign s = (negative, digits)) (hne : digits ≠ [])
    (h : ∀ c ∈ digits, c.isDigit = true) :
    read? s = some (.integer negative (natOfDigits digits)) := by
  have hinf : digits.map Char.toLower ≠ "inf".toList :=
    word_ne_of_digits h ⟨'i', by decide, rfl⟩
  have hinfinity : digits.map Char.toLower ≠ "infinity".toList :=
    word_ne_of_digits h ⟨'i', by decide, rfl⟩
  have hnan : digits.map Char.toLower ≠ "nan".toList :=
    word_ne_of_digits h ⟨'n', by decide, rfl⟩
  simp only [read?, hsign, hinf, hinfinity, hnan, or_self, if_false]
  exact readDigits?_of_digits negative hne h

theorem not_sign_of_isDigit {c : Char} (h : c.isDigit = true) : c ≠ '-' ∧ c ≠ '+' := by
  refine ⟨?_, ?_⟩ <;> rintro rfl <;> cases h

/-- What begins with no sign has none. -/
theorem takeSign_of_head? {s : List Char} (h : ∀ c ∈ s.head?, c ≠ '-' ∧ c ≠ '+') :
    takeSign s = (false, s) := by
  rw [takeSign.eq_def]
  split
  · exact absurd rfl (h _ rfl).1
  · exact absurd rfl (h _ rfl).2
  · rfl

theorem takeSign_of_digits {s : List Char} (h : ∀ c ∈ s, c.isDigit = true) :
    takeSign s = (false, s) :=
  takeSign_of_head? fun c hc => not_sign_of_isDigit (h c (List.mem_of_mem_head? hc))

end Literal

/-! ## The text of an integer -/

theorem toList_toString_int (n : Int) :
    (toString n).toList =
      if n < 0 then '-' :: Nat.toDigits 10 n.natAbs else Nat.toDigits 10 n.natAbs := by
  cases n with
  | ofNat m => exact Nat.toList_repr
  | negSucc m =>
    have htext : toString (Int.negSucc m) = "-" ++ Nat.repr (m + 1) := rfl
    rw [htext, String.toList_append, Nat.toList_repr, if_pos (Int.negSucc_lt_zero m)]
    rfl

/-- The text of an integer reads as its sign and its magnitude. -/
theorem Literal.read?_toString (n : Int) :
    read? (toString n).toList = some (.integer (decide (n < 0)) n.natAbs) := by
  have hdigits : ∀ c ∈ Nat.toDigits 10 n.natAbs, c.isDigit = true := by
    intro c hc
    exact Nat.isDigit_of_mem_toDigits (by decide) (by decide) hc
  have hvalue : natOfDigits (Nat.toDigits 10 n.natAbs) = n.natAbs :=
    Nat.ofDigitChars_ten_toDigits
  have hsign : takeSign (toString n).toList =
      (decide (n < 0), Nat.toDigits 10 n.natAbs) := by
    rw [toList_toString_int]
    split
    · next hneg => simp [takeSign, hneg]
    · next hpos => simp [takeSign_of_digits hdigits, hpos]
  rw [read?_of_takeSign hsign Nat.toDigits_ne_nil hdigits, hvalue]

namespace Value

theorem int64?_toInt (n : Int64) : int64? n.toInt = some n := by
  rw [int64?, if_pos ⟨n.minValue_le_toInt, n.toInt_le⟩, Int64.ofInt_toInt]

/-- An integer is taken for a counter only if it is that counter. -/
theorem int64?_eq_some_iff {n : Int} {k : Int64} : int64? n = some k ↔ k.toInt = n := by
  refine ⟨fun h => ?_, ?_⟩
  · rw [int64?] at h
    split at h
    · next hrange =>
      obtain rfl := Option.some.inj h
      exact Int64.toInt_ofInt_of_le hrange.1 (Int.lt_of_le_of_lt hrange.2 (by decide))
    · cases h
  · rintro rfl
    exact int64?_toInt k

theorem int64?_eq_none_iff {n : Int} :
    int64? n = none ↔ ¬ (-Int.pow 2 63 ≤ n ∧ n ≤ Int.pow 2 63 - 1) := by
  have hmin : Int64.minValue.toInt = -Int.pow 2 63 := rfl
  have hmax : Int64.maxValue.toInt = Int.pow 2 63 - 1 := rfl
  rw [int64?, hmin, hmax]
  split
  · next hrange => exact iff_of_false (Option.some_ne_none _) (not_not_intro hrange)
  · next hrange => exact iff_of_true rfl hrange

/-- The text of a counter reads as the counter. -/
theorem ofToken?_text (n : Int64) : ofToken? (text (.int n)) = some (.int n) := by
  have hsigned : (if decide (n.toInt < 0) = true then -(n.toInt.natAbs : Int)
      else (n.toInt.natAbs : Int)) = n.toInt := by
    split
    · next hneg =>
      have := of_decide_eq_true hneg
      omega
    · next hpos =>
      rw [decide_eq_true_eq] at hpos
      omega
  rw [ofToken?, text, Literal.read?_toString, Option.map_some, ofLiteral, hsigned, int64?_toInt]

/-- The text of a counter can stand in a column. -/
theorem text_int_unblank (n : Int64) :
    (text (.int n)).toList ≠ [] ∧ ∀ c ∈ (text (.int n)).toList, Text.isBlank c = false := by
  have hdigits : ∀ c ∈ Nat.toDigits 10 n.toInt.natAbs, Text.isBlank c = false := by
    intro c hc
    exact Text.isBlank_of_isDigit (Nat.isDigit_of_mem_toDigits (by decide) (by decide) hc)
  rw [text, toList_toString_int]
  split
  · refine ⟨List.cons_ne_nil _ _, ?_⟩
    intro c hc
    rcases List.mem_cons.mp hc with rfl | hc
    · rfl
    · exact hdigits c hc
  · exact ⟨Nat.toDigits_ne_nil, hdigits⟩

end Value

end SimStats
