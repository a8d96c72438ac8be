import SimStats.Proofs.Number.Grammar

/-!
# What doubles are written with

A number that is written out is digits, or whole digits and a decimal fraction that has as many
places as the exponent asks for (`Decimal.positional_of_nonneg`, `Decimal.exists_positional`). In
both cases the digits are those of the coefficient behind some zeros. So the text of a value has no
blank in it and can stand in a column (`Value.column_text`).
-/

namespace SimStats

namespace Decimal

variable {d : Decimal}

theorem digits_digits (d : Decimal) : Literal.Digits d.digits :=
  ⟨Nat.toDigits_ne_nil, fun _ => Nat.isDigit_of_mem_toDigits (by decide) (by decide)⟩

theorem isDigit_of_mem_zeros {n : Nat} {c : Char} (h : c ∈ List.replicate n '0') :
    c.isDigit = true := by
  obtain rfl := List.eq_of_mem_replicate h
  rfl

/-- A whole number is its digits and zeros. -/
theorem positional_of_nonneg (h : 0 ≤ d.exponent) :
    d.positional = d.digits ++ List.replicate d.exponent.toNat '0' := if_pos h

/-- Any other number is whole digits, a point and the places after it. The whole digits are the
first ones, or else a zero. -/
theorem exists_positional (h : d.exponent < 0) :
    ∃ whole fraction, d.positional = whole ++ '.' :: fraction ∧
      (whole = ['0'] ∨ whole ≠ [] ∧ whole <+: d.digits) ∧
      fraction.length = (-d.exponent).toNat ∧
      whole ++ fraction =
        List.replicate ((-d.exponent).toNat + 1 - d.digits.length) '0' ++ d.digits := by
  let places := (-d.exponent).toNat
  let padded := List.replicate (places + 1 - d.digits.length) '0' ++ d.digits
  have hlength : places + 1 ≤ padded.length := by
    rw [List.length_append, List.length_replicate]
    omega
  refine ⟨padded.take (padded.length - places), padded.drop (padded.length - places),
    if_neg (by omega), ?_, ?_, List.take_append_drop _ _⟩
  · by_cases hfew : d.digits.length ≤ places
    · refine Or.inl ?_
      have hpadded : padded.length - places = 1 := by
        rw [List.length_append, List.length_replicate]
        omega
      have hzeros : places + 1 - d.digits.length = places - d.digits.length + 1 := by omega
      rw [hpadded]
      simp only [padded, hzeros, List.replicate_succ, List.cons_append, List.take_succ_cons,
        List.take_zero]
    · have hzeros : places + 1 - d.digits.length = 0 := by omega
      have hdigits : padded = d.digits := by
        simp only [padded, hzeros, List.replicate_zero, List.nil_append]
      refine Or.inr ⟨?_, ?_⟩
      · intro hnil
        have htake := congrArg List.length hnil
        rw [List.length_take, List.length_nil] at htake
        omega
      · rw [hdigits]
        exact List.take_prefix _ _
  · rw [List.length_drop]
    omega

/-- There is always a digit. -/
theorem positional_ne_nil (d : Decimal) : d.positional ≠ [] := by
  by_cases h : 0 ≤ d.exponent
  · rw [positional_of_nonneg h]
    exact List.append_ne_nil_of_left_ne_nil d.digits_digits.1 _
  · obtain ⟨whole, fraction, htext, -⟩ := exists_positional (Int.not_le.mp h)
    rw [htext]
    exact List.append_ne_nil_of_right_ne_nil _ (List.cons_ne_nil _ _)

theorem mem_positional {c : Char} (h : c ∈ d.positional) : c.isDigit = true ∨ c = '.' := by
  have hpadded (n : Nat) : ∀ c ∈ List.replicate n '0' ++ d.digits, c.isDigit = true :=
    List.forall_mem_append.mpr ⟨fun _ => isDigit_of_mem_zeros, d.digits_digits.2⟩
  by_cases hexponent : 0 ≤ d.exponent
  · rw [positional_of_nonneg hexponent, List.mem_append] at h
    exact Or.inl (h.elim (d.digits_digits.2 c) isDigit_of_mem_zeros)
  · obtain ⟨whole, fraction, htext, -, -, hdigits⟩ := exists_positional (Int.not_le.mp hexponent)
    have hall := hpadded ((-d.exponent).toNat + 1 - d.digits.length)
    rw [← hdigits, List.forall_mem_append] at hall
    rw [htext, List.mem_append, List.mem_cons] at h
    rcases h with h | rfl | h
    · exact Or.inl (hall.1 c h)
    · exact Or.inr rfl
    · exact Or.inl (hall.2 c h)

theorem column_positional (d : Decimal) : Line.Column d.positional := by
  refine ⟨d.positional_ne_nil, fun c hc => ?_⟩
  rcases mem_positional hc with hdigit | rfl
  · exact Text.isBlank_of_isDigit hdigit
  · rfl

end Decimal

namespace Value

/-- What is written plainly, by its digits or by its name, has no blank in it if the digits have
none. -/
theorem column_named {finite : Nat → List Char} (h : ∀ b, Line.Column (finite b)) (x : Float) :
    Line.Column (plain.named finite x).toList := by
  rw [Layout.named]
  split
  · obtain ⟨hne, hblank⟩ := h (Binary64.magnitude x)
    rw [String.toList_ofList]
    refine ⟨List.append_ne_nil_of_right_ne_nil _ hne, ?_⟩
    rw [List.forall_mem_append]
    refine ⟨?_, hblank⟩
    intro c hc
    split at hc
    · obtain rfl := List.mem_singleton.mp hc
      rfl
    · cases hc
  · split
    · split <;> decide
    · decide

theorem column_render (x : Float) : Line.Column (plain.render x).toList := by
  refine column_named (fun b => ?_) x
  have hend : (if 0 ≤ (Decimal.shortest plain.tie b).exponent then plain.wholeEnd else []) = [] :=
    ite_self _
  have hdigits : plain.digits (Decimal.shortest plain.tie b) =
      (Decimal.shortest plain.tie b).positional :=
    (congrArg (_ ++ ·) hend).trans (List.append_nil _)
  rw [hdigits]
  exact Decimal.column_positional _

theorem column_fixed (places : Nat) (x : Float) : Line.Column (plain.fixed places x).toList :=
  column_named (fun _ => Decimal.column_positional _) x

/-- Every value is written without blanks. -/
theorem column_text (v : Value) : Line.Column v.text.toList := by
  cases v with
  | int n => exact text_int_unblank n
  | float x => exact column_render x

end Value

end SimStats
