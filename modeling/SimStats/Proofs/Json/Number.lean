import SimStats.Json.Number
import SimStats.Proofs.Json.Grammar
import SimStats.Proofs.Number.Bits
import SimStats.Proofs.Number.Layout
import SimStats.Proofs.Number.Nearest

/-!
# JSON numbers read back

A counter is written as in plain text, and reads back as that counter. A finite double is written
with its shortest digits and always with a point or an exponent, so it is never taken for a counter;
and the digits read back as the same double, sign included (`Value.ofToken?_number`). What is no
finite number has no JSON number: its text is the word `null` (`number_of_not_finite`).

The three shapes of a double — a whole number with `.0` behind it, a number with decimal places, one
with an exponent — are one: whole digits, digits after a point and an exponent (`Figure`), of which
one of the last two may be missing.
-/

namespace SimStats

namespace Literal

/-! ## Digits -/

theorem natOfDigits_zeros_append (n : Nat) (s : List Char) :
    natOfDigits (List.replicate n '0' ++ s) = natOfDigits s := by
  rw [natOfDigits, Nat.ofDigitChars_append, Nat.ofDigitChars_replicate_zero, Nat.mul_zero]
  rfl

theorem natOfDigits_append_zeros (n : Nat) (s : List Char) :
    natOfDigits (s ++ List.replicate n '0') = natOfDigits s * 10 ^ n := by
  rw [natOfDigits, Nat.ofDigitChars_append, Nat.ofDigitChars_replicate_zero, Nat.mul_comm]
  rfl

/-- An exponent within the limit is the number that its digits denote. -/
theorem exponentOfDigits_eq {s : List Char} (h : natOfDigits s < exponentLimit) :
    exponentOfDigits s = natOfDigits s := by
  have hfold : ∀ (s : List Char) (n : Nat), Nat.ofDigitChars 10 s n < exponentLimit →
      s.foldl (fun e c => if e < exponentLimit then 10 * e + (c.toNat - '0'.toNat) else e) n =
        Nat.ofDigitChars 10 s n := by
    intro s
    induction s with
    | nil => exact fun n _ => rfl
    | cons c s ih =>
      intro n hlimit
      -- what has been read so far is below what the digits denote
      have hle : n ≤ Nat.ofDigitChars 10 (c :: s) n := by
        rw [Nat.ofDigitChars_eq_ofDigitChars_zero]
        exact (Nat.le_mul_of_pos_left n (Nat.pow_pos (by decide))).trans (Nat.le_add_right ..)
      rw [List.foldl_cons, if_pos (Nat.lt_of_le_of_lt hle hlimit)]
      rw [Nat.ofDigitChars_cons] at hlimit ⊢
      exact ih _ hlimit
  exact hfold s 0 h

end Literal

namespace Json

open Literal (Digits natOfDigits readExponent?)

/-- No digits begin with a zero but those of zero. -/
theorem head?_toDigits {n : Nat} (h : n ≠ 0) : (Nat.toDigits 10 n).head? ≠ some '0' := by
  induction n using Nat.strongRecOn with
  | ind n ih =>
    rw [Nat.toDigits_eq_if (by decide)]
    split
    · next hlt =>
      have hdigit : ∀ n < 10, n ≠ 0 → [Nat.digitChar n].head? ≠ some '0' := by decide
      exact hdigit n hlt h
    · next hge =>
      rw [List.head?_append_of_ne_nil _ Nat.toDigits_ne_nil]
      exact ih _ (by omega) (by omega)

theorem whole_toDigits (n : Nat) : Whole (Nat.toDigits 10 n) := by
  by_cases h : n = 0
  · rw [h]
    exact .zero
  · exact .digits (Decimal.digits_digits ⟨n, 0⟩) (head?_toDigits h)

/-! ## Figures -/

/-- The digits after a point, if there are any. -/
def point (fraction : List Char) : List Char := if fraction = [] then [] else '.' :: fraction

/-- The text is a number with a point or an exponent, and its digits are those of the decimal. -/
inductive Figure : List Char → Decimal → Prop where
  /-- whole digits, a fraction and an exponent -/
  | intro {whole fraction exponent : List Char} {e : Int} :
    Whole whole → (∀ c ∈ fraction, c.isDigit = true) → readExponent? exponent = some e →
      fraction ≠ [] ∨ exponent ≠ [] →
      Figure (whole ++ (point fraction ++ exponent))
        ⟨natOfDigits (whole ++ fraction), e - fraction.length⟩

namespace Figure

variable {s : List Char} {d : Decimal}

theorem fraction_point {fraction : List Char} (h : ∀ c ∈ fraction, c.isDigit = true) :
    Fraction (point fraction) := by
  rw [point]
  split
  · exact .none
  · next hne => exact .point ⟨hne, h⟩

/-- A figure is a JSON number, with a minus in front or without. -/
theorem number (h : Figure s d) : Number s ∧ Number ('-' :: s) := by
  obtain ⟨hwhole, hfraction, hexponent, -⟩ := h
  have hmark := Literal.readExponent?_ne_none_iff.mp (Option.ne_none_iff_exists'.mpr ⟨_, hexponent⟩)
  exact ⟨.unsigned hwhole (fraction_point hfraction) hmark,
    .minus hwhole (fraction_point hfraction) hmark⟩

/-- A figure is read as its decimal, and not as an integer. -/
theorem read?_eq (h : Figure s d) (negative : Bool) :
    Literal.read? ((if negative then ['-'] else []) ++ s) = some (.decimal negative d) := by
  obtain @⟨whole, fraction, exponent, e, hwhole, hfraction, hexponent, hsome⟩ := h
  have hmark := Literal.readExponent?_ne_none_iff.mp (Option.ne_none_iff_exists'.mpr ⟨e, hexponent⟩)
  have htake : Literal.takeFraction (point fraction ++ exponent) = (fraction, exponent) := by
    rw [point]
    split
    · next hnil =>
      rw [hnil]
      exact Literal.takeFraction_of_head? fun c hc => (hmark.head? c hc).2
    · exact Literal.takeFraction_point hfraction fun c hc => (hmark.head? c hc).1
  have hrest : ∀ c ∈ (point fraction ++ exponent).head?, c.isDigit = false := by
    rw [point]
    split
    · exact fun c hc => (hmark.head? c hc).1
    · rintro c ⟨⟩
      rfl
  have hne : point fraction ++ exponent ≠ [] := by
    rw [point]
    split
    · next hnil => exact hsome.resolve_left (not_not_intro hnil)
    · exact List.cons_ne_nil _ _
  obtain ⟨digit, digits, rfl⟩ := List.exists_cons_of_ne_nil hwhole.digits_of.1
  have hdigit : digit.isDigit = true := hwhole.digits_of.2 digit (List.mem_cons_self ..)
  have hsign : Literal.takeSign ((if negative then ['-'] else []) ++
      (digit :: digits ++ (point fraction ++ exponent))) =
        (negative, digit :: digits ++ (point fraction ++ exponent)) := by
    cases negative
    · refine Literal.takeSign_of_head? ?_
      rintro c ⟨⟩
      exact Literal.not_sign_of_isDigit hdigit
    · rfl
  rcases Literal.read?_of_body hsign with ⟨hword, -⟩ | ⟨-, hread⟩
  · have hwords : ∀ w ∈ Literal.words, w.head?.map Char.isDigit ≠ some true := by decide
    refine absurd ?_ (hwords _ hword)
    simp [toLower_of_isDigit hdigit, hdigit]
  · rw [hread, Literal.readDigits?_append negative hwhole.digits_of.2 hrest htake,
      if_neg (fun h => List.cons_ne_nil _ _ h.1), if_neg hne, hexponent]
    rfl

/-- A figure of one exponent part is a figure of the decimal that the digits are. -/
theorem of_eq (whole fraction exponent : List Char) (e : Int) (hwhole : Whole whole)
    (hfraction : ∀ c ∈ fraction, c.isDigit = true) (hexponent : readExponent? exponent = some e)
    (hsome : fraction ≠ [] ∨ exponent ≠ []) (hs : s = whole ++ (point fraction ++ exponent))
    (hcoeff : d.coeff = natOfDigits (whole ++ fraction))
    (hplaces : d.exponent = e - fraction.length) : Figure s d := by
  obtain ⟨coeff, places⟩ := d
  obtain rfl : coeff = _ := hcoeff
  obtain rfl : places = _ := hplaces
  rw [hs]
  exact .intro hwhole hfraction hexponent hsome

end Figure

/-! ## The shapes of a double -/

variable {d : Decimal}

theorem natOfDigits_digits (d : Decimal) : natOfDigits d.digits = d.coeff :=
  Nat.ofDigitChars_ten_toDigits

/-- A whole number that is written out, with a zero after the point. -/
theorem figure_whole (hzero : d.coeff = 0 → d.exponent = 0) (h : 0 ≤ d.exponent) :
    Figure (d.positional ++ ['.', '0']) ⟨d.coeff * 10 ^ (d.exponent.toNat + 1), -1⟩ := by
  have hwhole : Whole (d.digits ++ List.replicate d.exponent.toNat '0') := by
    by_cases hcoeff : d.coeff = 0
    · rw [hzero hcoeff, Int.toNat_zero, List.replicate_zero, List.append_nil]
      exact whole_toDigits d.coeff
    · refine .digits ⟨List.append_ne_nil_of_left_ne_nil d.digits_digits.1 _, ?_⟩ ?_
      · exact List.forall_mem_append.mpr ⟨d.digits_digits.2, fun _ => Decimal.isDigit_of_mem_zeros⟩
      · rw [List.head?_append_of_ne_nil _ d.digits_digits.1]
        exact head?_toDigits hcoeff
  refine .of_eq _ ['0'] [] 0 hwhole (List.forall_mem_singleton.mpr rfl) rfl
    (Or.inl (List.cons_ne_nil _ _)) ?_ ?_ rfl
  · rw [Decimal.positional_of_nonneg h]
    rfl
  · rw [List.append_assoc, ← List.replicate_succ', Literal.natOfDigits_append_zeros,
      natOfDigits_digits]

/-- A number that is written out with decimal places. -/
theorem figure_positional (hcoeff : d.coeff ≠ 0) (h : d.exponent < 0) :
    Figure d.positional d := by
  obtain ⟨whole, fraction, htext, hfirst, hplaces, hdigits⟩ := Decimal.exists_positional h
  have hall : ∀ c ∈ whole ++ fraction, c.isDigit = true := by
    rw [hdigits]
    exact List.forall_mem_append.mpr ⟨fun _ => Decimal.isDigit_of_mem_zeros, d.digits_digits.2⟩
  obtain ⟨hwhole, hfraction⟩ := List.forall_mem_append.mp hall
  have hpoint : fraction ≠ [] := by
    rintro rfl
    rw [List.length_nil] at hplaces
    omega
  refine .of_eq whole fraction [] 0 ?_ hfraction rfl (Or.inl hpoint) ?_ ?_ (by omega)
  · rcases hfirst with rfl | ⟨hne, hprefix⟩
    · exact .zero
    · refine .digits ⟨hne, hwhole⟩ fun hzero => head?_toDigits hcoeff ?_
      obtain ⟨rest, hrest⟩ := hprefix
      rw [← hzero, ← List.head?_append_of_ne_nil _ hne, hrest]
      rfl
  · rw [htext, point, if_neg hpoint, List.append_nil]
  · rw [hdigits, Literal.natOfDigits_zeros_append, natOfDigits_digits]

/-- A signed exponent is read as it was written. -/
theorem readExponent?_signed {e : Int} (h : e.natAbs < Literal.exponentLimit) :
    readExponent? ('e' :: (if e < 0 then '-' else '+') :: Nat.toDigits 10 e.natAbs) = some e := by
  have hvalue : natOfDigits (Nat.toDigits 10 e.natAbs) = e.natAbs := Nat.ofDigitChars_ten_toDigits
  have hdigits := Literal.exponentOfDigits_eq (hvalue.symm ▸ h)
  have hall : (Nat.toDigits 10 e.natAbs).all Char.isDigit = true :=
    List.all_eq_true.mpr (Decimal.digits_digits ⟨e.natAbs, 0⟩).2
  have hsign : Literal.takeSign ((if e < 0 then '-' else '+') :: Nat.toDigits 10 e.natAbs) =
      (decide (e < 0), Nat.toDigits 10 e.natAbs) := by
    by_cases hneg : e < 0 <;> simp [hneg, Literal.takeSign]
  rw [readExponent?, hsign]
  dsimp only
  rw [if_pos ⟨Or.inl rfl, Nat.toDigits_ne_nil, hall⟩, hdigits, hvalue]
  by_cases hneg : e < 0
  · rw [if_pos (decide_eq_true hneg), Int.ofNat_natAbs_of_nonpos hneg.le, Int.neg_neg]
  · rw [if_neg (by simpa using hneg), Int.natAbs_of_nonneg (Int.not_lt.mp hneg)]

/-- A number with one digit before the point and an exponent. -/
theorem figure_scientific (hcoeff : d.coeff ≠ 0) (h : d.leading.natAbs < Literal.exponentLimit) :
    Figure d.scientific d := by
  obtain ⟨digit, digits, hdigits⟩ := List.exists_cons_of_ne_nil d.digits_digits.1
  have hall := d.digits_digits.2
  rw [hdigits, List.forall_mem_cons] at hall
  have hhead : digit ≠ '0' := by
    rintro rfl
    exact head?_toDigits hcoeff (congrArg List.head? hdigits)
  have hlength : (d.digits.length : Int) = digits.length + 1 := by
    rw [hdigits]
    rfl
  refine .of_eq [digit] digits _ _ (.digits ⟨List.cons_ne_nil _ _, ?_⟩ ?_) hall.2
    (readExponent?_signed h) (Or.inr (List.cons_ne_nil _ _)) ?_ ?_ ?_
  · exact List.forall_mem_singleton.mpr hall.1
  · exact fun hzero => hhead (Option.some.inj hzero)
  · rw [Decimal.scientific, hdigits, point]
    cases digits <;> simp
  · rw [List.singleton_append, ← hdigits, natOfDigits_digits]
  · rw [Decimal.leading, hlength]
    omega

/-- A finite double is written with digits that read back as that double. -/
theorem exists_figure {b : Nat} (h : b < Binary64.infinity) :
    ∃ d, Figure (numberLayout.digits (Decimal.shortest numberLayout.tie b)) d ∧ d.nearest = b := by
  by_cases hb : b = 0
  · rw [hb]
    exact ⟨_, figure_whole (d := ⟨0, 0⟩) (fun _ => rfl) (Int.le_refl 0), rfl⟩
  · have hnearest := Decimal.nearest_shortest numberLayout.tie h
    generalize Decimal.shortest numberLayout.tie b = d at hnearest
    subst hnearest
    have hcoeff := Decimal.coeff_ne_zero_of_nearest hb
    rw [Layout.digits]
    split
    · by_cases hexponent : 0 ≤ d.exponent
      · have hplaces : d.exponent - (d.exponent.toNat + 1 : Nat) = -1 := by omega
        have hshift := Decimal.nearest_shift d.coeff (d.exponent.toNat + 1) d.exponent
        rw [hplaces] at hshift
        rw [if_pos hexponent]
        exact ⟨_, figure_whole (fun hzero => absurd hzero hcoeff) hexponent, hshift⟩
      · rw [if_neg hexponent, List.append_nil]
        exact ⟨d, figure_positional hcoeff (Int.not_le.mp hexponent), rfl⟩
    · obtain ⟨hlow, hhigh⟩ := Decimal.leading_of_nearest hb h
      refine ⟨d, figure_scientific hcoeff ?_, rfl⟩
      rw [Literal.exponentLimit]
      omega

end Json

/-! ## Values -/

/-- A counter, or a double that is a number. -/
def Value.Finite : Value → Prop
  | .int _ => True
  | .float x => Binary64.magnitude x < Binary64.infinity

instance : DecidablePred Value.Finite
  | .int _ => isTrue trivial
  | .float x => inferInstanceAs (Decidable (Binary64.magnitude x < Binary64.infinity))

namespace Json

/-- A finite double is written as a figure, after a minus if its sign bit is set. -/
theorem toList_number_float {x : Float} (h : Value.Finite (.float x)) :
    (number (.float x)).toList = (if Binary64.signBit x then ['-'] else []) ++
      numberLayout.digits (Decimal.shortest numberLayout.tie (Binary64.magnitude x)) := by
  rw [number, Layout.render, Layout.named]
  exact (congrArg String.toList (if_pos h)).trans String.toList_ofList

/-- A finite value is written as a JSON number. -/
theorem number_number {v : Value} (h : v.Finite) : Number (number v).toList := by
  cases v with
  | int n =>
    have hwhole := whole_toDigits n.toInt.natAbs
    rw [number, toList_toString_int]
    split
    · simpa using Number.minus hwhole .none .none
    · simpa using Number.unsigned hwhole .none .none
  | float x =>
    obtain ⟨d, hfigure, -⟩ := exists_figure h
    rw [toList_number_float h]
    split
    · exact hfigure.number.2
    · exact hfigure.number.1

/-- What is no finite number is written as a word. -/
theorem number_of_not_finite {v : Value} (h : ¬ v.Finite) : number v = "null" := by
  cases v with
  | int n => exact absurd trivial h
  | float x =>
    rw [number, Layout.render, Layout.named]
    refine (if_neg h).trans ?_
    split
    · split <;> rfl
    · rfl

end Json

/-- A finite value is read from its JSON number, a counter as a counter and a double as a double. -/
theorem Value.ofToken?_number {v : Value} (h : v.Finite) : ofToken? (Json.number v) = some v := by
  cases v with
  | int n => exact ofToken?_text n
  | float x =>
    obtain ⟨d, hfigure, hnearest⟩ := Json.exists_figure h
    have hvalue : ofLiteral (.decimal (Binary64.signBit x) d) =
        .float (Binary64.toFloat (Binary64.signBit x) d.nearest) := rfl
    rw [ofToken?, Json.toList_number_float h, hfigure.read?_eq, Option.map_some, hvalue, hnearest,
      Binary64.toFloat_magnitude]

end SimStats
