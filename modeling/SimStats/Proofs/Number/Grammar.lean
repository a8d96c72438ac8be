import SimStats.Proofs.Line.Grammar
import SimStats.Proofs.Value

/-!
# The grammar of number tokens

A number token is an optional sign and either a word or a mantissa with an optional exponent
(`Literal.Form`); the reader accepts these and nothing else (`Literal.read?_ne_none_iff`). The
tokens that are only a sign and digits denote integers (`Literal.Denotes`), and are the ones that it
reads as such (`Literal.read?_eq_integer_iff`).

So a value column is a counter exactly if its token denotes an integer within 64 bits. An integer
beyond them becomes a double, and only a token outside the grammar is refused
(`Value.ofToken?_exact`).
-/

namespace SimStats

namespace Literal

/-! ## The grammar -/

/-- A sign, or none. -/
def Sign (s : List Char) : Prop := s = [] ∨ s = ['+'] ∨ s = ['-']

/-- At least one digit, and nothing else. -/
def Digits (s : List Char) : Prop := s ≠ [] ∧ ∀ c ∈ s, c.isDigit = true

instance : DecidablePred Digits := fun s =>
  decidable_of_iff (s ≠ [] ∧ s.all Char.isDigit = true) (by simp [Digits])

/-- Digits, with a sign or without, that denote the integer. -/
inductive Denotes : List Char → Int → Prop where
  /-- without a sign -/
  | unsigned {ds : List Char} : Digits ds → Denotes ds (natOfDigits ds)
  /-- after a plus -/
  | plus {ds : List Char} : Digits ds → Denotes ('+' :: ds) (natOfDigits ds)
  /-- after a minus -/
  | minus {ds : List Char} : Digits ds → Denotes ('-' :: ds) (-natOfDigits ds)

/-- Digits with at most one point, on one side of which there is a digit. -/
inductive Mantissa : List Char → Prop where
  /-- no point -/
  | whole {ds : List Char} : Digits ds → Mantissa ds
  /-- a point after a digit -/
  | after {ds fraction : List Char} :
    Digits ds → (∀ c ∈ fraction, c.isDigit = true) → Mantissa (ds ++ '.' :: fraction)
  /-- a point before a digit -/
  | before {ds fraction : List Char} :
    (∀ c ∈ ds, c.isDigit = true) → Digits fraction → Mantissa (ds ++ '.' :: fraction)

/-- A mark, a sign or none, and digits; or nothing. -/
inductive Exponent : List Char → Prop where
  /-- no exponent -/
  | none : Exponent []
  /-- an exponent -/
  | marked {mark : Char} {sign ds : List Char} :
    mark = 'e' ∨ mark = 'E' → Sign sign → Digits ds → Exponent (mark :: (sign ++ ds))

/-- The words for infinity and for what is not a number, in lower case. -/
def words : List (List Char) := ["inf".toList, "infinity".toList, "nan".toList]

/-- A number token. -/
inductive Form : List Char → Prop where
  /-- a word, in any mix of cases -/
  | word {sign word : List Char} :
    Sign sign → word.map Char.toLower ∈ words → Form (sign ++ word)
  /-- a number -/
  | number {sign mantissa exponent : List Char} :
    Sign sign → Mantissa mantissa → Exponent exponent → Form (sign ++ (mantissa ++ exponent))

/-! ## Signs -/

/-- What the sign is split off from is the sign and the rest. -/
theorem sign_of_takeSign {s body : List Char} {negative : Bool}
    (h : takeSign s = (negative, body)) : ∃ sign, Sign sign ∧ s = sign ++ body := by
  rw [takeSign.eq_def] at h
  split at h <;> obtain ⟨-, rfl⟩ := Prod.mk.inj h
  · exact ⟨['-'], Or.inr (Or.inr rfl), rfl⟩
  · exact ⟨['+'], Or.inr (Or.inl rfl), rfl⟩
  · exact ⟨[], Or.inl rfl, rfl⟩

/-- A sign is split off from what begins with none. -/
theorem exists_takeSign_append {sign body : List Char} (hsign : Sign sign)
    (hbody : ∀ c ∈ body.head?, c ≠ '-' ∧ c ≠ '+') :
    ∃ negative, takeSign (sign ++ body) = (negative, body) := by
  rcases hsign with rfl | rfl | rfl
  · exact ⟨false, takeSign_of_head? hbody⟩
  · exact ⟨false, rfl⟩
  · exact ⟨true, rfl⟩

theorem Digits.head?_append {ds : List Char} (h : Digits ds) (s : List Char) :
    ∀ c ∈ (ds ++ s).head?, c.isDigit = true := by
  obtain ⟨d, ds, rfl⟩ := List.exists_cons_of_ne_nil h.1
  rintro c ⟨⟩
  exact h.2 d (List.mem_cons_self ..)

/-- Digits after a sign, or without one, denote an integer. -/
theorem denotes_iff {s : List Char} {n : Int} :
    Denotes s n ↔ ∃ negative ds, takeSign s = (negative, ds) ∧ Digits ds ∧
      n = if negative then -(natOfDigits ds : Int) else natOfDigits ds := by
  refine ⟨?_, ?_⟩
  · rintro (hds | hds | hds)
    · exact ⟨false, s, takeSign_of_digits hds.2, hds, rfl⟩
    · exact ⟨false, _, rfl, hds, rfl⟩
    · exact ⟨true, _, rfl, hds, rfl⟩
  · rintro ⟨negative, ds, hsign, hds, rfl⟩
    rw [takeSign.eq_def] at hsign
    split at hsign <;> obtain ⟨rfl, rfl⟩ := Prod.mk.inj hsign
    · exact .minus hds
    · exact .plus hds
    · exact .unsigned hds

instance (s : List Char) (n : Int) : Decidable (Denotes s n) :=
  decidable_of_iff
    (Digits (takeSign s).2 ∧
      n = if (takeSign s).1 then -(natOfDigits (takeSign s).2 : Int)
        else natOfDigits (takeSign s).2) <| by
    rw [denotes_iff]
    refine ⟨fun h => ⟨_, _, rfl, h⟩, ?_⟩
    rintro ⟨negative, ds, hsplit, h⟩
    rwa [hsplit]

/-! ## Exponents -/

theorem readExponent?_ne_none_iff {s : List Char} : readExponent? s ≠ none ↔ Exponent s := by
  refine ⟨fun h => ?_, ?_⟩
  · cases s with
    | nil => exact .none
    | cons mark s =>
      rcases hsign : takeSign s with ⟨negative, ds⟩
      rw [readExponent?, hsign] at h
      dsimp only at h
      split at h
      · next hmark =>
        obtain ⟨sign, hsigned, rfl⟩ := sign_of_takeSign hsign
        exact .marked hmark.1 hsigned ⟨hmark.2.1, List.all_eq_true.mp hmark.2.2⟩
      · exact absurd rfl h
  · rintro (_ | @⟨mark, sign, ds, hmark, hsigned, hds⟩)
    · exact Option.some_ne_none _
    · have hhead : ∀ c ∈ ds.head?, c ≠ '-' ∧ c ≠ '+' := by
        intro c hc
        exact not_sign_of_isDigit (hds.head?_append [] c (by rwa [List.append_nil]))
      obtain ⟨negative, hsign⟩ := exists_takeSign_append hsigned hhead
      rw [readExponent?, hsign]
      dsimp only
      rw [if_pos ⟨hmark, hds.1, List.all_eq_true.mpr hds.2⟩]
      exact Option.some_ne_none _

/-- An exponent begins with neither a digit nor a point. -/
theorem Exponent.head? {s : List Char} (h : Exponent s) :
    ∀ c ∈ s.head?, c.isDigit = false ∧ c ≠ '.' := by
  rcases h with _ | ⟨hmark, -, -⟩
  · rintro c ⟨⟩
  · rintro c ⟨⟩
    rcases hmark with rfl | rfl <;> decide

/-! ## Mantissas -/

/-- After the whole digits stands a point and the digits after it, or neither. -/
theorem of_takeFraction {rest fraction mark : List Char}
    (h : takeFraction rest = (fraction, mark)) :
    rest = '.' :: (fraction ++ mark) ∧ (∀ c ∈ fraction, c.isDigit = true) ∨
      rest = mark ∧ fraction = [] := by
  rw [takeFraction.eq_def] at h
  split at h <;> obtain ⟨rfl, rfl⟩ := Prod.mk.inj h
  · refine Or.inl ⟨?_, fun c hc => List.mem_takeWhile_imp hc⟩
    rw [List.takeWhile_append_dropWhile]
  · exact Or.inr ⟨rfl, rfl⟩

theorem takeFraction_point {fraction mark : List Char}
    (hfraction : ∀ c ∈ fraction, c.isDigit = true) (hmark : ∀ c ∈ mark.head?, c.isDigit = false) :
    takeFraction ('.' :: (fraction ++ mark)) = (fraction, mark) := by
  obtain ⟨htake, hdrop⟩ := Text.span_append hfraction hmark
  rw [takeFraction, htake, hdrop]

theorem takeFraction_of_head? {mark : List Char} (h : ∀ c ∈ mark.head?, c ≠ '.') :
    takeFraction mark = ([], mark) := by
  rw [takeFraction.eq_def]
  split
  · exact absurd rfl (h _ rfl)
  · rfl

/-- What is read of whole digits and of what follows them. -/
theorem readDigits?_append (negative : Bool) {whole rest fraction mark : List Char}
    (hwhole : ∀ c ∈ whole, c.isDigit = true) (hrest : ∀ c ∈ rest.head?, c.isDigit = false)
    (hfraction : takeFraction rest = (fraction, mark)) :
    readDigits? negative (whole ++ rest) =
      if whole = [] ∧ fraction = [] then none
      else if rest = [] then some (.integer negative (natOfDigits whole))
      else (readExponent? mark).map fun e =>
        .decimal negative ⟨natOfDigits (whole ++ fraction), e - fraction.length⟩ := by
  obtain ⟨htake, hdrop⟩ := Text.span_append hwhole hrest
  rw [readDigits?, htake, hdrop, hfraction]

/-- Whole digits and what follows them are there for every text. -/
theorem exists_whole (s : List Char) :
    ∃ whole rest fraction mark, s = whole ++ rest ∧ (∀ c ∈ whole, c.isDigit = true) ∧
      (∀ c ∈ rest.head?, c.isDigit = false) ∧ takeFraction rest = (fraction, mark) := by
  refine ⟨s.takeWhile Char.isDigit, s.dropWhile Char.isDigit, _, _,
    List.takeWhile_append_dropWhile.symm, fun c hc => List.mem_takeWhile_imp hc, ?_, rfl⟩
  intro c hc
  have hhead := List.head?_dropWhile_not Char.isDigit s
  rw [Option.mem_def.mp hc] at hhead
  simpa using hhead

/-- A mantissa with an exponent is whole digits and what follows them, and has a digit. -/
theorem Mantissa.exists_whole {s mark : List Char} (h : Mantissa s) (hmark : Exponent mark) :
    ∃ whole rest fraction, (∀ c ∈ whole, c.isDigit = true) ∧
      (∀ c ∈ rest.head?, c.isDigit = false) ∧ takeFraction rest = (fraction, mark) ∧
      ¬ (whole = [] ∧ fraction = []) ∧ s ++ mark = whole ++ rest := by
  have hpoint : ∀ s : List Char, ∀ c ∈ ('.' :: s).head?, c.isDigit = false := by
    rintro s c ⟨⟩
    rfl
  have hdigit : ∀ c ∈ mark.head?, c.isDigit = false := fun c hc => (hmark.head? c hc).1
  rcases h with hds | @⟨ds, fraction, hds, hfraction⟩ | @⟨ds, fraction, hds, hfraction⟩
  · exact ⟨s, mark, [], hds.2, hdigit, takeFraction_of_head? fun c hc => (hmark.head? c hc).2,
      fun h => hds.1 h.1, rfl⟩
  · exact ⟨ds, '.' :: (fraction ++ mark), fraction, hds.2, hpoint _,
      takeFraction_point hfraction hdigit, fun h => hds.1 h.1, by simp⟩
  · exact ⟨ds, '.' :: (fraction ++ mark), fraction, hds, hpoint _,
      takeFraction_point hfraction.2 hdigit, fun h => hfraction.1 h.2, by simp⟩

theorem readDigits?_ne_none_iff {negative : Bool} {s : List Char} :
    readDigits? negative s ≠ none ↔
      ∃ mantissa exponent, Mantissa mantissa ∧ Exponent exponent ∧ s = mantissa ++ exponent := by
  refine ⟨fun h => ?_, ?_⟩
  · obtain ⟨whole, rest, fraction, mark, rfl, hwhole, hrest, hfraction⟩ := exists_whole s
    rw [readDigits?_append negative hwhole hrest hfraction] at h
    split at h
    · exact absurd rfl h
    · next hsome =>
      have hmark : Exponent mark := by
        split at h
        · next hnil =>
          rw [hnil] at hfraction
          obtain ⟨-, rfl⟩ := Prod.mk.inj hfraction
          exact .none
        · exact readExponent?_ne_none_iff.mp fun hnone => h (by rw [hnone]; rfl)
      rcases of_takeFraction hfraction with ⟨rfl, hdigits⟩ | ⟨rfl, rfl⟩
      · refine ⟨whole ++ '.' :: fraction, mark, ?_, hmark, by simp⟩
        by_cases hnil : whole = []
        · exact .before hwhole ⟨fun h => hsome ⟨hnil, h⟩, hdigits⟩
        · exact .after ⟨hnil, hwhole⟩ hdigits
      · exact ⟨whole, rest, .whole ⟨fun h => hsome ⟨h, rfl⟩, hwhole⟩, hmark, rfl⟩
  · rintro ⟨mantissa, mark, hmantissa, hmark, rfl⟩
    obtain ⟨whole, rest, fraction, hwhole, hrest, hfraction, hne, htext⟩ :=
      hmantissa.exists_whole hmark
    rw [htext, readDigits?_append negative hwhole hrest hfraction, if_neg hne]
    split
    · exact Option.some_ne_none _
    · obtain ⟨e, he⟩ := Option.ne_none_iff_exists'.mp (readExponent?_ne_none_iff.mpr hmark)
      rw [he]
      exact Option.some_ne_none _

theorem readDigits?_eq_integer_iff {negative sign : Bool} {s : List Char} {n : Nat} :
    readDigits? negative s = some (.integer sign n) ↔
      sign = negative ∧ Digits s ∧ n = natOfDigits s := by
  refine ⟨fun h => ?_, ?_⟩
  · obtain ⟨whole, rest, fraction, mark, rfl, hwhole, hrest, hfraction⟩ := exists_whole s
    rw [readDigits?_append negative hwhole hrest hfraction] at h
    split at h
    · cases h
    · next hsome =>
      split at h
      · next hnil =>
        subst hnil
        obtain ⟨rfl, rfl⟩ := Literal.integer.inj (Option.some.inj h)
        obtain ⟨rfl, -⟩ := Prod.mk.inj hfraction
        rw [List.append_nil]
        exact ⟨rfl, ⟨fun h => hsome ⟨h, rfl⟩, hwhole⟩, rfl⟩
      · obtain ⟨e, -, he⟩ := Option.map_eq_some_iff.mp h
        cases he
  · rintro ⟨rfl, hs, rfl⟩
    exact readDigits?_of_digits sign hs.1 hs.2

/-! ## Tokens -/

theorem mem_words_iff {s : List Char} :
    s ∈ words ↔ (s = "inf".toList ∨ s = "infinity".toList) ∨ s = "nan".toList := by
  simp only [words, List.mem_cons, List.not_mem_nil, or_false, or_assoc]

/-- A text is read as the word that its body spells, or else as the number that its body is. -/
theorem read?_of_body {s body : List Char} {negative : Bool}
    (hsign : takeSign s = (negative, body)) :
    (body.map Char.toLower ∈ words ∧
      ∃ l, (l = .infinity negative ∨ l = .nan) ∧ read? s = some l) ∨
    (body.map Char.toLower ∉ words ∧ read? s = readDigits? negative body) := by
  rw [read?, hsign, mem_words_iff]
  dsimp only
  split
  · next hinf => exact Or.inl ⟨Or.inl hinf, _, Or.inl rfl, rfl⟩
  · next hinf =>
    split
    · next hnan => exact Or.inl ⟨Or.inr hnan, _, Or.inr rfl, rfl⟩
    · next hnan => exact Or.inr ⟨fun h => h.elim hinf hnan, rfl⟩

/-- No word begins with a sign. -/
theorem head?_of_word {word : List Char} (h : word.map Char.toLower ∈ words) :
    ∀ c ∈ word.head?, c ≠ '-' ∧ c ≠ '+' := by
  have hwords : ∀ w ∈ words, w.head? ≠ some '-' ∧ w.head? ≠ some '+' := by decide
  obtain ⟨hminus, hplus⟩ := hwords _ h
  rw [List.head?_map] at hminus hplus
  intro c hc
  rw [Option.mem_def.mp hc] at hminus hplus
  refine ⟨?_, ?_⟩ <;> rintro rfl
  · exact hminus rfl
  · exact hplus rfl

/-- No mantissa begins with a sign. -/
theorem Mantissa.head?_append {s : List Char} (h : Mantissa s) (t : List Char) :
    ∀ c ∈ (s ++ t).head?, c ≠ '-' ∧ c ≠ '+' := by
  have hpoint : ∀ ds fraction : List Char, (∀ c ∈ ds, c.isDigit = true) →
      ∀ c ∈ ((ds ++ '.' :: fraction) ++ t).head?, c ≠ '-' ∧ c ≠ '+' := by
    intro ds fraction hds c hc
    cases ds with
    | nil =>
      cases hc
      decide
    | cons d ds =>
      cases hc
      exact not_sign_of_isDigit (hds _ (List.mem_cons_self ..))
  rcases h with hds | ⟨hds, -⟩ | ⟨hds, -⟩
  · exact fun c hc => not_sign_of_isDigit (hds.head?_append t c hc)
  · exact hpoint _ _ hds.2
  · exact hpoint _ _ hds

/-- **The grammar of number tokens.** What the reader accepts has the form of a number token, and
every text of that form is accepted. -/
theorem read?_ne_none_iff {s : List Char} : read? s ≠ none ↔ Form s := by
  refine ⟨fun h => ?_, ?_⟩
  · rcases hsplit : takeSign s with ⟨negative, body⟩
    obtain ⟨sign, hsign, rfl⟩ := sign_of_takeSign hsplit
    rcases read?_of_body hsplit with ⟨hword, -⟩ | ⟨-, hread⟩
    · exact .word hsign hword
    · rw [hread] at h
      obtain ⟨mantissa, mark, hmantissa, hmark, rfl⟩ := readDigits?_ne_none_iff.mp h
      exact .number hsign hmantissa hmark
  · rintro (@⟨sign, word, hsign, hword⟩ | @⟨sign, mantissa, mark, hsign, hmantissa, hmark⟩)
    · obtain ⟨negative, hsplit⟩ := exists_takeSign_append hsign (head?_of_word hword)
      rcases read?_of_body hsplit with ⟨-, l, -, hread⟩ | ⟨hnone, -⟩
      · rw [hread]
        exact Option.some_ne_none l
      · exact absurd hword hnone
    · obtain ⟨negative, hsplit⟩ := exists_takeSign_append hsign (hmantissa.head?_append mark)
      rcases read?_of_body hsplit with ⟨-, l, -, hread⟩ | ⟨-, hread⟩ <;> rw [hread]
      · exact Option.some_ne_none l
      · exact readDigits?_ne_none_iff.mpr ⟨mantissa, mark, hmantissa, hmark, rfl⟩

instance : DecidablePred Form := fun _ => decidable_of_iff _ read?_ne_none_iff

/-- A literal is an integer exactly if its token is a sign, or none, and digits. -/
theorem read?_eq_integer_iff {s : List Char} {negative : Bool} {n : Nat} :
    read? s = some (.integer negative n) ↔
      ∃ ds, takeSign s = (negative, ds) ∧ Digits ds ∧ n = natOfDigits ds := by
  refine ⟨fun h => ?_, ?_⟩
  · rcases hsplit : takeSign s with ⟨sign, body⟩
    rcases read?_of_body hsplit with ⟨-, l, rfl | rfl, hread⟩ | ⟨-, hread⟩ <;> rw [hread] at h
    · cases h
    · cases h
    · obtain ⟨rfl, hdigits, hvalue⟩ := readDigits?_eq_integer_iff.mp h
      exact ⟨body, rfl, hdigits, hvalue⟩
  · rintro ⟨ds, hsign, hds, rfl⟩
    exact read?_of_takeSign hsign hds.1 hds.2

/-- Digits with a sign, or without one, are a number token. -/
theorem Denotes.form {s : List Char} {n : Int} (h : Denotes s n) : Form s := by
  obtain ⟨negative, ds, hsplit, hds, -⟩ := denotes_iff.mp h
  refine read?_ne_none_iff.mp ?_
  rw [read?_of_takeSign hsplit hds.1 hds.2]
  exact Option.some_ne_none _

end Literal

namespace Value

variable {token : String}

theorem ofLiteral_eq_int_iff {l : Literal} {k : Int64} :
    ofLiteral l = .int k ↔
      ∃ negative n, l = .integer negative n ∧ k.toInt = if negative then -(n : Int) else n := by
  refine ⟨fun h => ?_, ?_⟩
  · cases l with
    | integer negative n =>
      rw [ofLiteral] at h
      split at h
      · next hrange =>
        obtain rfl := Value.int.inj h
        exact ⟨negative, n, rfl, int64?_eq_some_iff.mp hrange⟩
      · cases h
    | decimal => cases h
    | infinity => cases h
    | nan => cases h
  · rintro ⟨negative, n, rfl, hn⟩
    rw [ofLiteral, ← hn, int64?_toInt]

/-- A token is a counter exactly if it denotes the counter. -/
theorem ofToken?_eq_int_iff {k : Int64} :
    ofToken? token = some (.int k) ↔ Literal.Denotes token.toList k.toInt := by
  rw [ofToken?, Option.map_eq_some_iff, Literal.denotes_iff]
  refine ⟨?_, ?_⟩
  · rintro ⟨l, hread, hl⟩
    obtain ⟨negative, n, rfl, hn⟩ := ofLiteral_eq_int_iff.mp hl
    obtain ⟨ds, hsign, hds, rfl⟩ := Literal.read?_eq_integer_iff.mp hread
    exact ⟨negative, ds, hsign, hds, hn⟩
  · rintro ⟨negative, ds, hsign, hds, hn⟩
    exact ⟨_, Literal.read?_eq_integer_iff.mpr ⟨ds, hsign, hds, rfl⟩,
      ofLiteral_eq_int_iff.mpr ⟨negative, _, rfl, hn⟩⟩

/-- Digits that denote an integer beyond 64 bits are read as the double of that integer. -/
theorem ofToken?_of_denotes {m : Int} (h : Literal.Denotes token.toList m)
    (hrange : ¬ (-Int.pow 2 63 ≤ m ∧ m ≤ Int.pow 2 63 - 1)) :
    ofToken? token = some (.float (Literal.integer (decide (m < 0)) m.natAbs).toFloat) := by
  obtain ⟨negative, ds, hsplit, hds, hm⟩ := Literal.denotes_iff.mp h
  have hread := Literal.read?_eq_integer_iff.mpr ⟨ds, hsplit, hds, rfl⟩
  have habs : m.natAbs = Literal.natOfDigits ds := by
    split at hm <;> omega
  -- zero is within 64 bits, so the sign that is written is the sign of the integer
  have hne : m ≠ 0 := by
    intro hzero
    exact hrange (by rw [hzero]; decide)
  have hsign : decide (m < 0) = negative := by
    cases negative
    · exact decide_eq_false (by simp at hm; omega)
    · exact decide_eq_true (by simp at hm; omega)
  rw [ofToken?, hread, Option.map_some, ofLiteral, ← hm, int64?_eq_none_iff.mpr hrange, habs, hsign]

/-- A token is refused exactly if it is no number token. -/
theorem ofToken?_eq_none_iff : ofToken? token = none ↔ ¬ Literal.Form token.toList := by
  rw [ofToken?, Option.map_eq_none_iff, ← Literal.read?_ne_none_iff, not_not]

/-- **Integers are exact at every magnitude.** A token is a counter exactly if it is a sign, or
none, and digits that denote an integer within 64 bits, and then it is the counter they denote. If
they denote an integer beyond 64 bits, the token is the double of that integer. A token is refused
exactly if it is in neither grammar, and in a line whose name has no empty segment that is when the
line is refused for it. The text of a counter is the counter again. -/
theorem ofToken?_exact :
    (∀ token : String,
      (∀ m : Int, (∃ k : Int64, k.toInt = m ∧ ofToken? token = some (.int k)) ↔
        Literal.Denotes token.toList m ∧ -Int.pow 2 63 ≤ m ∧ m ≤ Int.pow 2 63 - 1) ∧
      (∀ m : Int, Literal.Denotes token.toList m → ¬ (-Int.pow 2 63 ≤ m ∧ m ≤ Int.pow 2 63 - 1) →
        ofToken? token = some (.float (Literal.integer (decide (m < 0)) m.natAbs).toFloat)) ∧
      (ofToken? token = none ↔
        (¬ ∃ m, Literal.Denotes token.toList m) ∧ ¬ Literal.Form token.toList) ∧
      ∀ (separators : List String) (line : String) (p : Line.Parts), p.Of line →
        "" ∉ Path.split separators (String.ofList p.name) → p.value = token.toList →
        (Line.parse separators line = .error (.malformedValue token) ↔
          (¬ ∃ m, Literal.Denotes token.toList m) ∧ ¬ Literal.Form token.toList)) ∧
    ∀ k : Int64, ofToken? (text (.int k)) = some (.int k) := by
  refine ⟨fun token => ?_, ofToken?_text⟩
  have hnone : ofToken? token = none ↔
      (¬ ∃ m, Literal.Denotes token.toList m) ∧ ¬ Literal.Form token.toList := by
    rw [ofToken?_eq_none_iff]
    exact ⟨fun h => ⟨fun ⟨m, hm⟩ => h hm.form, h⟩, And.right⟩
  refine ⟨fun m => ⟨?_, ?_⟩, fun m => ofToken?_of_denotes, hnone, ?_⟩
  · rintro ⟨k, rfl, hk⟩
    exact ⟨ofToken?_eq_int_iff.mp hk, k.minValue_le_toInt, k.toInt_le⟩
  · rintro ⟨hdenotes, hrange⟩
    obtain ⟨k, hk⟩ := Option.ne_none_iff_exists'.mp
      fun h => int64?_eq_none_iff.mp h hrange
    obtain rfl := int64?_eq_some_iff.mp hk
    exact ⟨k, rfl, ofToken?_eq_int_iff.mpr hdenotes⟩
  · intro separators line p hp hempty hvalue
    have htoken : String.ofList p.value = token := by
      rw [hvalue, String.ofList_toList]
    rw [← hnone]
    rcases h : ofToken? token with _ | v
    · refine iff_of_true ?_ rfl
      rw [Line.parse_of_ofToken?_eq_none hp hempty (by rw [htoken, h]), htoken]
    · obtain ⟨l, hl⟩ := Line.exists_parse_of_ofToken? hp hempty (by rw [htoken, h])
      rw [hl]
      exact iff_of_false nofun (Option.some_ne_none v)

/-- The least counter behind zeros, the first integer above all counters, and a point alone. -/
theorem ofToken?_exact_boundaries :
    ofToken? "-0009223372036854775808" = some (.int Int64.minValue) ∧
      ofToken? "+9223372036854775808" =
        some (.float (Literal.integer false 9223372036854775808).toFloat) ∧
      ofToken? "." = none ∧
      Line.parse standardSeparators "l2.hits . # d" = .error (.malformedValue ".") ∧
      ofToken? (text (.int Int64.minValue)) = some (.int Int64.minValue) := by
  have hleast : Literal.Denotes "-0009223372036854775808".toList (-Int.pow 2 63) := by
    decide +kernel
  have hbeyond : Literal.Denotes "+9223372036854775808".toList (Int.pow 2 63) := by decide +kernel
  have hpoint : ¬ Literal.Form ".".toList := by decide +kernel
  have hneither : (¬ ∃ m, Literal.Denotes ".".toList m) ∧ ¬ Literal.Form ".".toList :=
    ⟨fun ⟨_, h⟩ => hpoint h.form, hpoint⟩
  let p : Line.Parts := ⟨"l2.hits".toList, [' '], ['.'], [' '], [], " d".toList⟩
  have hp : p.Of "l2.hits . # d" := by
    refine ⟨⟨?_, ?_, ?_, ?_, ?_, ?start⟩, ?_⟩
    case start =>
      rintro c ⟨⟩
      rfl
    all_goals decide +kernel
  obtain ⟨htokens, htext⟩ := ofToken?_exact
  obtain ⟨k, hk, hcounter⟩ := ((htokens _).1 (-Int.pow 2 63)).mpr ⟨hleast, by decide, by decide⟩
  obtain rfl : k = Int64.minValue := Int64.toInt_inj.mp hk
  have hdouble := (htokens _).2.1 (Int.pow 2 63) hbeyond (by decide)
  have hsign : decide (Int.pow 2 63 < 0) = false := by decide
  have habs : (Int.pow 2 63).natAbs = 9223372036854775808 := by decide +kernel
  rw [hsign, habs] at hdouble
  obtain ⟨-, -, hrefused, hline⟩ := htokens "."
  exact ⟨hcounter, hdouble, hrefused.mpr hneither,
    (hline _ _ p hp (by decide +kernel) rfl).mpr hneither, htext Int64.minValue⟩

end Value

end SimStats
