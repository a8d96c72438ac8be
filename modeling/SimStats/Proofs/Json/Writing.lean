import SimStats.Json.Text
import SimStats.Proofs.Json.Grammar

/-!
# Written texts

What the writer makes of strings, arrays and objects are texts of them (`writes_quote`,
`writes_arrayText`, `writes_objectText`). In a string a character is written by itself, by a letter
or by its number, and each of the three is a spelling of that character (`spelling_escape`).
-/

namespace SimStats.Json

/-! ## Strings -/

/-- The part of a string that stands for a character as it is written. -/
def Piece.written (c : Char) : Piece :=
  if shortEscape? c = none ∧ c.toNat < 0x20 then .unit c.toNat else .char c

/-- The number of a control character is read from its last two digits. -/
theorem hexUnit?_digits {n : Nat} (h : n < 0x20) :
    hexUnit? '0' '0' (Nat.digitChar (n / 16)) (Nat.digitChar (n % 16)) = some n := by
  decide +revert

/-- The letter after a backslash names the character that it was written for. -/
theorem named?_of_shortEscape? {c letter : Char} (h : shortEscape? c = some letter) :
    named? letter = some c := by
  unfold shortEscape? at h
  split_ifs at h with hself <;> obtain rfl := Option.some.inj h
  · rcases hself with rfl | rfl <;> decide
  all_goals
    subst c
    decide

/-- The characters that end a string or name others always have a letter. -/
theorem ne_of_shortEscape? {c : Char} (h : shortEscape? c = none) : c ≠ '"' ∧ c ≠ '\\' := by
  grind [shortEscape?]

/-- A character is written in a spelling of it. -/
theorem spelling_escape (c : Char) : (Piece.written c).Spelling (escape c) := by
  rw [escape, Piece.written]
  cases hshort : shortEscape? c with
  | some letter => exact .letter (named?_of_shortEscape? hshort)
  | none =>
    obtain ⟨hquote, hbackslash⟩ := ne_of_shortEscape? hshort
    by_cases hcontrol : c.toNat < 0x20
    · simp only [hcontrol, and_self, if_true]
      exact .number (hexUnit?_digits hcontrol)
    · simp only [hcontrol, and_false, if_false]
      exact .itself hquote hbackslash (Nat.not_lt.mp hcontrol)

theorem spells_escape (s : List Char) : Spells (s.flatMap escape) (s.map Piece.written) := by
  induction s with
  | nil => exact .nil
  | cons c s ih => exact .cons (spelling_escape c) ih

theorem assemble?_unit {n : Nat} (h : n < 0xD800) (done : List Char) (ps : List Piece) :
    assemble? done (.unit n :: ps) = assemble? (Char.ofNat n :: done) ps := by
  have hleading : isLeading n = false := by simp [isLeading]; omega
  have htrailing : isTrailing n = false := by simp [isTrailing]; omega
  rcases ps with _ | ⟨⟨c⟩ | ⟨m⟩, ps⟩ <;> simp [assemble?, hleading, htrailing]

theorem assemble?_written (done s : List Char) :
    assemble? done (s.map Piece.written) = some (done.reverse ++ s) := by
  induction s generalizing done with
  | nil => simp [assemble?]
  | cons c s ih =>
    rw [List.map_cons, Piece.written]
    split
    · next h =>
      rw [assemble?_unit (by omega), ih, Char.ofNat_toNat]
      simp
    · rw [assemble?, ih]
      simp

/-- A quoted text is a string that denotes the text. -/
theorem lexeme_quote (s : String) : Lexeme (quote s).toList (.string (some s)) := by
  have hstring := Lexeme.string (spells_escape s.toList)
  rw [assemble?_written] at hstring
  rw [quote, String.toList_ofList, quoteChars]
  simpa using hstring

/-! ## Texts -/

theorem lexes_mark {c : Char} {t : Token} (h : mark? c = some t) : Lexes (String.ofList [c]) [t] :=
  lexes_of_lexeme (.mark h)

theorem writes_quote (s : String) : Writes (quote s) (.string (some s)) := by
  have hlexes := lexes_of_lexeme (lexeme_quote s)
  rwa [String.ofList_toList] at hlexes

/-- Texts between commas are cut into their tokens between commas. -/
theorem lexes_intercalate {α : Type} {text : α → String} {ts : α → List Token} {a : α} {l : List α}
    (h : ∀ b ∈ a :: l, Lexes (text b) (ts b)) :
    Lexes (String.intercalate "," ((a :: l).map text))
      (ts a ++ l.flatMap fun b => .comma :: ts b) := by
  induction l generalizing a with
  | nil => simpa using h
  | cons b l ih =>
    obtain ⟨ha, hl⟩ := List.forall_mem_cons.mp h
    have hcomma : Lexes "," [.comma] := lexes_mark rfl
    rw [List.map_cons, List.map_cons, String.intercalate_cons_cons, ← List.map_cons]
    simpa using (ha.append hcomma).append (ih hl)

/-- The text of an array is made of texts of its values. -/
theorem writes_arrayText {α : Type} {text : α → String} {value : α → Json} {l : List α}
    (h : ∀ a ∈ l, Writes (text a) (value a)) :
    Writes (arrayText (l.map text)) (array (l.map value)) := by
  have hopen : Lexes "[" [.openArray] := lexes_mark rfl
  have hclose : Lexes "]" [.closeArray] := lexes_mark rfl
  cases l with
  | nil => exact hopen.append hclose
  | cons a l =>
    rw [Writes, arrayText, tokens_array]
    exact (hopen.append (lexes_intercalate h)).append hclose

/-- The text of an object is made of its names and texts of their values. -/
theorem writes_objectText {α : Type} {name text : α → String} {value : α → Json} {l : List α}
    (h : ∀ a ∈ l, Writes (text a) (value a)) :
    Writes (objectText (l.map fun a => (name a, text a)))
      (object (l.map fun a => (some (name a), value a))) := by
  have hopen : Lexes "\x7b" [.openObject] := lexes_mark rfl
  have hclose : Lexes "\x7d" [.closeObject] := lexes_mark rfl
  have hcolon : Lexes ":" [.colon] := lexes_mark rfl
  cases l with
  | nil => exact hopen.append hclose
  | cons a l =>
    have hmember : ∀ b ∈ a :: l, Lexes (quote (name b) ++ ":" ++ text b)
        ([.string (some (name b))] ++ [.colon] ++ (value b).tokens) := by
      intro b hb
      exact (Lexes.append (writes_quote (name b)) hcolon).append (h b hb)
    rw [Writes, objectText, List.map_map, tokens_object fun b => some (name b)]
    exact (hopen.append (lexes_intercalate hmember)).append hclose

end SimStats.Json
