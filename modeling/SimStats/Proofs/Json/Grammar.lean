import Mathlib.Tactic.SplitIfs
import SimStats.Proofs.Json.Tokens
import SimStats.Proofs.Number.Grammar

/-!
# The grammar of JSON texts

A JSON text is a row of lexemes with spaces around them (`Cut`): marks, words, numbers (`Number`)
and strings (`Lexeme`). It is a text of a value if its lexemes are the tokens of the value
(`Writes`), however it is spaced and its strings are spelled, and then it is read as that value
(`Writes.parse?_eq`).

The reader takes one lexeme after the other. All but numbers say where they end. A number ends where
no digit, point or mark of an exponent follows, and since scalars stand apart in a value, what
follows a number is a space, a mark or the end of the text.
-/

namespace SimStats.Json

/-! ## Numbers -/

/-- Digits without a needless zero in front. -/
inductive Whole : List Char → Prop where
  /-- zero alone -/
  | zero : Whole ['0']
  /-- digits after another one -/
  | digits {ds : List Char} : Literal.Digits ds → ds.head? ≠ some '0' → Whole ds

/-- A point and digits; or nothing. -/
inductive Fraction : List Char → Prop where
  /-- no fraction -/
  | none : Fraction []
  /-- a fraction -/
  | point {ds : List Char} : Literal.Digits ds → Fraction ('.' :: ds)

/-- A JSON number. -/
inductive Number : List Char → Prop where
  /-- without a sign -/
  | unsigned {whole fraction exponent : List Char} :
    Whole whole → Fraction fraction → Literal.Exponent exponent →
      Number (whole ++ (fraction ++ exponent))
  /-- after a minus -/
  | minus {whole fraction exponent : List Char} :
    Whole whole → Fraction fraction → Literal.Exponent exponent →
      Number ('-' :: (whole ++ (fraction ++ exponent)))

/-- The characters that lengthen a number. -/
def lengthens (c : Char) : Bool := c.isDigit || c == '.' || c == 'e' || c == 'E'

/-- No character at the beginning of the text lengthens a number. -/
def Ends (s : List Char) : Prop := ∀ c ∈ s.head?, lengthens c = false

theorem lengthens_eq_false_iff {c : Char} :
    lengthens c = false ↔ (c.isDigit = false ∧ c ≠ '.') ∧ ¬ (c = 'e' ∨ c = 'E') := by
  simp only [lengthens, Bool.or_eq_false_iff, beq_eq_false_iff_ne, not_or, and_assoc, ne_eq]

theorem dropDigits?_append {ds rest : List Char} (hds : Literal.Digits ds)
    (hrest : ∀ c ∈ rest.head?, c.isDigit = false) : dropDigits? (ds ++ rest) = some rest := by
  obtain ⟨d, ds, rfl⟩ := List.exists_cons_of_ne_nil hds.1
  obtain ⟨hd, htail⟩ := List.forall_mem_cons.mp hds.2
  rw [List.cons_append, dropDigits?, if_pos hd, (Text.span_append htail hrest).2]

theorem dropWhole?_append {whole rest : List Char} (h : Whole whole)
    (hrest : ∀ c ∈ rest.head?, c.isDigit = false) : dropWhole? (whole ++ rest) = some rest := by
  rcases h with _ | ⟨hds, hzero⟩
  · rfl
  · rw [dropWhole?.eq_def]
    split
    · next htext =>
      obtain ⟨d, ds, rfl⟩ := List.exists_cons_of_ne_nil hds.1
      cases htext
      exact absurd rfl hzero
    · exact dropDigits?_append hds hrest

theorem dropFraction?_append {fraction rest : List Char} (h : Fraction fraction)
    (hrest : ∀ c ∈ rest.head?, c.isDigit = false ∧ c ≠ '.') :
    dropFraction? (fraction ++ rest) = some rest := by
  rcases h with _ | hds
  · rw [List.nil_append, dropFraction?.eq_def]
    split
    · exact absurd rfl (hrest _ rfl).2
    · rfl
  · exact dropDigits?_append hds fun c hc => (hrest c hc).1

theorem dropExponent?_append {exponent rest : List Char} (h : Literal.Exponent exponent)
    (hrest : Ends rest) : dropExponent? (exponent ++ rest) = some rest := by
  rcases h with _ | ⟨hmark, hsign, hds⟩
  · cases rest with
    | nil => rfl
    | cons c rest =>
      rw [List.nil_append, dropExponent?, if_neg (lengthens_eq_false_iff.mp (hrest c rfl)).2]
  · obtain ⟨negative, hsplit⟩ := Literal.exists_takeSign_append hsign fun c hc =>
      Literal.not_sign_of_isDigit (hds.head?_append rest c hc)
    rw [List.cons_append, List.append_assoc, dropExponent?, if_pos hmark, hsplit]
    exact dropDigits?_append hds fun c hc => (lengthens_eq_false_iff.mp (hrest c hc)).1.1

/-- A number is taken off the text up to where it ends. -/
theorem dropUnsigned?_append {whole fraction exponent rest : List Char} (hwhole : Whole whole)
    (hfraction : Fraction fraction) (hexponent : Literal.Exponent exponent) (hrest : Ends rest) :
    dropUnsigned? ((whole ++ (fraction ++ exponent)) ++ rest) = some rest := by
  have hmark : ∀ c ∈ (exponent ++ rest).head?, c.isDigit = false ∧ c ≠ '.' := by
    cases exponent with
    | nil => exact fun c hc => (lengthens_eq_false_iff.mp (hrest c hc)).1
    | cons mark exponent => exact fun c hc => hexponent.head? c hc
  have hpoint : ∀ c ∈ (fraction ++ (exponent ++ rest)).head?, c.isDigit = false := by
    rcases hfraction with _ | hds
    · exact fun c hc => (hmark c hc).1
    · rintro c ⟨⟩
      rfl
  rw [List.append_assoc, List.append_assoc, dropUnsigned?, dropWhole?_append hwhole hpoint,
    Option.bind_some, dropFraction?_append hfraction hmark, Option.bind_some,
    dropExponent?_append hexponent hrest]

theorem Whole.digits_of {whole : List Char} (h : Whole whole) : Literal.Digits whole := by
  rcases h with _ | ⟨hds, -⟩
  · decide
  · exact hds

/-! ## Strings -/

/-- How a piece of a string is spelled. -/
inductive Piece.Spelling : List Char → Piece → Prop where
  /-- a character that stands for itself -/
  | itself {c : Char} : c ≠ '"' → c ≠ '\\' → 0x20 ≤ c.toNat → Spelling [c] (.char c)
  /-- a letter that names a character -/
  | letter {l c : Char} : named? l = some c → Spelling ['\\', l] (.char c)
  /-- a number of four hexadecimal digits -/
  | number {a b c d : Char} {n : Nat} :
    hexUnit? a b c d = some n → Spelling ['\\', 'u', a, b, c, d] (.unit n)

/-- The pieces of a string, each in some spelling. -/
inductive Spells : List Char → List Piece → Prop where
  /-- no piece -/
  | nil : Spells [] []
  /-- a piece before others -/
  | cons {s t : List Char} {p : Piece} {ps : List Piece} :
    p.Spelling s → Spells t ps → Spells (s ++ t) (p :: ps)

/-- A piece is read in whatever spelling. -/
theorem takeString?_spelling {s : List Char} {p : Piece} (h : p.Spelling s) (done : List Piece)
    (rest : List Char) : takeString? done (s ++ rest) = takeString? (p :: done) rest := by
  rcases h with ⟨hquote, hbackslash, hcontrol⟩ | hletter | hnumber
  · rw [List.singleton_append, takeString?, if_neg (by simp [hbackslash, Nat.not_lt.mpr hcontrol])]
    · exact hquote
    · intro _ _ _ _ _ hc
      exact absurd hc hbackslash
    · intro _ _ hc
      exact absurd hc hbackslash
  · simp only [List.cons_append, List.nil_append]
    rw [takeString?, hletter]
    · intro _ _ _ _ _ hu
      rw [hu] at hletter
      cases hletter
  · simp [takeString?, hnumber]

theorem takeString?_append {s : List Char} {ps : List Piece} (h : Spells s ps) (done : List Piece)
    (rest : List Char) :
    takeString? done (s ++ '"' :: rest) = some (done.reverse ++ ps, rest) := by
  induction h generalizing done with
  | nil => simp [takeString?]
  | cons hpiece _ ih => rw [List.append_assoc, takeString?_spelling hpiece, ih]; simp

/-! ## Lexemes -/

/-- The words. -/
def words : List (List Char) := ["true".toList, "false".toList, "null".toList]

/-- A text that is one token. -/
inductive Lexeme : List Char → Token → Prop where
  /-- a bracket, a brace, a colon or a comma -/
  | mark {c : Char} {t : Token} : mark? c = some t → Lexeme [c] t
  /-- a word -/
  | word {w : List Char} : w ∈ words → Lexeme w .scalar
  /-- a number -/
  | number {s : List Char} : Number s → Lexeme s .scalar
  /-- a string -/
  | string {s : List Char} {ps : List Piece} :
    Spells s ps → Lexeme ('"' :: (s ++ ['"'])) (.string ((assemble? [] ps).map String.ofList))

theorem of_mark? {c : Char} {t : Token} (h : mark? c = some t) :
    isSpace c = false ∧ lengthens c = false := by
  unfold mark? at h
  split_ifs at h with h1 h2 h3 h4 h5 h6 <;> subst c <;> exact ⟨rfl, rfl⟩

/-- A digit begins no token but a number. -/
theorem token?_of_isDigit {c : Char} (h : c.isDigit = true) (s : List Char) :
    isSpace c = false ∧ token? c s = (dropUnsigned? (c :: s)).map fun r => (.scalar, r) := by
  have hne : ∀ d : Char, d.isDigit = false → c ≠ d := by
    rintro d hd rfl
    exact absurd (h.symm.trans hd) Bool.noConfusion
  have hmark : mark? c = none := by
    rw [mark?, if_neg (hne _ rfl), if_neg (hne _ rfl), if_neg (hne _ rfl), if_neg (hne _ rfl),
      if_neg (hne _ rfl), if_neg (hne _ rfl)]
  refine ⟨?_, ?_⟩
  · simp only [isSpace, Bool.or_eq_false_iff, beq_eq_false_iff_ne]
    exact ⟨⟨⟨hne _ rfl, hne _ rfl⟩, hne _ rfl⟩, hne _ rfl⟩
  · rw [token?, hmark]
    dsimp only
    rw [if_neg (hne _ rfl), dropScalar?, if_neg (hne _ rfl), if_neg (hne _ rfl),
      if_neg (hne _ rfl), if_neg (hne _ rfl)]

/-- A lexeme is taken off the text as its token; a number, if it ends there. -/
theorem token?_append {s rest : List Char} {t : Token} (h : Lexeme s t)
    (hrest : t = .scalar → Ends rest) :
    ∃ c s', s = c :: s' ∧ isSpace c = false ∧ token? c (s' ++ rest) = some (t, rest) := by
  rcases h with @⟨c, _, hmark⟩ | hword | hnumber | hspells
  · refine ⟨c, [], rfl, (of_mark? hmark).1, ?_⟩
    rw [token?, hmark]
    rfl
  · simp only [words, List.mem_cons, List.not_mem_nil, or_false] at hword
    rcases hword with rfl | rfl | rfl <;> exact ⟨_, _, rfl, rfl, rfl⟩
  · rcases hnumber with @⟨_, fraction, exponent, hwhole, hfraction, hexponent⟩ |
      ⟨hwhole, hfraction, hexponent⟩
    · have hdrop := dropUnsigned?_append hwhole hfraction hexponent (hrest rfl)
      obtain ⟨d, ds, rfl⟩ := List.exists_cons_of_ne_nil hwhole.digits_of.1
      obtain ⟨hspace, htoken⟩ := token?_of_isDigit (hwhole.digits_of.2 d (List.mem_cons_self ..)) _
      refine ⟨d, ds ++ (fraction ++ exponent), rfl, hspace, ?_⟩
      rw [List.cons_append, List.cons_append] at hdrop
      rw [htoken, hdrop]
      rfl
    · refine ⟨'-', _, rfl, rfl, ?_⟩
      rw [token?, (rfl : mark? '-' = none)]
      have hminus (s : List Char) : dropScalar? '-' s = dropUnsigned? s := rfl
      rw [if_neg (by decide), hminus, dropUnsigned?_append hwhole hfraction hexponent (hrest rfl)]
      rfl
  · refine ⟨'"', _, rfl, rfl, ?_⟩
    rw [token?, (rfl : mark? '"' = none), List.append_assoc, List.singleton_append]
    rw [if_pos rfl, takeString?_append hspells]
    rfl

/-! ## Cutting a text -/

/-- How a text is cut into lexemes, with spaces around them. -/
inductive Cut : List Char → List (List Char × Token) → Prop where
  /-- spaces only -/
  | nil {gap : List Char} : (∀ c ∈ gap, isSpace c = true) → Cut gap []
  /-- a lexeme before others -/
  | cons {gap s rest : List Char} {t : Token} {ws : List (List Char × Token)} :
    (∀ c ∈ gap, isSpace c = true) → Lexeme s t → Cut rest ws →
      Cut (gap ++ (s ++ rest)) ((s, t) :: ws)

namespace Cut

variable {a b gap : List Char} {us ws : List (List Char × Token)}

/-- Spaces may stand in front. -/
theorem of_gap (hgap : ∀ c ∈ gap, isSpace c = true) (h : Cut a ws) : Cut (gap ++ a) ws := by
  rcases h with hgap' | ⟨hgap', hs, hrest⟩
  · exact .nil (List.forall_mem_append.mpr ⟨hgap, hgap'⟩)
  · rw [← List.append_assoc]
    exact .cons (List.forall_mem_append.mpr ⟨hgap, hgap'⟩) hs hrest

/-- Texts behind each other are cut one by one. -/
theorem append (ha : Cut a us) (hb : Cut b ws) : Cut (a ++ b) (us ++ ws) := by
  induction ha with
  | nil hgap => exact hb.of_gap hgap
  | cons hgap hs _ ih =>
    rw [List.append_assoc, List.append_assoc]
    exact .cons hgap hs ih

theorem of_lexeme {s : List Char} {t : Token} (h : Lexeme s t) : Cut s [(s, t)] := by
  have hnone : ∀ c ∈ ([] : List Char), isSpace c = true := nofun
  have hcut := Cut.cons hnone h (.nil hnone)
  rwa [List.nil_append, List.append_nil] at hcut

end Cut

theorem lengthens_of_isSpace {c : Char} (h : isSpace c = true) : lengthens c = false := by
  simp only [isSpace, Bool.or_eq_true, beq_iff_eq] at h
  rcases h with ((rfl | rfl) | rfl) | rfl <;> rfl

theorem Ends.of_gap {gap s : List Char} (hgap : ∀ c ∈ gap, isSpace c = true) (h : Ends s) :
    Ends (gap ++ s) := by
  cases gap with
  | nil => exact h
  | cons c gap =>
    rintro _ ⟨⟩
    exact lengthens_of_isSpace (hgap c (List.mem_cons_self ..))

/-- Spaces and lexemes other than numbers and words lengthen no number. -/
theorem Cut.ends {s : List Char} {ws : List (List Char × Token)} (h : Cut s ws)
    (hhead : (ws.map Prod.snd).head? ≠ some .scalar) : Ends s := by
  cases h with
  | nil hgap =>
    have hends : Ends (s ++ []) := .of_gap hgap nofun
    rwa [List.append_nil] at hends
  | cons hgap hs _ =>
    refine .of_gap hgap ?_
    cases hs with
    | mark hmark =>
      rintro _ ⟨⟩
      exact (of_mark? hmark).2
    | word => exact absurd rfl hhead
    | number => exact absurd rfl hhead
    | string =>
      rintro _ ⟨⟩
      rfl

/-! ## Reading lexemes -/

theorem lexInto?_cons {c : Char} {s r : List Char} {t : Token} (hspace : isSpace c = false)
    (h : token? c s = some (t, r)) (done : List Token) :
    lexInto? done (c :: s) = lexInto? (t :: done) r := by
  rw [lexInto?, if_neg (by simp [hspace])]
  split
  · next h' => rw [h] at h'; cases h'
  · next h' =>
    rw [h] at h'
    cases h'
    rfl

theorem lexInto?_spaces {gap : List Char} (hgap : ∀ c ∈ gap, isSpace c = true) (done : List Token)
    (rest : List Char) : lexInto? done (gap ++ rest) = lexInto? done rest := by
  induction gap with
  | nil => rfl
  | cons c gap ih =>
    obtain ⟨hc, hgap⟩ := List.forall_mem_cons.mp hgap
    rw [List.cons_append, lexInto?, if_pos hc, ih hgap]

/-- A text is read as the tokens it is cut into, if its scalars stand apart. -/
theorem Cut.lexInto?_eq {s : List Char} {ws : List (List Char × Token)} (h : Cut s ws)
    (hapart : Apart (ws.map Prod.snd)) (done : List Token) :
    lexInto? done s = some (done.reverse ++ ws.map Prod.snd) := by
  induction h generalizing done with
  | nil hgap =>
    have hspaces := lexInto?_spaces hgap done []
    rw [List.append_nil] at hspaces
    rw [hspaces, lexInto?, List.map_nil, List.append_nil]
  | cons hgap hs hrest ih =>
    obtain ⟨htail, hhead⟩ := hapart.of_cons
    obtain ⟨c, s, rfl, hspace, htoken⟩ := token?_append hs fun hscalar =>
      hrest.ends (hhead hscalar)
    rw [lexInto?_spaces hgap, List.cons_append, lexInto?_cons hspace htoken, ih htail]
    simp

/-! ## Texts of values -/

/-- The text is cut into the tokens. -/
def Lexes (text : String) (ts : List Token) : Prop :=
  ∃ ws, Cut text.toList ws ∧ ws.map Prod.snd = ts

theorem Lexes.append {a b : String} {ts us : List Token} (ha : Lexes a ts) (hb : Lexes b us) :
    Lexes (a ++ b) (ts ++ us) := by
  obtain ⟨vs, hvs, rfl⟩ := ha
  obtain ⟨ws, hws, rfl⟩ := hb
  refine ⟨vs ++ ws, ?_, List.map_append⟩
  rw [String.toList_append]
  exact hvs.append hws

theorem lexes_of_lexeme {s : List Char} {t : Token} (h : Lexeme s t) :
    Lexes (String.ofList s) [t] := by
  refine ⟨[(s, t)], ?_, rfl⟩
  rw [String.toList_ofList]
  exact .of_lexeme h

/-- The text is a text of the value. -/
def Writes (text : String) (v : Json) : Prop := Lexes text v.tokens

/-- A text of a value is read as that value. -/
theorem Writes.parse?_eq {text : String} {v : Json} (h : Writes text v) :
    parse? text = some v := by
  obtain ⟨ws, hcut, hws⟩ := h
  have hapart : Apart (v.tokens ++ []) := apart_tokens v List.isChain_nil nofun
  have hrun := run?_tokens [] v []
  rw [List.append_nil] at hapart hrun
  rw [parse?, lex?, hcut.lexInto?_eq (by rwa [hws]), hws, List.reverse_nil, List.nil_append,
    Option.bind_some, hrun]
  rfl

end SimStats.Json
