import SimStats.Number.Literal

/-!
# The tokens of a JSON text

`Token.lex?` cuts a JSON text into tokens and fails where no token begins. Numbers and the words
`true`, `false` and `null` are all read as `scalar`: no configuration holds one, so that one stands
there is all that matters. A string is read into the text it denotes, if it denotes one: an escape
can name half of a surrogate pair, and a string with a lone half is well formed but no text.
-/

namespace SimStats.Json

/-- A token of a JSON text. -/
inductive Token where
  /-- the brace that opens an object -/
  | openObject
  /-- the brace that closes an object -/
  | closeObject
  /-- the bracket that opens an array -/
  | openArray
  /-- the bracket that closes an array -/
  | closeArray
  /-- what stands between a name and its value -/
  | colon
  /-- what stands between values or members -/
  | comma
  /-- a number, `true`, `false` or `null` -/
  | scalar
  /-- a string, `none` if it denotes no text -/
  | string (text : Option String)
  deriving DecidableEq, Repr

/-! ## Strings -/

/-- A part of a string: a character, or an escaped unit of sixteen bits. -/
inductive Piece where
  /-- a character that stands for itself or is named by a letter -/
  | char (c : Char)
  /-- a number after `\u` -/
  | unit (n : Nat)
  deriving DecidableEq, Repr

/-- The value of a hexadecimal digit. -/
def hexDigit? (c : Char) : Option Nat :=
  if '0' ≤ c ∧ c ≤ '9' then some (c.toNat - '0'.toNat)
  else if 'a' ≤ c ∧ c ≤ 'f' then some (c.toNat - 'a'.toNat + 10)
  else if 'A' ≤ c ∧ c ≤ 'F' then some (c.toNat - 'A'.toNat + 10)
  else none

/-- The value of four hexadecimal digits. -/
def hexUnit? (a b c d : Char) : Option Nat := do
  let a ← hexDigit? a
  let b ← hexDigit? b
  let c ← hexDigit? c
  let d ← hexDigit? d
  pure (((a * 16 + b) * 16 + c) * 16 + d)

/-- The character that a letter after a backslash names. -/
def named? (letter : Char) : Option Char :=
  if letter = '"' ∨ letter = '\\' ∨ letter = '/' then some letter
  else if letter = 'b' then some '\x08'
  else if letter = 't' then some '\x09'
  else if letter = 'n' then some '\x0A'
  else if letter = 'f' then some '\x0C'
  else if letter = 'r' then some '\x0D'
  else none

/-- Reads the pieces of a string up to the closing quote, adding them to `done` in reverse; returns
them with what follows the quote. -/
def takeString? (done : List Piece) : List Char → Option (List Piece × List Char)
  | [] => none
  | '"' :: s => some (done.reverse, s)
  | '\\' :: 'u' :: a :: b :: c :: d :: s =>
    match hexUnit? a b c d with
    | some n => takeString? (.unit n :: done) s
    | none => none
  | '\\' :: letter :: s =>
    match named? letter with
    | some c => takeString? (.char c :: done) s
    | none => none
  | c :: s => if c = '\\' ∨ c.toNat < 0x20 then none else takeString? (.char c :: done) s

/-- Whether a unit is the first half of a pair. -/
def isLeading (n : Nat) : Bool := 0xD800 ≤ n && n < 0xDC00

/-- Whether a unit is the second half of a pair. -/
def isTrailing (n : Nat) : Bool := 0xDC00 ≤ n && n < 0xE000

/-- Puts pieces together, pairs of units into one character; fails on half a pair. -/
def assemble? (done : List Char) : List Piece → Option (List Char)
  | [] => some done.reverse
  | .char c :: ps => assemble? (c :: done) ps
  | .unit n :: .unit m :: ps =>
    if isLeading n then
      if isTrailing m then
        assemble? (Char.ofNat (0x10000 + (n - 0xD800) * 0x400 + (m - 0xDC00)) :: done) ps
      else none
    else if isTrailing n then none
    else assemble? (Char.ofNat n :: done) (.unit m :: ps)
  | .unit n :: ps =>
    if isLeading n || isTrailing n then none else assemble? (Char.ofNat n :: done) ps

/-! ## Numbers and words -/

/-- What follows one or more digits. -/
def dropDigits? : List Char → Option (List Char)
  | [] => none
  | c :: s => if c.isDigit then some (s.dropWhile Char.isDigit) else none

/-- What follows the whole part of a number, which has no leading zero. -/
def dropWhole? : List Char → Option (List Char)
  | '0' :: s => some s
  | s => dropDigits? s

/-- What follows an optional decimal fraction. -/
def dropFraction? : List Char → Option (List Char)
  | '.' :: s => dropDigits? s
  | s => some s

/-- What follows an optional exponent. -/
def dropExponent? : List Char → Option (List Char)
  | [] => some []
  | c :: s => if c = 'e' ∨ c = 'E' then dropDigits? (Literal.takeSign s).2 else some (c :: s)

/-- What follows a number without a sign. -/
def dropUnsigned? (s : List Char) : Option (List Char) :=
  (dropWhole? s).bind fun s => (dropFraction? s).bind dropExponent?

/-- What follows the word `w`. -/
def dropWord? (w s : List Char) : Option (List Char) :=
  if w.isPrefixOf s then some (s.drop w.length) else none

/-- What follows the number or the word that begins with `c`. -/
def dropScalar? (c : Char) (s : List Char) : Option (List Char) :=
  if c = 't' then dropWord? "rue".toList s
  else if c = 'f' then dropWord? "alse".toList s
  else if c = 'n' then dropWord? "ull".toList s
  else if c = '-' then dropUnsigned? s
  else dropUnsigned? (c :: s)

/-! ## The whole text -/

/-- The characters that may stand between tokens. -/
def isSpace (c : Char) : Bool := c == ' ' || c == '\x09' || c == '\x0A' || c == '\x0D'

/-- The token that is the single character `c`. -/
def mark? (c : Char) : Option Token :=
  if c = '\x7b' then some .openObject
  else if c = '\x7d' then some .closeObject
  else if c = '[' then some .openArray
  else if c = ']' then some .closeArray
  else if c = ':' then some .colon
  else if c = ',' then some .comma
  else none

/-- The token that begins with `c`, and what follows it. -/
def token? (c : Char) (s : List Char) : Option (Token × List Char) :=
  match mark? c with
  | some t => some (t, s)
  | none =>
    if c = '"' then
      (takeString? [] s).map fun r => (.string ((assemble? [] r.1).map String.ofList), r.2)
    else (dropScalar? c s).map fun r => (.scalar, r)

/-! ### Every token takes something -/

theorem takeString?_length {done ps : List Piece} {s r : List Char}
    (h : takeString? done s = some (ps, r)) : r.length < s.length := by
  fun_induction takeString? done s with
  | case1 => cases h
  | case2 =>
    obtain ⟨-, rfl⟩ := Prod.mk.inj (Option.some.inj h)
    exact Nat.lt_succ_self _
  | case3 done a b c d s n hn ih =>
    have := ih h
    simp only [List.length_cons]
    omega
  | case4 => cases h
  | case5 done letter s hlit c hc ih =>
    have := ih h
    simp only [List.length_cons]
    omega
  | case6 => cases h
  | case7 => cases h
  | case8 done c s h1 h2 h3 hc ih =>
    have := ih h
    simp only [List.length_cons]
    omega

theorem dropDigits?_length {s r : List Char} (h : dropDigits? s = some r) :
    r.length < s.length := by
  cases s with
  | nil => cases h
  | cons c s =>
    rw [dropDigits?] at h
    split at h
    · obtain rfl := Option.some.inj h
      exact Nat.lt_succ_of_le (List.dropWhile_suffix _).length_le
    · cases h

theorem dropWhole?_length {s r : List Char} (h : dropWhole? s = some r) : r.length < s.length := by
  unfold dropWhole? at h
  split at h
  · obtain rfl := Option.some.inj h
    exact Nat.lt_succ_self _
  · exact dropDigits?_length h

theorem dropFraction?_length {s r : List Char} (h : dropFraction? s = some r) :
    r.length ≤ s.length := by
  unfold dropFraction? at h
  split at h
  · exact Nat.le_succ_of_le (Nat.le_of_lt (dropDigits?_length h))
  · obtain rfl := Option.some.inj h
    exact Nat.le_refl _

theorem takeSign_length (s : List Char) : (Literal.takeSign s).2.length ≤ s.length := by
  unfold Literal.takeSign
  split <;> simp

theorem dropExponent?_length {s r : List Char} (h : dropExponent? s = some r) :
    r.length ≤ s.length := by
  cases s with
  | nil =>
    obtain rfl := Option.some.inj h
    exact Nat.le_refl _
  | cons c s =>
    rw [dropExponent?] at h
    split at h
    · have h1 := dropDigits?_length h
      have h2 := takeSign_length s
      simp only [List.length_cons]
      omega
    · obtain rfl := Option.some.inj h
      exact Nat.le_refl _

theorem dropUnsigned?_length {s r : List Char} (h : dropUnsigned? s = some r) :
    r.length < s.length := by
  obtain ⟨a, ha, h⟩ := Option.bind_eq_some_iff.mp h
  obtain ⟨b, hb, h⟩ := Option.bind_eq_some_iff.mp h
  have h1 := dropWhole?_length ha
  have h2 := dropFraction?_length hb
  have h3 := dropExponent?_length h
  omega

theorem dropWord?_length {w s r : List Char} (h : dropWord? w s = some r) :
    r.length ≤ s.length := by
  unfold dropWord? at h
  split at h
  · obtain rfl := Option.some.inj h
    simp
  · cases h

theorem dropScalar?_length {c : Char} {s r : List Char} (h : dropScalar? c s = some r) :
    r.length ≤ s.length := by
  unfold dropScalar? at h
  split at h
  · exact dropWord?_length h
  split at h
  · exact dropWord?_length h
  split at h
  · exact dropWord?_length h
  split at h
  · exact Nat.le_of_lt (dropUnsigned?_length h)
  · exact Nat.le_of_lt_succ (dropUnsigned?_length h)

/-- A token takes at least the character it begins with. -/
theorem token?_length {c : Char} {s r : List Char} {t : Token} (h : token? c s = some (t, r)) :
    r.length ≤ s.length := by
  unfold token? at h
  split at h
  · obtain ⟨-, rfl⟩ := Prod.mk.inj (Option.some.inj h)
    exact Nat.le_refl _
  · split at h
    · obtain ⟨p, hp, he⟩ := Option.map_eq_some_iff.mp h
      obtain ⟨-, rfl⟩ := Prod.mk.inj he
      exact Nat.le_of_lt (takeString?_length hp)
    · obtain ⟨p, hp, he⟩ := Option.map_eq_some_iff.mp h
      obtain ⟨-, rfl⟩ := Prod.mk.inj he
      exact dropScalar?_length hp

/-- Cuts a text into tokens and adds them to `done` in reverse. -/
def lexInto? (done : List Token) : List Char → Option (List Token)
  | [] => some done.reverse
  | c :: s =>
    if isSpace c then lexInto? done s
    else
      match _h : token? c s with
      | none => none
      | some (t, r) => lexInto? (t :: done) r
termination_by s => s.length
decreasing_by
  · exact Nat.lt_succ_self _
  · exact Nat.lt_succ_of_le (token?_length ‹_›)

/-- The tokens of a text. -/
def lex? (s : List Char) : Option (List Token) := lexInto? [] s

end SimStats.Json
