/-!
# Writing JSON

The texts of strings, arrays and objects without any space between their parts. In a string the
quote, the backslash and the control characters are escaped, five of them by a letter and the rest
by their number; every other character stands for itself.
-/

namespace SimStats.Json

/-- The letter that names a character after a backslash. -/
def shortEscape? (c : Char) : Option Char :=
  if c = '"' ∨ c = '\\' then some c
  else if c = '\x08' then some 'b'
  else if c = '\x09' then some 't'
  else if c = '\x0A' then some 'n'
  else if c = '\x0C' then some 'f'
  else if c = '\x0D' then some 'r'
  else none

/-- A character as it stands between quotes. -/
def escape (c : Char) : List Char :=
  match shortEscape? c with
  | some letter => ['\\', letter]
  | none =>
    if c.toNat < 0x20 then
      ['\\', 'u', '0', '0', Nat.digitChar (c.toNat / 16), Nat.digitChar (c.toNat % 16)]
    else [c]

/-- A text as a JSON string. -/
def quoteChars (s : List Char) : List Char := '"' :: s.flatMap escape ++ ['"']

/-- A text as a JSON string. -/
def quote (s : String) : String := String.ofList (quoteChars s.toList)

/-- The texts of values as an array. -/
def arrayText (values : List String) : String := "[" ++ String.intercalate "," values ++ "]"

/-- Names and the texts of values as an object. -/
def objectText (members : List (String × String)) : String :=
  "\x7b" ++ String.intercalate "," (members.map fun m => quote m.1 ++ ":" ++ m.2) ++ "\x7d"

end SimStats.Json
