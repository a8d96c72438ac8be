/-!
# Columns

Text is lined up by filling with spaces to a width that counts characters. A text that is wider
stays as it is.

A width is any number here. Where one is limited to 65535, as where it is kept in 16 bits, columns
are filled as described as long as none is wider than that.
-/

namespace SimStats.Text

/-- Fills up on the right. -/
def padRight (width : Nat) (s : String) : String :=
  s ++ String.ofList (List.replicate (width - s.length) ' ')

/-- Fills up on the left. -/
def padLeft (width : Nat) (s : String) : String :=
  String.ofList (List.replicate (width - s.length) ' ') ++ s

end SimStats.Text
