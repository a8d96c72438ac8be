/-!
# Why a content line is refused
-/

namespace SimStats

/-- Why one content line cannot become a statistic of the tree. -/
inductive LineError where
  /-- there is no name, value and description after a `#` -/
  | malformedLine
  /-- the value column is no number -/
  | malformedValue (token : String)
  /-- a segment of the name is empty -/
  | emptySegment (name : String)
  /-- the name is taken, or a category of it is a statistic -/
  | conflictingKey (key : String)
  deriving DecidableEq, Repr

/-- The error as a sentence. -/
def LineError.message : LineError → String
  | .malformedLine => "expected '<name> <value> ... # <description>'"
  | .malformedValue token =>
    "value '" ++ token ++ "' is neither an integer nor a floating-point number"
  | .emptySegment name => "statistic name '" ++ name ++ "' has an empty final segment"
  | .conflictingKey key => "conflicting definitions for '" ++ key ++ "'"

end SimStats
