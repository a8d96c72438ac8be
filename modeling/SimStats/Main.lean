import SimStats.Arguments

/-!
# The program

Reads the files that a command names, runs the command on what they held, and prints the outcome.
-/

namespace SimStats

/-- The number of a system error. Some calls hand it out negated. -/
def errorNumber (code : UInt32) : Nat := min code.toNat (UInt32.size - code.toNat)

/-- A system error that the library has no word for. -/
def otherFault (code : UInt32) (details : String) : Fault :=
  .other (details ++ " (os error " ++ toString (errorNumber code) ++ ")")

/-- Puts a failure to read into the words of the library. -/
def faultOf : IO.Error → Fault
  | .noFileOrDirectory .. => .missing
  | .inappropriateType _ code _ => if errorNumber code = 21 then .isDirectory else .notDirectory
  | .invalidArgument _ code details =>
    if errorNumber code = 36 then .nameTooLong else otherFault code details
  | .permissionDenied _ code details => otherFault code details
  | e => .other (toString e)

/-- Looks at what is at a path. -/
def look (path : String) : IO (String × Entry) := do
  if '\x00' ∈ path.toList then return (path, .closed .nulInPath)
  try
    return (path, .file (← IO.FS.readBinFile path))
  catch e =>
    match faultOf e with
    | .isDirectory => return (path, .directory)
    | fault => return (path, .closed fault)

end SimStats

/-- Runs the command that the arguments stand for. -/
def main (args : List String) : IO UInt32 := do
  match SimStats.Arguments.command? args with
  | none => return 2
  | some command =>
    let found ← command.reads.mapM SimStats.look
    let outcome := command.run fun path =>
      (found.lookup path).getD (.closed .missing)
    IO.print outcome.output
    IO.eprint outcome.complaint
    return outcome.status.toUInt32
