import SimStats.Command

/-!
# Command lines

How a command is written as a list of arguments: options that hold for every request, the name of
the request, then its own options and its operands in any order. An option is written `--name`, and
has a letter if it is used often; letters can be written together behind one dash. The value of an
option is the next argument, which may not look like an option itself, or it is attached: to a name
with an equals sign, to a letter with or without one. After `--` everything is an operand.

An option may be given once before the request and once after it, where the later one counts, and
`Arguments.command?` fails on everything that is not written so.
-/

namespace SimStats

namespace Arguments

/-- An option that may be given. -/
structure Switch where
  /-- its name -/
  name : String
  /-- its letter -/
  letter : Option Char
  /-- whether it has a value -/
  valued : Bool
  deriving DecidableEq, Repr

/-- A list of arguments taken apart. -/
structure Parts where
  /-- the names of the options that are given, each with its value, which is empty for an option
  that has none -/
  options : List (String × String)
  /-- the operands in order -/
  operands : List String
  deriving DecidableEq, Repr

namespace Parts

/-- Whether an option is given. -/
def has (p : Parts) (name : String) : Bool := (p.options.lookup name).isSome

/-- Adds an option in front; none may be given twice. -/
def withOption (name value : String) (p : Parts) : Option Parts :=
  if p.has name then none else some { p with options := (name, value) :: p.options }

/-- Adds an operand in front. -/
def withOperand (operand : String) (p : Parts) : Parts :=
  { p with operands := operand :: p.operands }

end Parts

/-- Whether an argument is an option rather than a value. A single dash is a value. -/
def isOption (arg : List Char) : Bool :=
  match arg with
  | '-' :: _ :: _ => true
  | _ => false

/-- What one argument is. -/
inductive Reading where
  /-- an operand -/
  | operand
  /-- the mark after which there are only operands -/
  | rest
  /-- options with their values -/
  | options (given : List (String × String))
  /-- options with their values, and the name of one whose value is the next argument -/
  | pending (given : List (String × String)) (name : String)
  deriving DecidableEq, Repr

/-- Reads the letters behind a single dash. -/
def readLetters? (switches : List Switch) : List Char → Option Reading
  | [] => some (.options [])
  | c :: s =>
    match switches.find? fun sw => sw.letter == some c with
    | none => none
    | some sw =>
      if sw.valued then
        match s with
        | [] => some (.pending [] sw.name)
        | '=' :: value | value => some (.options [(sw.name, String.ofList value)])
      else
        match readLetters? switches s with
        | some (.options given) => some (.options ((sw.name, "") :: given))
        | some (.pending given name) => some (.pending ((sw.name, "") :: given) name)
        | _ => none

/-- Reads what is behind two dashes: a name, and a value after an equals sign. -/
def readName? (switches : List Switch) (s : List Char) : Option Reading :=
  let name := String.ofList (s.takeWhile (· != '='))
  match switches.find? fun sw => sw.name == name with
  | none => none
  | some sw =>
    match s.dropWhile (· != '=') with
    | [] => some (if sw.valued then .pending [] name else .options [(name, "")])
    | _ :: value => if sw.valued then some (.options [(name, String.ofList value)]) else none

/-- Reads one argument. -/
def read? (switches : List Switch) (arg : List Char) : Option Reading :=
  match arg with
  | ['-', '-'] => some .rest
  | '-' :: '-' :: s => readName? switches s
  | '-' :: c :: s => readLetters? switches (c :: s)
  | _ => some .operand

/-- Adds options in front. -/
def withOptions (given : List (String × String)) (p : Parts) : Option Parts :=
  given.foldrM (fun o p => p.withOption o.1 o.2) p

/-- Takes arguments apart, all options wherever they stand. -/
def parts? (switches : List Switch) : List String → Option Parts
  | [] => some ⟨[], []⟩
  | arg :: rest =>
    match read? switches arg.toList with
    | none => none
    | some .operand => (parts? switches rest).map (·.withOperand arg)
    | some .rest => some ⟨[], rest⟩
    | some (.options given) => (parts? switches rest).bind (withOptions given)
    | some (.pending given name) =>
      match rest with
      | [] => none
      | value :: rest =>
        if isOption value.toList then none
        else (parts? switches rest).bind (withOptions (given ++ [(name, value)]))

/-- Takes the options before the first operand apart; returns the operand and what follows it. -/
def leading? (switches : List Switch) : List String → Option (Parts × String × List String)
  | [] => none
  | arg :: rest =>
    match read? switches arg.toList with
    | none => none
    | some .operand => some (⟨[], []⟩, arg, rest)
    | some .rest => none
    | some (.options given) =>
      (leading? switches rest).bind fun r => (withOptions given r.1).map fun p => (p, r.2)
    | some (.pending given name) =>
      match rest with
      | [] => none
      | value :: rest =>
        if isOption value.toList then none
        else
          (leading? switches rest).bind fun r =>
            (withOptions (given ++ [(name, value)]) r.1).map fun p => (p, r.2)

/-! ## Values -/

/-- The largest dump number that can be asked for. -/
def indexLimit : Nat := UInt64.size

/-- A dump number: digits, with or without a plus sign. -/
def index? (s : String) : Option Nat :=
  let digits := match s.toList with
    | '+' :: s => s
    | s => s
  if digits ≠ [] ∧ digits.all Char.isDigit then
    let n := Literal.natOfDigits digits
    if n < indexLimit then some n else none
  else none

/-- A path of a file, which is not empty. -/
def file? (s : String) : Option String := if s = "" then none else some s

/-- The value of an option, if it is given and can be read. -/
def value? {α : Type} (p : Parts) (name : String) (read? : String → Option α) (default : α) :
    Option α :=
  match p.options.lookup name with
  | none => some default
  | some v => read? v

/-! ## Commands -/

/-- The option that takes a file with a format. -/
def formatSwitch : Switch := ⟨"format", none, true⟩

/-- The option that takes a file with the paths of derived numbers. -/
def analysisSwitch : Switch := ⟨"analysis", none, true⟩

/-- The option that asks for a report of progress. -/
def verboseSwitch : Switch := ⟨"verbose", some 'v', false⟩

/-- The option that takes the number of a dump. -/
def dumpSwitch : Switch := ⟨"dump", some 'd', true⟩

/-- The option that asks for JSON. -/
def jsonSwitch : Switch := ⟨"json", none, false⟩

/-- The options that every request has. -/
def sharedSwitches : List Switch := [formatSwitch, analysisSwitch, verboseSwitch]

/-- The options of a request, by its name. -/
def ownSwitches? : String → Option (List Switch)
  | "query" => some [dumpSwitch, jsonSwitch]
  | "flatten" => some [dumpSwitch, jsonSwitch]
  | "dumps" => some []
  | "ipc" => some [dumpSwitch]
  | "mix" => some [dumpSwitch]
  | _ => none

/-- The request with the given name, operands and options. -/
def request? (name : String) (p : Parts) : Option Request :=
  (value? p "dump" index? 1).bind fun index =>
  let json := p.has "json"
  match name, p.operands with
  | "query", [file] => (file? file).map fun file => .query file "" index json
  | "query", [file, path] => (file? file).map fun file => .query file path index json
  | "flatten", [file] => (file? file).map fun file => .flatten file index json
  | "dumps", [file] => (file? file).map fun file => .dumps file
  | "ipc", file :: rest => ((file :: rest).mapM file?).map fun files => .ipc files index
  | "mix", [file] => (file? file).map fun file => .mix file index
  | _, _ => none

/-- The value of a shared option, which counts after the request's name if it is given there. -/
def shared? (before after : Parts) (name : String) : Option (Option String) :=
  match value? before name (fun v => (file? v).map some) none,
      value? after name (fun v => (file? v).map some) none with
  | some a, some b => some (b.or a)
  | _, _ => none

/-- The command that a list of arguments stands for. -/
def command? (args : List String) : Option Command :=
  (leading? sharedSwitches args).bind fun (before, name, rest) =>
  (ownSwitches? name).bind fun own =>
  (parts? (sharedSwitches ++ own) rest).bind fun after =>
  (shared? before after "format").bind fun format =>
  (shared? before after "analysis").bind fun metricPaths =>
  (request? name after).map fun request =>
    { format, metricPaths, verbose := before.has "verbose" || after.has "verbose", request }

end Arguments

end SimStats
