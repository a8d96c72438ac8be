import SimStats.Json.Token

/-!
# JSON values

`Json` is a JSON text as far as a configuration needs to know it: what is in which array and under
which name. `Json.parse?` reads one from a text. It keeps the arrays and objects that are still open
in a list of frames, so values may be nested to any depth.

A configuration is a record with named fields. `Json.record?` takes its fields out of a JSON value,
which may be an object, with any other members besides, or an array with the fields in order.
-/

namespace SimStats

/-- A JSON value. -/
inductive Json where
  /-- a number, `true`, `false` or `null` -/
  | scalar
  /-- a string, `none` if it denotes no text -/
  | string (text : Option String)
  /-- an array -/
  | array (values : List Json)
  /-- an object, its members as they are written -/
  | object (members : List (Option String × Json))

namespace Json

/-! ## Reading a text -/

/-- An array or object that is still open, with what is already in it, last first. -/
inductive Frame where
  /-- an array -/
  | array (values : List Json)
  /-- an object, and the name whose value comes next -/
  | object (members : List (Option String × Json)) (name : Option String)

/-- Reads tokens inside the given frames, innermost first. `ready` is the value that has just been
read, if one has. -/
def run? : List Frame → Option Json → List Token → Option Json
  | [], some v, [] => some v
  | frames, none, .scalar :: ts => run? frames (some .scalar) ts
  | frames, none, .string s :: ts => run? frames (some (.string s)) ts
  | frames, none, .openArray :: .closeArray :: ts => run? frames (some (.array [])) ts
  | frames, none, .openArray :: ts => run? (.array [] :: frames) none ts
  | frames, none, .openObject :: .closeObject :: ts => run? frames (some (.object [])) ts
  | frames, none, .openObject :: .string name :: .colon :: ts =>
    run? (.object [] name :: frames) none ts
  | .array vs :: frames, some v, .closeArray :: ts =>
    run? frames (some (.array (v :: vs).reverse)) ts
  | .array vs :: frames, some v, .comma :: ts => run? (.array (v :: vs) :: frames) none ts
  | .object ms name :: frames, some v, .closeObject :: ts =>
    run? frames (some (.object ((name, v) :: ms).reverse)) ts
  | .object ms name :: frames, some v, .comma :: .string next :: .colon :: ts =>
    run? (.object ((name, v) :: ms) next :: frames) none ts
  | _, _, _ => none

/-- The value of a JSON text. -/
def parse? (text : String) : Option Json := (lex? text.toList).bind (run? [] none)

/-! ## Reading a record -/

/-- The text, if the value is one. -/
def text? : Json → Option String
  | .string s => s
  | _ => none

/-- The texts, if the value is an array of texts. -/
def texts? : Json → Option (List String)
  | .array vs => vs.mapM text?
  | _ => none

/-- The fields with the given names. In an object a name may be used once and every name has to be
a text; an array holds the first fields in order. -/
def record? (names : List String) : Json → Option (List (String × Json))
  | .array vs => if vs.length ≤ names.length then some (names.zip vs) else none
  | .object ms =>
    (ms.mapM fun (m : Option String × Json) => m.1.map fun name => (name, m.2)).bind fun ms =>
      let known := ms.filter fun m => m.1 ∈ names
      if (known.map Prod.fst).Nodup then some known else none
  | _ => none

/-- A field of a record, read by `read?`; a missing one is `default`. -/
def field? {α : Type} (fields : List (String × Json)) (name : String) (read? : Json → Option α)
    (default : α) : Option α :=
  match fields.lookup name with
  | none => some default
  | some v => read? v

end Json

end SimStats
