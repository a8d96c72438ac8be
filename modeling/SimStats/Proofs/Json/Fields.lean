import SimStats.Proofs.Json.Record
import SimStats.Proofs.Json.Writing

/-!
# Records described by their fields

A record is described once: what its fields are called, how each of them is written and read, and
what it is when it is missing (`Json.Record`). The rest follows for all records. Fields that an
object gives are read wherever they stand in it, and the others are filled in
(`Record.ofValue?_named`); moving members about and changing those that are no fields changes
nothing (`Record.ofValue?_congr`); an object with a fault is refused (`Record.ofValue?_of_faulty`);
and what is written is read back (`Record.parse?_toJson`).
-/

namespace SimStats.Json

/-! ## Fields -/

/-- A field of a record. -/
structure Field (α : Type) where
  /-- its name -/
  name : String
  /-- how it is read -/
  read? : Json → Option α
  /-- what it is when it is missing -/
  default : α
  /-- the value that it is written as -/
  value : α → Json
  /-- the text of that value -/
  text : α → String
  /-- it is read from the values that it is written as -/
  read?_eq_some_iff {v : Json} {a : α} : read? v = some a ↔ v = value a
  /-- it is written as a text of its value -/
  writes (a : α) : Writes (text a) (value a)

/-- A text as a value. -/
def ofText (s : String) : Json := .string (some s)

/-- Texts as an array. -/
def ofTexts (l : List String) : Json := .array (l.map ofText)

/-- A field that is a text. -/
def textField (name default : String) : Field String where
  name
  read? := text?
  default
  value := ofText
  text := quote
  read?_eq_some_iff := text?_eq_some_iff
  writes := writes_quote

/-- A field that is an array of texts. -/
def textsField (name : String) (default : List String) : Field (List String) where
  name
  read? := texts?
  default
  value := ofTexts
  text l := arrayText (l.map quote)
  read?_eq_some_iff := texts?_eq_some_iff
  writes _ := writes_arrayText fun s _ => writes_quote s

/-- The fields of a record, and with them the type of their values. -/
inductive Fields : Type → Type 1 where
  /-- no field -/
  | nil : Fields Unit
  /-- a field and others -/
  | cons {α β : Type} : Field α → Fields β → Fields (α × β)

/-- A member, if there is a value for it. -/
def optional (name : String) (v : Option Json) : List (String × Json) :=
  (v.map fun v => (name, v)).toList

theorem lookup_optional_self (name : String) (v : Option Json) (ms : List (String × Json)) :
    (optional name v ++ ms).lookup name = v.or (ms.lookup name) := by
  cases v with
  | none => rfl
  | some v => exact List.lookup_cons_self

theorem lookup_optional_of_ne {name name' : String} (h : name' ≠ name) (v : Option Json)
    (ms : List (String × Json)) : (optional name v ++ ms).lookup name' = ms.lookup name' := by
  cases v with
  | none => rfl
  | some v =>
    have hmembers : optional name (some v) ++ ms = (name, v) :: ms := rfl
    rw [hmembers, List.lookup_cons, beq_false_of_ne h]

namespace Fields

/-- The names of the fields. -/
def names : {α : Type} → Fields α → List String
  | _, nil => []
  | _, cons f fs => f.name :: fs.names

/-- Reads all fields. -/
def read? (ms : List (String × Json)) : {α : Type} → Fields α → Option α
  | _, nil => some ()
  | _, cons f fs => do
    let a ← field? ms f.name f.read? f.default
    let as ← fs.read? ms
    pure (a, as)

/-- The values that a field may have. -/
def Typed (name : String) (v : Json) : {α : Type} → Fields α → Prop
  | _, nil => False
  | _, cons f fs => (f.name = name ∧ ∃ a, v = f.value a) ∨ fs.Typed name v

/-- Values for some of the fields. -/
def Given : {α : Type} → Fields α → Type
  | _, nil => Unit
  | _, @cons α _ _ fs => Option α × fs.Given

/-- The given fields as members. -/
def members : {α : Type} → (fs : Fields α) → fs.Given → List (String × Json)
  | _, nil, _ => []
  | _, cons f fs, g => optional f.name (g.1.map f.value) ++ fs.members g.2

/-- The given values; the others are filled in. -/
def complete : {α : Type} → (fs : Fields α) → fs.Given → α
  | _, nil, _ => ()
  | _, cons f fs, g => (g.1.getD f.default, fs.complete g.2)

/-- Values for all fields. -/
def all : {α : Type} → (fs : Fields α) → α → fs.Given
  | _, nil, _ => ()
  | _, cons _ fs, (a, as) => (some a, fs.all as)

/-- The fields in order, each with its name, its text and its value. -/
def written : {α : Type} → Fields α → α → List (String × String × Json)
  | _, nil, _ => []
  | _, cons f fs, (a, as) => (f.name, f.text a, f.value a) :: fs.written as

variable {α : Type} {ms ms' : List (String × Json)}

@[simp] theorem map_read?_nil {ρ : Type} (make : Unit → ρ) :
    (nil.read? ms).map make = some (make ()) := rfl

@[simp] theorem map_read?_cons {α β ρ : Type} (f : Field α) (fs : Fields β) (make : α × β → ρ) :
    ((cons f fs).read? ms).map make = (field? ms f.name f.read? f.default).bind fun a =>
      (fs.read? ms).map fun as => make (a, as) := by
  simp [read?, Option.map_eq_bind, Option.bind_assoc]

theorem read?_congr {fs : Fields α} (h : ∀ name ∈ fs.names, ms.lookup name = ms'.lookup name) :
    fs.read? ms = fs.read? ms' := by
  induction fs with
  | nil => rfl
  | cons f fs ih =>
    obtain ⟨hname, hnames⟩ := List.forall_mem_cons.mp h
    rw [read?, read?, field?_congr hname, ih hnames]

/-- The order of the members does not matter. -/
theorem read?_perm (fs : Fields α) (hperm : ms.Perm ms') (h : (ms.map Prod.fst).Nodup) :
    fs.read? ms = fs.read? ms' :=
  read?_congr fun name _ => lookup_perm hperm h name

/-- Fields that were read have values that they may have. -/
theorem typed_of_read? {fs : Fields α} {as : α} (h : fs.read? ms = some as) {name : String}
    (hname : name ∈ fs.names) {v : Json} (hv : ms.lookup name = some v) : fs.Typed name v := by
  induction fs with
  | nil => cases hname
  | cons f fs ih =>
    obtain ⟨a, ha, h⟩ := Option.bind_eq_some_iff.mp h
    obtain ⟨as, has, -⟩ := Option.bind_eq_some_iff.mp h
    rcases List.mem_cons.mp hname with rfl | hname
    · exact Or.inl ⟨rfl, a, f.read?_eq_some_iff.mp (read?_of_field? ha hv)⟩
    · exact Or.inr (ih has hname)

theorem map_fst_members (fs : Fields α) (g : fs.Given) :
    ((fs.members g).map Prod.fst).Sublist fs.names := by
  induction fs with
  | nil => exact .slnil
  | cons f fs ih =>
    obtain ⟨_ | a, g⟩ := g
    · exact (ih g).cons f.name
    · exact (ih g).cons_cons f.name

theorem known_members (fs : Fields α) (g : fs.Given) :
    known fs.names (fs.members g) = fs.members g := by
  refine List.filter_eq_self.mpr fun m hm => decide_eq_true ?_
  exact (fs.map_fst_members g).subset (List.mem_map_of_mem hm)

theorem lookup_members_of_notMem {fs : Fields α} (g : fs.Given) {name : String}
    (h : name ∉ fs.names) : (fs.members g).lookup name = none := by
  refine List.lookup_eq_none_iff.mpr fun m hm => bne_iff_ne.mpr fun heq => h ?_
  rw [heq]
  exact (fs.map_fst_members g).subset (List.mem_map_of_mem hm)

/-- Given fields are read, and the others are filled in. -/
theorem read?_members {fs : Fields α} (hnodup : fs.names.Nodup) (g : fs.Given) :
    fs.read? (fs.members g) = some (fs.complete g) := by
  induction fs with
  | nil => rfl
  | cons f fs ih =>
    obtain ⟨hname, hnames⟩ := List.nodup_cons.mp hnodup
    obtain ⟨a, g⟩ := g
    have hmembers : (cons f fs).members (a, g) =
        optional f.name (a.map f.value) ++ fs.members g := rfl
    have hfirst : ((cons f fs).members (a, g)).lookup f.name = a.map f.value := by
      rw [hmembers, lookup_optional_self, lookup_members_of_notMem g hname, Option.or_none]
    have hothers : fs.read? ((cons f fs).members (a, g)) = fs.read? (fs.members g) := by
      refine read?_congr fun name hmem => ?_
      have hne : name ≠ f.name := fun heq => hname (heq ▸ hmem)
      rw [hmembers, lookup_optional_of_ne hne]
    have hread : field? ((cons f fs).members (a, g)) f.name f.read? f.default =
        some (a.getD f.default) := by
      rw [field?, hfirst]
      cases a with
      | none => rfl
      | some a => exact f.read?_eq_some_iff.mpr rfl
    rw [read?, hread, hothers, ih hnames g]
    rfl

theorem complete_all (fs : Fields α) (as : α) : fs.complete (fs.all as) = as := by
  induction fs with
  | nil => rfl
  | cons f fs ih => exact Prod.ext rfl (ih as.2)

theorem members_all (fs : Fields α) (as : α) :
    fs.members (fs.all as) = (fs.written as).map fun m => (m.1, m.2.2) := by
  induction fs with
  | nil => rfl
  | cons f fs ih => exact congrArg (_ :: ·) (ih as.2)

theorem writes_written {fs : Fields α} {as : α} :
    ∀ m ∈ fs.written as, Writes m.2.1 m.2.2 := by
  induction fs with
  | nil => exact fun _ => nofun
  | cons f fs ih => exact List.forall_mem_cons.mpr ⟨f.writes as.1, ih⟩

end Fields

/-! ## Records -/

/-- A record and its fields. -/
structure Record (α : Type) where
  /-- the type of the values of all fields -/
  Row : Type
  /-- the fields -/
  fields : Fields Row
  /-- no two fields have the same name -/
  nodup : fields.names.Nodup
  /-- the record with the given values -/
  make : Row → α
  /-- the values of the fields of a record -/
  row : α → Row
  /-- a record is its fields -/
  make_row (a : α) : make (row a) = a

namespace Record

variable {α : Type} (r : Record α)

/-- Reads the fields that a value gives; the others are filled in. -/
def ofValue? (v : Json) : Option α :=
  (v.record? r.fields.names).bind fun ms => (r.fields.read? ms).map r.make

/-- The record as an object. -/
def toJson (a : α) : String :=
  objectText ((r.fields.written (r.row a)).map fun m => (m.1, m.2.1))

variable {ms ms' : List (String × Json)}

theorem read?_perm (fields fields' : List (String × Json)) (hperm : fields.Perm fields')
    (h : (fields.map Prod.fst).Nodup) :
    (r.fields.read? fields).map r.make = (r.fields.read? fields').map r.make := by
  rw [r.fields.read?_perm hperm h]

/-- Given fields are read wherever they stand in an object, whatever else is in it. -/
theorem ofValue?_named {g : r.fields.Given}
    (h : (known r.fields.names ms).Perm (r.fields.members g)) :
    r.ofValue? (named ms) = some (r.make (r.fields.complete g)) := by
  have hnodup := (r.fields.map_fst_members g).nodup r.nodup
  rw [ofValue?, record?_bind_of_perm r.read?_perm h hnodup, Fields.read?_members r.nodup]
  rfl

/-- Objects that give the same fields, in whatever order, are read alike. -/
theorem ofValue?_congr (h : (known r.fields.names ms).Perm (known r.fields.names ms')) :
    r.ofValue? (named ms) = r.ofValue? (named ms') :=
  record?_bind_congr r.read?_perm h

/-- Nothing is read from an object with a fault. -/
theorem ofValue?_of_faulty {typed : String → Json → Prop} {ms : List (Option String × Json)}
    (htyped : ∀ name v, r.fields.Typed name v → typed name v)
    (h : Faulty r.fields.names typed ms) : r.ofValue? (.object ms) = none := by
  refine record?_bind_of_faulty (fun fields a hread name hname v hv => ?_) h
  obtain ⟨as, has, -⟩ := Option.map_eq_some_iff.mp hread
  exact htyped name v (Fields.typed_of_read? has hname hv)

/-- What is written is read back. -/
theorem parse?_toJson (a : α) : (parse? (r.toJson a)).bind r.ofValue? = some a := by
  have hwrites : Writes (r.toJson a) (named (r.fields.members (r.fields.all (r.row a)))) := by
    rw [named, Fields.members_all, List.map_map]
    exact writes_objectText Fields.writes_written
  have hknown := r.fields.known_members (r.fields.all (r.row a))
  rw [hwrites.parse?_eq, Option.bind_some, r.ofValue?_named (.of_eq hknown), Fields.complete_all,
    r.make_row]

end Record

end SimStats.Json
