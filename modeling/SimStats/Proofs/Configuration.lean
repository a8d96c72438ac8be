import SimStats.MetricPaths
import SimStats.Proofs.Json.Fields

/-!
# Configurations

Formats and the paths of derived numbers are records in JSON, described once by their fields
(`Format.record`, `MetricPaths.record`). A configuration that is written is read back, whatever
characters its texts are made of (`ofJson_toJson`); a format is then checked like any other that is
read. Other objects may give any of the fields, in any order and among any other members; what is
not given is as in the standard configuration. Nothing is read from an object in which a field is
given twice or is not of its type (`read_by_member`).
-/

namespace SimStats

/-! ## Formats -/

namespace Format

/-- The fields of a format. -/
def record : Json.Record Format where
  Row := String × String × List String × String × Unit
  fields :=
    .cons (Json.textField "begin_marker" standard.beginMarker) <|
    .cons (Json.textField "end_marker" standard.endMarker) <|
    .cons (Json.textsField "separators" standard.separators) <|
    .cons (Json.textField "root_name" standard.rootName) .nil
  nodup := by decide
  make := fun (beginMarker, endMarker, separators, rootName, _) =>
    { beginMarker, endMarker, separators, rootName }
  row f := (f.beginMarker, f.endMarker, f.separators, f.rootName, ())
  make_row _ := rfl

theorem ofValue?_eq : ofValue? = record.ofValue? := by
  funext v
  simp only [Json.Record.ofValue?, record, Json.Fields.map_read?_cons, Json.Fields.map_read?_nil]
  rfl

theorem toJson_eq : toJson = record.toJson := rfl

/-- The fields of a format that an object gives. -/
structure Given where
  /-- the line that opens a dump -/
  beginMarker : Option String
  /-- the line that closes a dump -/
  endMarker : Option String
  /-- what stands between the segments of a name -/
  separators : Option (List String)
  /-- the name of the root -/
  rootName : Option String

namespace Given

/-- The given fields as members. -/
def members (g : Given) : List (String × Json) :=
  Json.optional "begin_marker" (g.beginMarker.map Json.ofText) ++
  Json.optional "end_marker" (g.endMarker.map Json.ofText) ++
  Json.optional "separators" (g.separators.map Json.ofTexts) ++
  Json.optional "root_name" (g.rootName.map Json.ofText)

/-- The format with the given fields; the others are as in the standard format. -/
def complete (g : Given) : Format where
  beginMarker := g.beginMarker.getD standard.beginMarker
  endMarker := g.endMarker.getD standard.endMarker
  separators := g.separators.getD standard.separators
  rootName := g.rootName.getD standard.rootName

/-- The given fields, one after the other. -/
def values (g : Given) : record.fields.Given :=
  (g.beginMarker, g.endMarker, g.separators, g.rootName, ())

theorem members_eq (g : Given) : g.members = record.fields.members g.values := by
  rw [members, List.append_assoc, List.append_assoc,
    ← List.append_nil (Json.optional "root_name" _)]
  rfl

theorem complete_eq (g : Given) : g.complete = record.make (record.fields.complete g.values) := rfl

end Given

/-- The values that a field may have. -/
inductive Typed : String → Json → Prop where
  /-- a text -/
  | text {name s : String} : name ∈ ["begin_marker", "end_marker", "root_name"] →
    Typed name (Json.ofText s)
  /-- texts -/
  | separators {l : List String} : Typed "separators" (Json.ofTexts l)

/-- The fields of the record are the fields of a format. -/
theorem typed_of_record (name : String) (v : Json) (h : record.fields.Typed name v) :
    Typed name v := by
  rcases h with ⟨rfl, s, rfl⟩ | ⟨rfl, s, rfl⟩ | ⟨rfl, l, rfl⟩ | ⟨rfl, s, rfl⟩ | h
  · exact .text (by decide)
  · exact .text (by decide)
  · exact .separators
  · exact .text (by decide)
  · cases h

end Format

/-! ## Paths of derived numbers -/

namespace MetricPaths

/-- The paths as fields. -/
def record : Json.Record MetricPaths where
  Row := String × String × String × String × Unit
  fields :=
    .cons (Json.textField "sim_insts" standard.instructions) <|
    .cons (Json.textField "num_cycles" standard.cycles) <|
    .cons (Json.textField "inst_mix" standard.mix) <|
    .cons (Json.textField "total_key" standard.totalKey) .nil
  nodup := by decide
  make := fun (instructions, cycles, mix, totalKey, _) => { instructions, cycles, mix, totalKey }
  row p := (p.instructions, p.cycles, p.mix, p.totalKey, ())
  make_row _ := rfl

theorem ofValue?_eq : ofValue? = record.ofValue? := by
  funext v
  simp only [Json.Record.ofValue?, record, Json.Fields.map_read?_cons, Json.Fields.map_read?_nil]
  rfl

theorem toJson_eq : toJson = record.toJson := rfl

/-- The paths that an object gives. -/
structure Given where
  /-- the number of instructions that were executed -/
  instructions : Option String
  /-- the number of cycles that took -/
  cycles : Option String
  /-- the category that counts instructions by class -/
  mix : Option String
  /-- the key of the sum within that category -/
  totalKey : Option String

namespace Given

/-- The given paths as members. -/
def members (g : Given) : List (String × Json) :=
  Json.optional "sim_insts" (g.instructions.map Json.ofText) ++
  Json.optional "num_cycles" (g.cycles.map Json.ofText) ++
  Json.optional "inst_mix" (g.mix.map Json.ofText) ++
  Json.optional "total_key" (g.totalKey.map Json.ofText)

/-- The given paths; the others are as in the standard ones. -/
def complete (g : Given) : MetricPaths where
  instructions := g.instructions.getD standard.instructions
  cycles := g.cycles.getD standard.cycles
  mix := g.mix.getD standard.mix
  totalKey := g.totalKey.getD standard.totalKey

/-- The given paths, one after the other. -/
def values (g : Given) : record.fields.Given :=
  (g.instructions, g.cycles, g.mix, g.totalKey, ())

theorem members_eq (g : Given) : g.members = record.fields.members g.values := by
  rw [members, List.append_assoc, List.append_assoc,
    ← List.append_nil (Json.optional "total_key" _)]
  rfl

theorem complete_eq (g : Given) : g.complete = record.make (record.fields.complete g.values) := rfl

end Given

/-- The values that a path may have. -/
inductive Typed : String → Json → Prop where
  /-- a text -/
  | text {name s : String} : Typed name (Json.ofText s)

theorem typed_of_record (name : String) (v : Json) (h : record.fields.Typed name v) :
    Typed name v := by
  rcases h with ⟨-, s, rfl⟩ | ⟨-, s, rfl⟩ | ⟨-, s, rfl⟩ | ⟨-, s, rfl⟩ | h
  · exact .text
  · exact .text
  · exact .text
  · exact .text
  · cases h

end MetricPaths

/-! ## Texts -/

/-- **Configurations survive being written.** Whatever characters its texts are made of, a format
that can be used is read back as it was written, and one that cannot is refused for what is wrong
with it. The paths of derived numbers are always read back as they were written. -/
theorem ofJson_toJson (f : Format) (p : MetricPaths) :
    Format.ofJson f.toJson = f.validate.map (fun _ => f) ∧
      MetricPaths.ofJson p.toJson = .ok p := by
  have hformat : (Json.parse? f.toJson).bind Format.ofValue? = some f := by
    rw [Format.ofValue?_eq, Format.toJson_eq]
    exact Format.record.parse?_toJson f
  have hpaths : (Json.parse? p.toJson).bind MetricPaths.ofValue? = some p := by
    rw [MetricPaths.ofValue?_eq, MetricPaths.toJson_eq]
    exact MetricPaths.record.parse?_toJson p
  exact ⟨by rw [Format.ofJson, hformat], by rw [MetricPaths.ofJson, hpaths]⟩

/-- **A configuration is read member by member.** An object that gives some of the fields, in any
order and among any other members of any depth, is read as the configuration with these fields and
with all others as in the standard one; a format is then checked. Moving its members about, adding
others and removing them changes nothing of what is read, be it a configuration or an error. If a
field is given twice, or with a value that is not of its type, the object is refused, whatever else
is in it. -/
theorem read_by_member :
    (∀ (text : String) (ms : List (String × Json)), Json.Writes text (Json.named ms) →
      (∀ g : Format.Given, (Json.known Format.fieldNames ms).Perm g.members →
        (Json.parse? text).bind Format.ofValue? = some g.complete ∧
          Format.ofJson text = g.complete.validate.map fun _ => g.complete) ∧
      ∀ g : MetricPaths.Given, (Json.known MetricPaths.fieldNames ms).Perm g.members →
        MetricPaths.ofJson text = .ok g.complete) ∧
    (∀ (text text' : String) (ms ms' : List (String × Json)),
      Json.Writes text (Json.named ms) → Json.Writes text' (Json.named ms') →
      ((Json.known Format.fieldNames ms).Perm (Json.known Format.fieldNames ms') →
        Format.ofJson text = Format.ofJson text') ∧
      ((Json.known MetricPaths.fieldNames ms).Perm (Json.known MetricPaths.fieldNames ms') →
        MetricPaths.ofJson text = MetricPaths.ofJson text')) ∧
    ∀ (text : String) (ms : List (Option String × Json)), Json.Writes text (.object ms) →
      (Json.Faulty Format.fieldNames Format.Typed ms → Format.ofJson text = .error .json) ∧
      (Json.Faulty MetricPaths.fieldNames MetricPaths.Typed ms →
        MetricPaths.ofJson text = .error .json) := by
  refine ⟨fun text ms htext => ⟨fun g h => ?_, fun g h => ?_⟩,
    fun text text' ms ms' htext htext' => ⟨fun h => ?_, fun h => ?_⟩,
    fun text ms htext => ⟨fun h => ?_, fun h => ?_⟩⟩
  · have hread : (Json.parse? text).bind Format.ofValue? = some g.complete := by
      rw [Format.Given.members_eq] at h
      rw [htext.parse?_eq, Option.bind_some, Format.ofValue?_eq, Format.record.ofValue?_named h,
        Format.Given.complete_eq]
    exact ⟨hread, by rw [Format.ofJson, hread]⟩
  · rw [MetricPaths.Given.members_eq] at h
    rw [MetricPaths.ofJson, htext.parse?_eq, Option.bind_some, MetricPaths.ofValue?_eq,
      MetricPaths.record.ofValue?_named h, MetricPaths.Given.complete_eq]
  · rw [Format.ofJson, Format.ofJson, htext.parse?_eq, htext'.parse?_eq, Option.bind_some,
      Option.bind_some, Format.ofValue?_eq, Format.record.ofValue?_congr h]
  · rw [MetricPaths.ofJson, MetricPaths.ofJson, htext.parse?_eq, htext'.parse?_eq,
      Option.bind_some, Option.bind_some, MetricPaths.ofValue?_eq,
      MetricPaths.record.ofValue?_congr h]
  · rw [Format.ofJson, htext.parse?_eq, Option.bind_some, Format.ofValue?_eq,
      Format.record.ofValue?_of_faulty Format.typed_of_record h]
  · rw [MetricPaths.ofJson, htext.parse?_eq, Option.bind_some, MetricPaths.ofValue?_eq,
      MetricPaths.record.ofValue?_of_faulty MetricPaths.typed_of_record h]

/-- Two fields of a format, the later one first, behind a member that no configuration knows. -/
theorem read_by_member_two_given :
    let text := Json.objectText [("x", Json.arrayText ["-1.5"]), ("root_name", Json.quote "r"),
      ("begin_marker", Json.quote "b")]
    let ms := [("x", .array [.scalar]), ("root_name", Json.ofText "r"),
      ("begin_marker", Json.ofText "b")]
    Json.Writes text (Json.named ms) ∧
      Format.ofJson text =
        .ok ⟨"b", Format.standard.endMarker, Format.standard.separators, "r"⟩ ∧
      MetricPaths.ofJson text = .ok .standard := by
  intro text ms
  let members : List (String × String × Json) := [
    ("x", Json.arrayText ["-1.5"], .array [.scalar]),
    ("root_name", Json.quote "r", Json.ofText "r"),
    ("begin_marker", Json.quote "b", Json.ofText "b")]
  have hwhole : Json.Whole ['1'] := .digits (by decide) (by decide)
  have hfraction : Json.Fraction ['.', '5'] := .point (by decide)
  have hnumber : Json.Writes "-1.5" .scalar :=
    Json.lexes_of_lexeme (.number (.minus hwhole hfraction .none))
  have harray : Json.Writes (Json.arrayText (["-1.5"].map id))
      (.array (["-1.5"].map fun _ => .scalar)) :=
    Json.writes_arrayText (List.forall_mem_singleton.mpr hnumber)
  have hmembers : ∀ m ∈ members, Json.Writes m.2.1 m.2.2 := by
    simpa [members] using ⟨harray, Json.writes_quote "r", Json.writes_quote "b"⟩
  have hwrites : Json.Writes (Json.objectText (members.map fun m => (m.1, m.2.1)))
      (.object (members.map fun m => (some m.1, m.2.2))) := Json.writes_objectText hmembers
  obtain ⟨hgiven, -, -⟩ := read_by_member
  obtain ⟨hformat, hpaths⟩ := hgiven text ms hwrites
  obtain ⟨-, hread⟩ := hformat ⟨some "b", none, none, some "r"⟩ (.swap _ _ _)
  have hvalid : Format.validate ⟨"b", Format.standard.endMarker, Format.standard.separators, "r"⟩ =
      .ok () := by decide +kernel
  refine ⟨hwrites, hread.trans ?_, hpaths ⟨none, none, none, none⟩ .nil⟩
  exact congrArg (Except.map fun _ => _) hvalid

end SimStats
