import SimStats.Proofs.Dump.Content
import SimStats.Proofs.Line.Columns

/-!
# What a dump answers

The answers of a dump are those of its text: a path leads to a statistic exactly if a content line
names it, and to a category exactly if the name of a content line goes on from it. Every other
question is refused, and the refusal names the path.
-/

namespace SimStats

namespace Line

/-- What a content line says: a name with the given segments, a value column that reads as the
given value, and the given description. -/
def Defines (separators : List String) (line : String) (path : List String) (value : Value)
    (description : String) : Prop :=
  ∃ fields, fields? line.toList = some fields ∧
    Path.split separators (String.ofList fields.name) = path ∧
    Value.ofToken? (String.ofList fields.value) = some value ∧
    String.ofList fields.description = description

theorem parse_of_trim {separators : List String} {line : String} (h : Text.trim line = line) :
    parse separators line = parseTrimmed separators line.toList := by
  rw [parse, ← Text.toList_trim, h]

/-- A line says of one path only what it reads as. -/
theorem defines_iff {separators : List String} {line : String} (htrim : Text.trim line = line)
    {l : Line} (h : parse separators line = .ok l) {path : List String} {v : Value}
    {description : String} :
    Defines separators line path v description ↔
      l.segments = path ∧ l.stat.value = v ∧ l.stat.description = description := by
  rw [parse_of_trim htrim] at h
  obtain ⟨fields, hfields, -, hvalue, hsegments, hdescription⟩ := of_parseTrimmed_eq_ok h
  simp [Defines, hfields, hvalue, hsegments, hdescription]

/-- A line is listed under its own segments, the last of which is its statistic's name. -/
theorem getLastD_segments (l : Line) : l.segments.getLastD "" = l.stat.name := by
  rw [segments, List.getLastD_concat]

end Line

namespace Dump

/-! ## Three ways to answer -/

theorem query_empty (d : Dump) : d.query "" = .ok (.group d.root) := rfl

theorem query_eq_ok_iff {d : Dump} {p : String} (hp : p ≠ "") {n : Node} :
    d.query p = .ok n ↔ (Node.group d.root).descend (Path.split d.separators p) = some n := by
  rw [query, if_neg hp]
  split <;> simp [*]

/-- A path is refused only for leading nowhere. -/
theorem query_eq_error {d : Dump} {p : String} {e : Error} (h : d.query p = .error e) :
    e = .pathNotFound p := by
  rw [query] at h
  split at h
  · cases h
  · exact (Except.error.inj h).symm

theorem stat_eq_ok_iff {d : Dump} {p : String} {s : Stat} :
    d.stat p = .ok s ↔ d.query p = .ok (.stat s) := by
  rw [stat]
  rcases d.query p with e | (t | g) <;> simp [Except.bind]

theorem group_eq_ok_iff {d : Dump} {p : String} {g : Group} :
    d.group p = .ok g ↔ d.query p = .ok (.group g) := by
  rw [group]
  rcases d.query p with e | (t | k) <;> simp [Except.bind]

/-- What leads neither to a statistic nor to a category leads nowhere, for every question. -/
theorem not_found {d : Dump} {p : String} (hstat : ∀ s, d.stat p ≠ .ok s)
    (hgroup : ∀ g, d.group p ≠ .ok g) :
    d.query p = .error (.pathNotFound p) ∧ d.stat p = .error (.pathNotFound p) ∧
      d.group p = .error (.pathNotFound p) ∧ d.value p = .error (.pathNotFound p) := by
  rcases hquery : d.query p with e | (s | g)
  · obtain rfl := query_eq_error hquery
    rw [value, stat, group, hquery]
    exact ⟨rfl, rfl, rfl, rfl⟩
  · exact absurd (stat_eq_ok_iff.mpr hquery) (hstat s)
  · exact absurd (group_eq_ok_iff.mpr hquery) (hgroup g)

/-- The question for a statistic is refused for the kind of node exactly at categories. -/
theorem stat_eq_wrongKind_iff {d : Dump} {p q : String} {found expected : Kind} :
    d.stat p = .error (.wrongKind q found expected) ↔
      q = p ∧ found = .category ∧ expected = .statistic ∧ ∃ g, d.group p = .ok g := by
  rcases hquery : d.query p with e | (s | g)
  · obtain rfl := query_eq_error hquery
    simp [stat, group, hquery, Except.bind]
  · simp [stat, group, hquery, Except.bind]
  · simp [stat, group, hquery, Except.bind, eq_comm]

/-- The question for a category is refused for the kind of node exactly at statistics. -/
theorem group_eq_wrongKind_iff {d : Dump} {p q : String} {found expected : Kind} :
    d.group p = .error (.wrongKind q found expected) ↔
      q = p ∧ found = .statistic ∧ expected = .category ∧ ∃ s, d.stat p = .ok s := by
  rcases hquery : d.query p with e | (s | g)
  · obtain rfl := query_eq_error hquery
    simp [stat, group, hquery, Except.bind]
  · simp [stat, group, hquery, Except.bind, eq_comm]
  · simp [stat, group, hquery, Except.bind]

/-! ## Answers and content lines -/

variable {d : Dump} {lines : List String}

/-- What is listed is what a line says, and has the last segment of the path for a name. -/
theorem OfLines.mem_leaves_iff_defines (h : d.OfLines lines)
    (htrim : ∀ line ∈ lines, Text.trim line = line) {path : List String} {s : Stat} :
    (path, s) ∈ d.root.leaves ↔ s.name = path.getLastD "" ∧
      ∃ line ∈ lines, Line.Defines d.separators line path s.value s.description := by
  rw [h.mem_leaves_iff]
  constructor
  · rintro ⟨line, hline, l, hl, rfl, rfl⟩
    exact ⟨l.getLastD_segments.symm, line, hline,
      (Line.defines_iff (htrim line hline) hl).mpr ⟨rfl, rfl, rfl⟩⟩
  · rintro ⟨hname, line, hline, hdef⟩
    obtain ⟨l, hl⟩ := h.grammatical line hline
    obtain ⟨rfl, hvalue, hdescription⟩ := (Line.defines_iff (htrim line hline) hl).mp hdef
    exact ⟨line, hline, l, hl, rfl,
      Stat.ext (l.getLastD_segments.symm.trans hname.symm) hvalue hdescription⟩

/-- A statistic is found exactly at the path under which it is listed. -/
theorem OfLines.stat_eq_ok_iff_mem_leaves (h : d.OfLines lines) {p : String} (hp : p ≠ "")
    {s : Stat} : d.stat p = .ok s ↔ (Path.split d.separators p, s) ∈ d.root.leaves := by
  have hwf : (Node.group d.root).WellFormed := h.wellFormed
  rw [stat_eq_ok_iff, query_eq_ok_iff hp, Node.descend_eq_stat_iff hwf, Node.leaves]

theorem OfLines.stat_eq_ok_iff (h : d.OfLines lines)
    (htrim : ∀ line ∈ lines, Text.trim line = line) {p : String} (hp : p ≠ "") {s : Stat} :
    d.stat p = .ok s ↔ s.name = (Path.split d.separators p).getLastD "" ∧
      ∃ line ∈ lines,
        Line.Defines d.separators line (Path.split d.separators p) s.value s.description := by
  rw [h.stat_eq_ok_iff_mem_leaves hp, h.mem_leaves_iff_defines htrim]

/-- The path of a statistic within a category is the end of its path in the dump. -/
theorem OfLines.exists_mem_leaves (h : d.OfLines lines) {p : String} {g : Group}
    (hg : d.group p = .ok g) {leaf : List String × Stat} (hleaf : leaf ∈ g.leaves) :
    ∃ front, (front ++ leaf.1, leaf.2) ∈ d.root.leaves := by
  have hwf : (Node.group d.root).WellFormed := h.wellFormed
  rw [Dump.group_eq_ok_iff] at hg
  by_cases hp : p = ""
  · rw [hp, query_empty] at hg
    cases hg
    exact ⟨[], hleaf⟩
  · exact ⟨_, (hwf.mem_leaves_of_descend ((query_eq_ok_iff hp).mp hg)).mp hleaf⟩

/-- A category is found at those paths from which the name of a line goes on. -/
theorem OfLines.group_eq_ok_iff (h : d.OfLines lines)
    (htrim : ∀ line ∈ lines, Text.trim line = line) {p : String} (hp : p ≠ "") :
    (∃ g, d.group p = .ok g) ↔
      ∃ line ∈ lines, ∃ path v description, Line.Defines d.separators line path v description ∧
        Path.split d.separators p <+: path ∧ Path.split d.separators p ≠ path := by
  have hwf : (Node.group d.root).WellFormed := h.wellFormed
  simp only [Dump.group_eq_ok_iff, query_eq_ok_iff hp]
  rw [Node.descend_eq_group_iff hwf (Path.split_ne_nil _ _)]
  constructor
  · rintro ⟨rest, s, hrest, hmem⟩
    obtain ⟨-, line, hline, hdef⟩ := (h.mem_leaves_iff_defines htrim).mp hmem
    refine ⟨line, hline, _, _, _, hdef, List.prefix_append _ _, ?_⟩
    intro heq
    exact hrest (List.self_eq_append_right.mp heq)
  · rintro ⟨line, hline, path, v, description, hdef, ⟨rest, rfl⟩, hne⟩
    let s : Stat := ⟨(Path.split d.separators p ++ rest).getLastD "", v, description⟩
    refine ⟨rest, s, ?_, (h.mem_leaves_iff_defines htrim).mpr ⟨rfl, line, hline, hdef⟩⟩
    rintro rfl
    exact hne (List.append_nil _).symm

/-- Below a category that is found are the statistics of the lines that go on from its path, each
under the rest of the name in its line. -/
theorem OfLines.mem_leaves_group_iff (h : d.OfLines lines)
    (htrim : ∀ line ∈ lines, Text.trim line = line) {p : String} (hp : p ≠ "") {g : Group}
    (hg : d.group p = .ok g) {rest : List String} {s : Stat} :
    (rest, s) ∈ g.leaves ↔ s.name = (Path.split d.separators p ++ rest).getLastD "" ∧
      ∃ line ∈ lines, Line.Defines d.separators line (Path.split d.separators p ++ rest) s.value
        s.description := by
  have hwf : (Node.group d.root).WellFormed := h.wellFormed
  have hdescend := (query_eq_ok_iff hp).mp (Dump.group_eq_ok_iff.mp hg)
  rw [← h.mem_leaves_iff_defines htrim]
  exact hwf.mem_leaves_of_descend hdescend

/-- A category is found under the last segment of its path. -/
theorem name_of_group {p : String} (hp : p ≠ "") {g : Group} (hg : d.group p = .ok g) :
    g.name = (Path.split d.separators p).getLastD "" :=
  Node.name_of_descend (Path.split_ne_nil _ _)
    ((query_eq_ok_iff hp).mp (Dump.group_eq_ok_iff.mp hg))

/-- Only one line says something of a path. -/
theorem OfLines.eq_of_defines (h : d.OfLines lines)
    (htrim : ∀ line ∈ lines, Text.trim line = line) {i j : Nat} {a b : String}
    (ha : lines[i]? = some a) (hb : lines[j]? = some b) {path : List String} {v w : Value}
    {x y : String} (hx : Line.Defines d.separators a path v x)
    (hy : Line.Defines d.separators b path w y) : i = j := by
  have hamem := List.mem_of_getElem? ha
  have hbmem := List.mem_of_getElem? hb
  obtain ⟨l, hl⟩ := h.grammatical a hamem
  obtain ⟨m, hm⟩ := h.grammatical b hbmem
  obtain ⟨rfl, -, -⟩ := (Line.defines_iff (htrim a hamem) hl).mp hx
  obtain ⟨hpath, -, -⟩ := (Line.defines_iff (htrim b hbmem) hm).mp hy
  by_contra hij
  refine Line.leaves_apart_iff.mp h.apart i j a b l m hij ha hb hl hm ?_
  exact hpath ▸ List.prefix_refl _

/-- Every line has the columns of a statistic, of which the name is not empty. -/
theorem OfLines.exists_fields (h : d.OfLines lines)
    (htrim : ∀ line ∈ lines, Text.trim line = line) {line : String} (hline : line ∈ lines) :
    ∃ fields v, Line.fields? line.toList = some fields ∧
      Value.ofToken? (String.ofList fields.value) = some v ∧ String.ofList fields.name ≠ "" := by
  obtain ⟨l, hl⟩ := h.grammatical line hline
  rw [Line.parse_of_trim (htrim line hline)] at hl
  obtain ⟨fields, hfields, hempty, hvalue, -, -⟩ := Line.of_parseTrimmed_eq_ok hl
  refine ⟨fields, _, hfields, hvalue, ?_⟩
  intro hname
  rw [hname, Path.split_empty] at hempty
  exact hempty (List.mem_singleton_self _)

/-- The answers of a dump with the given content lines. -/
structure Answers (d : Dump) (lines : List String) : Prop where
  /-- the empty path leads to the root -/
  root : d.query "" = .ok (.group d.root)
  /-- which is the category there -/
  rootGroup : d.group "" = .ok d.root
  /-- a path leads to a statistic exactly if it is the name in a line, and then to what the line
  says -/
  stat (p : String) (s : Stat) : p ≠ "" →
    (d.stat p = .ok s ↔ s.name = (Path.split d.separators p).getLastD "" ∧
      ∃ line ∈ lines,
        Line.Defines d.separators line (Path.split d.separators p) s.value s.description)
  /-- there is only one such line -/
  once (i j : Nat) (a b : String) (path : List String) (v w : Value) (x y : String) :
    lines[i]? = some a → lines[j]? = some b → Line.Defines d.separators a path v x →
      Line.Defines d.separators b path w y → i = j
  /-- a path leads to a category exactly if the name in a line goes on from it -/
  group (p : String) : p ≠ "" →
    ((∃ g, d.group p = .ok g) ↔
      ∃ line ∈ lines, ∃ path v description, Line.Defines d.separators line path v description ∧
        Path.split d.separators p <+: path ∧ Path.split d.separators p ≠ path)
  /-- the category is the node at the path -/
  groupNode (p : String) (g : Group) : d.group p = .ok g ↔ d.query p = .ok (.group g)
  /-- it bears the last segment of the path -/
  groupName (p : String) (g : Group) : p ≠ "" → d.group p = .ok g →
    g.name = (Path.split d.separators p).getLastD ""
  /-- and below it are the statistics of the lines whose names go on from the path -/
  below (p : String) (g : Group) : p ≠ "" → d.group p = .ok g →
    ∀ (rest : List String) (s : Stat), (rest, s) ∈ g.leaves ↔
      s.name = (Path.split d.separators p ++ rest).getLastD "" ∧
      ∃ line ∈ lines, Line.Defines d.separators line (Path.split d.separators p ++ rest) s.value
        s.description
  /-- a path that is not how the name in some line begins leads nowhere -/
  missing (p : String) : p ≠ "" →
    (∀ line ∈ lines, ∀ path v description, Line.Defines d.separators line path v description →
      ¬ Path.split d.separators p <+: path) →
    d.query p = .error (.pathNotFound p) ∧ d.stat p = .error (.pathNotFound p) ∧
      d.group p = .error (.pathNotFound p) ∧ d.value p = .error (.pathNotFound p)
  /-- the question for a statistic is of the wrong kind exactly at categories -/
  statKind (p q : String) (found expected : Kind) :
    d.stat p = .error (.wrongKind q found expected) ↔
      q = p ∧ found = .category ∧ expected = .statistic ∧ ∃ g, d.group p = .ok g
  /-- the question for a category is of the wrong kind exactly at statistics -/
  groupKind (p q : String) (found expected : Kind) :
    d.group p = .error (.wrongKind q found expected) ↔
      q = p ∧ found = .statistic ∧ expected = .category ∧ ∃ s, d.stat p = .ok s
  /-- every statistic is found under its name as the line has it -/
  written : ∀ line ∈ lines, ∃ fields v, Line.fields? line.toList = some fields ∧
    Value.ofToken? (String.ofList fields.value) = some v ∧
    d.stat (String.ofList fields.name) =
      .ok ⟨(Path.split d.separators (String.ofList fields.name)).getLastD "", v,
        String.ofList fields.description⟩

theorem OfLines.answers (h : d.OfLines lines) (htrim : ∀ line ∈ lines, Text.trim line = line) :
    d.Answers lines where
  root := d.query_empty
  rootGroup := Dump.group_eq_ok_iff.mpr d.query_empty
  stat _ _ hp := h.stat_eq_ok_iff htrim hp
  once _ _ _ _ _ _ _ _ _ ha hb hx hy := h.eq_of_defines htrim ha hb hx hy
  group _ hp := h.group_eq_ok_iff htrim hp
  groupNode _ _ := Dump.group_eq_ok_iff
  groupName _ _ hp hg := name_of_group hp hg
  below _ _ hp hg _ _ := h.mem_leaves_group_iff htrim hp hg
  missing p hp hnone := by
    refine not_found ?_ ?_
    · intro s hs
      obtain ⟨-, line, hline, hdef⟩ := (h.stat_eq_ok_iff htrim hp).mp hs
      exact hnone line hline _ _ _ hdef (List.prefix_refl _)
    · intro g hg
      obtain ⟨line, hline, path, v, description, hdef, hpre, -⟩ :=
        (h.group_eq_ok_iff htrim hp).mp ⟨g, hg⟩
      exact hnone line hline path v description hdef hpre
  statKind _ _ _ _ := stat_eq_wrongKind_iff
  groupKind _ _ _ _ := group_eq_wrongKind_iff
  written line hline := by
    obtain ⟨fields, v, hfields, hvalue, hname⟩ := h.exists_fields htrim hline
    refine ⟨fields, v, hfields, hvalue, (h.stat_eq_ok_iff htrim hname).mpr ⟨rfl, line, hline, ?_⟩⟩
    exact ⟨fields, hfields, rfl, hvalue, rfl⟩

/-- **What a dump answers.** If dump number `index` of a text is read, its answers are those of its
content lines. -/
theorem answers_of_ofBytes_toUTF8 {format : Format} {index : Nat} {text : String}
    (h : ofBytes format index text.toUTF8 = .ok d) :
    d.separators = format.separators ∧ d.Answers (content format index (Text.lines text)) := by
  obtain ⟨hsep, hlines⟩ := ofLines_of_ofBytes_toUTF8 h
  exact ⟨hsep, hlines.answers fun line hline => trim_of_mem_content hline⟩

/-- The answers of a dump of two lines. -/
theorem answers_two_lines :
    ∃ d, ofBytes .standard 1 (Format.standard.beginMarker ++
        "\nl2.hits 9 # h\n\nl2::misses 1 # m\n").toUTF8 = .ok d ∧
      d.separators = standardSeparators ∧
      d.Answers (content .standard 1 (Text.lines (Format.standard.beginMarker ++
        "\nl2.hits 9 # h\n\nl2::misses 1 # m\n"))) := by
  let hits : Stat := ⟨"hits", .int 9, "h"⟩
  let misses : Stat := ⟨"misses", .int 1, "m"⟩
  have h : ofBytes .standard 1 (Format.standard.beginMarker ++
      "\nl2.hits 9 # h\n\nl2::misses 1 # m\n").toUTF8 =
      .ok ⟨⟨"all", .group "l2" (.stat hits (.stat misses .nil)) .nil⟩, standardSeparators⟩ := by
    decide +kernel
  exact ⟨_, h, answers_of_ofBytes_toUTF8 h⟩

end Dump

end SimStats
