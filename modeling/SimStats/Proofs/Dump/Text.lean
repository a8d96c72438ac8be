import SimStats.Proofs.Dump.Isolation
import SimStats.Proofs.Line.Text

/-!
# Dumps that are written

`Dump.text` writes statistics as a dump in the standard format, one line for each, in any order. If
they are counters that such lines can hold, and no one is in the way of another, the text is read
as a dump of just these statistics (`Dump.exists_ofBytes_text`). The counters of a dump that was
read are of this kind, so that the dump is read again from its text (`Dump.ofBytes_text`).
-/

namespace SimStats

namespace Line

/-- The statistic of a line with the segments that lead to it. -/
def leaf (l : Line) : List String × Stat := (l.segments, l.stat)

/-- The line of a statistic with the segments that lead to it. -/
def ofLeaf (leaf : List String × Stat) : Line := ⟨leaf.1.dropLast, leaf.2⟩

@[simp] theorem ofLeaf_leaf (l : Line) : ofLeaf l.leaf = l := by
  simp [ofLeaf, leaf, segments]

/-- Blanks at the ends of a line are no part of it. -/
theorem parse_trim (separators : List String) (line : String) :
    parse separators (Text.trim line) = parse separators line := by
  rw [parse, parse, Text.toList_trim, Text.trimChars_trimChars]

/-- What reads as a statistic in the standard format is neither blank nor the end of a dump. -/
theorem ne_of_parse {line : String} {l : Line} (h : parse standardSeparators line = .ok l) :
    line ≠ "" ∧ line ≠ Format.standard.endMarker := by
  have hblank : parse standardSeparators "" = .error .malformedLine := by decide +kernel
  have hend : parse standardSeparators Format.standard.endMarker = .error .malformedLine := by
    decide +kernel
  constructor
  · rintro rfl
    rw [hblank] at h
    cases h
  · rintro rfl
    rw [hend] at h
    cases h

/-- Written lines read as statistics. -/
theorem exists_parse_of_mem {lines : List Line} (h : ∀ l ∈ lines, l.Writable) {line : String}
    (hline : line ∈ (lines.map text).map Text.trim) :
    ∃ l, parse standardSeparators line = .ok l := by
  rw [List.map_map] at hline
  obtain ⟨l, hl, rfl⟩ := List.mem_map.mp hline
  exact ⟨l, (parse_trim _ _).trans (parse_text (h l hl))⟩

/-- The statistics of written lines are what they were written from. -/
theorem leaves_text {lines : List Line} (h : ∀ l ∈ lines, l.Writable) :
    leaves standardSeparators ((lines.map text).map Text.trim) = lines.map leaf := by
  induction lines with
  | nil => rfl
  | cons l lines ih =>
    have hl : parse standardSeparators (Text.trim l.text) = .ok l := by
      rw [parse_trim]
      exact parse_text (h l (List.mem_cons_self ..))
    rw [List.map_cons, List.map_cons, leaves_cons hl,
      ih fun m hm => h m (List.mem_cons_of_mem _ hm)]
    rfl

end Line

/-- The statistics of a category as lines. -/
def Group.lines (g : Group) : List Line := g.leaves.map Line.ofLeaf

namespace Dump

/-! ## Reading what was written -/

/-- The text of a dump in the standard format. -/
def text (lines : List Line) : String :=
  Text.unlines (Format.standard.beginMarker :: lines.map Line.text ++
    [Format.standard.endMarker])

theorem problem?_standard : Format.standard.problem? = none := by decide +kernel

/-- Writable lines that are apart from each other are accepted by an empty tree. -/
theorem accepts_text {lines : List Line} (h : ∀ l ∈ lines, l.Writable)
    (hapart : (lines.map Line.leaf).Pairwise fun a b => Path.Apart a.1 b.1) (name : String) :
    (Group.empty name).Accepts standardSeparators ((lines.map Line.text).map Text.trim) where
  grammatical line hline := Line.exists_parse_of_mem h hline
  apart := by
    rw [Line.leaves_text h]
    exact hapart
  free := by
    intro e _ leaf hleaf
    exact absurd hleaf List.not_mem_nil

/-- All of a written dump but its markers are content lines. -/
theorem bodyLines_text {lines : List Line} (h : ∀ l ∈ lines, l.Writable) :
    bodyLines .standard ((lines.map Line.text).map Text.trim) =
      (lines.map Line.text).map Text.trim := by
  have hne : ∀ line ∈ (lines.map Line.text).map Text.trim,
      line ≠ "" ∧ line ≠ Format.standard.endMarker := by
    intro line hline
    obtain ⟨l, hl⟩ := Line.exists_parse_of_mem h hline
    exact Line.ne_of_parse hl
  rw [bodyLines, List.takeWhile_eq_self_iff.mpr, List.filter_eq_self.mpr]
  · intro line hline
    simpa using (hne line hline).1
  · intro line hline
    simpa using (hne line hline).2

/-- Writable lines that are apart from each other, written as a dump, are read as a dump of their
statistics. -/
theorem exists_ofBytes_text {lines : List Line} (h : ∀ l ∈ lines, l.Writable)
    (hapart : (lines.map Line.leaf).Pairwise fun a b => Path.Apart a.1 b.1) :
    ∃ root : Group, ofBytes .standard 1 (text lines).toUTF8 = .ok ⟨root, standardSeparators⟩ ∧
      root.name = Format.standard.rootName ∧ root.children.WellFormed ∧
      root.leaves.Perm (lines.map Line.leaf) := by
  have hempty := Group.wellFormed_empty Format.standard.rootName
  have hnil := (Group.addEach_eq_nil_iff hempty).mpr
    (accepts_text h hapart Format.standard.rootName)
  obtain ⟨hname, hwf, hperm⟩ := Group.leaves_addEach hempty hnil
  rw [Line.leaves_text h] at hperm
  refine ⟨_, ?_, hname, hwf, hperm.trans (List.Perm.of_eq (List.append_nil _))⟩
  -- the text is the begin marker, a body without end marker, and the end marker
  have hlines : ∀ line ∈ [] ++ Format.standard.beginMarker :: lines.map Line.text ++
      [Format.standard.endMarker], '\n' ∉ line.toList := by
    intro line hline
    simp only [List.nil_append, List.mem_append, List.mem_cons, List.not_mem_nil, or_false] at hline
    rcases hline with (rfl | hline) | rfl
    · decide +kernel
    · obtain ⟨l, hl, rfl⟩ := List.mem_map.mp hline
      exact (h l hl).lineFeed_not_mem
    · decide +kernel
  have hbody : ∀ line ∈ lines.map Line.text, Text.trim line ≠ Format.standard.endMarker := by
    intro line hline
    obtain ⟨l, hl⟩ := Line.exists_parse_of_mem h (List.mem_map_of_mem hline)
    exact (Line.ne_of_parse hl).2
  have hread := ofBytes_eq_readBody problem?_standard hlines (by decide +kernel) hbody
    (by decide +kernel) .empty
  have hend := Format.endMarker_ne_empty problem?_standard
  have hroot : readBody nameless .standard (.empty Format.standard.rootName)
      (((lines.map Line.text).map Text.trim).map .ok) = .ok _ :=
    (readBody_map_ok hend).mpr (by rw [bodyLines_text h]; exact Prod.ext rfl hnil)
  rw [ByteArray.append_empty, hroot] at hread
  exact hread

/-! ## Writing what was read -/

variable {d : Dump} {content : List String}

/-- The lines of a dump that was read are those it was read from. -/
theorem OfLines.exists_parse_of_mem_lines (h : d.OfLines content) {l : Line}
    (hl : l ∈ d.root.lines) : ∃ line ∈ content, Line.parse d.separators line = .ok l := by
  obtain ⟨⟨path, s⟩, hmem, rfl⟩ := List.mem_map.mp hl
  obtain ⟨line, hline, m, hm, rfl, rfl⟩ := h.mem_leaves_iff.mp hmem
  refine ⟨line, hline, ?_⟩
  rw [hm, ← Line.leaf, Line.ofLeaf_leaf]

/-- They have the statistics of the dump. -/
theorem OfLines.map_leaf_lines (h : d.OfLines content) :
    d.root.lines.map Line.leaf = d.root.leaves := by
  rw [Group.lines, List.map_map]
  conv => rhs; rw [← List.map_id d.root.leaves]
  refine List.map_congr_left ?_
  rintro ⟨path, s⟩ hmem
  obtain ⟨line, -, l, -, rfl, rfl⟩ := h.mem_leaves_iff.mp hmem
  exact congrArg Line.leaf (Line.ofLeaf_leaf l)

/-- A dump of counters is read again from its lines, written in any order. -/
theorem ofBytes_text {index : Nat} {bytes : ByteArray}
    (h : ofBytes .standard index bytes = .ok d)
    (hint : ∀ leaf ∈ d.root.leaves, leaf.2.value.isInt = true) {lines : List Line}
    (hlines : lines.Perm d.root.lines) :
    ofBytes .standard 1 (text lines).toUTF8 = .ok d := by
  obtain ⟨hsep, hname, content, hone, hcontent⟩ := exists_lines_of_ofBytes h
  have hleaves : (lines.map Line.leaf).Perm d.root.leaves := by
    rw [← hcontent.map_leaf_lines]
    exact hlines.map _
  have hwritable : ∀ l ∈ lines, l.Writable := by
    intro l hl
    obtain ⟨line, hline, hparse⟩ := hcontent.exists_parse_of_mem_lines (hlines.mem_iff.mp hl)
    rw [hsep] at hparse
    refine Line.writable_of_parse (hone line hline) hparse ?_
    exact hint _ (hleaves.mem_iff.mp (List.mem_map_of_mem hl))
  have hapart := hcontent.wellFormed.leaves_apart.perm hleaves.symm Path.Apart.symm
  obtain ⟨root, hread, hroot, hwf, hperm⟩ := exists_ofBytes_text hwritable hapart
  -- the tree lists what that of the dump lists, and has its name
  have hsame : root = d.root := by
    refine Group.ext (hroot.trans hname.symm) (hwf.eq_of_leaves hcontent.wellFormed ?_)
    intro leaf
    exact (hperm.trans hleaves).mem_iff
  have hfields : (⟨d.root, standardSeparators⟩ : Dump) = d := by
    rw [show standardSeparators = d.separators from hsep.symm]
  rw [hread, hsame, hfields]

/-- **Writing and reading are inverse.** Counters that lines of the standard format can hold, none
of which is in the way of another, are read from their text, in whatever order they are written,
and nothing else is. Every dump in the standard format that holds counters only is read again, the
same, from the text of its lines in any order. -/
theorem ofBytes_text_inverse :
    (∀ lines : List Line, (∀ l ∈ lines, l.Writable) →
      lines.Pairwise (fun a b => Path.Apart a.segments b.segments) →
      ∃ d, ofBytes .standard 1 (text lines).toUTF8 = .ok d ∧
        d.root.leaves.Perm (lines.map Line.leaf)) ∧
    ∀ (index : Nat) (bytes : ByteArray) (d : Dump), ofBytes .standard index bytes = .ok d →
      (∀ leaf ∈ d.root.leaves, leaf.2.value.isInt = true) →
      d.root.lines.map Line.leaf = d.root.leaves ∧
      ∀ lines : List Line, lines.Perm d.root.lines →
        ofBytes .standard 1 (text lines).toUTF8 = .ok d := by
  constructor
  · intro lines hwritable hapart
    obtain ⟨root, hread, -, -, hperm⟩ :=
      exists_ofBytes_text hwritable (List.pairwise_map.mpr hapart)
    exact ⟨_, hread, hperm⟩
  · intro index bytes d h hint
    obtain ⟨-, -, content, -, hcontent⟩ := exists_lines_of_ofBytes h
    refine ⟨hcontent.map_leaf_lines, ?_⟩
    intro lines hlines
    exact ofBytes_text h hint hlines

/-- Two counters whose names have a colon at the end of a segment, a colon at the start of one and
a `#`, and of which one has no description, are read back in either order. -/
theorem ofBytes_text_two_lines :
    let hits : Line := ⟨["l2:"], ⟨":hits#", .int 9, ""⟩⟩
    let misses : Line := ⟨["l2:"], ⟨"misses", .int (-1), "m # m"⟩⟩
    (∀ l ∈ [hits, misses], l.Writable) ∧
      [hits, misses].Pairwise (fun a b => Path.Apart a.segments b.segments) ∧
      ∃ d, ofBytes .standard 1 (text [hits, misses]).toUTF8 = .ok d ∧
        d.root.leaves.Perm [hits.leaf, misses.leaf] ∧
        (∀ leaf ∈ d.root.leaves, leaf.2.value.isInt = true) ∧
        ofBytes .standard 1 (text d.root.lines.reverse).toUTF8 = .ok d := by
  intro hits misses
  have hhits : Line.parse standardSeparators "l2:.:hits# 9 #" = .ok hits := by decide +kernel
  have hmisses : Line.parse standardSeparators "l2:.misses -1 # m # m" = .ok misses := by
    decide +kernel
  have hwritable : ∀ l ∈ [hits, misses], l.Writable := by
    intro l hl
    rw [List.mem_cons, List.mem_singleton] at hl
    rcases hl with rfl | rfl
    · exact Line.writable_of_parse (by decide +kernel) hhits rfl
    · exact Line.writable_of_parse (by decide +kernel) hmisses rfl
  have hapart : [hits, misses].Pairwise fun a b => Path.Apart a.segments b.segments := by
    simp only [Path.Apart]
    decide +kernel
  obtain ⟨d, hread, hperm⟩ := ofBytes_text_inverse.1 _ hwritable hapart
  have hint : ∀ leaf ∈ d.root.leaves, leaf.2.value.isInt = true := by
    intro leaf hleaf
    obtain ⟨l, hl, rfl⟩ := List.mem_map.mp (hperm.mem_iff.mp hleaf)
    exact (hwritable l hl).counter
  obtain ⟨-, hagain⟩ := ofBytes_text_inverse.2 1 _ d hread hint
  exact ⟨hwritable, hapart, d, hread, hperm, hint, hagain _ (List.reverse_perm _)⟩

end Dump

end SimStats
