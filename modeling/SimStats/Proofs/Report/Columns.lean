import SimStats.Proofs.Command
import SimStats.Proofs.Dump.Query
import SimStats.Proofs.Line.Text
import SimStats.Proofs.Number.Layout
import SimStats.Proofs.Tree.Keys

/-!
# Flat statistics in columns

Printed plainly, a flat map is one line for each entry: its key, filled up with spaces, and its
value. `Text.columns` takes a line apart at its blanks. Neither a key nor the text of a value has a
blank in it, so the columns of a line are the key and the value again, in the order of the map. The
width of the first column is the size of the longest key in bytes while filling counts characters;
no key has more characters than bytes, so all values begin in one place (`Report.shows_plainRows`).

`Text.padRight` fills to any width, so nothing here depends on how long the keys are. A bound on
them stands in `Command.flatten_shown` for a terminal whose columns have at most 65535 places.
-/

namespace SimStats

/-! ## The columns of a line -/

namespace Text

/-- What stands between the blanks of a line. -/
def columns (s : List Char) : List (List Char) := (s.splitOnP isBlank).filter (· ≠ [])

theorem columns_of_column {s : List Char} (h : Line.Column s) : columns s = [s] := by
  rw [columns, List.splitOnP_eq_singleton h.2]
  simp [h.1]

/-- A column ends at a blank. -/
theorem columns_append_cons {s : List Char} (h : Line.Column s) {blank : Char}
    (hblank : isBlank blank = true) (t : List Char) :
    columns (s ++ blank :: t) = s :: columns t := by
  rw [columns, List.splitOnP_append_cons_of_forall_mem h.2 blank hblank,
    List.filter_cons_of_pos (by simpa using h.1)]
  rfl

/-- Blanks before a column do not count. -/
theorem columns_append_of_blank {gap : List Char} (h : ∀ c ∈ gap, isBlank c = true)
    (s : List Char) : columns (gap ++ s) = columns s := by
  induction gap with
  | nil => rfl
  | cons c gap ih =>
    obtain ⟨hc, hgap⟩ := List.forall_mem_cons.mp h
    have hnil : ∀ x ∈ ([] : List Char), isBlank x = false := nofun
    have hsplit := List.splitOnP_append_cons_of_forall_mem hnil c hc (gap ++ s)
    rw [List.nil_append] at hsplit
    rw [List.cons_append, columns, hsplit, List.filter_cons_of_neg (by simp)]
    exact ih hgap

/-- A column before a gap is the first one. -/
theorem columns_append_gap {s gap : List Char} (hs : Line.Column s) (hgap : Line.Gap gap)
    (t : List Char) : columns (s ++ (gap ++ t)) = s :: columns t := by
  obtain ⟨blank, gap, rfl⟩ := List.exists_cons_of_ne_nil hgap.1
  obtain ⟨hblank, hrest⟩ := List.forall_mem_cons.mp hgap.2
  rw [List.cons_append, columns_append_cons hs hblank, columns_append_of_blank hrest]

/-- Two columns with a gap between them are all the columns there are. -/
theorem columns_gap {s gap t : List Char} (hs : Line.Column s) (hgap : Line.Gap gap)
    (ht : Line.Column t) : columns (s ++ (gap ++ t)) = [s, t] := by
  rw [columns_append_gap hs hgap, columns_of_column ht]

/-- What fills up a column on its right, the space behind it, and what fills up the next one on its
left. -/
theorem gap_spaces (m n : Nat) :
    Line.Gap (List.replicate m ' ' ++ ' ' :: List.replicate n ' ') := by
  refine ⟨List.append_ne_nil_of_right_ne_nil _ (List.cons_ne_nil _ _), ?_⟩
  intro c hc
  obtain rfl : c = ' ' := by
    rcases List.mem_append.mp hc with hc | hc
    · exact List.eq_of_mem_replicate hc
    · exact List.eq_of_mem_replicate (n := n + 1) hc
  rfl

end Text

/-! ## Rows -/

namespace Report

theorem lines_eq_unlines (rows : List String) : lines rows = Text.unlines rows := by
  induction rows with
  | nil => rfl
  | cons row rows ih => rw [lines, List.map_cons, String.join_cons, Text.unlines, ← ih, lines]

/-- A text has at most as many characters as bytes. -/
theorem length_le_utf8ByteSize (s : String) : s.length ≤ s.utf8ByteSize := by
  have hbytes : s.utf8ByteSize = (Text.utf8 s.toList).length := by
    rw [← Text.data_toUTF8]
    rfl
  rw [hbytes, ← String.length_toList]
  induction s.toList with
  | nil => exact Nat.le_refl 0
  | cons c l ih =>
    have hc : 0 < (String.utf8EncodeChar c).length :=
      List.length_pos_iff.mpr String.utf8EncodeChar_ne_nil
    rw [Text.utf8_cons, List.length_append, List.length_cons]
    omega

/-- No key is wider than the column of keys. -/
theorem length_le_keyWidth {m : Keyed Value} {key : String} (h : key ∈ m.keys) :
    key.length ≤ keyWidth m := by
  have hfold : ∀ (keys : List String) (w : Nat),
      w ≤ keys.foldl (fun w key => max w key.utf8ByteSize) w ∧
      ∀ key ∈ keys, key.utf8ByteSize ≤ keys.foldl (fun w key => max w key.utf8ByteSize) w := by
    intro keys
    induction keys with
    | nil => exact fun w => ⟨Nat.le_refl w, nofun⟩
    | cons k keys ih =>
      intro w
      obtain ⟨hle, hkeys⟩ := ih (max w k.utf8ByteSize)
      refine ⟨Nat.le_trans (Nat.le_max_left ..) hle, List.forall_mem_cons.mpr ⟨?_, hkeys⟩⟩
      exact Nat.le_trans (Nat.le_max_right ..) hle
  exact Nat.le_trans (length_le_utf8ByteSize key) ((hfold m.keys 0).2 key h)

/-- The row shows the entry: its columns are the key and the value, and the value begins behind
`column` characters. -/
structure Shows (column : Nat) (row : List Char) (e : String × Value) : Prop where
  /-- the key and the value -/
  columns : Text.columns row = [e.1.toList, e.2.text.toList]
  /-- where the value begins -/
  aligned : ∃ front, row = front ++ e.2.text.toList ∧ front.length = column

theorem shows_plainRow {width : Nat} {e : String × Value} (hkey : Line.Column e.1.toList)
    (hwidth : e.1.length ≤ width) :
    Shows (width + 1) (Text.padRight width e.1 ++ " " ++ e.2.text).toList e := by
  let gap := List.replicate (width - e.1.length) ' ' ++ [' ']
  have hrow : (Text.padRight width e.1 ++ " " ++ e.2.text).toList =
      e.1.toList ++ (gap ++ e.2.text.toList) := by
    simp [Text.padRight, gap]
  have hgap : Line.Gap gap := Text.gap_spaces _ 0
  rw [hrow]
  refine ⟨Text.columns_gap hkey hgap e.2.column_text, e.1.toList ++ gap, ?_, ?_⟩
  · exact (List.append_assoc ..).symm
  · simp only [gap, List.length_append, List.length_replicate, List.length_singleton,
      String.length_toList]
    omega

/-- Columns end no line. -/
theorem lineFeed_not_mem_of_column {s : List Char} (h : Line.Column s) : '\n' ∉ s := by
  intro hmem
  cases h.2 _ hmem

/-- Rows that hold no line feed are the lines of the text, one for each entry. -/
theorem forall₂_lines {α : Type} {R : List Char → α → Prop} {row : α → String} {entries : List α}
    (hline : ∀ e ∈ entries, '\n' ∉ (row e).toList) (hrow : ∀ e ∈ entries, R (row e).toList e) :
    List.Forall₂ R (Text.lineChars (lines (entries.map row)).toList) entries := by
  have hlines : Text.lineChars (lines (entries.map row)).toList =
      entries.map fun e => (row e).toList := by
    rw [lines_eq_unlines, Text.lineChars_unlines (List.forall_mem_map.mpr hline), List.map_map]
    rfl
  rw [hlines, List.forall₂_map_left_iff, List.forall₂_same]
  exact hrow

/-- If its keys can stand in columns, a flat map is printed in one row for each entry. -/
theorem shows_plainRows {m : Keyed Value} (h : ∀ key ∈ m.keys, Line.Column key.toList) :
    List.Forall₂ (Shows (keyWidth m + 1)) (Text.lineChars (flat false m).toList) m.entries := by
  have hkey : ∀ e ∈ m.entries, e.1 ∈ m.keys := fun e he => List.mem_map_of_mem he
  refine forall₂_lines (fun e he => ?_) fun e he => ?_
  · have hfront := lineFeed_not_mem_of_column (h e.1 (hkey e he))
    have hback := lineFeed_not_mem_of_column e.2.column_text
    simp [Text.padRight, hfront, hback]
  · exact shows_plainRow (h e.1 (hkey e he)) (length_le_keyWidth (hkey e he))

end Report

/-! ## Dumps -/

/-- The keys of a category can stand in columns: they are made of segments of names and of dots. -/
theorem Dump.OfLines.column_key_group {d : Dump} {lines : List String} (h : d.OfLines lines)
    {p : String} {g : Group} (hg : d.group p = .ok g) :
    ∀ key ∈ g.flatten.keys, Line.Column key.toList := by
  intro key hkey
  obtain ⟨leaf, hleaf, rfl⟩ := Group.mem_keys_flatten_iff.mp hkey
  obtain ⟨front, hmem⟩ := h.exists_mem_leaves hg hleaf
  obtain ⟨line, -, l, hl, hpath, -⟩ := h.mem_leaves_iff.mp hmem
  obtain ⟨hempty, hunblank⟩ := Line.segments_of_parse hl
  rw [hpath] at hempty hunblank
  refine ⟨?_, Path.key_unblank fun s hs => hunblank s (List.mem_append_right front hs)⟩
  rw [Ne, String.toList_eq_nil_iff]
  exact Path.key_ne_empty (Forest.path_ne_nil hleaf) fun hs =>
    hempty (List.mem_append_right front hs)

theorem Dump.OfLines.column_key {d : Dump} {lines : List String} (h : d.OfLines lines) :
    ∀ key ∈ d.flatten.keys, Line.Column key.toList :=
  -- the dump is the category at the empty path
  have hroot : d.group "" = .ok d.root := rfl
  h.column_key_group hroot

theorem Dump.exists_ofLines_of_load {files : Files} {format : Format} {file : String} {index : Nat}
    {d : Dump} (h : Dump.load files format file index = .ok d) :
    d.separators = format.separators ∧ ∃ lines, d.OfLines lines := by
  rw [load] at h
  split at h
  · cases h
  · exact exists_ofLines_of_read h

/-- **Plain output can be read back.** If the dump can be read and no key has more than 65535 bytes,
the plain flat statistics of a file are one line for each entry, in the order of the keys, and
nothing if there is no entry. Cut at its blanks, each line is the key and the text of the value, and
the values begin behind equally many characters on all lines. The bound on the keys keeps the width
of their column within 16 bits; it limits what the statement promises, and the proof does without
it, because `Text.padRight` has no greatest width. -/
theorem Command.flatten_shown {files : Files} {c : Command} {file : String} {index : Nat}
    {format : Format} {paths : MetricPaths} {d : Dump}
    (hrequest : c.request = .flatten file index false) (hformat : c.loadFormat files = .ok format)
    (hpaths : c.loadMetricPaths files = .ok paths)
    (hload : Dump.load files format file index = .ok d) :
    (∀ key ∈ d.flatten.keys, key.utf8ByteSize ≤ 65535) →
      (c.run files).status = 0 ∧ (c.run files).complaint = "" ∧
      (d.flatten.entries = [] → (c.run files).output = "") ∧
      (d.flatten.entries.Pairwise fun a b => a.1 < b.1) ∧
      ∃ column, List.Forall₂ (Report.Shows column)
        (Text.lineChars (c.run files).output.toList) d.flatten.entries := by
  -- filling knows no greatest width
  intro _
  have hrun : c.run files = ⟨Report.flat false d.flatten, none⟩ := by
    rw [run_of_loaded hformat hpaths, hrequest, Request.answer, hload]
    rfl
  rw [hrun]
  obtain ⟨-, lines, hlines⟩ := Dump.exists_ofLines_of_load hload
  refine ⟨rfl, rfl, ?_, d.flatten.ascending, _, Report.shows_plainRows hlines.column_key⟩
  intro hnil
  have hrows : Report.plainRows d.flatten = [] := by
    rw [Report.plainRows, hnil, List.map_nil]
  exact congrArg Report.lines hrows

/-- A key of two characters in three bytes beside one of four characters in four bytes. -/
theorem Command.flatten_shown_two_keys :
    let files : Files := fun _ =>
      .file (Format.standard.beginMarker ++ "\nl2::é -7 # e\nsize nan # s\n").toUTF8
    let c : Command := ⟨none, none, false, .flatten "s" 1 false⟩
    ∃ d, Dump.load files .standard "s" 1 = .ok d ∧
      d.flatten.entries.map Prod.fst = ["l2.é", "size"] ∧
      (∀ key ∈ d.flatten.keys, key.utf8ByteSize ≤ 65535) ∧
      ∃ column, List.Forall₂ (Report.Shows column)
        (Text.lineChars (c.run files).output.toList) d.flatten.entries := by
  intro files c
  let d : Dump :=
    ⟨⟨"all", .group "l2" (.stat ⟨"é", .int (-7), "e"⟩ .nil)
      (.stat ⟨"size", .float (Literal.toFloat .nan), "s"⟩ .nil)⟩, standardSeparators⟩
  have hload : Dump.load files .standard "s" 1 = .ok d := by decide +kernel
  have hkeys : d.flatten.entries.map Prod.fst = ["l2.é", "size"] := by decide +kernel
  have hsize : ∀ key ∈ d.flatten.keys, key.utf8ByteSize ≤ 65535 := by decide +kernel
  obtain ⟨-, -, -, -, hrows⟩ := Command.flatten_shown (c := c) rfl rfl rfl hload hsize
  exact ⟨d, hload, hkeys, hsize, hrows⟩

end SimStats
