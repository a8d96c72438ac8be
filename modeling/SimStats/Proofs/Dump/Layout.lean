import SimStats.Proofs.Dump.Content

/-!
# Layout

How a file is laid out does not matter to a reader. It looks at lines without the blanks at their
ends, and blank lines pass it by: before a dump because no begin marker is blank, and in a dump
because it skips them before it looks for anything else. So a text is read as its lines that are not
blank are read (`Dump.read_filter`), and two texts that have the same ones are read alike
(`Dump.ofBytes_congr_layout`).
-/

namespace SimStats.Dump

/-- The lines after a marker that are not blank are those after it among the lines that are not. -/
theorem afterMarker_filter {marker : String} (hmarker : marker ≠ "") (n : Nat)
    (lines : List String) :
    afterMarker marker n (lines.filter (· != "")) =
      (afterMarker marker n lines).filter (· != "") := by
  induction lines generalizing n with
  | nil =>
    have hnil : afterMarker marker n [] = [] := List.suffix_nil.mp (afterMarker_suffix _ _ _)
    rw [List.filter_nil, hnil, List.filter_nil]
  | cons line lines ih =>
    cases n with
    | zero => rfl
    | succ n =>
      by_cases hline : line = marker
      · subst hline
        rw [List.filter_cons_of_pos (by simp [hmarker]), afterMarker_cons_self,
          afterMarker_cons_self, ih]
      · rw [afterMarker_cons_of_ne hline, ← ih]
        by_cases hblank : line = ""
        · rw [List.filter_cons_of_neg (by simp [hblank])]
        · rw [List.filter_cons_of_pos (by simp [hblank]), afterMarker_cons_of_ne hline]

/-- A body is read as its lines that are not blank are. -/
theorem readBody_filter (origin : String) (format : Format) (g : Group) (lines : List String) :
    readBody origin format g ((lines.filter (· != "")).map .ok) =
      readBody origin format g (lines.map .ok) := by
  induction lines generalizing g with
  | nil => rfl
  | cons line lines ih =>
    by_cases hblank : line = ""
    · rw [List.filter_cons_of_neg (by simp [hblank]), List.map_cons, readBody, if_pos hblank, ih]
    · rw [List.filter_cons_of_pos (by simp [hblank]), List.map_cons, List.map_cons, readBody,
        readBody, if_neg hblank, if_neg hblank]
      split
      · rfl
      · split
        · rfl
        · exact ih _

/-- Lines are read as those of them that are not blank are. -/
theorem read_filter (origin : String) (format : Format) (index : Nat) (lines : List String) :
    read origin format index ((lines.filter (· != "")).map .ok) =
      read origin format index (lines.map .ok) := by
  by_cases hindex : index = 0
  · rw [read, read, if_pos hindex, if_pos hindex]
  · rcases hformat : format.problem? with _ | cause
    · have hmarker := (Format.markers_of_problem? hformat).1.1
      rw [read_map_ok origin hformat hindex, read_map_ok origin hformat hindex,
        List.count_filter (by simp [hmarker]), afterMarker_filter hmarker, readBody_filter]
    · rw [read, read, if_neg hindex, if_neg hindex, hformat]

/-- **Layout does not matter.** Two texts that have the same lines, apart from blank lines and from
blanks at the ends of lines, are read as the same dump or refused for the same reason, whatever the
format and the number of the dump are. -/
theorem ofBytes_congr_layout (format : Format) (index : Nat) {text text' : String}
    (h : (Text.lines text).filter (· != "") = (Text.lines text').filter (· != "")) :
    ofBytes format index text.toUTF8 = ofBytes format index text'.toUTF8 := by
  rw [ofBytes_toUTF8, ofBytes_toUTF8, ← read_filter, h, read_filter]

/-- A dump with blanks and blank lines in many places, and the same dump without them. -/
theorem ofBytes_congr_layout_indented :
    (Text.lines "\n\tbegin\r\n  a.b 1 # x\u00a0\r\n\r\n \t\r\na.b 2 # y\n\u2003end").filter
        (· != "") =
      (Text.lines "begin\na.b 1 # x\na.b 2 # y\nend\n").filter (· != "") ∧
    ofBytes ⟨"begin", "end", ["."], "top"⟩ 1
        "\n\tbegin\r\n  a.b 1 # x\u00a0\r\n\r\n \t\r\na.b 2 # y\n\u2003end".toUTF8 =
      ofBytes ⟨"begin", "end", ["."], "top"⟩ 1 "begin\na.b 1 # x\na.b 2 # y\nend\n".toUTF8 := by
  have h : (Text.lines "\n\tbegin\r\n  a.b 1 # x\u00a0\r\n\r\n \t\r\na.b 2 # y\n\u2003end").filter
        (· != "") =
      (Text.lines "begin\na.b 1 # x\na.b 2 # y\nend\n").filter (· != "") := by
    decide +kernel
  exact ⟨h, ofBytes_congr_layout _ 1 h⟩

end SimStats.Dump
