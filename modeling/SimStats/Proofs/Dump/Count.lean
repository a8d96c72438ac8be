import SimStats.Proofs.Dump.Content

/-!
# Counting dumps and reading them

Counting goes through all lines of a file, while reading stops at the begin marker it looks for and
then takes the lines for a body. Both see the same markers: in a file that is text, dump number
`index` is found exactly if so many dumps are counted, and a dump that is found is read or one of
its lines is refused (`Dump.load_of_count`). This does not depend on the dumps being closed, since
a begin marker inside a dump counts as one.
-/

namespace SimStats

/-- The lines of a file that is text can all be read. -/
theorem Entry.lines_toUTF8 (text : String) :
    (Entry.file text.toUTF8).lines = .ok ((Text.lines text).map .ok) := by
  rw [lines, RawLine.splitBytes_toUTF8]

namespace Dump

/-! ## Files that are text -/

variable {files : Files} {path : String}

/-- Counting finds every line that is the marker. -/
theorem countMarkers_map_ok (marker : String) (lines : List String) :
    countMarkers marker (lines.map .ok) = .ok (lines.count marker) := by
  induction lines with
  | nil => rfl
  | cons line lines ih =>
    rw [List.map_cons, countMarkers, ih]
    by_cases h : line = marker
    · rw [h, List.count_cons_self]
      simp [Except.map]
    · rw [List.count_cons_of_ne h]
      simp [Except.map, h]

theorem count_toUTF8 {format : Format} (hformat : format.problem? = none) {text : String}
    (hfile : files path = .file text.toUTF8) :
    count files format path = .ok ((Text.lines text).count format.beginMarker) := by
  have hmarkers := countMarkers_map_ok format.beginMarker (Text.lines text)
  rw [count, hformat, hfile, Entry.lines_toUTF8]
  exact congrArg (Except.mapError _) hmarkers

theorem load_toUTF8 {text : String} (hfile : files path = .file text.toUTF8) (format : Format)
    (index : Nat) :
    load files format path index = read path format index ((Text.lines text).map .ok) := by
  rw [load, hfile, Entry.lines_toUTF8]

/-! ## What can be wrong with a body -/

/-- A body that is text is refused only for one of its lines. -/
theorem exists_lineRefused_of_readBody {origin : String} {format : Format} {g : Group}
    {lines : List String} {e : Error} (h : readBody origin format g (lines.map .ok) = .error e) :
    ∃ line ∈ lines, ∃ cause, e = .lineRefused line cause := by
  induction lines generalizing g with
  | nil => cases h
  | cons line lines ih =>
    have hlater : ∀ {g : Group}, readBody origin format g (lines.map .ok) = .error e →
        ∃ refused ∈ line :: lines, ∃ cause, e = .lineRefused refused cause := by
      intro g hg
      obtain ⟨refused, hmem, hcause⟩ := ih hg
      exact ⟨refused, List.mem_cons_of_mem _ hmem, hcause⟩
    rw [List.map_cons, readBody] at h
    split at h
    · exact hlater h
    · split at h
      · cases h
      · split at h
        · next cause _ =>
          exact ⟨line, List.mem_cons_self .., cause, (Except.error.inj h).symm⟩
        · exact hlater h

/-! ## Counting and reading -/

/-- A dump that is there is read, or one of its lines is refused. -/
theorem read_of_le_count (origin : String) {format : Format} (hformat : format.problem? = none)
    {index : Nat} (hindex : index ≠ 0) {lines : List String}
    (hcount : index ≤ lines.count format.beginMarker) :
    (∃ d, read origin format index (lines.map .ok) = .ok d) ∨ ∃ line cause,
      read origin format index (lines.map .ok) = .error (.lineRefused line cause) := by
  rw [read_map_ok origin hformat hindex, if_pos hcount]
  rcases hbody : readBody origin format _ _ with e | root
  · obtain ⟨line, -, cause, rfl⟩ := exists_lineRefused_of_readBody hbody
    exact Or.inr ⟨line, cause, rfl⟩
  · exact Or.inl ⟨_, rfl⟩

/-- A dump is not found exactly if there are fewer markers. -/
theorem read_eq_dumpNotFound_iff (origin : String) {format : Format}
    (hformat : format.problem? = none) {index : Nat} (hindex : index ≠ 0) (lines : List String) :
    read origin format index (lines.map .ok) = .error (.dumpNotFound origin index) ↔
      lines.count format.beginMarker < index := by
  constructor
  · intro h
    by_contra hcount
    rcases read_of_le_count origin hformat hindex (Nat.not_lt.mp hcount) with
      ⟨d, hd⟩ | ⟨line, cause, he⟩
    · rw [hd] at h
      cases h
    · rw [he] at h
      cases h
  · intro hcount
    rw [read_map_ok origin hformat hindex, if_neg (Nat.not_le.mpr hcount)]

/-- **Counting and reading agree.** In a file that is text, a usable format counts some number of
dumps. Those with a greater number are not found, and each of the others is found: it is read, or
one of its lines is refused. -/
theorem load_of_count {format : Format} (hformat : format.validate = .ok ()) {content : ByteArray}
    (hfile : files path = .file content) (htext : content.IsValidUTF8) :
    ∃ n, count files format path = .ok n ∧
      ∀ index, 1 ≤ index →
        (load files format path index = .error (.dumpNotFound path index) ↔ n < index) ∧
        (index ≤ n →
          (∃ d, load files format path index = .ok d) ∨
            ∃ line cause, load files format path index = .error (.lineRefused line cause)) := by
  have hproblem := Format.problem?_eq_none_iff.mpr hformat
  have hbytes : files path = .file (String.fromUTF8 content htext).toUTF8 := hfile
  refine ⟨_, count_toUTF8 hproblem hbytes, ?_⟩
  intro index hindex
  have hne := Nat.ne_of_gt hindex
  rw [load_toUTF8 hbytes]
  exact ⟨read_eq_dumpNotFound_iff path hproblem hne _, read_of_le_count path hproblem hne⟩

/-- Two begin markers, of which the second stands inside the dump that the first one opens, and of
which neither dump is closed. -/
theorem load_of_count_unclosed :
    let files : Files := fun _ => .file "begin\r\na.b 1 # x\n begin\na 2 # y".toUTF8
    let format : Format := ⟨"begin", "end", ["."], "all"⟩
    format.validate = .ok () ∧
      "begin\r\na.b 1 # x\n begin\na 2 # y".toUTF8.IsValidUTF8 ∧
      count files format "s" = .ok 2 ∧
      (∀ index, 2 < index → load files format "s" index = .error (.dumpNotFound "s" index)) ∧
      ∀ index, 1 ≤ index → index ≤ 2 →
        (∃ d, load files format "s" index = .ok d) ∨
          ∃ line cause, load files format "s" index = .error (.lineRefused line cause) := by
  intro files format
  have hformat : format.validate = .ok () := by decide +kernel
  have htext := String.isValidUTF8 "begin\r\na.b 1 # x\n begin\na 2 # y"
  have hcount : count files format "s" = .ok 2 := by decide +kernel
  have hfile : files "s" = .file "begin\r\na.b 1 # x\n begin\na 2 # y".toUTF8 := rfl
  obtain ⟨n, hn, h⟩ := load_of_count hformat hfile htext
  obtain rfl : n = 2 := Except.ok.inj (hn.symm.trans hcount)
  refine ⟨hformat, htext, hcount, ?_, ?_⟩
  · intro index hindex
    exact (h index (Nat.le_of_lt (Nat.lt_of_succ_lt hindex))).1.mpr hindex
  · intro index hpos hindex
    exact (h index hpos).2 hindex

end Dump

end SimStats
