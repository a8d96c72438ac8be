import SimStats.Proofs.Dump.Count

/-!
# Telling dumps apart

A format is usable if its markers are lines that a reader can see: not blank, without blanks at
their ends and different from each other. Whether dumps can be told apart with them is another
question, which `Format.Delimits` asks of dumps that hold nothing. They can if no marker holds a
line feed. A marker that holds one passes for usable too, but no line is ever equal to it, so not
even one dump is read back (`Format.delimits_iff`).
-/

namespace SimStats

/-- A trimmed text that holds a line feed has a first line that is not blank, and is not the text
itself. -/
theorem Text.exists_lines_of_lineFeed {s : String} (hne : s ≠ "") (htrim : trim s = s)
    (h : '\n' ∈ s.toList) (text : String) :
    ∃ line tail, lines (s ++ text) = line :: tail ∧ line ≠ "" ∧ line ≠ s := by
  obtain ⟨front, rest, hsplit, hfront⟩ := List.eq_append_cons_of_mem h
  have hs : s = String.ofList front ++ "\n" ++ String.ofList rest := by
    refine String.toList_inj.mp ?_
    simp [hsplit]
  have hline : '\n' ∉ (String.ofList front).toList := by
    rw [String.toList_ofList]
    exact hfront
  have hlines : lines (s ++ text) =
      trim (String.ofList front) :: lines (String.ofList rest ++ text) := by
    rw [hs, String.append_assoc]
    exact lines_append_lineFeed hline _
  refine ⟨_, _, hlines, ?_, ?_⟩
  -- the text does not begin with its line feed, because that is a blank
  · obtain ⟨c, chars, hchars, hblank⟩ := exists_cons_of_trim hne htrim
    cases front with
    | nil =>
      obtain ⟨rfl, -⟩ := List.cons.inj (hsplit.symm.trans hchars)
      cases hblank
    | cons d front =>
      obtain ⟨rfl, -⟩ := List.cons.inj (hsplit.symm.trans hchars)
      rw [trim, String.toList_ofList, Ne, String.ofList_eq_empty_iff]
      exact trimChars_cons_ne_nil hblank front
  · intro heq
    have hmem : s ∈ lines (s ++ text) := by
      rw [hlines, heq]
      exact List.mem_cons_self ..
    exact RawLine.lineFeed_not_mem_of_mem_lines hmem h

/-! ## Dumps that hold nothing -/

namespace Format

/-- The begin marker and the end marker, `n` times. -/
def markerLines (f : Format) : Nat → List String
  | 0 => []
  | n + 1 => f.beginMarker :: f.endMarker :: f.markerLines n

/-- The text of `n` dumps that hold nothing. -/
def emptyDumps (f : Format) (n : Nat) : String := Text.unlines (f.markerLines n)

/-- The format tells apart `n` dumps that hold nothing. -/
structure Delimits (f : Format) (n : Nat) : Prop where
  /-- so many dumps are counted -/
  count (files : Files) (path : String) :
    files path = .file (f.emptyDumps n).toUTF8 → Dump.count files f path = .ok n
  /-- each of them is read, and its tree is empty -/
  read (index : Nat) : 1 ≤ index → index ≤ n →
    Dump.ofBytes f index (f.emptyDumps n).toUTF8 = .ok ⟨.empty f.rootName, f.separators⟩
  /-- there are no others -/
  notFound (index : Nat) : n < index →
    Dump.ofBytes f index (f.emptyDumps n).toUTF8 = .error (.dumpNotFound Dump.nameless index)

variable {f : Format}

theorem mem_markerLines {n : Nat} {line : String} (h : line ∈ f.markerLines n) :
    line = f.beginMarker ∨ line = f.endMarker := by
  induction n with
  | zero => cases h
  | succ n ih =>
    rcases List.mem_cons.mp h with rfl | h
    · exact Or.inl rfl
    · rcases List.mem_cons.mp h with rfl | h
      · exact Or.inr rfl
      · exact ih h

theorem count_markerLines (h : f.problem? = none) (n : Nat) :
    (f.markerLines n).count f.beginMarker = n := by
  obtain ⟨-, -, hne⟩ := markers_of_problem? h
  induction n with
  | zero => rfl
  | succ n ih => rw [markerLines, List.count_cons_self, List.count_cons_of_ne hne.symm, ih]

/-- Between a begin marker and the end marker after it there is nothing. -/
theorem content_markerLines (h : f.problem? = none) {n index : Nat} (hpos : 1 ≤ index)
    (hle : index ≤ n) : Dump.content f index (f.markerLines n) = [] := by
  obtain ⟨-, -, hne⟩ := markers_of_problem? h
  induction n generalizing index with
  | zero => omega
  | succ n ih =>
    obtain ⟨k, rfl⟩ : ∃ k, index = k + 1 := ⟨index - 1, by omega⟩
    rw [Dump.content, markerLines, Dump.afterMarker_cons_self]
    cases k with
    | zero =>
      rw [Dump.afterMarker, Dump.bodyLines, List.takeWhile_cons_of_neg (by simp)]
      rfl
    | succ k =>
      rw [Dump.afterMarker_cons_of_ne hne.symm]
      exact ih (Nat.succ_pos k) (Nat.le_of_succ_le_succ hle)

/-! ## Markers of one line -/

/-- If no marker holds a line feed, the lines of the text are the markers. -/
theorem lines_emptyDumps (h : f.problem? = none) (hbegin : '\n' ∉ f.beginMarker.toList)
    (hend : '\n' ∉ f.endMarker.toList) (n : Nat) :
    Text.lines (f.emptyDumps n) = f.markerLines n := by
  obtain ⟨⟨-, htrim⟩, ⟨-, htrim'⟩, -⟩ := markers_of_problem? h
  have hlines : ∀ line ∈ f.markerLines n, '\n' ∉ line.toList := by
    intro line hline
    rcases mem_markerLines hline with rfl | rfl
    · exact hbegin
    · exact hend
  rw [emptyDumps, Text.lines_unlines hlines]
  conv => rhs; rw [← List.map_id (f.markerLines n)]
  refine List.map_congr_left fun line hline => ?_
  rcases mem_markerLines hline with rfl | rfl
  · exact htrim
  · exact htrim'

/-- A text whose lines are the markers is read as it was written. -/
theorem delimits_of_lines (h : f.problem? = none) {n : Nat}
    (hlines : Text.lines (f.emptyDumps n) = f.markerLines n) : f.Delimits n := by
  have hcount := count_markerLines h n
  refine ⟨?_, ?_, ?_⟩
  · intro files path hfile
    rw [Dump.count_toUTF8 h hfile, hlines, hcount]
  · intro index hpos hle
    refine Dump.ofBytes_toUTF8_eq_ok_iff.mpr ⟨Nat.ne_of_gt hpos, h, ?_, rfl, ?_⟩
    · rw [hlines, hcount]
      exact hle
    · rw [hlines, content_markerLines h hpos hle]
      rfl
  · intro index hlt
    have hne := Nat.ne_of_gt (Nat.zero_lt_of_lt hlt)
    rw [Dump.ofBytes_toUTF8, hlines]
    refine (Dump.read_eq_dumpNotFound_iff _ h hne _).mpr ?_
    rw [hcount]
    exact hlt

/-! ## Markers that hold a line feed -/

/-- A begin marker that holds a line feed is not found in any text. -/
theorem Delimits.lineFeed_not_mem_beginMarker {n : Nat} (hf : f.Delimits (n + 1))
    (h : f.problem? = none) : '\n' ∉ f.beginMarker.toList := by
  intro hmem
  let files : Files := fun _ => .file (f.emptyDumps (n + 1)).toUTF8
  have hcount := hf.count files "" rfl
  have hnone : (Text.lines (f.emptyDumps (n + 1))).count f.beginMarker = 0 :=
    List.count_eq_zero.mpr fun hline => RawLine.lineFeed_not_mem_of_mem_lines hline hmem
  rw [Dump.count_toUTF8 h rfl, hnone] at hcount
  cases hcount

/-- A body that begins with an end marker that holds a line feed has content. -/
theorem exists_mem_bodyLines (h : f.problem? = none) (hend : '\n' ∈ f.endMarker.toList)
    (text : String) : ∃ line, line ∈ Dump.bodyLines f (Text.lines (f.endMarker ++ text)) := by
  obtain ⟨-, ⟨hne, htrim⟩, -⟩ := markers_of_problem? h
  obtain ⟨line, tail, hlines, hblank, hother⟩ := Text.exists_lines_of_lineFeed hne htrim hend text
  refine ⟨line, ?_⟩
  rw [hlines, Dump.bodyLines, List.takeWhile_cons_of_pos (by simpa using hother),
    List.filter_cons_of_pos (by simpa using hblank)]
  exact List.mem_cons_self ..

/-- An end marker that holds a line feed is read as a part of the dump, which is then not empty. -/
theorem Delimits.lineFeed_not_mem_endMarker {n : Nat} (hf : f.Delimits (n + 1))
    (h : f.problem? = none) (hbegin : '\n' ∉ f.beginMarker.toList) :
    '\n' ∉ f.endMarker.toList := by
  intro hend
  obtain ⟨⟨-, htrim⟩, -, -⟩ := markers_of_problem? h
  obtain ⟨-, hlines⟩ :=
    Dump.ofLines_of_ofBytes_toUTF8 (hf.read 1 (Nat.le_refl 1) (Nat.le_add_left 1 n))
  rw [emptyDumps, markerLines, Text.unlines, Text.lines_append_lineFeed hbegin, htrim,
    Dump.content, Dump.afterMarker_cons_self, Dump.afterMarker, Text.unlines,
    String.append_assoc] at hlines
  obtain ⟨line, hline⟩ := exists_mem_bodyLines h hend ("\n" ++ Text.unlines (f.markerLines n))
  obtain ⟨l, hl⟩ := hlines.grammatical line hline
  exact List.not_mem_nil (hlines.mem_leaves_iff.mpr ⟨line, hline, l, hl, rfl, rfl⟩)

/-- **Which usable formats tell dumps apart.** With a usable format, dumps that hold nothing are
counted and read back as they were written exactly if there are none or neither marker holds a line
feed. -/
theorem delimits_iff (hformat : f.validate = .ok ()) (n : Nat) :
    f.Delimits n ↔
      n = 0 ∨ ('\n' ∉ f.beginMarker.toList ∧ '\n' ∉ f.endMarker.toList) := by
  have h := problem?_eq_none_iff.mpr hformat
  constructor
  · intro hf
    cases n with
    | zero => exact Or.inl rfl
    | succ n =>
      have hbegin := hf.lineFeed_not_mem_beginMarker h
      exact Or.inr ⟨hbegin, hf.lineFeed_not_mem_endMarker h hbegin⟩
  · rintro (rfl | ⟨hbegin, hend⟩)
    · exact delimits_of_lines h rfl
    · exact delimits_of_lines h (lines_emptyDumps h hbegin hend n)

/-- Markers that hold other control characters and blanks. -/
theorem delimits_three_dumps :
    (Format.mk "a\r\u2028b" "a\t\u0085\u0000" ["."] "all").validate = .ok () ∧
      (Format.mk "a\r\u2028b" "a\t\u0085\u0000" ["."] "all").Delimits 3 := by
  have hformat : (Format.mk "a\r\u2028b" "a\t\u0085\u0000" ["."] "all").validate = .ok () := by
    decide +kernel
  exact ⟨hformat, (delimits_iff hformat 3).mpr (Or.inr (by decide +kernel))⟩

/-- A begin marker with a line feed inside is accepted, but opens no dump. -/
theorem exists_not_delimits :
    ¬ ∀ (f : Format) (n : Nat), f.validate = .ok () → f.Delimits n := by
  intro h
  let f : Format := ⟨"a\nb", "end", ["."], "all"⟩
  have hformat : f.validate = .ok () := by decide +kernel
  have hcount := (h f 1 hformat).count (fun _ => .file (f.emptyDumps 1).toUTF8) "" rfl
  -- no dump is counted
  revert hcount
  decide +kernel

end Format

end SimStats
