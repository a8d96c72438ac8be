import SimStats.Proofs.Dump.Isolation

/-!
# The line that decides

A reader goes through the lines of a file one after the other, first to the begin marker of the dump
it looks for and then through the dump. What it comes to is decided by the first line that cannot be
read, that is refused or that closes the dump, and by the end of the lines if there is none of these
(`Dump.exists_stop`). Up to there the lines leave everything open (`Dump.Undecided`): either there
have been too few begin markers, or the lines after the last one looked for have all gone into a
tree (`Dump.Inside`).

`Dump.Outcome` lists what a reader can come to, and `Dump.read_eq_iff` says that it comes to just
that. No rule looks at what follows the line that decides.
-/

namespace SimStats

namespace Dump

variable {origin : String} {format : Format} {index : Nat}

/-! ## Where a reader stands -/

/-- After the lines a reader is in the dump it looks for, and what it has read of it makes the
tree `g`. -/
structure Inside (format : Format) (index : Nat) (lines : List String) (g : Group) : Prop where
  /-- there have been so many begin markers -/
  opened : index ≤ lines.count format.beginMarker
  /-- the dump has not been closed -/
  unclosed : format.endMarker ∉ afterMarker format.beginMarker index lines
  /-- none of its lines has been refused -/
  added : Group.addEach format.separators (.empty format.rootName)
    ((afterMarker format.beginMarker index lines).filter (· != "")) = (g, [])

/-- The lines do not decide what a reader comes to: it is still before the dump it looks for, or in
it. -/
def Undecided (format : Format) (index : Nat) (lines : List String) : Prop :=
  lines.count format.beginMarker < index ∨ ∃ g, Inside format index lines g

/-- After lines that do not decide it, the given line does: it cannot be read, or it closes the
dump, or it is refused. -/
def Decides (format : Format) (index : Nat) (before : List String) : RawLine → Prop
  | .error _ => Undecided format index before
  | .ok line => ∃ g, Inside format index before g ∧
      (line = format.endMarker ∨ line ≠ "" ∧ line ≠ format.endMarker ∧
        ∃ cause, g.addLine format.separators line = .error cause)

/-! ## One line further -/

/-- Lines after the marker stay after it when further ones follow. -/
theorem afterMarker_append {marker : String} {n : Nat} {lines : List String}
    (h : n ≤ lines.count marker) (more : List String) :
    afterMarker marker n (lines ++ more) = afterMarker marker n lines ++ more := by
  induction lines generalizing n with
  | nil =>
    obtain rfl := Nat.le_zero.mp h
    rfl
  | cons line lines ih =>
    cases n with
    | zero => rfl
    | succ n =>
      rw [List.cons_append]
      by_cases hline : line = marker
      · subst hline
        rw [List.count_cons_self] at h
        rw [afterMarker_cons_self, afterMarker_cons_self, ih (Nat.le_of_succ_le_succ h)]
      · rw [List.count_cons_of_ne hline] at h
        rw [afterMarker_cons_of_ne hline, afterMarker_cons_of_ne hline, ih h]

/-- Nothing comes after the last marker that is looked for if it is the last line. -/
theorem afterMarker_concat {marker : String} {lines : List String} :
    afterMarker marker (lines.count marker + 1) (lines ++ [marker]) = [] := by
  induction lines with
  | nil => exact afterMarker_cons_self marker 0 []
  | cons line lines ih =>
    rw [List.cons_append]
    by_cases hline : line = marker
    · subst hline
      rw [List.count_cons_self, afterMarker_cons_self, ih]
    · rw [List.count_cons_of_ne hline, afterMarker_cons_of_ne hline, ih]

/-- A line before the dump leaves a reader there or takes it into the dump. -/
theorem undecided_of_count_lt {before : List String} (h : before.count format.beginMarker < index)
    (line : String) : Undecided format index (before ++ [line]) := by
  by_cases hline : line = format.beginMarker
  · subst hline
    have hcount : (before ++ [format.beginMarker]).count format.beginMarker =
        before.count format.beginMarker + 1 := by
      simp
    by_cases hlast : before.count format.beginMarker + 1 = index
    · subst hlast
      refine Or.inr ⟨.empty format.rootName, Nat.le_of_eq hcount.symm, ?_, ?_⟩
      · rw [afterMarker_concat]
        exact List.not_mem_nil
      · rw [afterMarker_concat]
        rfl
    · refine Or.inl ?_
      omega
  · refine Or.inl ?_
    rw [List.count_append, List.count_singleton, if_neg (by simpa using hline)]
    exact h

/-- A blank line in the dump adds nothing. -/
theorem Inside.blank {before : List String} {g : Group} (h : Inside format index before g)
    (hend : format.endMarker ≠ "") : Inside format index (before ++ [""]) g := by
  have hafter := afterMarker_append h.opened [""]
  refine ⟨?_, ?_, ?_⟩
  · rw [List.count_append]
    exact Nat.le_add_right_of_le h.opened
  · rw [hafter]
    simp [h.unclosed, hend]
  · rw [hafter, List.filter_append, List.filter_cons_of_neg (by simp), List.filter_nil,
      List.append_nil]
    exact h.added

/-- Any other line that the tree takes is added to it. -/
theorem Inside.add {before : List String} {g g' : Group} (h : Inside format index before g)
    {line : String} (hblank : line ≠ "") (hline : line ≠ format.endMarker)
    (hadd : g.addLine format.separators line = .ok g') :
    Inside format index (before ++ [line]) g' := by
  have hafter := afterMarker_append h.opened [line]
  refine ⟨?_, ?_, ?_⟩
  · rw [List.count_append]
    exact Nat.le_add_right_of_le h.opened
  · rw [hafter]
    simp [h.unclosed, Ne.symm hline]
  · rw [hafter, List.filter_append, List.filter_cons_of_pos (by simp [hblank]), List.filter_nil,
      Group.addEach_append h.added, Group.addEach, hadd]
    rfl

/-- **One line.** After lines that do not decide what a reader comes to, the next one decides it or
leaves it open. -/
theorem Undecided.step (hend : format.endMarker ≠ "") {before : List String}
    (h : Undecided format index before) (line : RawLine) :
    Decides format index before line ∨
      ∃ text, line = .ok text ∧ Undecided format index (before ++ [text]) := by
  rcases line with fault | line
  · exact Or.inl h
  · rcases h with hcount | ⟨g, hg⟩
    · exact Or.inr ⟨line, rfl, undecided_of_count_lt hcount line⟩
    · by_cases hblank : line = ""
      · subst hblank
        exact Or.inr ⟨"", rfl, Or.inr ⟨g, hg.blank hend⟩⟩
      · by_cases hclose : line = format.endMarker
        · exact Or.inl ⟨g, hg, Or.inl hclose⟩
        · rcases hadd : g.addLine format.separators line with cause | g'
          · exact Or.inl ⟨g, hg, Or.inr ⟨hblank, hclose, cause, hadd⟩⟩
          · exact Or.inr ⟨line, rfl, Or.inr ⟨g', hg.add hblank hclose hadd⟩⟩

/-- **All lines.** Lines leave open what a reader comes to, or there is a first one that decides
it. -/
theorem exists_stop (hend : format.endMarker ≠ "") (hindex : index ≠ 0) (raw : List RawLine) :
    (∃ lines, raw = lines.map .ok ∧ Undecided format index lines) ∨
      ∃ before line after, raw = before.map .ok ++ line :: after ∧
        Decides format index before line := by
  -- the lines that were looked at go from the list to `before`
  have hrest : ∀ (rest : List RawLine) (before : List String), Undecided format index before →
      (∃ lines, before.map .ok ++ rest = lines.map .ok ∧ Undecided format index lines) ∨
        ∃ front line after, before.map .ok ++ rest = front.map .ok ++ line :: after ∧
          Decides format index front line := by
    intro rest
    induction rest with
    | nil => exact fun before h => Or.inl ⟨before, List.append_nil _, h⟩
    | cons line rest ih =>
      intro before h
      rcases h.step hend line with hdecides | ⟨text, rfl, hnext⟩
      · exact Or.inr ⟨before, line, rest, rfl, hdecides⟩
      · have hmove : before.map Except.ok ++ (.ok text : RawLine) :: rest =
            (before ++ [text]).map .ok ++ rest := by
          simp
        rw [hmove]
        exact ih _ hnext
  exact hrest raw [] (Or.inl (Nat.pos_of_ne_zero hindex))

/-! ## What a reader comes to -/

/-- What a reader can come to that looks for dump number `index`. -/
inductive Outcome (origin : String) (format : Format) (index : Nat) :
    List RawLine → Except Error Dump → Prop where
  /-- a line cannot be read -/
  | unreadable {before : List String} {fault : Fault} (after : List RawLine) :
    Undecided format index before →
    Outcome origin format index (before.map .ok ++ .error fault :: after)
      (.error (.unreadable origin fault))
  /-- a line of the dump is refused -/
  | refused {before : List String} {g : Group} {line : String} {cause : LineError}
      (after : List RawLine) :
    Inside format index before g → line ≠ "" → line ≠ format.endMarker →
    g.addLine format.separators line = .error cause →
    Outcome origin format index (before.map .ok ++ .ok line :: after)
      (.error (.lineRefused line cause))
  /-- the dump is closed -/
  | closed {before : List String} {g : Group} (after : List RawLine) :
    Inside format index before g →
    Outcome origin format index (before.map .ok ++ .ok format.endMarker :: after)
      (.ok ⟨g, format.separators⟩)
  /-- the lines end before the dump -/
  | missing {lines : List String} :
    lines.count format.beginMarker < index →
    Outcome origin format index (lines.map .ok) (.error (.dumpNotFound origin index))
  /-- the lines end in the dump -/
  | ended {lines : List String} {g : Group} :
    Inside format index lines g →
    Outcome origin format index (lines.map .ok) (.ok ⟨g, format.separators⟩)

/-- What follows the line that decides does not matter. -/
theorem Decides.exists_outcome {before : List String} {line : RawLine}
    (h : Decides format index before line) :
    ∃ r, ∀ after, Outcome origin format index (before.map .ok ++ line :: after) r := by
  cases line with
  | error fault => exact ⟨_, fun after => .unreadable after h⟩
  | ok line =>
    obtain ⟨g, hg, rfl | ⟨hblank, hclose, cause, hadd⟩⟩ := h
    · exact ⟨_, fun after => .closed after hg⟩
    · exact ⟨_, fun after => .refused after hg hblank hclose hadd⟩

theorem exists_outcome (origin : String) (hend : format.endMarker ≠ "") (hindex : index ≠ 0)
    (raw : List RawLine) : ∃ r, Outcome origin format index raw r := by
  rcases exists_stop hend hindex raw with ⟨lines, rfl, hcount | ⟨g, hg⟩⟩ |
    ⟨before, line, after, rfl, hdecides⟩
  · exact ⟨_, .missing hcount⟩
  · exact ⟨_, .ended hg⟩
  · obtain ⟨r, hr⟩ := hdecides.exists_outcome
    exact ⟨r, hr after⟩

/-- Lines that are all added to the tree are behind the reader. -/
theorem readBody_of_added {g g' : Group} {lines : List String} (hclose : format.endMarker ∉ lines)
    (hadd : Group.addEach format.separators g (lines.filter (· != "")) = (g', []))
    (rest : List RawLine) :
    readBody origin format g (lines.map .ok ++ rest) = readBody origin format g' rest := by
  induction lines generalizing g with
  | nil =>
    obtain rfl := congrArg Prod.fst hadd
    rfl
  | cons line lines ih =>
    rw [List.mem_cons, not_or] at hclose
    rw [List.map_cons, List.cons_append, readBody]
    by_cases hblank : line = ""
    · subst hblank
      rw [List.filter_cons_of_neg (by simp)] at hadd
      rw [if_pos rfl, ih hclose.2 hadd]
    · rw [List.filter_cons_of_pos (by simp [hblank]), Group.addEach] at hadd
      rw [if_neg hblank, if_neg (Ne.symm hclose.1)]
      rcases hline : g.addLine format.separators line with cause | next
      · rw [hline] at hadd
        cases congrArg Prod.snd hadd
      · rw [hline] at hadd
        exact ih hclose.2 hadd

/-- In the dump a reader goes on from the tree it has. -/
theorem Inside.read_append (hformat : format.problem? = none) (hindex : index ≠ 0)
    {before : List String} {g : Group} (h : Inside format index before g) (rest : List RawLine) :
    read origin format index (before.map .ok ++ rest) =
      (readBody origin format g rest).map fun root =>
        { root, separators := format.separators } := by
  rw [read, if_neg hindex, hformat]
  dsimp only
  rw [seek_map_ok_append, if_pos h.opened]
  dsimp only
  rw [readBody_of_added h.unclosed h.added]

theorem Outcome.read_eq (hformat : format.problem? = none) (hindex : index ≠ 0)
    {raw : List RawLine} {r : Except Error Dump} (h : Outcome origin format index raw r) :
    read origin format index raw = r := by
  cases h with
  | unreadable after hbefore =>
    rcases hbefore with hcount | ⟨g, hg⟩
    · obtain ⟨k, rfl⟩ := Nat.exists_eq_add_of_lt hcount
      rw [read, if_neg hindex, hformat]
      dsimp only
      rw [seek_append]
      rfl
    · rw [hg.read_append hformat hindex]
      rfl
  | refused after hg hblank hclose hadd =>
    rw [hg.read_append hformat hindex, readBody, if_neg hblank, if_neg hclose, hadd]
    rfl
  | closed after hg =>
    have hend := Format.endMarker_ne_empty hformat
    rw [hg.read_append hformat hindex, readBody, if_neg hend, if_pos rfl]
    rfl
  | missing hcount => rw [read_map_ok origin hformat hindex, if_neg (Nat.not_le.mpr hcount)]
  | ended hg =>
    rw [← List.append_nil (List.map _ _), hg.read_append hformat hindex]
    rfl

/-- With a usable format a reader comes to what the rules say, and to nothing else. -/
theorem read_eq_iff (hformat : format.problem? = none) (hindex : index ≠ 0) {raw : List RawLine}
    {r : Except Error Dump} :
    read origin format index raw = r ↔ Outcome origin format index raw r := by
  constructor
  · intro h
    obtain ⟨r', hr'⟩ := exists_outcome origin (Format.endMarker_ne_empty hformat) hindex raw
    obtain rfl := (hr'.read_eq hformat hindex).symm.trans h
    exact hr'
  · exact fun h => h.read_eq hformat hindex

/-- Number zero is refused before anything else. -/
theorem read_eq_invalidDumpIndex_iff {raw : List RawLine} :
    read origin format index raw = .error .invalidDumpIndex ↔ index = 0 := by
  constructor
  · intro h
    by_contra hindex
    rcases hformat : format.problem? with _ | cause
    · cases (read_eq_iff hformat hindex).mp h
    · simp [read, hindex, hformat] at h
  · rintro rfl
    rw [read, if_pos rfl]

/-- Then a format that cannot be used is. -/
theorem read_eq_config_iff {raw : List RawLine} {cause : ConfigError} :
    read origin format index raw = .error (.config cause) ↔
      index ≠ 0 ∧ format.validate = .error cause := by
  by_cases hindex : index = 0
  · simp [read, hindex]
  · rcases hformat : format.problem? with _ | problem
    · constructor
      · intro h
        cases (read_eq_iff hformat hindex).mp h
      · rintro ⟨-, h⟩
        rw [Format.problem?_eq_none_iff.mp hformat] at h
        cases h
    · simp [read, hindex, hformat, Format.validate]

/-- No dump is read if the first line cannot be. -/
theorem read_error_ne_ok {fault : Fault} {rest : List RawLine} {d : Dump} :
    read origin format index (.error fault :: rest) ≠ .ok d := by
  intro h
  by_cases hindex : index = 0
  · rw [read_eq_invalidDumpIndex_iff.mpr hindex] at h
    cases h
  · obtain ⟨n, rfl⟩ := Nat.exists_eq_succ_of_ne_zero hindex
    rw [read, if_neg hindex, seek] at h
    split at h
    · cases h
    · cases h

/-- What cannot be read is a line of the file. -/
theorem mem_of_read_eq_unreadable {raw : List RawLine} {path : String} {fault : Fault}
    (h : read origin format index raw = .error (.unreadable path fault)) : .error fault ∈ raw := by
  by_cases hindex : index = 0
  · rw [read_eq_invalidDumpIndex_iff.mpr hindex] at h
    cases h
  · rcases hformat : format.problem? with _ | cause
    · cases (read_eq_iff hformat hindex).mp h with
      | unreadable => exact List.mem_append_cons_self
    · have hconfig : read origin format index raw = .error (.config cause) :=
        read_eq_config_iff.mpr ⟨hindex, by rw [Format.validate, hformat]⟩
      rw [hconfig] at h
      cases h

/-- The result of looking for dump number `index` in the lines, case by case. -/
structure Decided (origin : String) (format : Format) (index : Nat) (raw : List RawLine)
    (r : Except Error Dump) : Prop where
  /-- the scan goes through all lines or stops at a first one that decides -/
  stop : (∃ lines, raw = lines.map .ok ∧ Undecided format index lines) ∨
    ∃ before line after, raw = before.map .ok ++ line :: after ∧ Decides format index before line
  /-- something cannot be read exactly if the scan comes to a line that cannot -/
  unreadable (path : String) (fault : Fault) : r = .error (.unreadable path fault) ↔
    path = origin ∧ ∃ before after, raw = before.map .ok ++ .error fault :: after ∧
      Undecided format index before
  /-- there is no such dump exactly if all lines can be read and there are too few begin markers -/
  notFound (path : String) (n : Nat) : r = .error (.dumpNotFound path n) ↔
    path = origin ∧ n = index ∧
      ∃ lines : List String, raw = lines.map .ok ∧ lines.count format.beginMarker < index
  /-- a line is refused exactly if the scan comes to it in the dump and the tree of the lines before
  refuses it -/
  refused (line : String) (cause : LineError) : r = .error (.lineRefused line cause) ↔
    ∃ before after g, raw = before.map .ok ++ .ok line :: after ∧ Inside format index before g ∧
      line ≠ "" ∧ line ≠ format.endMarker ∧ g.addLine format.separators line = .error cause
  /-- a dump is read exactly if the scan comes to its end -/
  read (d : Dump) : r = .ok d ↔ d.separators = format.separators ∧
    ∃ lines, Inside format index lines d.root ∧
      (raw = lines.map .ok ∨ ∃ after, raw = lines.map .ok ++ .ok format.endMarker :: after)
  /-- there is no other result -/
  otherwise : (∀ path fault, r ≠ .error (.unreadable path fault)) →
    (∀ path n, r ≠ .error (.dumpNotFound path n)) →
    (∀ line cause, r ≠ .error (.lineRefused line cause)) → ∃ d, r = .ok d

theorem read_decided (origin : String) (hformat : format.problem? = none) (hindex : index ≠ 0)
    (raw : List RawLine) : Decided origin format index raw (read origin format index raw) where
  stop := exists_stop (Format.endMarker_ne_empty hformat) hindex raw
  unreadable path fault := by
    rw [read_eq_iff hformat hindex]
    constructor
    · rintro ⟨⟩
      exact ⟨rfl, _, _, rfl, ‹_›⟩
    · rintro ⟨rfl, before, after, rfl, h⟩
      exact .unreadable after h
  notFound path n := by
    rw [read_eq_iff hformat hindex]
    constructor
    · rintro ⟨⟩
      exact ⟨rfl, rfl, _, rfl, ‹_›⟩
    · rintro ⟨rfl, rfl, lines, rfl, h⟩
      exact .missing h
  refused line cause := by
    rw [read_eq_iff hformat hindex]
    constructor
    · rintro ⟨⟩
      exact ⟨_, _, _, rfl, ‹_›, ‹_›, ‹_›, ‹_›⟩
    · rintro ⟨before, after, g, rfl, hg, hblank, hclose, hadd⟩
      exact .refused after hg hblank hclose hadd
  read d := by
    rw [read_eq_iff hformat hindex]
    constructor
    · rintro ⟨⟩
      · exact ⟨rfl, _, ‹_›, Or.inr ⟨_, rfl⟩⟩
      · exact ⟨rfl, _, ‹_›, Or.inl rfl⟩
    · obtain ⟨root, separators⟩ := d
      rintro ⟨rfl, lines, hg, rfl | ⟨after, rfl⟩⟩
      · exact .ended hg
      · exact .closed after hg
  otherwise := by
    obtain ⟨r, hr⟩ := exists_outcome origin (Format.endMarker_ne_empty hformat) hindex raw
    rw [hr.read_eq hformat hindex]
    intro hunreadable hnotFound hrefused
    cases hr with
    | unreadable => exact absurd rfl (hunreadable _ _)
    | refused => exact absurd rfl (hrefused _ _)
    | closed => exact ⟨_, rfl⟩
    | missing => exact absurd rfl (hnotFound _ _)
    | ended => exact ⟨_, rfl⟩

/-! ## Bytes -/

/-- What follows the line that decides does not matter, whether or not anything is read. -/
theorem ofBytes_congr_of_decides {lines : List (List UInt8)} (hlines : ∀ line ∈ lines, 10 ∉ line)
    {before : List String} {last : RawLine}
    (hraw : lines.map RawLine.ofBytes = before.map .ok ++ [last])
    (hlast : Decides format index before last) (rest rest' : ByteArray) :
    ofBytes format index ((RawLine.join lines).toByteArray ++ rest) =
      ofBytes format index ((RawLine.join lines).toByteArray ++ rest') := by
  by_cases hindex : index = 0
  · have hzero : ∀ bytes, ofBytes format index bytes = .error .invalidDumpIndex :=
      fun _ => read_eq_invalidDumpIndex_iff.mpr hindex
    rw [hzero, hzero]
  · rcases hformat : format.problem? with _ | cause
    · obtain ⟨r, hr⟩ : ∃ r, ∀ after, Outcome nameless format index
          (before.map .ok ++ last :: after) r := hlast.exists_outcome
      have hread : ∀ rest : ByteArray,
          ofBytes format index ((RawLine.join lines).toByteArray ++ rest) = r := by
        intro rest
        rw [ofBytes, ByteArray.data_append, Array.toList_append, List.toList_data_toByteArray,
          RawLine.splitBytes_join_append hlines, List.map_append, hraw, List.append_assoc,
          List.singleton_append]
        exact (hr _).read_eq hformat hindex
      rw [hread, hread]
    · have hvalidate : format.validate = .error cause := by
        rw [Format.validate, hformat]
      have hconfig : ∀ bytes, ofBytes format index bytes = .error (.config cause) :=
        fun _ => read_eq_config_iff.mpr ⟨hindex, hvalidate⟩
      rw [hconfig, hconfig]

/-- **What reading bytes comes to.** Number zero is refused first, then a format that cannot be
used, and neither depends on the bytes. Otherwise the first line that decides what is read gives the
result: a line that is no text, a content line that is refused, or the end marker of the dump; and
the end of the bytes gives it if there is no such line. What follows the line that decides does not
matter. -/
theorem ofBytes_decided (format : Format) (index : Nat) (bytes : ByteArray) :
    (ofBytes format index bytes = .error .invalidDumpIndex ↔ index = 0) ∧
    (∀ cause, ofBytes format index bytes = .error (.config cause) ↔
      index ≠ 0 ∧ format.validate = .error cause) ∧
    (index ≠ 0 → format.validate = .ok () →
      Decided nameless format index
        ((RawLine.splitBytes bytes.data.toList).map RawLine.ofBytes)
        (ofBytes format index bytes)) ∧
    ∀ (lines : List (List UInt8)) (before : List String) (last : RawLine),
      (∀ line ∈ lines, 10 ∉ line) → lines.map RawLine.ofBytes = before.map .ok ++ [last] →
      Decides format index before last → ∀ rest rest' : ByteArray,
        ofBytes format index ((RawLine.join lines).toByteArray ++ rest) =
          ofBytes format index ((RawLine.join lines).toByteArray ++ rest') := by
  refine ⟨read_eq_invalidDumpIndex_iff, fun _ => read_eq_config_iff, ?_, ?_⟩
  · intro hindex hformat
    exact read_decided nameless (Format.problem?_eq_none_iff.mpr hformat) hindex _
  · intro lines before last hlines hraw hlast rest rest'
    exact ofBytes_congr_of_decides hlines hraw hlast rest rest'

/-- A line that is refused, before a line that is no text or after which nothing comes. -/
theorem ofBytes_decided_refused :
    (Format.mk "begin" "end" ["."] "top").validate = .ok () ∧
      Inside ⟨"begin", "end", ["."], "top"⟩ 1 ["end", "begin", "", "a 1 # x"]
        ⟨"top", .stat ⟨"a", .int 1, "x"⟩ .nil⟩ ∧
      ofBytes ⟨"begin", "end", ["."], "top"⟩ 1
          ("end\n begin\r\n\na 1 # x\na.b 2 # y\n".toUTF8 ++ ⟨#[0xFF]⟩) =
        .error (.lineRefused "a.b 2 # y" (.conflictingKey "a")) ∧
      ofBytes ⟨"begin", "end", ["."], "top"⟩ 1
          ("end\n begin\r\n\na 1 # x\na.b 2 # y\n".toUTF8 ++ ⟨#[0xFF]⟩) =
        ofBytes ⟨"begin", "end", ["."], "top"⟩ 1
          ("end\n begin\r\n\na 1 # x\na.b 2 # y\n".toUTF8 ++ ⟨#[]⟩) := by
  have hformat : (Format.mk "begin" "end" ["."] "top").validate = .ok () := by decide +kernel
  have hinside : Inside ⟨"begin", "end", ["."], "top"⟩ 1 ["end", "begin", "", "a 1 # x"]
      ⟨"top", .stat ⟨"a", .int 1, "x"⟩ .nil⟩ := by
    refine ⟨?_, ?_, ?_⟩ <;> decide +kernel
  have hdecides : Decides ⟨"begin", "end", ["."], "top"⟩ 1 ["end", "begin", "", "a 1 # x"]
      (.ok "a.b 2 # y") :=
    ⟨_, hinside, Or.inr ⟨by decide, by decide, .conflictingKey "a", by decide +kernel⟩⟩
  have hbytes : "end\n begin\r\n\na 1 # x\na.b 2 # y\n".toUTF8 =
      (RawLine.join ["end".toUTF8.toList, " begin\r".toUTF8.toList, [],
        "a 1 # x".toUTF8.toList, "a.b 2 # y".toUTF8.toList]).toByteArray := by
    decide +kernel
  obtain ⟨-, -, hdecided, hfollowing⟩ := ofBytes_decided ⟨"begin", "end", ["."], "top"⟩ 1
    ("end\n begin\r\n\na 1 # x\na.b 2 # y\n".toUTF8 ++ ⟨#[0xFF]⟩)
  have hrefused := (hdecided (by decide) hformat).refused "a.b 2 # y" (.conflictingKey "a")
  refine ⟨hformat, hinside, hrefused.mpr ⟨_, [.error .notText], _, ?_, hinside, ?_⟩, ?_⟩
  · decide +kernel
  · decide +kernel
  · rw [hbytes]
    refine hfollowing _ _ _ ?_ ?_ hdecides _ _
    · decide +kernel
    · decide +kernel

end Dump

end SimStats
