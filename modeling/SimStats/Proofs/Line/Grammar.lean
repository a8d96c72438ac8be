import SimStats.Proofs.Line.Columns

/-!
# The grammar of content lines

A content line is a name, blanks, a value, blanks, further columns that hold no `#`, then a `#` and
a description. `Line.Parts` is a line taken apart in this way. There is at most one way
(`Line.Parts.eq_of_text_eq`), because a column ends at the first blank and a gap before the first
character that is none, and the reader finds it if there is one (`Line.fields?_eq_some_iff`).

So the parts decide what a line reads as (`Line.parse_grammar`). A line without parts is malformed.
In a line that has them the name is looked at before the value: a name with an empty segment is
refused whatever the value is.
-/

namespace SimStats

/-- A text of which the front is all of one kind and the rest does not begin with that kind is taken
apart between the two. -/
theorem Text.span_append {f : Char → Bool} {s t : List Char} (hs : ∀ c ∈ s, f c = true)
    (ht : ∀ c ∈ t.head?, f c = false) :
    (s ++ t).takeWhile f = s ∧ (s ++ t).dropWhile f = t := by
  rw [List.takeWhile_append_of_pos hs, List.dropWhile_append_of_pos hs]
  cases t with
  | nil => exact ⟨List.append_nil s, rfl⟩
  | cons c t =>
    have hc : ¬ f c = true := by simp [ht c rfl]
    rw [List.takeWhile_cons_of_neg hc, List.dropWhile_cons_of_neg hc, List.append_nil]
    exact ⟨rfl, rfl⟩

namespace Line

/-! ## Columns and gaps -/

/-- What can stand in a column: at least one character, and no blank. -/
def Column (s : List Char) : Prop := s ≠ [] ∧ ∀ c ∈ s, Text.isBlank c = false

/-- What can stand between columns: at least one blank, and nothing else. -/
def Gap (s : List Char) : Prop := s ≠ [] ∧ ∀ c ∈ s, Text.isBlank c = true

instance : DecidablePred Column := fun s =>
  decidable_of_iff (s ≠ [] ∧ s.all (!Text.isBlank ·) = true) (by simp [Column])

instance : DecidablePred Gap := fun s =>
  decidable_of_iff (s ≠ [] ∧ s.all Text.isBlank = true) (by simp [Gap])

theorem Column.head_append {column : List Char} (h : Column column) (s : List Char) :
    ∀ c ∈ (column ++ s).head?, Text.isBlank c = false := by
  obtain ⟨d, column, rfl⟩ := List.exists_cons_of_ne_nil h.1
  rintro c ⟨⟩
  exact h.2 d (List.mem_cons_self ..)

/-- The first field of a column, a gap and more is the column, and what is left is what comes after
the gap. -/
theorem takeField?_column {column gap s : List Char} (hcolumn : Column column) (hgap : Gap gap)
    (hs : ∀ c ∈ s.head?, Text.isBlank c = false) :
    takeField? (column ++ (gap ++ s)) = some (column, s) := by
  obtain ⟨blank, gap, rfl⟩ := List.exists_cons_of_ne_nil hgap.1
  have hrest : Text.trimStart (gap ++ s) = s :=
    (Text.span_append (fun c hc => hgap.2 c (List.mem_cons_of_mem _ hc)) hs).2
  rw [List.cons_append, takeField?_append hcolumn.1 hcolumn.2 (hgap.2 _ (List.mem_cons_self ..)),
    hrest]

/-- Conversely, a text that has a first field and goes on after it is that field, a gap and what is
left. -/
theorem exists_gap_of_takeField? {s field rest : List Char} (hs : Text.trimStart s = s)
    (h : takeField? s = some (field, rest)) (hrest : rest ≠ []) :
    Column field ∧ Text.trimStart rest = rest ∧ ∃ gap, Gap gap ∧ s = field ++ (gap ++ rest) := by
  obtain ⟨hne, hfield, -⟩ := of_takeField?_eq_some h
  rw [takeField?, hs] at h
  split at h
  · cases h
  · obtain ⟨rfl, rfl⟩ := Prod.mk.inj (Option.some.inj h)
    let tail := s.dropWhile (!Text.isBlank ·)
    have htail : tail.takeWhile Text.isBlank ++ Text.trimStart tail = tail :=
      List.takeWhile_append_dropWhile
    refine ⟨⟨hne, hfield⟩, Text.trimStart_trimStart _, tail.takeWhile Text.isBlank, ⟨?_, ?_⟩, ?_⟩
    -- what comes after the field begins with the blank that ends it
    · intro hgap
      rw [hgap, List.nil_append] at htail
      obtain ⟨c, t, ht⟩ := List.exists_cons_of_ne_nil hrest
      have hblank : Text.isBlank c = false := Text.head?_trimStart (s := tail) (by rw [ht]; rfl)
      have hhead := List.head?_dropWhile_not (!Text.isBlank ·) s
      rw [show s.dropWhile (!Text.isBlank ·) = c :: t from htail.symm.trans ht] at hhead
      simp [hblank] at hhead
    · exact fun c hc => List.mem_takeWhile_imp hc
    · exact (List.takeWhile_append_dropWhile.symm).trans (congrArg _ htail.symm)

/-! ## Taking a line apart -/

/-- A content line taken apart. -/
structure Parts where
  /-- the whole name -/
  name : List Char
  /-- the blanks after the name -/
  nameGap : List Char
  /-- the value column -/
  value : List Char
  /-- the blanks after the value -/
  valueGap : List Char
  /-- further columns -/
  extra : List Char
  /-- what follows the first `#` after the value -/
  remark : List Char

namespace Parts

/-- The parts put together again. -/
def text (p : Parts) : List Char :=
  p.name ++ p.nameGap ++ p.value ++ p.valueGap ++ p.extra ++ '#' :: p.remark

/-- What the parts have to be. -/
structure Formed (p : Parts) : Prop where
  /-- the name is a column -/
  name : Column p.name
  /-- blanks end the name -/
  nameGap : Gap p.nameGap
  /-- the value is a column -/
  value : Column p.value
  /-- blanks end the value -/
  valueGap : Gap p.valueGap
  /-- the `#` after the further columns is the first one -/
  extra : '#' ∉ p.extra
  /-- the blanks after the value belong to the gap -/
  start : ∀ c ∈ (p.extra ++ ['#']).head?, Text.isBlank c = false

/-- The parts are those of a line, blanks at its ends aside. -/
def Of (p : Parts) (line : String) : Prop := p.Formed ∧ p.text = (Text.trim line).toList

/-- What the reader makes of the parts. -/
def fields (p : Parts) : Fields := ⟨p.name, p.value, Text.trimChars p.remark⟩

variable {p q : Parts}

theorem text_eq (p : Parts) : p.text =
    p.name ++ (p.nameGap ++ (p.value ++ (p.valueGap ++ (p.extra ++ '#' :: p.remark)))) := by
  simp [text]

theorem head?_rest (p : Parts) :
    (p.extra ++ '#' :: p.remark).head? = (p.extra ++ ['#']).head? := by
  cases p.extra <;> rfl

theorem Formed.start_rest (h : p.Formed) :
    ∀ c ∈ (p.extra ++ '#' :: p.remark).head?, Text.isBlank c = false := by
  rw [head?_rest]
  exact h.start

/-- The `#` is found behind the further columns. -/
theorem Formed.span_extra (h : p.Formed) :
    (p.extra ++ '#' :: p.remark).takeWhile (· != '#') = p.extra ∧
      (p.extra ++ '#' :: p.remark).dropWhile (· != '#') = '#' :: p.remark := by
  refine Text.span_append ?_ ?_
  · intro c hc
    rw [bne_iff_ne]
    rintro rfl
    exact h.extra hc
  · rintro c ⟨⟩
    rfl

theorem Formed.takeField?_text (h : p.Formed) :
    takeField? p.text = some (p.name, p.value ++ (p.valueGap ++ (p.extra ++ '#' :: p.remark))) := by
  rw [text_eq]
  exact takeField?_column h.name h.nameGap (h.value.head_append _)

theorem Formed.takeField?_value (h : p.Formed) :
    takeField? (p.value ++ (p.valueGap ++ (p.extra ++ '#' :: p.remark))) =
      some (p.value, p.extra ++ '#' :: p.remark) :=
  takeField?_column h.value h.valueGap h.start_rest

/-- A line can be taken apart in one way only. -/
theorem eq_of_text_eq (hp : p.Formed) (hq : q.Formed) (h : p.text = q.text) : p = q := by
  have hnames := hp.takeField?_text
  rw [h, hq.takeField?_text, Option.some.injEq, Prod.mk.injEq] at hnames
  obtain ⟨hname, hafter⟩ := hnames
  have hvalues := hp.takeField?_value
  rw [← hafter, hq.takeField?_value, Option.some.injEq, Prod.mk.injEq] at hvalues
  obtain ⟨hvalue, hrest⟩ := hvalues
  -- the gaps are what is left between columns that are the same
  rw [text_eq, text_eq, hname, ← hafter, List.append_cancel_left_eq,
    List.append_cancel_right_eq] at h
  rw [hvalue, ← hrest, List.append_cancel_left_eq, List.append_cancel_right_eq] at hafter
  have hextra := hp.span_extra.1
  have hremark := hp.span_extra.2
  rw [← hrest, hq.span_extra.1] at hextra
  rw [← hrest, hq.span_extra.2, List.cons.injEq] at hremark
  cases p
  cases q
  simp_all

theorem Of.eq {line : String} (hp : p.Of line) (hq : q.Of line) : p = q :=
  eq_of_text_eq hp.1 hq.1 (hp.2.trans hq.2.symm)

end Parts

/-! ## What the reader finds -/

/-- A reader finds the parts of a line that has no blanks at its front, and finds none only where
there are none. -/
theorem fields?_eq_some_iff {s : List Char} (hs : Text.trimStart s = s) {fields : Fields} :
    fields? s = some fields ↔ ∃ p : Parts, p.Formed ∧ p.text = s ∧ p.fields = fields := by
  constructor
  · intro h
    obtain ⟨after, rest, hname, hvalue, hhash, hdescription⟩ := of_fields?_eq_some h
    have hafterNe : after ≠ [] := by
      rintro rfl
      cases hvalue
    have hrestNe : rest ≠ [] := List.ne_nil_of_mem hhash
    obtain ⟨hnameCol, hafter, nameGap, hnameGap, hsplit⟩ :=
      exists_gap_of_takeField? hs hname hafterNe
    obtain ⟨hvalueCol, hrest, valueGap, hvalueGap, hafterSplit⟩ :=
      exists_gap_of_takeField? hafter hvalue hrestNe
    obtain ⟨extra, remark, rfl, hextra⟩ := List.eq_append_cons_of_mem hhash
    let p : Parts := ⟨fields.name, nameGap, fields.value, valueGap, extra, remark⟩
    have hp : p.Formed := by
      refine ⟨hnameCol, hnameGap, hvalueCol, hvalueGap, hextra, ?_⟩
      intro c hc
      refine Text.head?_trimStart (s := extra ++ '#' :: remark) ?_
      rw [hrest, p.head?_rest]
      exact hc
    refine ⟨p, hp, ?_, ?_⟩
    · rw [p.text_eq, hsplit, hafterSplit]
    · rw [hp.span_extra.2] at hdescription
      exact congrArg (Fields.mk fields.name fields.value) hdescription.symm
  · rintro ⟨p, hp, rfl, rfl⟩
    have hmem : '#' ∈ p.extra ++ '#' :: p.remark := by simp
    rw [fields?, hp.takeField?_text]
    simp only [Option.bind_eq_bind, Option.bind_some, hp.takeField?_value, if_pos hmem,
      hp.span_extra.2, List.drop_succ_cons, List.drop_zero]
    rfl

/-! ## What a line reads as -/

variable {separators : List String} {line : String} {p : Parts}

theorem Parts.Of.fields?_eq (h : p.Of line) :
    fields? (Text.trimChars line.toList) = some p.fields := by
  have htrim := (Text.trim_ends (Text.trimChars_trimChars line.toList)).1
  refine (fields?_eq_some_iff htrim).mpr ⟨p, h.1, ?_, rfl⟩
  rw [h.2, Text.toList_trim]

/-- Of the parts of a line something can be said only in one way. -/
theorem Parts.Of.exists_iff (h : p.Of line) {P : Parts → Prop} :
    (∃ q : Parts, q.Of line ∧ P q) ↔ P p := by
  constructor
  · rintro ⟨q, hq, hP⟩
    exact h.eq hq ▸ hP
  · intro hP
    exact ⟨p, h, hP⟩

theorem parse_of_not_exists (h : ¬ ∃ p : Parts, p.Of line) :
    parse separators line = .error .malformedLine := by
  have htrim := (Text.trim_ends (Text.trimChars_trimChars line.toList)).1
  have hfields : fields? (Text.trimChars line.toList) = none := by
    rw [Option.eq_none_iff_forall_ne_some]
    intro fields hsome
    obtain ⟨p, hformed, htext, -⟩ := (fields?_eq_some_iff htrim).mp hsome
    rw [← Text.toList_trim] at htext
    exact h ⟨p, hformed, htext⟩
  rw [parse, parseTrimmed, hfields]

theorem parse_of_empty_mem (h : p.Of line)
    (hempty : "" ∈ Path.split separators (String.ofList p.name)) :
    parse separators line = .error (.emptySegment (String.ofList p.name)) := by
  rw [parse, parseTrimmed, h.fields?_eq]
  exact if_pos hempty

theorem parse_of_ofToken?_eq_none (h : p.Of line)
    (hempty : "" ∉ Path.split separators (String.ofList p.name))
    (hvalue : Value.ofToken? (String.ofList p.value) = none) :
    parse separators line = .error (.malformedValue (String.ofList p.value)) := by
  rw [parse, parseTrimmed, h.fields?_eq]
  refine (if_neg hempty).trans ?_
  dsimp only [Parts.fields]
  rw [hvalue]

theorem exists_parse_of_ofToken? (h : p.Of line)
    (hempty : "" ∉ Path.split separators (String.ofList p.name)) {v : Value}
    (hvalue : Value.ofToken? (String.ofList p.value) = some v) :
    ∃ l, parse separators line = .ok l := by
  rw [parse, parseTrimmed, h.fields?_eq]
  dsimp only [Parts.fields]
  rw [if_neg hempty, hvalue]
  exact ⟨_, rfl⟩

/-- A line that reads as a statistic says what its parts say. -/
theorem Parts.Of.of_parse_eq_ok (h : p.Of line) {l : Line} (hl : parse separators line = .ok l) :
    l.categories ++ [l.stat.name] = Path.split separators (String.ofList p.name) ∧
      Value.ofToken? (String.ofList p.value) = some l.stat.value ∧
      l.stat.description = Text.trim (String.ofList p.remark) := by
  obtain ⟨fields, hfields, -, hvalue, hsegments, hdescription⟩ := of_parseTrimmed_eq_ok hl
  obtain rfl : p.fields = fields := Option.some.inj (h.fields?_eq.symm.trans hfields)
  refine ⟨hsegments, hvalue, hdescription.trans ?_⟩
  rw [Text.trim, String.toList_ofList]
  rfl

/-- **The grammar of content lines.** There is at most one way to take a line, without the blanks at
its ends, apart into a name, blanks, a value, blanks, further columns without `#`, a `#` and a
description. A line reads as a statistic exactly if it can be taken apart, no segment of its name is
empty and its value is a number, and the statistic is what its parts say. Of the lines that do not
read as one, those that cannot be taken apart are malformed; of the others those with an empty
segment are refused for it, whatever their value is; and the rest are refused for their value. -/
theorem parse_grammar (separators : List String) (line : String) :
    (∀ p q : Parts, p.Of line → q.Of line → p = q) ∧
    (∀ (p : Parts) (l : Line), p.Of line → parse separators line = .ok l →
      l.categories ++ [l.stat.name] = Path.split separators (String.ofList p.name) ∧
      Value.ofToken? (String.ofList p.value) = some l.stat.value ∧
      l.stat.description = Text.trim (String.ofList p.remark)) ∧
    ((∃ l, parse separators line = .ok l) ↔
      ∃ p : Parts, p.Of line ∧ "" ∉ Path.split separators (String.ofList p.name) ∧
        Value.ofToken? (String.ofList p.value) ≠ none) ∧
    (parse separators line = .error .malformedLine ↔ ¬ ∃ p : Parts, p.Of line) ∧
    (∀ name, parse separators line = .error (.emptySegment name) ↔
      ∃ p : Parts, p.Of line ∧ String.ofList p.name = name ∧
        "" ∈ Path.split separators (String.ofList p.name)) ∧
    (∀ token, parse separators line = .error (.malformedValue token) ↔
      ∃ p : Parts, p.Of line ∧ String.ofList p.value = token ∧
        "" ∉ Path.split separators (String.ofList p.name) ∧
        Value.ofToken? (String.ofList p.value) = none) ∧
    ∀ key, parse separators line ≠ .error (.conflictingKey key) := by
  refine ⟨fun p q hp hq => hp.eq hq, fun p l hp hl => hp.of_parse_eq_ok hl, ?_⟩
  by_cases hparts : ∃ p : Parts, p.Of line
  · obtain ⟨p, hp⟩ := id hparts
    by_cases hempty : "" ∈ Path.split separators (String.ofList p.name)
    · have hparse := parse_of_empty_mem hp hempty
      simp [hparse, hparts, hp.exists_iff, hempty]
    · rcases hvalue : Value.ofToken? (String.ofList p.value) with _ | v
      · have hparse := parse_of_ofToken?_eq_none hp hempty hvalue
        simp [hparse, hparts, hp.exists_iff, hempty, hvalue]
      · obtain ⟨l, hparse⟩ := exists_parse_of_ofToken? hp hempty hvalue
        simp [hparse, hparts, hp.exists_iff, hempty, hvalue]
  · have hparse : parse separators line = .error .malformedLine := parse_of_not_exists hparts
    have hnone : ∀ p : Parts, ¬ p.Of line := fun p hp => hparts ⟨p, hp⟩
    simp [hparse, hnone]

/-- A line with an empty segment, a value that is no number, a further column and two `#`. -/
theorem parse_grammar_empty_segment :
    ∃ p : Parts, p.Of " l2..hits many\t 3% # h # i\r" ∧ p.name = "l2..hits".toList ∧
      p.value = "many".toList ∧
      parse standardSeparators " l2..hits many\t 3% # h # i\r" =
        .error (.emptySegment "l2..hits") := by
  let p : Parts :=
    ⟨"l2..hits".toList, [' '], "many".toList, ['\t', ' '], "3% ".toList, " h # i".toList⟩
  have hp : p.Of " l2..hits many\t 3% # h # i\r" := by
    refine ⟨⟨?_, ?_, ?_, ?_, ?_, ?start⟩, ?_⟩
    case start =>
      rintro c ⟨⟩
      rfl
    all_goals decide +kernel
  obtain ⟨-, -, -, -, hempty, -⟩ :=
    parse_grammar standardSeparators " l2..hits many\t 3% # h # i\r"
  exact ⟨p, hp, rfl, rfl, (hempty "l2..hits").mpr ⟨p, hp, rfl, by decide +kernel⟩⟩

end Line

end SimStats
