import SimStats.Line
import SimStats.Proofs.Path.Split
import SimStats.Proofs.Text.Lines

/-!
# The columns of a content line

A line that reads as a statistic has a name, a value and a description
(`Line.of_parseTrimmed_eq_ok`). Its columns are made of characters of the line, the name holds no
blank, and the description has none at its ends. Hence the segments of the name are `Path.Proper`:
not empty, without blanks and without separators (`Line.proper_of_parse`).
-/

namespace SimStats

/-- What a segment of a name has to be: not empty, without blanks and without separators. -/
structure Path.Proper (separators : List String) (segment : String) : Prop where
  /-- there is something in it -/
  ne_empty : segment ≠ ""
  /-- no blank ends the name within the segment -/
  unblank : ∀ c ∈ segment.toList, Text.isBlank c = false
  /-- no separator cuts it -/
  whole : ∀ sep ∈ separators, ¬ sep.toList <:+: segment.toList

namespace Line

/-! ## Fields -/

/-- A field is not empty and holds no blank, and what follows it are characters of the line. -/
theorem of_takeField?_eq_some {s field rest : List Char} (h : takeField? s = some (field, rest)) :
    field ≠ [] ∧ (∀ c ∈ field, Text.isBlank c = false) ∧ rest ⊆ s := by
  rw [takeField?] at h
  split at h
  · cases h
  · next hne =>
    obtain ⟨rfl, rfl⟩ := Prod.mk.inj (Option.some.inj h)
    refine ⟨?_, ?_, ?_⟩
    · obtain ⟨c, t, ht⟩ := List.exists_cons_of_ne_nil hne
      have hc : Text.isBlank c = false := Text.head?_trimStart (s := s) (by rw [ht]; rfl)
      simp [ht, hc]
    · intro c hc
      simpa using List.mem_takeWhile_imp hc
    · intro c hc
      apply Text.trimStart_subset s
      exact (List.dropWhile_suffix _).subset (Text.trimStart_subset _ hc)

/-- Blanks at the front of a line belong to no field. -/
theorem takeField?_trimStart (s : List Char) : takeField? (Text.trimStart s) = takeField? s := by
  rw [takeField?, takeField?, Text.trimStart_trimStart]

/-- A field ends at the first blank. -/
theorem takeField?_append {field : List Char} (hne : field ≠ [])
    (h : ∀ c ∈ field, Text.isBlank c = false) {blank : Char} (hblank : Text.isBlank blank = true)
    (s : List Char) : takeField? (field ++ blank :: s) = some (field, Text.trimStart s) := by
  have hall : ∀ c ∈ field, (!Text.isBlank c) = true := by
    intro c hc
    simp [h c hc]
  have hcons : field ++ blank :: s ≠ [] := List.append_ne_nil_of_left_ne_nil hne _
  rw [takeField?, Text.trimStart_append hne h, if_neg hcons, List.takeWhile_append_of_pos hall,
    List.dropWhile_append_of_pos hall, List.takeWhile_cons_of_neg (by simp [hblank]),
    List.dropWhile_cons_of_neg (by simp [hblank]), List.append_nil,
    Text.trimStart_cons_of_blank hblank]

/-- A line with columns has two fields, and its description is what follows the first `#` after
them. -/
theorem of_fields?_eq_some {s : List Char} {fields : Fields} (h : fields? s = some fields) :
    ∃ after rest, takeField? s = some (fields.name, after) ∧
      takeField? after = some (fields.value, rest) ∧ '#' ∈ rest ∧
      fields.description = Text.trimChars ((rest.dropWhile (· != '#')).drop 1) := by
  rw [fields?] at h
  obtain ⟨⟨name, after⟩, hname, h⟩ := Option.bind_eq_some_iff.mp h
  obtain ⟨⟨value, rest⟩, hvalue, h⟩ := Option.bind_eq_some_iff.mp h
  dsimp only at h hvalue
  split at h
  · next hhash =>
    obtain rfl := Option.some.inj h
    exact ⟨after, rest, hname, hvalue, hhash, rfl⟩
  · cases h

/-- Two fields and a `#` with a text after it are the columns of a line. -/
theorem fields?_append {name value : List Char} (hname : name ≠ [])
    (hnameBlank : ∀ c ∈ name, Text.isBlank c = false) (hvalue : value ≠ [])
    (hvalueBlank : ∀ c ∈ value, Text.isBlank c = false) (description : List Char) :
    fields? (name ++ ' ' :: (value ++ ' ' :: '#' :: description)) =
      some ⟨name, value, Text.trimChars description⟩ := by
  have hfirst : takeField? (name ++ ' ' :: (value ++ ' ' :: '#' :: description)) =
      some (name, Text.trimStart (value ++ ' ' :: '#' :: description)) :=
    takeField?_append hname hnameBlank rfl _
  have hsecond : takeField? (Text.trimStart (value ++ ' ' :: '#' :: description)) =
      some (value, '#' :: description) := by
    rw [takeField?_trimStart]
    exact takeField?_append hvalue hvalueBlank rfl ('#' :: description)
  simp [fields?, hfirst, hsecond]

/-- The name of a line holds no blank. -/
theorem unblank_of_fields? {s : List Char} {fields : Fields} (h : fields? s = some fields) :
    ∀ c ∈ fields.name, Text.isBlank c = false := by
  obtain ⟨after, rest, hname, -⟩ := of_fields?_eq_some h
  exact (of_takeField?_eq_some hname).2.1

/-- The description is made of characters of the line, and is trimmed. -/
theorem description_of_fields? {s : List Char} {fields : Fields} (h : fields? s = some fields) :
    fields.description ⊆ s ∧ Text.trimChars fields.description = fields.description := by
  obtain ⟨after, rest, hname, hvalue, -, hdescription⟩ := of_fields?_eq_some h
  have hafter := (of_takeField?_eq_some hname).2.2
  have hrest := (of_takeField?_eq_some hvalue).2.2
  rw [hdescription]
  refine ⟨?_, Text.trimChars_trimChars _⟩
  intro c hc
  apply hafter
  apply hrest
  exact (List.dropWhile_suffix _).subset (List.mem_of_mem_drop (Text.trimChars_subset _ hc))

/-! ## Lines that read as statistics -/

/-- What a line has to be that reads as a statistic. -/
theorem of_parseTrimmed_eq_ok {separators : List String} {s : List Char} {l : Line}
    (h : parseTrimmed separators s = .ok l) :
    ∃ fields, fields? s = some fields ∧
      "" ∉ Path.split separators (String.ofList fields.name) ∧
      Value.ofToken? (String.ofList fields.value) = some l.stat.value ∧
      l.segments = Path.split separators (String.ofList fields.name) ∧
      l.stat.description = String.ofList fields.description := by
  rw [parseTrimmed] at h
  rcases hfields : fields? s with _ | fields
  · rw [hfields] at h
    cases h
  · rw [hfields] at h
    dsimp only at h
    split at h
    · cases h
    · next hempty =>
      rcases hvalue : Value.ofToken? (String.ofList fields.value) with _ | value
      · rw [hvalue] at h
        cases h
      · rw [hvalue] at h
        obtain rfl := Except.ok.inj h
        refine ⟨fields, rfl, hempty, hvalue, ?_, rfl⟩
        have hne := Path.split_ne_nil separators (String.ofList fields.name)
        rw [segments, List.getLastD_eq_getLast?, List.getLast?_eq_some_getLast hne]
        exact List.dropLast_concat_getLast hne

/-- No segment of a line's name is empty, and none holds a blank. -/
theorem segments_of_parse {separators : List String} {line : String} {l : Line}
    (h : parse separators line = .ok l) :
    "" ∉ l.segments ∧ ∀ segment ∈ l.segments, ∀ c ∈ segment.toList, Text.isBlank c = false := by
  obtain ⟨fields, hfields, hempty, -, hsegments, -⟩ := of_parseTrimmed_eq_ok h
  rw [hsegments]
  refine ⟨hempty, ?_⟩
  intro segment hsegment c hc
  have hname := Path.subset_of_mem_split hsegment hc
  rw [String.toList_ofList] at hname
  exact unblank_of_fields? hfields c hname

/-- The segments of a line's name are proper ones. -/
theorem proper_of_parse {separators : List String} (hseps : ∀ sep ∈ separators, sep ≠ "")
    {line : String} {l : Line} (h : parse separators line = .ok l) :
    ∀ segment ∈ l.segments, Path.Proper separators segment := by
  obtain ⟨hempty, hunblank⟩ := segments_of_parse h
  obtain ⟨fields, -, -, -, hsegments, -⟩ := of_parseTrimmed_eq_ok h
  intro segment hsegment
  refine ⟨?_, hunblank segment hsegment, ?_⟩
  · rintro rfl
    exact hempty hsegment
  · rw [hsegments] at hsegment
    intro sep hsep
    have havoid := Path.avoids_iff.mp (Path.avoids_of_mem_split hsegment)
    apply havoid _ (List.mem_map.mpr ⟨sep, hsep, rfl⟩)
    rw [Ne, String.toList_eq_nil_iff]
    exact hseps sep hsep

end Line

end SimStats
