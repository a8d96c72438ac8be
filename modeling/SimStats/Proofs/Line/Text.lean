import SimStats.Proofs.Line.Columns
import SimStats.Proofs.Value

/-!
# Content lines that are written

`Line.text` writes a statistic as a content line: its segments joined with dots, its value, and its
description after a `#`. A counter whose segments are proper and whose description is one trimmed
line is read back from it (`Line.parse_text`).
-/

namespace SimStats

/-! ## Keys of proper segments -/

namespace Path

theorem dotted_standard : Dotted standardSeparators := by
  refine ⟨List.mem_cons_self .., ?_⟩
  decide +kernel

/-- A proper segment is not cut. -/
theorem Proper.split_eq {separators : List String} {segment : String}
    (h : Proper separators segment) : split separators segment = [segment] := by
  refine split_of_avoids (avoids_iff.mpr ?_)
  intro sep hsep _
  obtain ⟨text, htext, rfl⟩ := List.mem_map.mp hsep
  exact h.whole text htext

/-- A key is made of the characters of its segments and of dots. -/
theorem mem_key {p : List String} {c : Char} (h : c ∈ (key p).toList) :
    c = '.' ∨ ∃ segment ∈ p, c ∈ segment.toList := by
  induction p with
  | nil => cases h
  | cons segment rest ih =>
    by_cases hrest : rest = []
    · subst hrest
      exact Or.inr ⟨segment, List.mem_cons_self .., h⟩
    · rw [key_cons hrest, String.toList_append, String.toList_append, List.mem_append,
        List.mem_append] at h
      rcases h with (h | h) | h
      · exact Or.inr ⟨segment, List.mem_cons_self .., h⟩
      · exact Or.inl (List.mem_singleton.mp h)
      · refine (ih h).imp_right ?_
        rintro ⟨other, hother, hc⟩
        exact ⟨other, List.mem_cons_of_mem _ hother, hc⟩

/-- The key of segments without blanks holds none. -/
theorem key_unblank {p : List String}
    (h : ∀ segment ∈ p, ∀ c ∈ segment.toList, Text.isBlank c = false) :
    ∀ c ∈ (key p).toList, Text.isBlank c = false := by
  intro c hc
  rcases mem_key hc with rfl | ⟨segment, hsegment, hc⟩
  · rfl
  · exact h segment hsegment c hc

theorem key_ne_empty {p : List String} (hp : p ≠ []) (h : "" ∉ p) : key p ≠ "" := by
  intro hkey
  rcases key_eq_empty_iff.mp hkey with rfl | rfl
  · exact hp rfl
  · exact h (List.mem_singleton_self _)

end Path

namespace Line

/-! ## Writing a line -/

/-- The line as it is written. -/
def text (l : Line) : String :=
  Path.key l.segments ++ " " ++ l.stat.value.text ++ " # " ++ l.stat.description

/-- A counter that one line of the standard format can hold. -/
structure Writable (l : Line) : Prop where
  /-- no segment is empty, or would be cut -/
  proper : ∀ segment ∈ l.segments, Path.Proper standardSeparators segment
  /-- the value is a counter -/
  counter : l.stat.value.isInt = true
  /-- the description has no blanks at its ends -/
  trimmed : Text.trim l.stat.description = l.stat.description
  /-- the description does not end the line -/
  oneLine : '\n' ∉ l.stat.description.toList

theorem segments_ne_nil (l : Line) : l.segments ≠ [] := List.concat_ne_nil _ _

theorem toList_text (l : Line) :
    l.text.toList = (Path.key l.segments).toList ++ ' ' ::
      (l.stat.value.text.toList ++ ' ' :: '#' :: ' ' :: l.stat.description.toList) := by
  simp [text]

/-- An empty description loses the blank before it, and any other keeps it. -/
theorem exists_trimEnd_hash {description : List Char}
    (h : Text.trimChars description = description) :
    ∃ rest, Text.trimEnd ('#' :: ' ' :: description) = '#' :: rest ∧
      Text.trimChars rest = description := by
  obtain ⟨hstart, hend⟩ := Text.trim_ends h
  have htail := Text.trimEnd_append ['#', ' '] description
  rw [hend] at htail
  by_cases hempty : description = []
  · subst hempty
    exact ⟨[], htail, rfl⟩
  · rw [if_neg hempty] at htail
    refine ⟨' ' :: description, htail, ?_⟩
    rw [Text.trimChars, Text.trimStart_cons_of_blank rfl, hstart, hend]

theorem Writable.exists_int {l : Line} (h : l.Writable) : ∃ n, l.stat.value = .int n := by
  have hcounter := h.counter
  cases hv : l.stat.value with
  | int n => exact ⟨n, rfl⟩
  | float x =>
    rw [hv] at hcounter
    cases hcounter

theorem Writable.empty_not_mem {l : Line} (h : l.Writable) : "" ∉ l.segments := by
  intro hmem
  exact (h.proper "" hmem).ne_empty rfl

/-- The name of a writable line can stand in a column. -/
theorem Writable.name_unblank {l : Line} (h : l.Writable) :
    (Path.key l.segments).toList ≠ [] ∧
      ∀ c ∈ (Path.key l.segments).toList, Text.isBlank c = false := by
  refine ⟨?_, Path.key_unblank fun segment hsegment => (h.proper segment hsegment).unblank⟩
  rw [Ne, String.toList_eq_nil_iff]
  exact Path.key_ne_empty l.segments_ne_nil h.empty_not_mem

/-- So can its value. -/
theorem Writable.value_unblank {l : Line} (h : l.Writable) :
    l.stat.value.text.toList ≠ [] ∧ ∀ c ∈ l.stat.value.text.toList, Text.isBlank c = false := by
  obtain ⟨n, hn⟩ := h.exists_int
  rw [hn]
  exact Value.text_int_unblank n

/-- A written line is one line. -/
theorem Writable.lineFeed_not_mem {l : Line} (h : l.Writable) : '\n' ∉ l.text.toList := by
  have hblank : Text.isBlank '\n' = true := rfl
  intro hmem
  rw [toList_text] at hmem
  simp only [List.mem_append, List.mem_cons] at hmem
  rcases hmem with hname | heq | hvalue | heq | heq | heq | hdescription
  · exact Bool.noConfusion (hblank.symm.trans (h.name_unblank.2 _ hname))
  · cases heq
  · exact Bool.noConfusion (hblank.symm.trans (h.value_unblank.2 _ hvalue))
  · cases heq
  · cases heq
  · cases heq
  · exact h.oneLine hdescription

/-! ## Reading it back -/

/-- The columns of a written line are what it was written from. -/
theorem fields?_text {l : Line} (h : l.Writable) :
    fields? (Text.trimChars l.text.toList) =
      some ⟨(Path.key l.segments).toList, l.stat.value.text.toList,
        l.stat.description.toList⟩ := by
  obtain ⟨hname, hnameBlank⟩ := h.name_unblank
  obtain ⟨hvalue, hvalueBlank⟩ := h.value_unblank
  have htrimmed : Text.trimChars l.stat.description.toList = l.stat.description.toList := by
    rw [← Text.toList_trim, h.trimmed]
  obtain ⟨rest, hrest, hdescription⟩ := exists_trimEnd_hash htrimmed
  have hhash : l.text.toList =
      ((Path.key l.segments).toList ++ ' ' :: (l.stat.value.text.toList ++ [' '])) ++
        '#' :: ' ' :: l.stat.description.toList := by
    simp [text]
  -- trimming reaches as far as the `#`, which is no blank
  have hline : Text.trimChars l.text.toList = (Path.key l.segments).toList ++ ' ' ::
      (l.stat.value.text.toList ++ ' ' :: '#' :: rest) := by
    rw [Text.trimChars, toList_text, Text.trimStart_append hname hnameBlank, ← toList_text, hhash,
      Text.trimEnd_append, hrest, if_neg (List.cons_ne_nil _ _)]
    simp
  rw [hline, fields?_append hname hnameBlank hvalue hvalueBlank, hdescription]

/-- A written line reads as what it was written from. -/
theorem parse_text {l : Line} (h : l.Writable) : parse standardSeparators l.text = .ok l := by
  have hsplit : Path.split standardSeparators (Path.key l.segments) = l.segments :=
    Path.split_key Path.dotted_standard l.segments_ne_nil fun segment hsegment =>
      (h.proper segment hsegment).split_eq
  have hvalue : Value.ofToken? l.stat.value.text = some l.stat.value := by
    obtain ⟨n, hn⟩ := h.exists_int
    rw [hn]
    exact Value.ofToken?_text n
  rw [parse, parseTrimmed, fields?_text h]
  simp only [String.ofList_toList, hsplit, h.empty_not_mem, hvalue, if_false]
  simp [segments]

/-- A counter that was read from one line can be written to one. -/
theorem writable_of_parse {line : String} (hline : '\n' ∉ line.toList) {l : Line}
    (h : parse standardSeparators line = .ok l) (hint : l.stat.value.isInt = true) :
    l.Writable := by
  have hseps : ∀ sep ∈ standardSeparators, sep ≠ "" := by decide
  obtain ⟨fields, hfields, -, -, -, hdescription⟩ := of_parseTrimmed_eq_ok h
  obtain ⟨hsubset, htrimmed⟩ := description_of_fields? hfields
  refine ⟨proper_of_parse hseps h, hint, ?_, ?_⟩
  · rw [hdescription, Text.trim, String.toList_ofList, htrimmed]
  · intro hmem
    rw [hdescription, String.toList_ofList] at hmem
    exact hline (Text.trimChars_subset _ (hsubset hmem))

end Line

end SimStats
