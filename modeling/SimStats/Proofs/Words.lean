import SimStats.Proofs.Dump.Content
import SimStats.Proofs.Line.Grammar
import SimStats.Proofs.Path.Kept

/-!
# Words stay whole

A usable format cuts names at separators that hold neither blanks nor word characters. So words and
blanks are not lost, a run of word characters lies within one segment, wherever it stands
(`Format.words_whole`). A name that is one word is one segment (`Format.split_word`), and its
statistic becomes a child of the category to which its line is added.
-/

namespace SimStats

namespace Format

variable {f : Format}

/-- Usable separators hold neither blanks nor word characters. -/
theorem kept_of_validate (hf : f.validate = .ok ()) {c : Char}
    (hc : (Text.isBlank c || Text.isWord c) = true) :
    Path.Kept (f.separators.map String.toList) c := by
  have hproblem := problem?_eq_none_iff.mpr hf
  simp only [problem?, Option.or_eq_none_iff, List.findSome?_eq_none_iff] at hproblem
  obtain ⟨-, -, -, -, hseps⟩ := hproblem
  intro sep hsep hmem
  obtain ⟨text, htext, rfl⟩ := List.mem_map.mp hsep
  have hany : text.toList.any (fun c => Text.isBlank c || Text.isWord c) = true :=
    List.any_eq_true.mpr ⟨c, hmem, hc⟩
  have hnone := hseps text htext
  rw [separatorProblem?, hany] at hnone
  split at hnone <;> cases hnone

theorem kept_of_word (hf : f.validate = .ok ()) {word : String}
    (hword : ∀ c ∈ word.toList, Text.isWord c = true) :
    ∀ c ∈ word.toList, Path.Kept (f.separators.map String.toList) c := by
  intro c hc
  exact kept_of_validate hf (by rw [hword c hc, Bool.or_true])

/-- A run of word characters lies within one segment: around it are the segments of what comes
before and of what comes after. -/
theorem exists_split_append (hf : f.validate = .ok ()) {run : String} (hne : run ≠ "")
    (hrun : ∀ c ∈ run.toList, Text.isWord c = true) (front back : String) :
    ∃ before last first after, Path.split f.separators front = before ++ [last] ∧
      Path.split f.separators back = first :: after ∧
      Path.split f.separators (front ++ run ++ back) =
        before ++ (last ++ run ++ first) :: after := by
  have hchars : run.toList ≠ [] := by simpa using hne
  obtain ⟨before, last, first, after, hfront, hback, hwhole⟩ :=
    Path.exists_splitChars_append hchars (kept_of_word hf hrun) front.toList back.toList
  refine ⟨before.map String.ofList, String.ofList last, String.ofList first,
    after.map String.ofList, ?_, ?_, ?_⟩
  · simp [Path.split, hfront]
  · simp [Path.split, hback]
  · rw [Path.split, String.toList_append, String.toList_append, hwhole]
    simp [String.append_assoc]

/-- The segments have all characters of a kind that usable separators have none of. -/
theorem filter_split (hf : f.validate = .ok ()) {kind : Char → Bool}
    (hkind : ∀ c, kind c = true → (Text.isBlank c || Text.isWord c) = true) (s : String) :
    ((Path.split f.separators s).flatMap String.toList).filter kind = s.toList.filter kind := by
  have hkept : ∀ c, kind c = true → Path.Kept (f.separators.map String.toList) c :=
    fun c hc => kept_of_validate hf (hkind c hc)
  rw [← Path.filter_segments hkept s.toList, Path.split, List.flatMap_map]
  simp [List.flatMap_def]

/-- A word is one segment. -/
theorem split_word (hf : f.validate = .ok ()) {word : String}
    (hword : ∀ c ∈ word.toList, Text.isWord c = true) :
    Path.split f.separators word = [word] := by
  have hkept := Path.splitChars_kept_append (kept_of_word hf hword) []
  rw [Path.splitChars_of_none (Path.firstCut?_eq_none_iff.mpr Path.avoids_nil),
    List.append_nil] at hkept
  simp [Path.split, hkept]

end Format

/-! ## The place of a word -/

/-- A line whose name is a word reads as a statistic without categories. -/
theorem Line.parse_word {f : Format} (hf : f.validate = .ok ()) {line word : String} {p : Parts}
    (hp : p.Of line) (hname : p.name = word.toList)
    (hword : ∀ c ∈ word.toList, Text.isWord c = true) {v : Value}
    (hvalue : Value.ofToken? (String.ofList p.value) = some v) :
    parse f.separators line = .ok ⟨[], word, v, Text.trim (String.ofList p.remark)⟩ := by
  have hsplit : Path.split f.separators (String.ofList p.name) = [word] := by
    rw [hname, String.ofList_toList, Format.split_word hf hword]
  have hne : "" ∉ Path.split f.separators (String.ofList p.name) := by
    rw [hsplit, List.mem_singleton]
    rintro rfl
    exact hp.1.name.1 hname
  obtain ⟨⟨categories, s⟩, hparse⟩ := exists_parse_of_ofToken? hp hne hvalue
  obtain ⟨hsegments, htoken, hdescription⟩ := hp.of_parse_eq_ok hparse
  rw [hsplit] at hsegments
  rw [hvalue] at htoken
  obtain ⟨rfl, hlast⟩ := List.append_eq_singleton_iff.mp hsegments |>.resolve_right (by simp)
  cases s
  simp_all

namespace Group

/-- A statistic without categories becomes a child, if there is none of its name. -/
theorem insert_child {g : Group} (hg : g.children.WellFormed) (s : Stat) :
    (g.get? s.name = none →
      ∃ g', g.insert [] s = .ok g' ∧ g'.get? s.name = some (.stat s)) ∧
    (g.get? s.name ≠ none → g.insert [] s = .error (.conflictingKey s.name)) := by
  have hdescend : ∀ g : Group, (Node.group g).descend [s.name] = g.get? s.name := by
    intro g
    cases h : g.get? s.name <;> simp_all [get?]
  have hconflict : g.conflict? [] s.name = (g.get? s.name).map fun _ => s.name := by
    rw [← hdescend g]
    rfl
  refine ⟨fun hfree => ?_, fun htaken => ?_⟩
  · rw [hfree] at hconflict
    obtain ⟨g', hok, -, hwf, hperm⟩ := insert_eq_ok hg ((conflict?_eq_none_iff hg).mp hconflict)
    refine ⟨g', hok, ?_⟩
    rw [← hdescend g', descend_eq_stat_iff hwf, hperm.mem_iff]
    exact List.mem_cons_self ..
  · obtain ⟨node, hnode⟩ := Option.ne_none_iff_exists'.mp htaken
    rw [insert, hconflict, hnode]
    rfl

end Group

/-- **Words stay whole.** Take a format that is usable. A run of word characters lies, wherever it
stands in a text, within one segment: the segments are those of what comes before it and those of
what comes after it, joined by the run where they meet. The segments of a text have all its blanks
and all its word characters, in order. A word is one segment, and a line whose name is a word is
added as a child of the category, or refused because there is a child of that name. -/
theorem Format.words_whole {f : Format} (hf : f.validate = .ok ()) :
    (∀ front run back : String, run ≠ "" → (∀ c ∈ run.toList, Text.isWord c = true) →
      ∃ before last first after, Path.split f.separators front = before ++ [last] ∧
        Path.split f.separators back = first :: after ∧
        Path.split f.separators (front ++ run ++ back) =
          before ++ (last ++ run ++ first) :: after) ∧
    (∀ s : String, ((Path.split f.separators s).flatMap String.toList).filter Text.isBlank =
      s.toList.filter Text.isBlank) ∧
    (∀ s : String, ((Path.split f.separators s).flatMap String.toList).filter Text.isWord =
      s.toList.filter Text.isWord) ∧
    ∀ word : String, (∀ c ∈ word.toList, Text.isWord c = true) →
      Path.split f.separators word = [word] ∧
      ∀ (g : Group) (line : String) (p : Line.Parts) (v : Value), g.Reachable → p.Of line →
        p.name = word.toList → Value.ofToken? (String.ofList p.value) = some v →
        (g.get? word = none → ∃ g', g.addLine f.separators line = .ok g' ∧
          g'.get? word = some (.stat ⟨word, v, Text.trim (String.ofList p.remark)⟩)) ∧
        (g.get? word ≠ none → g.addLine f.separators line = .error (.conflictingKey word)) := by
  refine ⟨fun front run back hne hrun => exists_split_append hf hne hrun front back,
    filter_split hf fun c hc => by rw [hc, Bool.true_or],
    filter_split hf fun c hc => by rw [hc, Bool.or_true], ?_⟩
  intro word hword
  refine ⟨split_word hf hword, ?_⟩
  intro g line p v hg hp hname hvalue
  rw [Group.addLine, Line.parse_word hf hp hname hword hvalue]
  exact Group.insert_child hg.wellFormed ⟨word, v, _⟩

/-- Separators that overlap, of which one is no ASCII, and a line whose name is a word. -/
theorem Format.words_whole_colons :
    ∃ f : Format, f.separators = ["::", ":::", "→."] ∧ f.validate = .ok () ∧
      (∃ before last first after, Path.split f.separators "l2::::" = before ++ [last] ∧
        Path.split f.separators "-é→.x" = first :: after ∧
        Path.split f.separators ("l2::::" ++ "Ünits_9" ++ "-é→.x") =
          before ++ (last ++ "Ünits_9" ++ first) :: after) ∧
      Path.split f.separators ("l2::::" ++ "Ünits_9" ++ "-é→.x") = ["l2", ":Ünits_9-é", "x"] ∧
      Path.split f.separators "Ünits_9" = ["Ünits_9"] ∧
      ∃ g', (Group.empty "all").addLine f.separators " Ünits_9 3 % # u " = .ok g' ∧
        g'.get? "Ünits_9" = some (.stat ⟨"Ünits_9", .int 3, "u"⟩) := by
  let f : Format := ⟨"begin", "end", ["::", ":::", "→."], "all"⟩
  have hf : f.validate = .ok () := by decide +kernel
  have hword : ∀ c ∈ "Ünits_9".toList, Text.isWord c = true :=
    List.all_eq_true.mp (by decide +kernel)
  let p : Line.Parts := ⟨"Ünits_9".toList, [' '], ['3'], [' '], ['%', ' '], [' ', 'u']⟩
  have hp : p.Of " Ünits_9 3 % # u " := by
    refine ⟨⟨?_, ?_, ?_, ?_, ?_, ?start⟩, ?_⟩
    case start =>
      rintro c ⟨⟩
      rfl
    all_goals decide +kernel
  obtain ⟨hrun, -, -, hwords⟩ := words_whole hf
  obtain ⟨hsegment, hadd⟩ := hwords "Ünits_9" hword
  have hremark : Text.trim (String.ofList p.remark) = "u" := by decide +kernel
  obtain ⟨hchild, -⟩ := hadd (.empty "all") " Ünits_9 3 % # u " p (.int 3) (.empty "all") hp rfl
    (by decide +kernel)
  rw [hremark] at hchild
  exact ⟨f, rfl, hf, hrun "l2::::" "Ünits_9" "-é→.x" (by decide) hword, by decide +kernel,
    hsegment, hchild rfl⟩

end SimStats
