import SimStats.Dump
import SimStats.Proofs.Text.Lines
import SimStats.Proofs.Tree.Lines

/-!
# The content lines of a dump

`Dump.content` says which lines of a text belong to a dump: those between its begin marker and the
next end marker that are not blank. A dump is read by adding these lines, and nothing else, to an
empty tree (`Dump.ofBytes_toUTF8_eq_ok_iff`). Bytes need not be text throughout for a dump to be
read from them, but its content lines are (`Dump.exists_lines_of_ofBytes`).
-/

namespace SimStats

/-! ## What a usable format promises -/

namespace Format

theorem markerProblem?_eq_none_iff {marker : Marker} {text : String} :
    markerProblem? marker text = none ↔ text ≠ "" ∧ Text.trim text = text := by
  rw [markerProblem?]
  by_cases hempty : text = ""
  · simp [hempty]
  · by_cases htrim : Text.trim text = text <;> simp [hempty, htrim]

/-- The markers of a usable format are different lines that are not blank. -/
theorem markers_of_problem? {f : Format} (h : f.problem? = none) :
    (f.beginMarker ≠ "" ∧ Text.trim f.beginMarker = f.beginMarker) ∧
      (f.endMarker ≠ "" ∧ Text.trim f.endMarker = f.endMarker) ∧ f.beginMarker ≠ f.endMarker := by
  obtain ⟨hbegin, h⟩ := Option.or_eq_none_iff.mp h
  obtain ⟨hend, h⟩ := Option.or_eq_none_iff.mp h
  refine ⟨markerProblem?_eq_none_iff.mp hbegin, markerProblem?_eq_none_iff.mp hend, ?_⟩
  intro hsame
  rw [if_pos hsame] at h
  cases h

theorem endMarker_ne_empty {f : Format} (h : f.problem? = none) : f.endMarker ≠ "" :=
  (markers_of_problem? h).2.1.1

theorem problem?_eq_none_iff {f : Format} : f.problem? = none ↔ f.validate = .ok () := by
  rw [validate]
  split <;> simp [*]

end Format

theorem exists_of_map_eq_ok {ε α β : Type} {x : Except ε α} {f : α → β} {b : β}
    (h : x.map f = .ok b) : ∃ a, x = .ok a ∧ f a = b := by
  cases x with
  | error e => cases h
  | ok a => exact ⟨a, rfl, Except.ok.inj h⟩

namespace Dump

/-! ## Which lines belong to a dump -/

/-- The lines after the `n`-th one that is the marker. -/
def afterMarker (marker : String) : Nat → List String → List String
  | 0, lines => lines
  | n + 1, lines => afterMarker marker n ((lines.dropWhile (· != marker)).drop 1)

/-- The lines up to the end marker that are not blank. -/
def bodyLines (format : Format) (lines : List String) : List String :=
  (lines.takeWhile (· != format.endMarker)).filter (· != "")

/-- The content lines of dump number `index`. -/
def content (format : Format) (index : Nat) (lines : List String) : List String :=
  bodyLines format (afterMarker format.beginMarker index lines)

theorem afterMarker_cons_self (marker : String) (n : Nat) (lines : List String) :
    afterMarker marker (n + 1) (marker :: lines) = afterMarker marker n lines := by
  rw [afterMarker, List.dropWhile_cons_of_neg (by simp), List.drop_succ_cons, List.drop_zero]

theorem afterMarker_cons_of_ne {marker line : String} (h : line ≠ marker) (n : Nat)
    (lines : List String) :
    afterMarker marker (n + 1) (line :: lines) = afterMarker marker (n + 1) lines := by
  rw [afterMarker, List.dropWhile_cons_of_pos (by simp [h]), afterMarker]

/-- What comes after a marker is part of the text. -/
theorem afterMarker_suffix (marker : String) (n : Nat) (lines : List String) :
    afterMarker marker n lines <:+ lines := by
  induction n generalizing lines with
  | zero => exact List.suffix_refl _
  | succ n ih =>
    exact (ih _).trans ((List.drop_suffix _ _).trans (List.dropWhile_suffix _))

theorem mem_of_mem_content {format : Format} {index : Nat} {lines : List String} {line : String}
    (h : line ∈ content format index lines) : line ∈ lines := by
  have hbody := (List.mem_filter.mp h).1
  exact (afterMarker_suffix _ _ _).mem ((List.takeWhile_prefix _).mem hbody)

/-- Content lines have no blanks at their ends. -/
theorem trim_of_mem_content {format : Format} {index : Nat} {text line : String}
    (h : line ∈ content format index (Text.lines text)) : Text.trim line = line :=
  Text.trim_of_mem_lines (mem_of_mem_content h)

/-- Searching for a marker stops among lines with enough markers, and goes through lines with too
few. -/
theorem seek_map_ok_append (marker : String) (n : Nat) (lines : List String)
    (rest : List RawLine) :
    seek marker n (lines.map .ok ++ rest) =
      if n ≤ lines.count marker then .ok ((afterMarker marker n lines).map .ok ++ rest)
      else seek marker (n - lines.count marker) rest := by
  induction lines generalizing n with
  | nil =>
    cases n with
    | zero =>
      rw [seek]
      rfl
    | succ n => rfl
  | cons line lines ih =>
    cases n with
    | zero => rfl
    | succ n =>
      rw [List.map_cons, List.cons_append, seek]
      by_cases h : line = marker
      -- a marker is one of those to pass, any other line leaves as many to pass as before
      · subst h
        rw [if_pos rfl, ih n, List.count_cons_self, afterMarker_cons_self]
        simp only [Nat.add_le_add_iff_right, Nat.add_sub_add_right]
      · rw [if_neg h, ih (n + 1), List.count_cons_of_ne h, afterMarker_cons_of_ne h]

/-- Searching for a marker finds the lines after it if there are enough markers. -/
theorem seek_map_ok (marker : String) (n : Nat) (lines : List String) :
    seek marker n (lines.map .ok) =
      if n ≤ lines.count marker then .ok ((afterMarker marker n lines).map .ok)
      else .error .notFound := by
  have h := seek_map_ok_append marker n lines []
  rw [List.append_nil, List.append_nil] at h
  rw [h]
  split
  · rfl
  · next hcount =>
    obtain ⟨k, rfl⟩ := Nat.exists_eq_add_of_lt (Nat.not_le.mp hcount)
    rw [Nat.add_assoc, Nat.add_sub_cancel_left]
    rfl

/-- Reading a body adds its lines one by one, and succeeds if none of them is refused. -/
theorem readBody_map_ok {origin : String} {format : Format} (hend : format.endMarker ≠ "")
    {g root : Group} {lines : List String} :
    readBody origin format g (lines.map .ok) = .ok root ↔
      Group.addEach format.separators g (bodyLines format lines) = (root, []) := by
  induction lines generalizing g with
  | nil => simp [readBody, bodyLines, Group.addEach]
  | cons line lines ih =>
    rw [List.map_cons, readBody, bodyLines]
    by_cases hblank : line = ""
    -- blank lines are skipped first, which is no matter because no end marker is blank
    · subst hblank
      rw [if_pos rfl, ih, List.takeWhile_cons_of_pos (by simp [hend.symm]),
        List.filter_cons_of_neg (by simp), bodyLines]
    · rw [if_neg hblank]
      by_cases hclose : line = format.endMarker
      · rw [if_pos hclose, List.takeWhile_cons_of_neg (by simp [hclose])]
        simp [Group.addEach]
      · rw [if_neg hclose, List.takeWhile_cons_of_pos (by simp [hclose]),
          List.filter_cons_of_pos (by simp [hblank]), Group.addEach]
        rcases hadd : g.addLine format.separators line with e | g'
        · simp
        · exact ih

/-! ## Reading a text -/

/-- Lines of text are read by searching for the begin marker and reading the body after it. -/
theorem read_map_ok (origin : String) {format : Format} (hformat : format.problem? = none)
    {index : Nat} (hindex : index ≠ 0) (lines : List String) :
    read origin format index (lines.map .ok) =
      if index ≤ lines.count format.beginMarker then
        (readBody origin format (.empty format.rootName)
          ((afterMarker format.beginMarker index lines).map .ok)).map fun root =>
            { root, separators := format.separators }
      else .error (.dumpNotFound origin index) := by
  rw [read, if_neg hindex, hformat]
  dsimp only
  rw [seek_map_ok]
  by_cases hcount : index ≤ lines.count format.beginMarker
  · rw [if_pos hcount, if_pos hcount]
  · rw [if_neg hcount, if_neg hcount]

theorem ofBytes_toUTF8 (format : Format) (index : Nat) (text : String) :
    ofBytes format index text.toUTF8 =
      read nameless format index ((Text.lines text).map .ok) := by
  rw [ofBytes, RawLine.splitBytes_toUTF8]

/-- A dump is read if there are so many of them and its content lines can be added to an empty
tree. -/
theorem ofBytes_toUTF8_eq_ok_iff {format : Format} {index : Nat} {text : String} {d : Dump} :
    ofBytes format index text.toUTF8 = .ok d ↔
      index ≠ 0 ∧ format.problem? = none ∧
        index ≤ (Text.lines text).count format.beginMarker ∧
        d.separators = format.separators ∧
        Group.addEach format.separators (.empty format.rootName)
          (content format index (Text.lines text)) = (d.root, []) := by
  rw [ofBytes_toUTF8]
  by_cases hindex : index = 0
  · simp [read, hindex]
  · rcases hformat : format.problem? with _ | cause
    · have hend := Format.endMarker_ne_empty hformat
      rw [read_map_ok _ hformat hindex]
      by_cases hcount : index ≤ (Text.lines text).count format.beginMarker
      · rw [if_pos hcount]
        constructor
        · intro h
          obtain ⟨root, hroot, rfl⟩ := exists_of_map_eq_ok h
          exact ⟨hindex, rfl, hcount, rfl, (readBody_map_ok hend).mp hroot⟩
        · rintro ⟨-, -, -, hsep, hadd⟩
          have hroot : readBody nameless format _ _ = _ := (readBody_map_ok hend).mpr hadd
          cases d
          cases hsep
          exact congrArg (Except.map _) hroot
      · simp [hcount]
    · simp [read, hindex, hformat]

/-- The tree lists the statistics of the lines, each of which reads as one, and nothing else. -/
structure OfLines (d : Dump) (lines : List String) : Prop where
  /-- the tree is well-formed -/
  wellFormed : d.root.children.WellFormed
  /-- every line reads as a statistic -/
  grammatical : ∀ line ∈ lines, ∃ l, Line.parse d.separators line = .ok l
  /-- no two lines name paths that lead to or through one another -/
  apart : (Line.leaves d.separators lines).Pairwise fun a b => Path.Apart a.1 b.1
  /-- the statistics of the tree are those of the lines -/
  leaves : d.root.leaves.Perm (Line.leaves d.separators lines)

theorem ofLines_of_addEach {d : Dump} {name : String} {lines : List String}
    (h : Group.addEach d.separators (.empty name) lines = (d.root, [])) : d.OfLines lines := by
  have hwf := Group.wellFormed_empty name
  have hnil : (Group.addEach d.separators (.empty name) lines).2 = [] := congrArg Prod.snd h
  have haccepts := (Group.addEach_eq_nil_iff hwf).mp hnil
  obtain ⟨-, hforest, hleaves⟩ := Group.leaves_addEach hwf hnil
  rw [h] at hforest hleaves
  refine ⟨hforest, haccepts.grammatical, haccepts.apart, hleaves.trans ?_⟩
  exact List.Perm.of_eq (List.append_nil _)

/-- What comes after a marker is part of the lines. -/
theorem seek_suffix {marker : String} {n : Nat} {raw body : List RawLine}
    (h : seek marker n raw = .ok body) : body <:+ raw := by
  induction raw generalizing n with
  | nil =>
    cases n with
    | zero =>
      obtain rfl := Except.ok.inj h
      exact List.suffix_refl _
    | succ n => cases h
  | cons line raw ih =>
    cases n with
    | zero =>
      obtain rfl := Except.ok.inj h
      exact List.suffix_refl _
    | succ n =>
      rcases line with fault | line
      · cases h
      · rw [seek] at h
        split at h
        · exact (ih h).trans (List.suffix_cons _ _)
        · exact (ih h).trans (List.suffix_cons _ _)

/-- Whatever the bytes are, a body is read by adding lines of it none of which is refused. -/
theorem exists_addEach_of_readBody {origin : String} {format : Format} {g root : Group}
    {raw : List RawLine} (h : readBody origin format g raw = .ok root) :
    ∃ lines, (∀ line ∈ lines, .ok line ∈ raw) ∧
      Group.addEach format.separators g lines = (root, []) := by
  induction raw generalizing g with
  | nil =>
    obtain rfl := Except.ok.inj h
    exact ⟨[], fun line hline => absurd hline List.not_mem_nil, rfl⟩
  | cons line raw ih =>
    rcases line with fault | line
    · cases h
    · rw [readBody] at h
      split at h
      · obtain ⟨lines, hraw, hlines⟩ := ih h
        exact ⟨lines, fun k hk => List.mem_cons_of_mem _ (hraw k hk), hlines⟩
      · split at h
        · obtain rfl := Except.ok.inj h
          exact ⟨[], fun line hline => absurd hline List.not_mem_nil, rfl⟩
        · split at h
          · cases h
          · next g' hadd =>
            obtain ⟨lines, hraw, hlines⟩ := ih h
            refine ⟨line :: lines, ?_, by rw [Group.addEach, hadd]; exact hlines⟩
            intro k hk
            rcases List.mem_cons.mp hk with rfl | hk
            · exact List.mem_cons_self ..
            · exact List.mem_cons_of_mem _ (hraw k hk)

/-- A dump that is read consists of the tree of the body after its begin marker, and of the
separators of the format by which it was read. -/
theorem of_read_eq_ok {origin : String} {format : Format} {index : Nat} {raw : List RawLine}
    {d : Dump} (h : read origin format index raw = .ok d) :
    d.separators = format.separators ∧ ∃ body, seek format.beginMarker index raw = .ok body ∧
      readBody origin format (.empty format.rootName) body = .ok d.root := by
  rw [read] at h
  split at h
  · cases h
  · split at h
    · cases h
    · split at h
      · cases h
      · cases h
      · next body hseek =>
        obtain ⟨root, hroot, rfl⟩ := exists_of_map_eq_ok h
        exact ⟨rfl, body, hseek, hroot⟩

/-- Wherever it is read from, a dump is made of lines. -/
theorem exists_ofLines_of_read {origin : String} {format : Format} {index : Nat}
    {raw : List RawLine} {d : Dump} (h : read origin format index raw = .ok d) :
    d.separators = format.separators ∧ ∃ lines, d.OfLines lines := by
  obtain ⟨hsep, body, -, hroot⟩ := of_read_eq_ok h
  obtain ⟨lines, -, hlines⟩ := exists_addEach_of_readBody hroot
  rw [← hsep] at hlines
  exact ⟨hsep, lines, ofLines_of_addEach hlines⟩

/-- A dump that is read from bytes is made of lines that have no line feed in them. -/
theorem exists_lines_of_ofBytes {format : Format} {index : Nat} {bytes : ByteArray} {d : Dump}
    (h : ofBytes format index bytes = .ok d) :
    d.separators = format.separators ∧ d.root.name = format.rootName ∧
      ∃ lines, (∀ line ∈ lines, '\n' ∉ line.toList) ∧ d.OfLines lines := by
  obtain ⟨hsep, body, hseek, hroot⟩ := of_read_eq_ok h
  obtain ⟨lines, hraw, hlines⟩ := exists_addEach_of_readBody hroot
  rw [← hsep] at hlines
  refine ⟨hsep, ?_, lines, ?_, ofLines_of_addEach hlines⟩
  · have hempty := Group.wellFormed_empty format.rootName
    have hname := (Group.leaves_addEach hempty (congrArg Prod.snd hlines)).1
    rw [hlines] at hname
    exact hname
  · intro line hline
    obtain ⟨piece, hpiece, heq⟩ := List.mem_map.mp ((seek_suffix hseek).mem (hraw line hline))
    exact RawLine.lineFeed_not_mem_of_ofBytes (RawLine.not_mem_of_mem_splitBytes hpiece) heq

/-- A dump that is read from bytes is made of lines. -/
theorem exists_ofLines_of_ofBytes {format : Format} {index : Nat} {bytes : ByteArray} {d : Dump}
    (h : ofBytes format index bytes = .ok d) :
    d.separators = format.separators ∧ ∃ lines, d.OfLines lines :=
  exists_ofLines_of_read h

theorem ofLines_of_ofBytes_toUTF8 {format : Format} {index : Nat} {text : String} {d : Dump}
    (h : ofBytes format index text.toUTF8 = .ok d) :
    d.separators = format.separators ∧ d.OfLines (content format index (Text.lines text)) := by
  obtain ⟨-, -, -, hsep, hadd⟩ := ofBytes_toUTF8_eq_ok_iff.mp h
  rw [← hsep] at hadd
  exact ⟨hsep, ofLines_of_addEach hadd⟩

/-- What is listed is what a line says. -/
theorem OfLines.mem_leaves_iff {d : Dump} {lines : List String} (h : d.OfLines lines)
    {path : List String} {s : Stat} :
    (path, s) ∈ d.root.leaves ↔
      ∃ line ∈ lines, ∃ l,
        Line.parse d.separators line = .ok l ∧ l.segments = path ∧ l.stat = s := by
  rw [h.leaves.mem_iff, Line.leaves, List.mem_filterMap]
  refine exists_congr fun line => and_congr_right fun _ => ⟨fun hleaf => ?_, ?_⟩
  · obtain ⟨l, hl, heq⟩ := Line.parse_of_leaf? hleaf
    obtain ⟨rfl, rfl⟩ := Prod.mk.inj heq
    exact ⟨l, hl, rfl, rfl⟩
  · rintro ⟨l, hl, rfl, rfl⟩
    exact Line.leaf?_of_parse hl

/-! ## Which texts are accepted -/

/-- **Which texts are accepted.** With a usable format, dump number `index` of a text is read
exactly if there are so many begin markers, every content line of the dump reads as a statistic by
itself, and of no two content lines the segments of one begin with those of the other. -/
theorem exists_ofBytes_eq_ok_iff {format : Format} (hformat : format.validate = .ok ())
    {index : Nat} (hindex : 1 ≤ index) (text : String) :
    (∃ d, ofBytes format index text.toUTF8 = .ok d) ↔
      index ≤ (Text.lines text).count format.beginMarker ∧
      (∀ line ∈ content format index (Text.lines text),
        ∃ l, Line.parse format.separators line = .ok l) ∧
      ∀ (i j : Nat) (a b : String) (l m : Line), i ≠ j →
        (content format index (Text.lines text))[i]? = some a →
        (content format index (Text.lines text))[j]? = some b →
        Line.parse format.separators a = .ok l → Line.parse format.separators b = .ok m →
        ¬ l.segments <+: m.segments := by
  have hproblem := Format.problem?_eq_none_iff.mpr hformat
  have hwf := Group.wellFormed_empty format.rootName
  rw [← Group.accepts_empty_iff format.rootName, ← Group.addEach_eq_nil_iff hwf]
  constructor
  · rintro ⟨d, hd⟩
    obtain ⟨-, -, hcount, -, hadd⟩ := ofBytes_toUTF8_eq_ok_iff.mp hd
    exact ⟨hcount, congrArg Prod.snd hadd⟩
  · rintro ⟨hcount, hnil⟩
    exact ⟨⟨_, format.separators⟩, ofBytes_toUTF8_eq_ok_iff.mpr
      ⟨Nat.ne_of_gt hindex, hproblem, hcount, rfl, Prod.ext rfl hnil⟩⟩

/-- Two lines of one dump, read by a format of its own. -/
theorem exists_ofBytes_two_lines :
    (Format.mk "begin" "end" ["/", "->"] "top").validate = .ok () ∧ 1 ≤ 1 ∧
      ∃ d, ofBytes ⟨"begin", "end", ["/", "->"], "top"⟩ 1
        "begin\nl2/hits 9 # h\n\nl2->misses 1 # m\nend\n".toUTF8 = .ok d := by
  have hformat : (Format.mk "begin" "end" ["/", "->"] "top").validate = .ok () := by
    decide +kernel
  refine ⟨hformat, Nat.le_refl 1, (exists_ofBytes_eq_ok_iff hformat (Nat.le_refl 1) _).mpr ?_⟩
  refine ⟨by decide +kernel, (Group.accepts_empty_iff "top").mp ?_⟩
  refine (Group.addEach_eq_nil_iff (Group.wellFormed_empty "top")).mp ?_
  decide +kernel

end Dump

end SimStats
