import Mathlib.Data.List.MinMax
import SimStats.Proofs.Path.Split

/-!
# Paths in one pass

`Path.split` looks for every separator in all of what is left of a path, and cuts at the one that it
finds first. `Path.scan` goes through the path once and looks at one position at a time: where
separators begin it cuts at the longest of them, and any other character goes to the segment that is
open. Both find the same segments (`Path.split_eq_scan`), since what stands before the first cut
holds no separator, and at the cut the longest separator is the one that is preferred.

So the segments and the separators between them are the path again, no segment holds a separator,
and neither the order of the separators nor a repetition among them matters.
-/

namespace SimStats.Path

variable {seps : List (List Char)} {s : List Char}

/-! ## The scanner -/

/-- The longest separator that the text begins with. -/
def longest? (seps : List (List Char)) (s : List Char) : Option (List Char) :=
  (seps.filter fun sep => sep ≠ [] ∧ sep <+: s).argmax List.length

/-- A text in pieces. -/
structure Pieces where
  /-- the segments that end at a separator, each with that separator -/
  ended : List (List Char × List Char)
  /-- the segment that ends with the text -/
  last : List Char

namespace Pieces

/-- All segments. -/
def segments (p : Pieces) : List (List Char) := p.ended.map Prod.fst ++ [p.last]

/-- The segments with the separators between them. -/
def text (p : Pieces) : List Char := (p.ended.flatMap fun e => e.1 ++ e.2) ++ p.last

/-- The pieces after a first segment and its separator. -/
def after (segment sep : List Char) (p : Pieces) : Pieces :=
  { p with ended := (segment, sep) :: p.ended }

@[simp] theorem segments_after (segment sep : List Char) (p : Pieces) :
    (p.after segment sep).segments = segment :: p.segments := rfl

@[simp] theorem text_after (segment sep : List Char) (p : Pieces) :
    (p.after segment sep).text = segment ++ sep ++ p.text := by
  simp [after, text]

@[simp] theorem ended_after (segment sep : List Char) (p : Pieces) :
    (p.after segment sep).ended = (segment, sep) :: p.ended := rfl

end Pieces

/-- Scans a text of which the first `skip` characters belong to the separator that was cut at last.
`current` is the segment that is open. -/
def scanFrom (seps : List (List Char)) : Nat → List Char → List Char → Pieces
  | _, current, [] => ⟨[], current⟩
  | skip + 1, current, _ :: s => scanFrom seps skip current s
  | 0, current, c :: s =>
    match longest? seps (c :: s) with
    | some sep => (scanFrom seps (sep.length - 1) [] s).after current sep
    | none => scanFrom seps 0 (current ++ [c]) s

/-- The pieces of a path, found in one pass. -/
def scan (separators : List String) (path : String) : Pieces :=
  scanFrom (separators.map String.toList) 0 [] path.toList

/-! ## What begins a text -/

theorem not_occurs_of_longest? (h : longest? seps s = none) (length : Nat) :
    ¬ Occurs seps s ⟨0, length⟩ := by
  rintro ⟨sep, hsep, hne, -, hpre⟩
  rw [longest?, List.argmax_eq_none, List.filter_eq_nil_iff] at h
  exact h sep hsep (decide_eq_true ⟨hne, hpre⟩)

/-- The longest separator that a text begins with is the first one in it. -/
theorem isFirst_of_longest? {sep : List Char} (h : longest? seps s = some sep) :
    sep ∈ seps ∧ sep ≠ [] ∧ sep <+: s ∧ IsFirst seps s ⟨0, sep.length⟩ := by
  have hmem := List.argmax_mem h
  simp only [List.mem_filter, decide_eq_true_eq] at hmem
  obtain ⟨hsep, hne, hpre⟩ := hmem
  refine ⟨hsep, hne, hpre, ⟨sep, hsep, hne, rfl, hpre⟩, ?_⟩
  rintro ⟨start, length⟩ ⟨other, hother, hothne, hlen, hothpre⟩ hprec
  rcases Cut.precedes_iff.mp hprec with hlt | ⟨rfl, hlt⟩
  · exact Nat.not_lt_zero _ hlt
  · have hcand : other ∈ seps.filter fun sep => sep ≠ [] ∧ sep <+: s := by
      simpa using ⟨hother, hothne, hothpre⟩
    have hle := List.le_of_mem_argmax hcand h
    dsimp only at hlt hlen
    omega

/-- Behind a separator goes on what follows it. -/
theorem drop_of_longest? {c : Char} {sep : List Char} (h : longest? seps (c :: s) = some sep) :
    s.drop (sep.length - 1) = (c :: s).drop sep.length := by
  obtain ⟨-, hne, -, -⟩ := isFirst_of_longest? h
  obtain ⟨d, sep, rfl⟩ := List.exists_cons_of_ne_nil hne
  rfl

/-! ## Cuts are found where they begin -/

theorem occurs_cons_succ {c : Char} {cut : Cut} :
    Occurs seps (c :: s) { cut with start := cut.start + 1 } ↔ Occurs seps s cut := Iff.rfl

/-- A text that begins with a separator is cut there, at the longest. -/
theorem splitChars_of_longest? {sep : List Char} (h : longest? seps s = some sep) :
    splitChars seps s = [] :: splitChars seps (s.drop sep.length) := by
  obtain ⟨-, -, -, hfirst⟩ := isFirst_of_longest? h
  rw [splitChars_of_some (firstCut?_eq_some_iff.mpr hfirst), List.take_zero, Nat.zero_add]

/-- A first character at which no separator begins belongs to the first segment. -/
theorem splitChars_cons_of_longest? {c : Char} (h : longest? seps (c :: s) = none) :
    splitChars seps (c :: s) = (splitChars seps s).modifyHead (c :: ·) := by
  have hzero := not_occurs_of_longest? h
  cases hcut : firstCut? seps s with
  | none =>
    have havoid := firstCut?_eq_none_iff.mp hcut
    have havoid' : Avoids seps (c :: s) := by
      rintro ⟨_ | start, length⟩ hoccurs
      · exact hzero length hoccurs
      · exact havoid ⟨start, length⟩ hoccurs
    rw [splitChars_of_none hcut, splitChars_of_none (firstCut?_eq_none_iff.mpr havoid')]
    rfl
  | some cut =>
    obtain ⟨hoccurs, hleast⟩ := firstCut?_eq_some_iff.mp hcut
    have hfirst : IsFirst seps (c :: s) { cut with start := cut.start + 1 } := by
      refine ⟨occurs_cons_succ.mpr hoccurs, ?_⟩
      rintro ⟨_ | start, length⟩ hother hprec
      · exact hzero length hother
      · refine hleast ⟨start, length⟩ hother (Cut.precedes_iff.mpr ?_)
        have := Cut.precedes_iff.mp hprec
        dsimp only at this ⊢
        omega
    rw [splitChars_of_some hcut, splitChars_of_some (firstCut?_eq_some_iff.mpr hfirst)]
    simp [Nat.add_right_comm]

/-! ## What the scanner finds -/

/-- The scanner finds the segments of what it has not skipped, the first of them after what is open
already. -/
theorem segments_scanFrom (seps : List (List Char)) (skip : Nat) (current s : List Char) :
    (scanFrom seps skip current s).segments =
      (splitChars seps (s.drop skip)).modifyHead (current ++ ·) := by
  fun_induction scanFrom seps skip current s with
  | case1 skip current =>
    have havoid : Avoids seps [] := avoids_nil
    rw [List.drop_nil, splitChars_of_none (firstCut?_eq_none_iff.mpr havoid)]
    simp [Pieces.segments]
  | case2 current skip c s ih => exact ih
  | case3 current c s sep hsep ih =>
    rw [Pieces.segments_after, ih, drop_of_longest? hsep, List.drop_zero,
      splitChars_of_longest? hsep]
    cases splitChars seps ((c :: s).drop sep.length) <;> simp
  | case4 current c s hnone ih =>
    rw [ih, List.drop_zero, List.drop_zero, splitChars_cons_of_longest? hnone,
      List.modifyHead_modifyHead]
    congr 1
    funext segment
    simp

/-- Nothing is lost but what is skipped. -/
theorem text_scanFrom (seps : List (List Char)) (skip : Nat) (current s : List Char) :
    (scanFrom seps skip current s).text = current ++ s.drop skip := by
  fun_induction scanFrom seps skip current s with
  | case1 skip current => simp [Pieces.text]
  | case2 current skip c s ih => exact ih
  | case3 current c s sep hsep ih =>
    obtain ⟨-, -, hpre, -⟩ := isFirst_of_longest? hsep
    rw [Pieces.text_after, ih, drop_of_longest? hsep, List.nil_append, List.append_assoc,
      List.prefix_iff_eq_append.mp hpre, List.drop_zero]
  | case4 current c s hnone ih => simp [ih]

/-- Segments end at separators. -/
theorem mem_of_mem_ended {skip : Nat} {current : List Char} {e : List Char × List Char}
    (h : e ∈ (scanFrom seps skip current s).ended) : e.2 ∈ seps := by
  fun_induction scanFrom seps skip current s with
  | case1 skip current => exact absurd h List.not_mem_nil
  | case2 current skip c s ih => exact ih h
  | case3 current c s sep hsep ih =>
    rw [Pieces.ended_after] at h
    rcases List.mem_cons.mp h with rfl | h
    · exact (isFirst_of_longest? hsep).1
    · exact ih h
  | case4 current c s hnone ih => exact ih h

/-! ## Which separators there are -/

theorem occurs_congr {seps' : List (List Char)} (h : ∀ sep, sep ∈ seps' ↔ sep ∈ seps) {cut : Cut} :
    Occurs seps' s cut ↔ Occurs seps s cut := by
  simp only [Occurs, h]

/-- Where a text is cut depends on nothing but which separators there are. -/
theorem splitChars_congr {seps' : List (List Char)} (h : ∀ sep, sep ∈ seps' ↔ sep ∈ seps)
    (s : List Char) : splitChars seps' s = splitChars seps s := by
  have hcut : ∀ s, firstCut? seps' s = firstCut? seps s := by
    intro s
    ext cut
    simp only [firstCut?_eq_some_iff, IsFirst, occurs_congr h]
  fun_induction splitChars seps s with
  | case1 s hnone => exact splitChars_of_none ((hcut s).trans hnone)
  | case2 s cut hsome ih => rw [splitChars_of_some ((hcut s).trans hsome), ih]

/-! ## How long cutting goes on -/

/-- The pieces of `s` between the separators, if at most `rounds` searches for a cut find them
all. -/
def splitWithin (seps : List (List Char)) : Nat → List Char → Option (List (List Char))
  | 0, _ => none
  | rounds + 1, s =>
    match firstCut? seps s with
    | none => some [s]
    | some cut =>
      (splitWithin seps rounds (s.drop (cut.start + cut.length))).map (s.take cut.start :: ·)

/-- Every cut takes a character from the text, so cutting ends after as many rounds as there are
characters, and one more. -/
theorem splitWithin_of_length_lt {rounds : Nat} (h : s.length < rounds) :
    splitWithin seps rounds s = some (splitChars seps s) := by
  induction rounds generalizing s with
  | zero => exact absurd h (Nat.not_lt_zero _)
  | succ rounds ih =>
    rw [splitWithin]
    cases hcut : firstCut? seps s with
    | none => rw [splitChars_of_none hcut]
    | some cut =>
      obtain ⟨hpos, hle⟩ := firstCut?_bounds hcut
      have hrest : (s.drop (cut.start + cut.length)).length < rounds := by
        rw [List.length_drop]
        omega
      rw [splitChars_of_some hcut]
      simp [ih hrest]

/-- **Cutting is scanning for the longest separator.** However many separators there are, in
whatever order and overlapping as they may, cutting a path at them ends, and gives the segments that
one pass finds which cuts at the longest separator wherever one begins. Those segments and the
separators between them are the path, no segment holds a separator, and other lists of the same
separators give the same segments. -/
theorem split_eq_scan {separators : List String} (h : ∀ sep ∈ separators, sep ≠ "")
    (path : String) :
    splitWithin (separators.map String.toList) (path.toList.length + 1) path.toList =
        some ((split separators path).map String.toList) ∧
      split separators path = (scan separators path).segments.map String.ofList ∧
      String.ofList (scan separators path).text = path ∧
      (∀ e ∈ (scan separators path).ended, String.ofList e.2 ∈ separators) ∧
      (∀ segment ∈ split separators path, ∀ sep ∈ separators,
        ¬ sep.toList <:+: segment.toList) ∧
      ∀ separators' : List String, (∀ sep, sep ∈ separators' ↔ sep ∈ separators) →
        split separators' path = split separators path := by
  refine ⟨?_, ?_, ?_, ?_, ?_, ?_⟩
  · rw [splitWithin_of_length_lt (Nat.lt_succ_self _), split, List.map_map]
    simp
  · have hmodify : (splitChars (separators.map String.toList) path.toList).modifyHead ([] ++ ·) =
        splitChars (separators.map String.toList) path.toList := by
      cases splitChars (separators.map String.toList) path.toList <;> simp
    rw [split, scan, segments_scanFrom, List.drop_zero, hmodify]
  · rw [scan, text_scanFrom, List.nil_append, List.drop_zero, String.ofList_toList]
  · intro e he
    obtain ⟨sep, hsep, heq⟩ := List.mem_map.mp (mem_of_mem_ended he)
    rw [← heq, String.ofList_toList]
    exact hsep
  · intro segment hsegment sep hsep
    have hne : sep.toList ≠ [] := by simpa using h sep hsep
    exact avoids_iff.mp (avoids_of_mem_split hsegment) _ (List.mem_map_of_mem hsep) hne
  · intro separators' hsame
    rw [split, split, splitChars_congr]
    simp [hsame]

/-- Three colons are cut at the first two, with the separators in either order. -/
theorem split_eq_scan_colons :
    (∀ sep ∈ [":", "::", "."], sep ≠ "") ∧
      scan [":", "::", "."] "a:::b.c" =
        ⟨[(['a'], [':', ':']), ([], [':']), (['b'], ['.'])], ['c']⟩ ∧
      split [":", "::", "."] "a:::b.c" = ["a", "", "b", "c"] ∧
      split [".", "::", ":", "."] "a:::b.c" = ["a", "", "b", "c"] := by
  have hne : ∀ sep ∈ [":", "::", "."], sep ≠ "" := by decide
  have hscan : scan [":", "::", "."] "a:::b.c" =
      ⟨[(['a'], [':', ':']), ([], [':']), (['b'], ['.'])], ['c']⟩ := by rfl
  obtain ⟨-, hsplit, -, -, -, hcongr⟩ := split_eq_scan hne "a:::b.c"
  have hsegments : split [":", "::", "."] "a:::b.c" = ["a", "", "b", "c"] := by
    rw [hsplit, hscan]
    rfl
  refine ⟨hne, hscan, hsegments, (hcongr _ ?_).trans hsegments⟩
  intro sep
  simp only [List.mem_cons, List.not_mem_nil]
  tauto

end SimStats.Path
