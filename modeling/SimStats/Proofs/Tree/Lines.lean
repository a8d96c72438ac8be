import SimStats.Line
import SimStats.Proofs.Tree.Insert

/-!
# Adding content lines one after the other

Whether a tree takes all of a list of lines does not depend on their order: each has to read as a
statistic, and their paths have to be apart from each other and from those of the statistics that
are there (`Group.addEach_eq_nil_iff`). Since the tree that results lists what it listed before and
the statistics of the lines, it does not depend on the order either.
-/

namespace SimStats

namespace Line

/-- The statistic of a content line with the segments of its name, if the line reads as one. -/
def leaf? (separators : List String) (line : String) : Option (List String × Stat) :=
  match parse separators line with
  | .ok l => some (l.segments, l.stat)
  | .error _ => none

theorem leaf?_of_parse {separators : List String} {line : String} {l : Line}
    (h : parse separators line = .ok l) : leaf? separators line = some (l.segments, l.stat) := by
  rw [leaf?, h]

theorem parse_of_leaf? {separators : List String} {line : String} {e : List String × Stat}
    (h : leaf? separators line = some e) :
    ∃ l, parse separators line = .ok l ∧ e = (l.segments, l.stat) := by
  rw [leaf?] at h
  split at h
  · next l hl => exact ⟨l, hl, (Option.some.inj h).symm⟩
  · cases h

/-- The statistics of those lines that read as one. -/
def leaves (separators : List String) (lines : List String) : List (List String × Stat) :=
  lines.filterMap (leaf? separators)

theorem leaves_cons {separators : List String} {line : String} {l : Line}
    (h : parse separators line = .ok l) (lines : List String) :
    leaves separators (line :: lines) = (l.segments, l.stat) :: leaves separators lines :=
  List.filterMap_cons_some (leaf?_of_parse h)

/-- The statistics of lines are apart if the segments of no line begin with those of another. -/
theorem leaves_apart_iff {separators : List String} {lines : List String} :
    (leaves separators lines).Pairwise (fun a b => Path.Apart a.1 b.1) ↔
      ∀ (i j : Nat) (a b : String) (l m : Line), i ≠ j → lines[i]? = some a → lines[j]? = some b →
        parse separators a = .ok l → parse separators b = .ok m → ¬ l.segments <+: m.segments := by
  rw [leaves, List.pairwise_filterMap, List.pairwise_iff_getElem]
  constructor
  · intro h i j a b l m hij ha hb hl hm
    obtain ⟨hi, rfl⟩ := List.getElem?_eq_some_iff.mp ha
    obtain ⟨hj, rfl⟩ := List.getElem?_eq_some_iff.mp hb
    rcases Nat.lt_or_gt_of_ne hij with hlt | hgt
    · exact (h i j hi hj hlt _ (leaf?_of_parse hl) _ (leaf?_of_parse hm)).1
    · exact (h j i hj hi hgt _ (leaf?_of_parse hm) _ (leaf?_of_parse hl)).2
  · intro h i j hi hj hij e he e' he'
    obtain ⟨l, hl, rfl⟩ := parse_of_leaf? he
    obtain ⟨m, hm, rfl⟩ := parse_of_leaf? he'
    have hgeti := List.getElem?_eq_getElem hi
    have hgetj := List.getElem?_eq_getElem hj
    exact ⟨h i j _ _ l m (Nat.ne_of_lt hij) hgeti hgetj hl hm,
      h j i _ _ m l (Nat.ne_of_gt hij) hgetj hgeti hm hl⟩

end Line

namespace Group

variable {separators : List String}

/-! ## One line -/

/-- A line that reads as a statistic whose path is apart from all others is added. -/
theorem addLine_eq_ok {g : Group} (hg : g.children.WellFormed) {line : String} {l : Line}
    (hl : Line.parse separators line = .ok l)
    (h : ∀ leaf ∈ g.leaves, Path.Apart leaf.1 l.segments) :
    ∃ g', g.addLine separators line = .ok g' := by
  obtain ⟨g', hins, -⟩ := insert_eq_ok hg h
  exact ⟨g', by rw [addLine, hl]; exact hins⟩

/-- What a line has to be that is added, and what the tree is then. -/
theorem of_addLine_eq_ok {g g' : Group} (hg : g.children.WellFormed) {line : String}
    (h : g.addLine separators line = .ok g') :
    ∃ l, Line.parse separators line = .ok l ∧
      (∀ leaf ∈ g.leaves, Path.Apart leaf.1 l.segments) ∧
      g'.name = g.name ∧ g'.children.WellFormed ∧
      g'.leaves.Perm ((l.segments, l.stat) :: g.leaves) := by
  rw [addLine] at h
  rcases hl : Line.parse separators line with e | l
  · rw [hl] at h
    cases h
  · rw [hl] at h
    have hins : g.insert l.categories l.stat = .ok g' := h
    exact ⟨l, rfl, of_insert_eq_ok hg hins⟩

/-! ## Many lines -/

/-- Adds one line after the other. A refused line leaves the tree as it is; what is wrong with the
refused lines is listed in their order. -/
def addEach (separators : List String) : Group → List String → Group × List LineError
  | g, [] => (g, [])
  | g, line :: lines =>
    match g.addLine separators line with
    | .ok g' => addEach separators g' lines
    | .error e =>
      let (g', errors) := addEach separators g lines
      (g', e :: errors)

/-- Adding lines goes on from the tree that took all lines before. -/
theorem addEach_append {g g' : Group} {lines : List String}
    (h : addEach separators g lines = (g', [])) (more : List String) :
    addEach separators g (lines ++ more) = addEach separators g' more := by
  induction lines generalizing g with
  | nil =>
    obtain rfl := congrArg Prod.fst h
    rfl
  | cons line lines ih =>
    rw [addEach] at h
    rw [List.cons_append, addEach]
    rcases hadd : g.addLine separators line with e | next
    · rw [hadd] at h
      cases congrArg Prod.snd h
    · rw [hadd] at h
      exact ih h

/-- What the lines have to be for the tree to take all of them, in no particular order. -/
structure Accepts (g : Group) (separators lines : List String) : Prop where
  /-- every line reads as a statistic -/
  grammatical : ∀ line ∈ lines, ∃ l, Line.parse separators line = .ok l
  /-- no two lines name paths that lead to or through one another -/
  apart : (Line.leaves separators lines).Pairwise fun a b => Path.Apart a.1 b.1
  /-- nor do a line and a statistic of the tree -/
  free : ∀ e ∈ Line.leaves separators lines, ∀ leaf ∈ g.leaves, Path.Apart leaf.1 e.1

theorem Accepts.perm {g : Group} {lines lines' : List String} (h : g.Accepts separators lines)
    (hp : lines.Perm lines') : g.Accepts separators lines' where
  grammatical line hline := h.grammatical line (hp.mem_iff.mpr hline)
  apart := h.apart.perm (hp.filterMap _) Path.Apart.symm
  free e he := h.free e ((hp.filterMap _).mem_iff.mpr he)

/-- An empty tree accepts lines that read as statistics that are apart. -/
theorem accepts_empty_iff (name : String) {lines : List String} :
    (Group.empty name).Accepts separators lines ↔
      (∀ line ∈ lines, ∃ l, Line.parse separators line = .ok l) ∧
        ∀ (i j : Nat) (a b : String) (l m : Line), i ≠ j → lines[i]? = some a →
          lines[j]? = some b → Line.parse separators a = .ok l → Line.parse separators b = .ok m →
          ¬ l.segments <+: m.segments := by
  rw [← Line.leaves_apart_iff]
  refine ⟨fun h => ⟨h.grammatical, h.apart⟩, fun h => ⟨h.1, h.2, ?_⟩⟩
  exact fun e _ leaf hleaf => absurd hleaf List.not_mem_nil

/-- The first line is added and the other ones fit the tree that results. -/
theorem accepts_cons_iff {g : Group} (hg : g.children.WellFormed) {line : String}
    {lines : List String} :
    g.Accepts separators (line :: lines) ↔
      ∃ g', g.addLine separators line = .ok g' ∧ g'.Accepts separators lines := by
  constructor
  · intro h
    obtain ⟨l, hl⟩ := h.grammatical line (List.mem_cons_self ..)
    have hapart := h.apart
    have hfree := h.free
    rw [Line.leaves_cons hl] at hapart hfree
    obtain ⟨hfirst, hrest⟩ := List.pairwise_cons.mp hapart
    obtain ⟨g', hadd⟩ := addLine_eq_ok hg hl (hfree _ (List.mem_cons_self ..))
    obtain ⟨l', hl', -, -, -, hperm⟩ := of_addLine_eq_ok hg hadd
    obtain rfl : l = l' := Except.ok.inj (hl.symm.trans hl')
    refine ⟨g', hadd, ?_, hrest, ?_⟩
    · intro k hk
      exact h.grammatical k (List.mem_cons_of_mem _ hk)
    -- a statistic of the new tree is that of the first line or was there before
    · intro e he leaf hleaf
      rcases List.mem_cons.mp (hperm.mem_iff.mp hleaf) with rfl | hleaf
      · exact hfirst e he
      · exact hfree e (List.mem_cons_of_mem _ he) leaf hleaf
  · rintro ⟨g', hadd, h⟩
    obtain ⟨l, hl, hnew, -, -, hperm⟩ := of_addLine_eq_ok hg hadd
    refine ⟨?_, ?_, ?_⟩
    · intro k hk
      rcases List.mem_cons.mp hk with rfl | hk
      · exact ⟨l, hl⟩
      · exact h.grammatical k hk
    · rw [Line.leaves_cons hl]
      refine List.pairwise_cons.mpr ⟨?_, h.apart⟩
      intro e he
      exact h.free e he _ (hperm.mem_iff.mpr (List.mem_cons_self ..))
    · rw [Line.leaves_cons hl]
      intro e he leaf hleaf
      rcases List.mem_cons.mp he with rfl | he
      · exact hnew leaf hleaf
      · exact h.free e he leaf (hperm.mem_iff.mpr (List.mem_cons_of_mem _ hleaf))

/-- The tree takes all lines exactly if it accepts them. -/
theorem addEach_eq_nil_iff {g : Group} (hg : g.children.WellFormed) {lines : List String} :
    (addEach separators g lines).2 = [] ↔ g.Accepts separators lines := by
  induction lines generalizing g with
  | nil =>
    refine ⟨fun _ => ⟨?_, List.Pairwise.nil, ?_⟩, fun _ => rfl⟩
    · exact fun line hline => absurd hline List.not_mem_nil
    · exact fun e he => absurd he List.not_mem_nil
  | cons line lines ih =>
    rw [accepts_cons_iff hg, addEach]
    rcases hadd : g.addLine separators line with e | g'
    · simp
    · obtain ⟨l, -, -, -, hwf, -⟩ := of_addLine_eq_ok hg hadd
      simp only [ih hwf, Except.ok.injEq, exists_eq_left']

/-- The tree that took all lines lists what it listed before and the statistics of the lines. -/
theorem leaves_addEach {g : Group} (hg : g.children.WellFormed) {lines : List String}
    (h : (addEach separators g lines).2 = []) :
    (addEach separators g lines).1.name = g.name ∧
      (addEach separators g lines).1.children.WellFormed ∧
      (addEach separators g lines).1.leaves.Perm (Line.leaves separators lines ++ g.leaves) := by
  induction lines generalizing g with
  | nil => exact ⟨rfl, hg, List.Perm.refl _⟩
  | cons line lines ih =>
    rw [addEach] at h ⊢
    rcases hadd : g.addLine separators line with e | g'
    · rw [hadd] at h
      cases h
    · rw [hadd] at h
      obtain ⟨l, hl, -, hname, hwf, hperm⟩ := of_addLine_eq_ok hg hadd
      obtain ⟨hname', hwf', hperm'⟩ := ih hwf h
      refine ⟨hname'.trans hname, hwf', ?_⟩
      rw [Line.leaves_cons hl]
      exact (hperm'.trans (hperm.append_left _)).trans List.perm_middle

/-! ## The order of lines -/

/-- The trees that additions build from an empty one. A refused addition leaves the tree as it
is. -/
inductive Reachable : Group → Prop where
  /-- the tree without statistics -/
  | empty (name : String) : Reachable (.empty name)
  /-- a statistic was added below categories -/
  | insert {g g' : Group} {categories : List String} {s : Stat} :
    Reachable g → g.insert categories s = .ok g' → Reachable g'
  /-- a content line was added -/
  | addLine {g g' : Group} {separators : List String} {line : String} :
    Reachable g → g.addLine separators line = .ok g' → Reachable g'

theorem Reachable.wellFormed {g : Group} (hg : g.Reachable) : g.children.WellFormed := by
  induction hg with
  | empty name => exact wellFormed_empty name
  | insert _ h ih =>
    obtain ⟨-, -, hwf, -⟩ := of_insert_eq_ok ih h
    exact hwf
  | addLine _ h ih =>
    obtain ⟨l, -, -, -, hwf, -⟩ := of_addLine_eq_ok ih h
    exact hwf

/-- **The order of lines does not matter.** If a tree takes all lines in one order, it takes all of
them in every order, and the same tree results; if it refuses one in one order, it refuses one in
every order. -/
theorem addEach_perm {g : Group} (hg : g.Reachable) {lines lines' : List String}
    (hp : lines.Perm lines') :
    ((addEach separators g lines).2 = [] →
      addEach separators g lines' = addEach separators g lines) ∧
    ((addEach separators g lines).2 ≠ [] → (addEach separators g lines').2 ≠ []) := by
  have hwf := hg.wellFormed
  constructor
  · intro h
    have h' := (addEach_eq_nil_iff hwf).mpr (((addEach_eq_nil_iff hwf).mp h).perm hp)
    obtain ⟨hname, hforest, hleaves⟩ := leaves_addEach hwf h
    obtain ⟨hname', hforest', hleaves'⟩ := leaves_addEach hwf h'
    have hsame := (hleaves'.trans ((hp.symm.filterMap _).append_right _)).trans hleaves.symm
    refine Prod.ext (Group.ext (hname'.trans hname.symm) ?_) (h'.trans h.symm)
    exact hforest'.eq_of_leaves hforest fun leaf => hsame.mem_iff
  · intro h h'
    exact h ((addEach_eq_nil_iff hwf).mpr (((addEach_eq_nil_iff hwf).mp h').perm hp.symm))

/-- Two lines that go together, and two of which one is in the way of the other. -/
theorem addEach_two_lines :
    Reachable (.empty "all") ∧
      ["l2.hits 9 # h", "l2::misses 1 # m"].Perm ["l2::misses 1 # m", "l2.hits 9 # h"] ∧
      addEach standardSeparators (.empty "all") ["l2::misses 1 # m", "l2.hits 9 # h"] =
        addEach standardSeparators (.empty "all") ["l2.hits 9 # h", "l2::misses 1 # m"] ∧
      ["l2.hits 9 # h", "l2 1 # m"].Perm ["l2 1 # m", "l2.hits 9 # h"] ∧
      (addEach standardSeparators (.empty "all") ["l2 1 # m", "l2.hits 9 # h"]).2 ≠ [] := by
  have hempty := Reachable.empty "all"
  have hfit := List.Perm.swap "l2::misses 1 # m" "l2.hits 9 # h" []
  have hclash := List.Perm.swap "l2 1 # m" "l2.hits 9 # h" []
  refine ⟨hempty, hfit, ?_, hclash, ?_⟩
  · exact (addEach_perm hempty hfit).1 (by decide +kernel)
  · exact (addEach_perm hempty hclash).2 (by decide +kernel)

end Group

end SimStats
