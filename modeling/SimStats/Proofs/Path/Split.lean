import SimStats.Path

/-!
# Where a path is cut

`firstCut?` finds, of all places where a separator stands, the one that starts first, and of those
the longest (`firstCut?_eq_some_iff`). So what is left between the cuts holds no separator, and is
not cut again (`split_of_mem_split`).

Where the dot is a separator that no other one holds, a dot between two texts is always cut at,
and splitting undoes joining (`split_key`).
-/

namespace SimStats.Path

variable {seps : List (List Char)} {s t : List Char}

/-! ## The first cut -/

/-- A separator stands at the cut. -/
def Occurs (seps : List (List Char)) (s : List Char) (cut : Cut) : Prop :=
  ∃ sep ∈ seps, sep ≠ [] ∧ sep.length = cut.length ∧ sep <+: s.drop cut.start

/-- No separator stands anywhere in the text. -/
def Avoids (seps : List (List Char)) (s : List Char) : Prop := ∀ cut, ¬ Occurs seps s cut

/-- A separator stands at the cut, and no separator at one that precedes it. -/
def IsFirst (seps : List (List Char)) (s : List Char) (cut : Cut) : Prop :=
  Occurs seps s cut ∧ ∀ other, Occurs seps s other → ¬ other.precedes cut

/-- A text avoids separators exactly if none of them is a part of it. -/
theorem avoids_iff : Avoids seps s ↔ ∀ sep ∈ seps, sep ≠ [] → ¬ sep <:+: s := by
  constructor
  · rintro h sep hsep hne ⟨front, back, rfl⟩
    refine h ⟨front.length, sep.length⟩ ⟨sep, hsep, hne, rfl, ?_⟩
    rw [List.append_assoc, List.drop_left]
    exact List.prefix_append _ _
  · rintro h cut ⟨sep, hsep, hne, -, hpre⟩
    exact h sep hsep hne (hpre.isInfix.trans (List.drop_suffix _ _).isInfix)

theorem Cut.precedes_iff {a b : Cut} :
    a.precedes b ↔ a.start < b.start ∨ (a.start = b.start ∧ b.length < a.length) := by
  simp [precedes]

theorem occurrence?_eq_some {sep : List Char} {cut : Cut} (h : occurrence? sep s = some cut) :
    sep <+: s.drop cut.start ∧ ∀ i < cut.start, ¬ sep <+: s.drop i := by
  induction s generalizing cut with
  | nil => cases h
  | cons c s ih =>
    rw [occurrence?] at h
    split at h
    · next hp =>
      obtain rfl := Option.some.inj h
      exact ⟨List.isPrefixOf_iff_prefix.mp hp, fun i hi => absurd hi (Nat.not_lt_zero i)⟩
    · next hp =>
      obtain ⟨inner, hinner, rfl⟩ := Option.map_eq_some_iff.mp h
      obtain ⟨hhere, hbefore⟩ := ih hinner
      refine ⟨hhere, fun i hi => ?_⟩
      cases i with
      | zero => exact fun hpre => hp (List.isPrefixOf_iff_prefix.mpr hpre)
      | succ i => exact hbefore i (Nat.lt_of_succ_lt_succ hi)

theorem occurrence?_eq_none {sep : List Char} (hne : sep ≠ []) (h : occurrence? sep s = none)
    (i : Nat) : ¬ sep <+: s.drop i := by
  induction s generalizing i with
  | nil =>
    intro hpre
    rw [List.drop_nil] at hpre
    exact hne (List.prefix_nil.mp hpre)
  | cons c s ih =>
    rw [occurrence?] at h
    split at h
    · cases h
    · next hp =>
      cases i with
      | zero => exact fun hpre => hp (List.isPrefixOf_iff_prefix.mpr hpre)
      | succ i => exact ih (Option.map_eq_none_iff.mp h) i

/-- An empty separator stands nowhere. -/
theorem occurs_cons_nil {cut : Cut} : Occurs ([] :: seps) s cut ↔ Occurs seps s cut := by
  simp [Occurs]

theorem occurs_cons {sep : List Char} {cut : Cut} :
    Occurs (sep :: seps) s cut ↔ Occurs [sep] s cut ∨ Occurs seps s cut := by
  simp [Occurs]

theorem occurs_singleton {sep : List Char} (hne : sep ≠ []) {cut : Cut} :
    Occurs [sep] s cut ↔ sep.length = cut.length ∧ sep <+: s.drop cut.start := by
  simp [Occurs, hne]

theorem isFirst_of_occurrence? {sep : List Char} (hne : sep ≠ []) {cut : Cut}
    (h : occurrence? sep s = some cut) : IsFirst [sep] s cut := by
  obtain ⟨hhere, hbefore⟩ := occurrence?_eq_some h
  have hlen := (occurrence?_bounds h).1
  refine ⟨(occurs_singleton hne).mpr ⟨hlen.symm, hhere⟩, fun other hother hprec => ?_⟩
  obtain ⟨hlen', hhere'⟩ := (occurs_singleton hne).mp hother
  rcases Cut.precedes_iff.mp hprec with hlt | ⟨-, hlt⟩
  · exact hbefore _ hlt hhere'
  · omega

theorem avoids_of_occurrence? {sep : List Char} (hne : sep ≠ []) (h : occurrence? sep s = none) :
    Avoids [sep] s := fun cut hcut =>
  occurrence?_eq_none hne h cut.start ((occurs_singleton hne).mp hcut).2

/-- Of the first cut at one separator and the first cut at others, the first is first of all. -/
theorem isFirst_cons {sep : List Char} {a b : Cut} (ha : IsFirst [sep] s a)
    (hb : IsFirst seps s b) : IsFirst (sep :: seps) s (if b.precedes a then b else a) := by
  split
  · next hba =>
    refine ⟨occurs_cons.mpr (Or.inr hb.1), fun other hother hprec => ?_⟩
    rcases occurs_cons.mp hother with h | h
    · refine ha.2 other h (Cut.precedes_iff.mpr ?_)
      have := Cut.precedes_iff.mp hba
      have := Cut.precedes_iff.mp hprec
      omega
    · exact hb.2 other h hprec
  · next hba =>
    refine ⟨occurs_cons.mpr (Or.inl ha.1), fun other hother hprec => ?_⟩
    rcases occurs_cons.mp hother with h | h
    · exact ha.2 other h hprec
    · refine hb.2 other h (Cut.precedes_iff.mpr ?_)
      have := mt Cut.precedes_iff.mpr hba
      have := Cut.precedes_iff.mp hprec
      omega

/-- What `firstCut?` finds is first of all cuts, and it finds nothing only if there is nothing. -/
theorem firstCut?_spec (seps : List (List Char)) (s : List Char) :
    match firstCut? seps s with
    | none => Avoids seps s
    | some cut => IsFirst seps s cut := by
  induction seps with
  | nil =>
    rintro cut ⟨sep, hsep, -⟩
    cases hsep
  | cons sep seps ih =>
    rw [firstCut?]
    by_cases hne : sep = []
    · subst hne
      rw [if_pos rfl, Cut.first]
      simpa only [Avoids, IsFirst, occurs_cons_nil] using ih
    · rw [if_neg hne]
      rcases ho : occurrence? sep s with _ | a
      · have havoid := avoids_of_occurrence? hne ho
        have hiff : ∀ cut, Occurs (sep :: seps) s cut ↔ Occurs seps s cut := fun cut =>
          occurs_cons.trans (or_iff_right (havoid cut))
        rw [Cut.first]
        simpa only [Avoids, IsFirst, hiff] using ih
      · have ha := isFirst_of_occurrence? hne ho
        rcases hf : firstCut? seps s with _ | b
        · rw [hf] at ih
          have hiff : ∀ cut, Occurs (sep :: seps) s cut ↔ Occurs [sep] s cut := fun cut =>
            occurs_cons.trans (or_iff_left (ih cut))
          rw [Cut.first]
          simpa only [IsFirst, hiff] using ha
        · rw [hf] at ih
          rw [Cut.first, ← apply_ite some]
          exact isFirst_cons ha ih

/-- There is only one first cut. -/
theorem IsFirst.eq {a b : Cut} (ha : IsFirst seps s a) (hb : IsFirst seps s b) : a = b := by
  have hab := mt Cut.precedes_iff.mpr (hb.2 a ha.1)
  have hba := mt Cut.precedes_iff.mpr (ha.2 b hb.1)
  have hstart : a.start = b.start := by omega
  have hlength : a.length = b.length := by omega
  cases a
  cases b
  cases hstart
  cases hlength
  rfl

theorem firstCut?_eq_some_iff {cut : Cut} : firstCut? seps s = some cut ↔ IsFirst seps s cut := by
  have hspec := firstCut?_spec seps s
  rcases h : firstCut? seps s with _ | first
  · rw [h] at hspec
    exact ⟨fun hnone => (nomatch hnone), fun hcut => absurd hcut.1 (hspec cut)⟩
  · rw [h] at hspec
    rw [Option.some.injEq]
    exact ⟨fun heq => heq ▸ hspec, fun hcut => hspec.eq hcut⟩

theorem firstCut?_eq_none_iff : firstCut? seps s = none ↔ Avoids seps s := by
  have hspec := firstCut?_spec seps s
  rcases h : firstCut? seps s with _ | first
  · rw [h] at hspec
    exact ⟨fun _ => hspec, fun _ => rfl⟩
  · rw [h] at hspec
    exact ⟨fun hsome => (nomatch hsome), fun havoid => absurd hspec.1 (havoid first)⟩

/-! ## The pieces between the cuts -/

/-- What stands before the first cut holds no separator. -/
theorem IsFirst.avoids_take {cut : Cut} (h : IsFirst seps s cut) :
    Avoids seps (s.take cut.start) := by
  rintro other ⟨sep, hsep, hne, hlen, hpre⟩
  rw [List.drop_take] at hpre
  have hlt : other.start < cut.start := by
    have hpos := List.length_pos_iff.mpr hne
    have hle := hpre.length_le
    rw [List.length_take] at hle
    omega
  exact h.2 other ⟨sep, hsep, hne, hlen, hpre.trans (List.take_prefix _ _)⟩
    (Cut.precedes_iff.mpr (Or.inl hlt))

theorem avoids_of_mem_splitChars {piece : List Char} (h : piece ∈ splitChars seps s) :
    Avoids seps piece := by
  fun_induction splitChars seps s with
  | case1 s hnone =>
    obtain rfl := List.mem_singleton.mp h
    exact firstCut?_eq_none_iff.mp hnone
  | case2 s cut hsome ih =>
    rcases List.mem_cons.mp h with rfl | h
    · exact (firstCut?_eq_some_iff.mp hsome).avoids_take
    · exact ih h

/-- Pieces are made of characters of the text. -/
theorem subset_of_mem_splitChars {piece : List Char} (h : piece ∈ splitChars seps s) :
    piece ⊆ s := by
  fun_induction splitChars seps s with
  | case1 s _ =>
    obtain rfl := List.mem_singleton.mp h
    exact List.Subset.refl _
  | case2 s cut _ ih =>
    rcases List.mem_cons.mp h with rfl | h
    · exact List.take_subset _ _
    · exact List.Subset.trans (ih h) (List.drop_subset _ _)

/-- A text without separators is a path of one segment. -/
theorem split_of_avoids {separators : List String} {segment : String}
    (h : Avoids (separators.map String.toList) segment.toList) :
    split separators segment = [segment] := by
  rw [split, splitChars_of_none (firstCut?_eq_none_iff.mpr h), List.map_singleton,
    String.ofList_toList]

theorem avoids_of_mem_split {separators : List String} {path segment : String}
    (h : segment ∈ split separators path) :
    Avoids (separators.map String.toList) segment.toList := by
  obtain ⟨piece, hpiece, rfl⟩ := List.mem_map.mp h
  rw [String.toList_ofList]
  exact avoids_of_mem_splitChars hpiece

theorem subset_of_mem_split {separators : List String} {path segment : String}
    (h : segment ∈ split separators path) : segment.toList ⊆ path.toList := by
  obtain ⟨piece, hpiece, rfl⟩ := List.mem_map.mp h
  rw [String.toList_ofList]
  exact subset_of_mem_splitChars hpiece

/-- A segment is not cut again. -/
theorem split_of_mem_split {separators : List String} {path segment : String}
    (h : segment ∈ split separators path) : split separators segment = [segment] :=
  split_of_avoids (avoids_of_mem_split h)

theorem Avoids.subset {seps' : List (List Char)} (h : Avoids seps s) (hsub : seps' ⊆ seps) :
    Avoids seps' s := by
  rintro cut ⟨sep, hsep, hcut⟩
  exact h cut ⟨sep, hsub hsep, hcut⟩

theorem avoids_nil : Avoids seps [] := by
  rintro cut ⟨sep, -, hne, -, hpre⟩
  rw [List.drop_nil] at hpre
  exact hne (List.prefix_nil.mp hpre)

/-- The empty path has one segment, which is empty. -/
theorem split_empty (separators : List String) : split separators "" = [""] := by
  have havoid : Avoids (separators.map String.toList) [] := avoids_nil
  rw [split, String.toList_empty, splitChars_of_none (firstCut?_eq_none_iff.mpr havoid),
    List.map_singleton, String.ofList_nil]

/-! ## Separators of one character -/

/-- A separator that stands in what precedes a text stands there with the text after it, too. -/
theorem Occurs.append_right {cut : Cut} (h : Occurs seps s cut) (t : List Char) :
    Occurs seps (s ++ t) cut := by
  obtain ⟨sep, hsep, hne, hlen, hpre⟩ := h
  refine ⟨sep, hsep, hne, hlen, ?_⟩
  rw [List.drop_append]
  exact hpre.trans (List.prefix_append _ _)

variable {c : Char}

/-- If a character stands in no separator but the one that it is, a separator in the text before it,
at it or across it stands in that text, or is the character. -/
theorem Occurs.of_append_cons (halone : ∀ sep ∈ seps, c ∈ sep → sep = [c]) {cut : Cut}
    (h : Occurs seps (s ++ c :: t) cut) (hstart : cut.start ≤ s.length) :
    Occurs seps s cut ∨ cut = ⟨s.length, 1⟩ := by
  obtain ⟨sep, hsep, hne, hlen, hpre⟩ := h
  rw [List.drop_append_of_le_length hstart] at hpre
  rcases Nat.le_total sep.length (s.drop cut.start).length with hle | hle
  · have hpre' := List.prefix_of_prefix_length_le hpre (List.prefix_append _ _) hle
    exact Or.inl ⟨sep, hsep, hne, hlen, hpre'⟩
  · obtain ⟨r, rfl⟩ := List.prefix_of_prefix_length_le (List.prefix_append _ _) hpre hle
    have hr := (List.prefix_append_right_inj _).mp hpre
    cases r with
    | nil =>
      rw [List.append_nil] at hsep hne hlen
      exact Or.inl ⟨_, hsep, hne, hlen, List.prefix_refl _⟩
    | cons d r =>
      -- the separator reaches the character, so it is that, and nothing of `s` comes before it
      obtain rfl : d = c := (List.cons_prefix_cons.mp hr).1
      have hchar := halone _ hsep (List.mem_append_right _ (List.mem_cons_self ..))
      have hone := congrArg List.length hchar
      rw [List.length_append, List.length_drop, List.length_cons, List.length_singleton] at hone
      rw [hchar, List.length_singleton] at hlen
      right
      have hat : cut.start = s.length := by omega
      cases cut
      cases hat
      cases hlen
      rfl

/-- In a text that is not cut before the character, the character is the first cut. -/
theorem Avoids.isFirst_append_cons (hsep : [c] ∈ seps) (halone : ∀ sep ∈ seps, c ∈ sep → sep = [c])
    (h : Avoids seps s) (t : List Char) : IsFirst seps (s ++ c :: t) ⟨s.length, 1⟩ := by
  constructor
  · refine ⟨_, hsep, List.cons_ne_nil _ _, rfl, ?_⟩
    rw [List.drop_left]
    exact ⟨t, rfl⟩
  · intro other hother hprec
    have hbefore := Cut.precedes_iff.mp hprec
    dsimp only at hbefore
    have hstart : other.start ≤ s.length := by omega
    rcases hother.of_append_cons halone hstart with hin | rfl
    · exact h other hin
    · dsimp only at hbefore
      omega

/-- The first cut stays the first when the character follows. -/
theorem IsFirst.append_cons (halone : ∀ sep ∈ seps, c ∈ sep → sep = [c]) {cut : Cut}
    (h : IsFirst seps s cut) (t : List Char) : IsFirst seps (s ++ c :: t) cut := by
  have hbounds := firstCut?_bounds (firstCut?_eq_some_iff.mpr h)
  refine ⟨h.1.append_right _, ?_⟩
  intro other hother hprec
  have hbefore := Cut.precedes_iff.mp hprec
  rcases hother.of_append_cons halone (by omega) with hin | rfl
  · exact h.2 other hin hprec
  · dsimp only at hbefore
    omega

/-- The character between two texts is cut at. -/
theorem splitChars_append_cons (hsep : [c] ∈ seps) (halone : ∀ sep ∈ seps, c ∈ sep → sep = [c])
    (s t : List Char) :
    splitChars seps (s ++ c :: t) = splitChars seps s ++ splitChars seps t := by
  fun_induction splitChars seps s with
  | case1 s hnone =>
    have hfirst := (firstCut?_eq_none_iff.mp hnone).isFirst_append_cons hsep halone t
    rw [splitChars_of_some (firstCut?_eq_some_iff.mpr hfirst), List.take_left, ← List.drop_drop,
      List.drop_left]
    rfl
  | case2 s cut hsome ih =>
    have hbounds := firstCut?_bounds hsome
    have hfirst := (firstCut?_eq_some_iff.mp hsome).append_cons halone t
    rw [splitChars_of_some (firstCut?_eq_some_iff.mpr hfirst),
      List.take_append_of_le_length (by omega), List.drop_append_of_le_length (by omega), ih]
    rfl

/-! ## Dots -/

/-- The dot is a separator, and no other separator holds one. -/
def Dotted (separators : List String) : Prop :=
  "." ∈ separators ∧ ∀ sep ∈ separators, sep ≠ "." → '.' ∉ sep.toList

/-- A dot between two paths is cut at. -/
theorem split_append_dot {separators : List String} (h : Dotted separators) (p q : String) :
    split separators (p ++ "." ++ q) = split separators p ++ split separators q := by
  have hdot : ['.'] ∈ separators.map String.toList := List.mem_map.mpr ⟨".", h.1, rfl⟩
  have hdots : ∀ sep ∈ separators.map String.toList, '.' ∈ sep → sep = ['.'] := by
    intro sep hsep hmem
    obtain ⟨text, htext, rfl⟩ := List.mem_map.mp hsep
    by_cases hne : text = "."
    · exact congrArg String.toList hne
    · exact absurd hmem (h.2 text htext hne)
  have hlist : (p ++ "." ++ q).toList = p.toList ++ '.' :: q.toList := by simp
  rw [split, hlist, splitChars_append_cons hdot hdots, List.map_append, split, split]

/-- Splitting undoes joining. -/
theorem split_key {separators : List String} (h : Dotted separators) {segments : List String}
    (hne : segments ≠ []) (hwhole : ∀ segment ∈ segments, split separators segment = [segment]) :
    split separators (key segments) = segments := by
  induction segments with
  | nil => exact absurd rfl hne
  | cons segment rest ih =>
    have hsegment := hwhole segment (List.mem_cons_self ..)
    by_cases hrest : rest = []
    · subst hrest
      exact hsegment
    · rw [key_cons hrest, split_append_dot h, hsegment,
        ih hrest fun segment hmem => hwhole segment (List.mem_cons_of_mem _ hmem)]
      rfl

/-- The key of a path that goes on is the key of its front, a dot and the key of the rest. -/
theorem key_append {p q : List String} (hp : p ≠ []) (hq : q ≠ []) :
    key (p ++ q) = key p ++ "." ++ key q := by
  induction p with
  | nil => exact absurd rfl hp
  | cons segment p ih =>
    by_cases h : p = []
    · subst h
      rw [List.singleton_append, key_cons hq, key_singleton]
    · rw [List.cons_append, key_cons (List.append_ne_nil_of_left_ne_nil h q), ih h, key_cons h]
      simp only [String.append_assoc]

/-- A key is empty if it is that of no segments, or of one that is empty. -/
theorem key_eq_empty_iff {p : List String} : key p = "" ↔ p = [] ∨ p = [""] := by
  cases p with
  | nil => simp
  | cons segment rest =>
    by_cases hrest : rest = []
    · simp [hrest]
    · have hdot : key (segment :: rest) ≠ "" := by
        rw [key_cons hrest]
        intro hkey
        have htext := congrArg String.toList hkey
        simp at htext
      simp [hdot, hrest]

theorem dotted_dot : Dotted ["."] := by
  refine ⟨List.mem_singleton_self _, ?_⟩
  intro sep hsep hne
  exact absurd (List.mem_singleton.mp hsep) hne

/-- Where the dot is a separator no segment is cut at one. -/
theorem split_dot_of_mem_split {separators : List String} (hdot : "." ∈ separators)
    {path segment : String} (h : segment ∈ split separators path) :
    split ["."] segment = [segment] := by
  refine split_of_avoids ((avoids_of_mem_split h).subset ?_)
  simpa using ⟨".", hdot, rfl⟩

/-- Segments that hold no dot can be told from their key. -/
theorem eq_of_key_eq {p q : List String} (hp : p ≠ []) (hq : q ≠ [])
    (hwhole : ∀ segment ∈ p ++ q, split ["."] segment = [segment]) (h : key p = key q) :
    p = q := by
  have hsplitp := split_key dotted_dot hp fun segment hmem =>
    hwhole segment (List.mem_append_left _ hmem)
  have hsplitq := split_key dotted_dot hq fun segment hmem =>
    hwhole segment (List.mem_append_right _ hmem)
  rw [← hsplitp, h, hsplitq]

/-- A key that begins with another one and a dot is that of a path that goes on from the other, if
segments hold no dots. -/
theorem exists_append_of_key_eq {p q : List String} (hp : p ≠ []) (hq : q ≠ [])
    (hwhole : ∀ segment ∈ p ++ q, split ["."] segment = [segment]) {rest : String}
    (h : key q = key p ++ "." ++ rest) : ∃ r, q = p ++ r ∧ key r = rest := by
  have hsplitp := split_key dotted_dot hp fun segment hmem =>
    hwhole segment (List.mem_append_left _ hmem)
  have hsplitq := split_key dotted_dot hq fun segment hmem =>
    hwhole segment (List.mem_append_right _ hmem)
  rw [h, split_append_dot dotted_dot, hsplitp] at hsplitq
  refine ⟨split ["."] rest, hsplitq.symm, ?_⟩
  rw [← hsplitq, key_append hp (split_ne_nil _ _)] at h
  exact (String.append_right_inj _).mp h

end SimStats.Path
