/-!
# Paths

A path names a node of the tree by the segments that lead to it. In a file and in a question the
segments stand between separators, of which a format may have several. `split` cuts a text at every
separator: of those that occur, at the one that starts first, and of those that start together, at
the longest. In the library's own answers segments are joined with a dot: `key`.

Empty separators separate nothing and are ignored.
-/

namespace SimStats.Path

/-! ## Where to cut -/

/-- An occurrence of a separator in a text. -/
structure Cut where
  /-- number of characters before it -/
  start : Nat
  /-- number of its characters -/
  length : Nat
  deriving DecidableEq, Repr

/-- The first occurrence of `sep` in `s`. -/
def occurrence? (sep : List Char) : List Char → Option Cut
  | [] => none
  | c :: s =>
    if sep.isPrefixOf (c :: s) then some ⟨0, sep.length⟩
    else (occurrence? sep s).map fun cut => { cut with start := cut.start + 1 }

/-- Whether `a` is cut at rather than `b`: it starts earlier, or there and is longer. -/
def Cut.precedes (a b : Cut) : Bool :=
  a.start < b.start || (a.start == b.start && b.length < a.length)

/-- The one of two cuts that is made first. -/
def Cut.first : Option Cut → Option Cut → Option Cut
  | none, b => b
  | some a, none => some a
  | some a, some b => if b.precedes a then some b else some a

/-- The place where `s` is cut first. -/
def firstCut? : List (List Char) → List Char → Option Cut
  | [], _ => none
  | sep :: seps, s =>
    Cut.first (if sep = [] then none else occurrence? sep s) (firstCut? seps s)

/-- An occurrence lies within the text. -/
theorem occurrence?_bounds {sep s : List Char} {cut : Cut} (h : occurrence? sep s = some cut) :
    cut.length = sep.length ∧ cut.start + cut.length ≤ s.length := by
  induction s generalizing cut with
  | nil => simp [occurrence?] at h
  | cons c s ih =>
    rw [occurrence?] at h
    split at h
    · next hp =>
      obtain rfl := Option.some.inj h
      refine ⟨rfl, ?_⟩
      have := (List.isPrefixOf_iff_prefix.mp hp).length_le
      simpa using this
    · obtain ⟨inner, hin, rfl⟩ := Option.map_eq_some_iff.mp h
      obtain ⟨hlen, hle⟩ := ih hin
      refine ⟨hlen, ?_⟩
      simp only [List.length_cons]
      omega

theorem Cut.first_eq_some {a b : Option Cut} {cut : Cut} (h : Cut.first a b = some cut) :
    a = some cut ∨ b = some cut := by
  cases a with
  | none => exact Or.inr h
  | some a =>
    cases b with
    | none => exact Or.inl h
    | some b =>
      rw [Cut.first] at h
      split at h
      · exact Or.inr h
      · exact Or.inl h

/-- A cut takes at least one character, and takes it from the text. -/
theorem firstCut?_bounds {seps : List (List Char)} {s : List Char} {cut : Cut}
    (h : firstCut? seps s = some cut) : 0 < cut.length ∧ cut.start + cut.length ≤ s.length := by
  induction seps with
  | nil => simp [firstCut?] at h
  | cons sep seps ih =>
    rcases Cut.first_eq_some h with h | h
    · split at h
      · cases h
      · next hne =>
        obtain ⟨hlen, hle⟩ := occurrence?_bounds h
        exact ⟨hlen ▸ List.length_pos_iff.mpr hne, hle⟩
    · exact ih h

/-! ## Splitting and joining -/

/-- The pieces of `s` between the separators. -/
def splitChars (seps : List (List Char)) (s : List Char) : List (List Char) :=
  match _h : firstCut? seps s with
  | none => [s]
  | some cut => s.take cut.start :: splitChars seps (s.drop (cut.start + cut.length))
termination_by s.length
decreasing_by
  obtain ⟨hpos, hle⟩ := firstCut?_bounds ‹_›
  simp only [List.length_drop]
  omega

/-- The segments of a path or of a statistic's name. There is always at least one. -/
def split (separators : List String) (path : String) : List String :=
  (splitChars (separators.map String.toList) path.toList).map String.ofList

/-- The segments joined with a dot. -/
def key : List String → String
  | [] => ""
  | [segment] => segment
  | segment :: rest => segment ++ "." ++ key rest

/-- `name` below the node with this key, which is `none` for the root. -/
def below (parent : Option String) (name : String) : String :=
  match parent with
  | none => name
  | some parent => parent ++ "." ++ name

theorem splitChars_of_none {seps : List (List Char)} {s : List Char}
    (h : firstCut? seps s = none) : splitChars seps s = [s] := by
  rw [splitChars]
  split
  · rfl
  · next h' => rw [h] at h'; cases h'

theorem splitChars_of_some {seps : List (List Char)} {s : List Char} {cut : Cut}
    (h : firstCut? seps s = some cut) :
    splitChars seps s =
      s.take cut.start :: splitChars seps (s.drop (cut.start + cut.length)) := by
  rw [splitChars]
  split
  · next h' => rw [h] at h'; cases h'
  · next h' =>
    rw [h] at h'
    obtain rfl := Option.some.inj h'
    rfl

theorem splitChars_ne_nil (seps : List (List Char)) (s : List Char) : splitChars seps s ≠ [] := by
  cases h : firstCut? seps s with
  | none => simp [splitChars_of_none h]
  | some cut => simp [splitChars_of_some h]

theorem split_ne_nil (separators : List String) (path : String) : split separators path ≠ [] := by
  simp [split, splitChars_ne_nil]

@[simp] theorem key_nil : key [] = "" := rfl

@[simp] theorem key_singleton (segment : String) : key [segment] = segment := rfl

theorem key_cons {segment : String} {rest : List String} (h : rest ≠ []) :
    key (segment :: rest) = segment ++ "." ++ key rest := by
  cases rest with
  | nil => exact absurd rfl h
  | cons _ _ => rfl

end SimStats.Path
