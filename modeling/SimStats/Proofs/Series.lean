import SimStats.Proofs.Number.Zero
import SimStats.Series

/-!
# A series as a list of pairs

A series keeps its labels and its numbers apart, and a filter pairs them up and takes them apart
again. While both lists are of one length nothing of this shows: a run of changes makes of the
series what the same changes make of a plain list of pairs (`Series.Aligned.run`). Two lists of
different lengths are brought to one length by the first filter, which drops what is left over in
the longer one (`Series.sift_eq`).
-/

namespace SimStats.Series

/-! ## Filters -/

/-- What is left out of a series. -/
inductive Filter where
  /-- the entries with a label -/
  | without (label : String)
  /-- the entries that are zero -/
  | nonZero

/-- The filter leaves the pair in. -/
def Filter.Keeps : Filter → String × Float → Prop
  | .without label, e => e.1 ≠ label
  | .nonZero, e => ¬ Binary64.IsZero e.2

instance (f : Filter) (e : String × Float) : Decidable (f.Keeps e) :=
  match f with
  | .without label => inferInstanceAs (Decidable (e.1 ≠ label))
  | .nonZero => inferInstanceAs (Decidable (¬ Binary64.IsZero e.2))

/-- The series without what the filter leaves out. -/
def sift (s : Series) : Filter → Series
  | .without label => s.without label
  | .nonZero => s.nonZero

/-- Filtering a series is filtering its pairs, whatever its two lists are. -/
theorem sift_eq (s : Series) (f : Filter) :
    s.sift f = ofPairs (s.pairs.filter fun e => f.Keeps e) := by
  cases f with
  | without label =>
    refine congrArg ofPairs (List.filter_congr fun e _ => ?_)
    exact (decide_not ..).symm
  | nonZero =>
    refine congrArg ofPairs (List.filter_congr fun e _ => ?_)
    rw [Binary64.beq_zero]
    exact (decide_not ..).symm

theorem sift_sift (s : Series) (f f' : Filter) :
    (s.sift f).sift f' = ofPairs (s.pairs.filter fun e => f'.Keeps e && f.Keeps e) := by
  rw [sift_eq, sift_eq, pairs_ofPairs, List.filter_filter]

/-- Filtering twice is filtering once. -/
theorem sift_idem (s : Series) (f : Filter) : (s.sift f).sift f = s.sift f := by
  rw [sift_sift, sift_eq]
  simp only [Bool.and_self]

/-- It does not matter which filter comes first. -/
theorem sift_comm (s : Series) (f f' : Filter) : (s.sift f).sift f' = (s.sift f').sift f := by
  rw [sift_sift, sift_sift]
  simp only [Bool.and_comm]

/-! ## Changes -/

/-- A change of a series. -/
inductive Change where
  /-- an entry is added at the end -/
  | push (label : String) (value : Float)
  /-- a filter leaves entries out -/
  | sift (f : Filter)

/-- The series after a change. -/
def change (s : Series) : Change → Series
  | .push label value => s.push label value
  | .sift f => s.sift f

/-- A plain list of pairs after a change. -/
def Change.onPairs (l : List (String × Float)) : Change → List (String × Float)
  | .push label value => l ++ [(label, value)]
  | .sift f => l.filter fun e => f.Keeps e

/-- The two lists are of one length. -/
def Aligned (s : Series) : Prop := s.labels.length = s.values.length

theorem aligned_ofPairs (l : List (String × Float)) : (ofPairs l).Aligned := by
  rw [Aligned, ofPairs, List.length_map, List.length_map]

theorem aligned_sift (s : Series) (f : Filter) : (s.sift f).Aligned := by
  rw [sift_eq]
  exact aligned_ofPairs _

theorem pairs_sift (s : Series) (f : Filter) :
    (s.sift f).pairs = s.pairs.filter fun e => f.Keeps e := by
  rw [sift_eq, pairs_ofPairs]

variable {s : Series}

/-- What one change does to a series it does to its pairs. -/
theorem Aligned.change (h : s.Aligned) (c : Change) :
    (s.change c).Aligned ∧ (s.change c).pairs = c.onPairs s.pairs := by
  cases c with
  | push label value =>
    refine ⟨?_, List.zip_append h⟩
    rw [Aligned, Series.change, push, List.length_append, List.length_append, h]
    rfl
  | sift f => exact ⟨s.aligned_sift f, s.pairs_sift f⟩

/-- What a run of changes does to a series it does to its pairs. -/
theorem Aligned.run (h : s.Aligned) (changes : List Change) :
    (changes.foldl Series.change s).Aligned ∧
      (changes.foldl Series.change s).pairs = changes.foldl Change.onPairs s.pairs := by
  induction changes generalizing s with
  | nil => exact ⟨h, rfl⟩
  | cons c changes ih =>
    obtain ⟨hchange, hpairs⟩ := h.change c
    rw [List.foldl_cons, List.foldl_cons, ← hpairs]
    exact ih hchange

/-! ## Lengths -/

theorem length_percentages (s : Series) : s.percentages.length = s.values.length := by
  unfold percentages
  extract_lets total
  split <;> exact List.length_map _

theorem length_pairs (s : Series) : s.pairs.length = min s.labels.length s.values.length :=
  List.length_zip

/-- A series whose lists are of one length has as many entries as pairs. -/
theorem Aligned.lengths (h : s.Aligned) :
    s.size = s.pairs.length ∧ s.percentages.length = s.pairs.length := by
  have hpairs : s.pairs.length = s.values.length := by
    rw [length_pairs, h, Nat.min_self]
  rw [size, h, length_percentages, hpairs]
  exact ⟨rfl, rfl⟩

/-- The labels of a series whose lists are of one length are those of its pairs. -/
theorem Aligned.labels_eq (h : s.Aligned) : s.labels = s.pairs.map Prod.fst :=
  (List.map_fst_zip h.le).symm

/-- The pairs of two lists are those of their front parts of one length. -/
theorem pairs_eq_zip_take (s : Series) :
    s.pairs = (s.labels.take (min s.labels.length s.values.length)).zip
      (s.values.take (min s.labels.length s.values.length)) :=
  List.zip_eq_zip_take_min ..

/-! ## Beginnings -/

/-- How a series begins, if not as two lists that are written down. -/
inductive Beginning where
  /-- without entries -/
  | empty
  /-- as the series of a list of pairs -/
  | pairs (l : List (String × Float))
  /-- as the series of a flat map -/
  | keyed (m : Keyed Value)
  /-- as the series of a category -/
  | group (g : Group)

namespace Beginning

/-- The series that is begun. -/
def series : Beginning → Series
  | .empty => Series.empty
  | .pairs l => ofPairs l
  | .keyed m => ofKeyed m
  | .group g => ofGroup g

/-- The pairs that it begins with. -/
def toList : Beginning → List (String × Float)
  | .empty => []
  | .pairs l => l
  | .keyed m => m.entries.map fun e => (e.1, e.2.toFloat)
  | .group g => g.flatten.entries.map fun e => (e.1, e.2.toFloat)

theorem series_eq (b : Beginning) : b.series = ofPairs b.toList := by
  cases b <;> rfl

end Beginning

/-- **A series is a list of pairs.** However it begins, after any run of changes its two lists are
of one length, its pairs are what the same changes make of a plain list of pairs, and there are as
many labels and as many percentages as pairs. Filters are idempotent and commute. If a series is
written down as two lists, of one length or not, then from the first filter on it is a list of pairs
too, which begins with the pairs in the front parts of one length. -/
theorem run_as_pairs :
    (∀ (b : Beginning) (changes : List Change),
      let s := changes.foldl change b.series
      let l := changes.foldl Change.onPairs b.toList
      s.labels.length = s.values.length ∧ s.pairs = l ∧ s.size = l.length ∧
        s.percentages.length = l.length) ∧
    (∀ (s : Series) (f f' : Filter),
      (s.sift f).sift f = s.sift f ∧ (s.sift f).sift f' = (s.sift f').sift f) ∧
    ∀ (s : Series) (f : Filter) (changes : List Change),
      let n := min s.labels.length s.values.length
      let front := (s.labels.take n).zip (s.values.take n)
      let t := changes.foldl change (s.sift f)
      t.labels.length = t.values.length ∧
        t.pairs = changes.foldl Change.onPairs (front.filter fun e => f.Keeps e) := by
  refine ⟨?_, fun s f f' => ⟨s.sift_idem f, s.sift_comm f f'⟩, ?_⟩
  · intro b changes
    dsimp only
    rw [b.series_eq]
    obtain ⟨haligned, hpairs⟩ := (aligned_ofPairs b.toList).run changes
    rw [pairs_ofPairs] at hpairs
    rw [← hpairs]
    exact ⟨haligned, rfl, haligned.lengths⟩
  · intro s f changes
    dsimp only
    rw [← pairs_eq_zip_take, ← pairs_sift]
    exact (s.aligned_sift f).run changes

/-- What is left over in the longer list and what is zero are dropped together. -/
example : (⟨["a", "b", "c"], [1.0, -0.0]⟩ : Series).sift .nonZero = ⟨["a"], [1.0]⟩ := by decide

end SimStats.Series
