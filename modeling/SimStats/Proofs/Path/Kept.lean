import SimStats.Proofs.Path.Scan

/-!
# Characters that no separator holds

A character that no separator holds is not lost when a path is cut (`filter_segments`), and a path
is not cut beside it in a way that depends on it: around a run of such characters the segments are
those of what comes before the run and those of what comes after, where the last of the former and
the first of the latter are joined by the run (`exists_splitChars_append`).
-/

namespace SimStats.Path

variable {seps : List (List Char)} {s : List Char} {c : Char}

/-- No separator holds the character. -/
def Kept (seps : List (List Char)) (c : Char) : Prop := ∀ sep ∈ seps, c ∉ sep

/-! ## Runs that are not cut -/

/-- Which separator a text begins with does not depend on what comes from a kept character on. -/
theorem Kept.longest?_append (hc : Kept seps c) (s t : List Char) :
    longest? seps (s ++ c :: t) = longest? seps s := by
  have hfront : ∀ sep ∈ seps, sep <+: s ++ c :: t ↔ sep <+: s := by
    intro sep hsep
    refine ⟨fun h => ?_, fun h => h.trans (List.prefix_append _ _)⟩
    rcases List.prefix_or_prefix_of_prefix h (List.prefix_append s (c :: t)) with h' | ⟨r, rfl⟩
    · exact h'
    · cases r with
      | nil => simp
      | cons d r =>
        obtain rfl : d = c := (List.cons_prefix_cons.mp ((List.prefix_append_right_inj s).mp h)).1
        exact absurd (List.mem_append_right s (List.mem_cons_self ..)) (hc _ hsep)
  rw [longest?, longest?]
  congr 1
  refine List.filter_congr fun sep hsep => ?_
  simp only [hfront sep hsep]

theorem longest?_nil (seps : List (List Char)) : longest? seps [] = none := by
  rw [longest?, List.argmax_eq_none, List.filter_eq_nil_iff]
  intro sep _ h
  obtain ⟨hne, hpre⟩ := of_decide_eq_true h
  exact hne (List.prefix_nil.mp hpre)

/-- A kept run at the front belongs to the first segment. -/
theorem splitChars_kept_append {run : List Char} (hrun : ∀ c ∈ run, Kept seps c) (t : List Char) :
    splitChars seps (run ++ t) = (splitChars seps t).modifyHead (run ++ ·) := by
  induction run with
  | nil => cases h : splitChars seps t <;> simp [h]
  | cons c run ih =>
    have hc := hrun c (List.mem_cons_self ..)
    have hnone : longest? seps (c :: (run ++ t)) = none :=
      (hc.longest?_append [] (run ++ t)).trans (longest?_nil seps)
    rw [List.cons_append, splitChars_cons_of_longest? hnone,
      ih fun d hd => hrun d (List.mem_cons_of_mem _ hd), List.modifyHead_modifyHead]
    rfl

/-- The segments around a kept run that begins with `c`: the cuts before it are those of what comes
before it, because each of them ends there. -/
theorem Kept.exists_splitChars_append (hc : Kept seps c) {s t first : List Char}
    {after : List (List Char)} (ht : splitChars seps (c :: t) = (c :: first) :: after) :
    ∃ before last, splitChars seps s = before ++ [last] ∧
      splitChars seps (s ++ c :: t) = before ++ (last ++ c :: first) :: after := by
  induction hlength : s.length using Nat.strongRecOn generalizing s with
  | ind n ih =>
    cases s with
    | nil =>
      refine ⟨[], [], ?_, ht⟩
      exact splitChars_of_none (firstCut?_eq_none_iff.mpr avoids_nil)
    | cons d s =>
      subst hlength
      have hsame := hc.longest?_append (d :: s) t
      cases hlongest : longest? seps (d :: s) with
      | none =>
        obtain ⟨before, last, hs, hwhole⟩ := ih s.length (Nat.lt_succ_self _) rfl
        rw [hlongest, List.cons_append] at hsame
        rw [List.cons_append, splitChars_cons_of_longest? hlongest,
          splitChars_cons_of_longest? hsame, hs, hwhole]
        cases before with
        | nil => exact ⟨[], d :: last, rfl, rfl⟩
        | cons b before => exact ⟨(d :: b) :: before, last, rfl, rfl⟩
      | some sep =>
        obtain ⟨-, hne, hpre, -⟩ := isFirst_of_longest? hlongest
        have hpos := List.length_pos_iff.mpr hne
        have hle := hpre.length_le
        have hshort : ((d :: s).drop sep.length).length < (d :: s).length := by
          rw [List.length_drop]
          omega
        obtain ⟨before, last, hs, hwhole⟩ := ih _ hshort rfl
        rw [hlongest] at hsame
        refine ⟨[] :: before, last, ?_, ?_⟩
        · rw [splitChars_of_longest? hlongest, hs]
          rfl
        · rw [splitChars_of_longest? hsame, List.drop_append_of_le_length hle, hwhole]
          rfl

/-- Around a kept run the segments are those of what comes before and of what comes after, joined by
the run where they meet. -/
theorem exists_splitChars_append {run : List Char} (hne : run ≠ [])
    (hrun : ∀ c ∈ run, Kept seps c) (s t : List Char) :
    ∃ before last first after, splitChars seps s = before ++ [last] ∧
      splitChars seps t = first :: after ∧
      splitChars seps (s ++ run ++ t) = before ++ (last ++ run ++ first) :: after := by
  obtain ⟨c, run, rfl⟩ := List.exists_cons_of_ne_nil hne
  obtain ⟨first, after, ht⟩ := List.exists_cons_of_ne_nil (splitChars_ne_nil seps t)
  have hafter : splitChars seps (c :: (run ++ t)) = (c :: (run ++ first)) :: after := by
    have hkept := splitChars_kept_append hrun t
    rwa [ht] at hkept
  obtain ⟨before, last, hs, hwhole⟩ :=
    (hrun c (List.mem_cons_self ..)).exists_splitChars_append (s := s) hafter
  refine ⟨before, last, first, after, hs, ht, ?_⟩
  simpa using hwhole

/-! ## Characters that are not lost -/

/-- Of the characters of one kind the segments have all, if separators have none. -/
theorem Pieces.filter_text {p : Pieces} {kind : Char → Bool}
    (h : ∀ e ∈ p.ended, ∀ c ∈ e.2, kind c = false) :
    p.text.filter kind = p.segments.flatten.filter kind := by
  obtain ⟨ended, last⟩ := p
  induction ended with
  | nil => simp [text, segments]
  | cons e ended ih =>
    have hsep : e.2.filter kind = [] := by
      rw [List.filter_eq_nil_iff]
      intro c hc
      simp [h e (List.mem_cons_self ..) c hc]
    have hrest := ih fun e' he' => h e' (List.mem_cons_of_mem _ he')
    simp only [text, segments] at hrest ⊢
    simp [hsep, hrest]

theorem filter_segments {kind : Char → Bool} (h : ∀ c, kind c = true → Kept seps c)
    (s : List Char) : (splitChars seps s).flatten.filter kind = s.filter kind := by
  have hended : ∀ e ∈ (scanFrom seps 0 [] s).ended, ∀ c ∈ e.2, kind c = false := by
    intro e he c hc
    rw [Bool.eq_false_iff]
    intro hkind
    exact h c hkind e.2 (mem_of_mem_ended he) hc
  have hsegments : (scanFrom seps 0 [] s).segments = splitChars seps s := by
    rw [segments_scanFrom, List.drop_zero]
    cases splitChars seps s <;> rfl
  rw [← hsegments, ← Pieces.filter_text hended, text_scanFrom]
  rfl

end SimStats.Path
