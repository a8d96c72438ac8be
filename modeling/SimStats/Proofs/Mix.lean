import SimStats.Proofs.Report.Columns
import SimStats.Proofs.Series
import SimStats.Proofs.Text.Order

/-!
# Executed classes

The category of instruction classes counts each class, and under one key their sum. What is left of
its flat map without the sum and without what is zero are the classes that were executed
(`Group.executed_exact`). Only the key of the sum itself is left out: a key in a category below can
end like it. The classes are printed one in a row, with their numbers and their shares in the
total (`Report.showsShare_mixRows`).
-/

namespace SimStats

/-- A key with a category in front is another key. -/
theorem Path.append_dot_ne (category key : String) : category ++ "." ++ key ≠ key := by
  intro heq
  have hlength := congrArg String.length heq
  have hdot : ".".length = 1 := rfl
  simp only [String.length_append] at hlength
  omega

/-! ## What is left -/

namespace Group

/-- The series holds the executed classes of a category, whose sum has the given key. -/
structure Executed (g : Group) (totalKey : String) (s : Series) : Prop where
  /-- an entry other than the sum is listed exactly if it is not zero, with its value as a double -/
  mem (label : String) (x : Float) : (label, x) ∈ s.pairs ↔
    ∃ v, (label, v) ∈ g.flatten.entries ∧ label ≠ totalKey ∧ ¬ v.IsZero ∧ v.toFloat = x
  /-- it is listed once -/
  nodup : s.pairs.Nodup
  /-- labels ascend strictly in the order of their bytes -/
  ascending : s.labels.Pairwise fun a b => a.toUTF8.data.toList < b.toUTF8.data.toList
  /-- there are as many labels as entries -/
  length_labels : s.labels.length = s.pairs.length
  /-- there are as many numbers as entries -/
  length_values : s.values.length = s.pairs.length
  /-- there are as many percentages as entries -/
  length_percentages : s.percentages.length = s.pairs.length
  /-- what has the key of the sum in a category below is listed like any other entry -/
  nested (category : String) (v : Value) :
    (category ++ "." ++ totalKey, v) ∈ g.flatten.entries → ¬ v.IsZero →
      (category ++ "." ++ totalKey, v.toFloat) ∈ s.pairs

/-- What is left of the flat map of a category. -/
def executed (g : Group) (totalKey : String) : Series :=
  ((Series.ofGroup g).without totalKey).nonZero

variable (g : Group) (totalKey : String)

theorem pairs_executed : (g.executed totalKey).pairs =
    ((g.flatten.entries.map fun e => (e.1, e.2.toFloat)).filter
      fun e => (Series.Filter.without totalKey).Keeps e).filter
        fun e => Series.Filter.nonZero.Keeps e := by
  have hsift : g.executed totalKey =
      ((Series.ofGroup g).sift (.without totalKey)).sift .nonZero := rfl
  rw [hsift, Series.pairs_sift, Series.pairs_sift, Series.ofGroup, Series.ofKeyed,
    Series.pairs_ofPairs]

theorem aligned_executed : (g.executed totalKey).Aligned :=
  ((Series.ofGroup g).without totalKey).aligned_sift .nonZero

theorem mem_pairs_executed_iff {label : String} {x : Float} :
    (label, x) ∈ (g.executed totalKey).pairs ↔
      ∃ v, (label, v) ∈ g.flatten.entries ∧ label ≠ totalKey ∧ ¬ v.IsZero ∧ v.toFloat = x := by
  rw [pairs_executed, List.mem_filter, List.mem_filter, List.mem_map, decide_eq_true_iff,
    decide_eq_true_iff]
  constructor
  · rintro ⟨⟨⟨⟨label, v⟩, hmem, heq⟩, hlabel⟩, hzero⟩
    cases heq
    exact ⟨v, hmem, hlabel, fun h => hzero (Value.isZero_toFloat_iff.mpr h), rfl⟩
  · rintro ⟨v, hmem, hlabel, hzero, rfl⟩
    exact ⟨⟨⟨_, hmem, rfl⟩, hlabel⟩, fun h => hzero (Value.isZero_toFloat_iff.mp h)⟩

/-- Filters leave the order of the flat map as it is. -/
theorem pairwise_executed : (g.executed totalKey).pairs.Pairwise fun a b => a.1 < b.1 := by
  have hflat : (g.flatten.entries.map fun e => (e.1, e.2.toFloat)).Pairwise
      fun a b => a.1 < b.1 := List.pairwise_map.mpr g.flatten.ascending
  rw [pairs_executed]
  exact (hflat.filter _).filter _

/-- What is left are the executed classes. -/
theorem executed_exact : g.Executed totalKey (g.executed totalKey) where
  mem _ _ := g.mem_pairs_executed_iff totalKey
  nodup := by
    refine (g.pairwise_executed totalKey).imp ?_
    rintro a b hlt rfl
    exact String.lt_irrefl _ hlt
  ascending := by
    rw [(g.aligned_executed totalKey).labels_eq, List.pairwise_map]
    exact (g.pairwise_executed totalKey).imp Text.bytes_lt_bytes
  length_labels := (g.aligned_executed totalKey).lengths.1
  length_values :=
    (g.aligned_executed totalKey).symm.trans (g.aligned_executed totalKey).lengths.1
  length_percentages := (g.aligned_executed totalKey).lengths.2
  nested category v hmem hzero :=
    (g.mem_pairs_executed_iff totalKey).mpr
      ⟨v, hmem, Path.append_dot_ne category totalKey, hzero, rfl⟩

end Group

/-! ## Rows -/

namespace Report

/-- The row shows a class: its columns are the label, the number and the share in parentheses. -/
def ShowsShare (row : List Char) (e : (String × Float) × Float) : Prop :=
  Text.columns row = [e.1.1.toList, (Value.plain.render e.1.2).toList,
    '(' :: (Value.plain.fixed 2 e.2).toList ++ ['%', ')']]

/-- The row of a class with its share. -/
def mixRow (e : (String × Float) × Float) : String :=
  Text.padRight 24 e.1.1 ++ " " ++ Text.padLeft 14 (Value.plain.render e.1.2)
    ++ " (" ++ Value.plain.fixed 2 e.2 ++ "%)"

theorem mixRows_eq_map (s : Series) : mixRows s = (s.pairs.zip s.percentages).map mixRow := rfl

variable {e : (String × Float) × Float}

theorem column_share (x : Float) :
    Line.Column ('(' :: (Value.plain.fixed 2 x).toList ++ ['%', ')']) := by
  refine ⟨List.cons_ne_nil _ _, ?_⟩
  rw [List.cons_append, List.forall_mem_cons, List.forall_mem_append]
  refine ⟨rfl, (Value.column_fixed 2 x).2, ?_⟩
  exact List.forall_mem_cons.mpr ⟨rfl, List.forall_mem_singleton.mpr rfl⟩

theorem showsShare_mixRow (h : Line.Column e.1.1.toList) : ShowsShare (mixRow e).toList e := by
  let number := Value.plain.render e.1.2
  let gap :=
    List.replicate (24 - e.1.1.length) ' ' ++ ' ' :: List.replicate (14 - number.length) ' '
  have hrow : (mixRow e).toList = e.1.1.toList ++ (gap ++ (number.toList ++ ([' '] ++
      ('(' :: (Value.plain.fixed 2 e.2).toList ++ ['%', ')'])))) := by
    simp [mixRow, Text.padRight, Text.padLeft, gap, number]
  have hspace : Line.Gap [' '] := Text.gap_spaces 0 0
  rw [ShowsShare, hrow, Text.columns_append_gap h (Text.gap_spaces ..),
    Text.columns_gap (Value.column_render _) hspace (column_share _)]

theorem lineFeed_not_mem_mixRow (h : Line.Column e.1.1.toList) : '\n' ∉ (mixRow e).toList := by
  have hlabel := lineFeed_not_mem_of_column h
  have hnumber := lineFeed_not_mem_of_column (Value.column_render e.1.2)
  have hshare := lineFeed_not_mem_of_column (Value.column_fixed 2 e.2)
  simp [mixRow, Text.padRight, Text.padLeft, hlabel, hnumber, hshare]

/-- If its labels can stand in columns, a series is printed in one row for each entry. -/
theorem showsShare_mixRows {s : Series} (h : ∀ e ∈ s.pairs, Line.Column e.1.toList) :
    List.Forall₂ ShowsShare (Text.lineChars (lines (mixRows s)).toList)
      (s.pairs.zip s.percentages) := by
  have hlabel : ∀ e ∈ s.pairs.zip s.percentages, Line.Column e.1.1.toList := fun e he =>
    h e.1 (List.of_mem_zip he).1
  rw [mixRows_eq_map]
  exact forall₂_lines (fun e he => lineFeed_not_mem_mixRow (hlabel e he))
    fun e he => showsShare_mixRow (hlabel e he)

end Report

/-! ## The classes of a dump -/

namespace Dump

theorem mix_eq_error_iff {d : Dump} {paths : MetricPaths} {e : Error} :
    d.mix paths = .error e ↔ d.group paths.mix = .error e := by
  rw [mix]
  rcases d.group paths.mix with e | g <;> simp [Except.map]

theorem mix_of_group {d : Dump} {paths : MetricPaths} {g : Group}
    (h : d.group paths.mix = .ok g) : d.mix paths = .ok (g.executed paths.totalKey) := by
  rw [mix, h]
  rfl

/-- **The executed classes.** The classes of a dump are refused exactly if the category that counts
them is, with the same error. Otherwise they are the entries of its flat map that are neither the
sum nor zero, each listed once and in order. If they are asked for with a command, each one is
printed in a row of its own, with its number and its share. -/
theorem mix_exact (d : Dump) (paths : MetricPaths) :
    (∀ e, d.mix paths = .error e ↔ d.group paths.mix = .error e) ∧
    ∀ g, d.group paths.mix = .ok g → ∃ s, d.mix paths = .ok s ∧ g.Executed paths.totalKey s ∧
      ∀ (files : Files) (c : Command) (file : String) (index : Nat) (format : Format),
        c.request = .mix file index → c.loadFormat files = .ok format →
        c.loadMetricPaths files = .ok paths → Dump.load files format file index = .ok d →
          (c.run files).status = 0 ∧ (c.run files).complaint = "" ∧
          (Text.lineChars (c.run files).output.toList).length = s.pairs.length ∧
          List.Forall₂ Report.ShowsShare (Text.lineChars (c.run files).output.toList)
            (s.pairs.zip s.percentages) := by
  refine ⟨fun e => mix_eq_error_iff, fun g hg => ?_⟩
  have hexact := g.executed_exact paths.totalKey
  refine ⟨_, mix_of_group hg, hexact, ?_⟩
  intro files c file index format hrequest hformat hpaths hload
  have hrun : c.run files = ⟨Report.lines (Report.mixRows (g.executed paths.totalKey)), none⟩ := by
    rw [Command.run_of_loaded hformat hpaths, hrequest, Request.answer, hload, Except.bind,
      mix_of_group hg]
    rfl
  obtain ⟨-, lines, hlines⟩ := exists_ofLines_of_load hload
  have hlabel : ∀ e ∈ (g.executed paths.totalKey).pairs, Line.Column e.1.toList := by
    rintro ⟨label, x⟩ he
    obtain ⟨v, hmem, -⟩ := (hexact.mem label x).mp he
    exact hlines.column_key_group hg label (List.mem_map_of_mem hmem)
  have hrows := Report.showsShare_mixRows hlabel
  rw [hrun]
  dsimp only
  refine ⟨rfl, rfl, ?_, hrows⟩
  rw [hrows.length_eq, List.length_zip, hexact.length_percentages, Nat.min_self]

/-- A zero and the sum are left out, but neither what is not a number nor the sum of a category
below. -/
theorem mix_exact_sum_below :
    let files : Files := fun path => .file (if path = "paths" then
        "\x7b\"inst_mix\": \"m\", \"total_key\": \"t\"\x7d"
      else
        Format.standard.beginMarker ++ "\nm.a nan # a\nm.b -0 # b\nm.c.t 1 # c\nm.t 3 # t\n").toUTF8
    let c : Command := ⟨none, some "paths", false, .mix "stats" 1⟩
    ∃ paths d g s, c.loadMetricPaths files = .ok paths ∧
      Dump.load files .standard "stats" 1 = .ok d ∧ d.group paths.mix = .ok g ∧
      d.mix paths = .ok s ∧ s.labels = ["a", "c.t"] ∧ g.Executed paths.totalKey s ∧
      (c.run files).status = 0 ∧ (c.run files).complaint = "" ∧
      (Text.lineChars (c.run files).output.toList).length = 2 ∧
      List.Forall₂ Report.ShowsShare (Text.lineChars (c.run files).output.toList)
        (s.pairs.zip s.percentages) := by
  intro files c
  let paths : MetricPaths := ⟨"simInsts", "system.cpu.numCycles", "m", "t"⟩
  let g : Group :=
    ⟨"m", .stat ⟨"a", .float (Literal.toFloat .nan), "a"⟩ (.stat ⟨"b", .int 0, "b"⟩
      (.group "c" (.stat ⟨"t", .int 1, "c"⟩ .nil) (.stat ⟨"t", .int 3, "t"⟩ .nil)))⟩
  let d : Dump := ⟨⟨"all", .group "m" g.children .nil⟩, standardSeparators⟩
  let s : Series := ⟨["a", "c.t"], [Literal.toFloat .nan, 1.0]⟩
  have hpaths : c.loadMetricPaths files = .ok paths := by decide +kernel
  have hload : Dump.load files .standard "stats" 1 = .ok d := by decide +kernel
  have hgroup : d.group paths.mix = .ok g := by decide +kernel
  have hmix : d.mix paths = .ok s := by decide +kernel
  obtain ⟨-, hok⟩ := mix_exact d paths
  obtain ⟨t, ht, hexact, hrun⟩ := hok g hgroup
  obtain rfl : s = t := Except.ok.inj (hmix.symm.trans ht)
  obtain ⟨hstatus, hcomplaint, hrows⟩ := hrun files c "stats" 1 .standard rfl rfl hpaths hload
  exact ⟨paths, d, g, s, hpaths, hload, hgroup, hmix, rfl, hexact, hstatus, hcomplaint, hrows⟩

end Dump

end SimStats
