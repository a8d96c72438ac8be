import Mathlib.Data.List.Forall2
import Mathlib.Tactic.Tauto
import SimStats.Proofs.Keyed
import SimStats.Suite

/-!
# Collecting the benchmarks of a suite

Collecting passes over the benchmarks that have no file and stops at the first one that fails for
another reason. What it does with a benchmark depends on its file alone, so that the table does not
depend on the order of the benchmarks, nor on how often one is named (`Suite.collect_exact`).
Instructions per cycle are computed only for benchmarks that can all be read, which are then all in
the table.
-/

namespace SimStats.Suite

variable {files : Files} {s : Suite}

/-! ## One benchmark -/

/-- Collecting goes on after the benchmark: its dump can be read, or it has no file. -/
def Passes (files : Files) (s : Suite) (benchmark : String) : Prop :=
  (∃ d, s.load files benchmark = .ok d) ∨
    ∃ e, s.load files benchmark = .error e ∧ e.isMissingFile = true

/-- Collecting stops at the benchmark with the error. -/
def Fails (files : Files) (s : Suite) (benchmark : String) (e : Error) : Prop :=
  s.load files benchmark = .error e ∧ e.isMissingFile = false

theorem passes_or_fails (files : Files) (s : Suite) (benchmark : String) :
    s.Passes files benchmark ∨ ∃ e, s.Fails files benchmark e := by
  rcases hload : s.load files benchmark with e | d
  · cases hmissing : e.isMissingFile with
    | true => exact Or.inl (Or.inr ⟨e, hload, hmissing⟩)
    | false => exact Or.inr ⟨e, hload, hmissing⟩
  · exact Or.inl (Or.inl ⟨d, hload⟩)

/-- What the benchmark adds to the table. -/
def row? (files : Files) (s : Suite) (benchmark : String) : Option (String × Keyed Value) :=
  match s.load files benchmark with
  | .ok d => some (benchmark, d.flatten)
  | .error _ => none

theorem row?_eq_some_iff {benchmark : String} {e : String × Keyed Value} :
    s.row? files benchmark = some e ↔
      e.1 = benchmark ∧ ∃ d, s.load files benchmark = .ok d ∧ d.flatten = e.2 := by
  rw [row?]
  split
  · next d hd =>
    rw [Option.some.injEq]
    constructor
    · rintro rfl
      exact ⟨rfl, d, hd, rfl⟩
    · rintro ⟨rfl, d', hd', hflat⟩
      obtain rfl := Except.ok.inj (hd.symm.trans hd')
      exact Prod.ext rfl hflat
  · next e' he' => simp [he']

/-! ## Many benchmarks -/

/-- What the benchmarks add to the table, in their order. -/
def rows (files : Files) (s : Suite) (benchmarks : List String) :
    List (String × Keyed Value) :=
  benchmarks.filterMap (s.row? files)

theorem mem_rows_iff {benchmarks : List String} {name : String} {flat : Keyed Value} :
    (name, flat) ∈ s.rows files benchmarks ↔
      name ∈ benchmarks ∧ ∃ d, s.load files name = .ok d ∧ d.flatten = flat := by
  rw [rows, List.mem_filterMap]
  constructor
  · rintro ⟨benchmark, hmem, hrow⟩
    obtain ⟨rfl, hload⟩ := row?_eq_some_iff.mp hrow
    exact ⟨hmem, hload⟩
  · rintro ⟨hmem, hload⟩
    exact ⟨name, hmem, row?_eq_some_iff.mpr ⟨rfl, hload⟩⟩

/-- A benchmark that is named again adds the same again. -/
theorem rows_inj (benchmarks : List String) : ∀ a ∈ s.rows files benchmarks,
    ∀ b ∈ s.rows files benchmarks, a.1 = b.1 → a = b := by
  rintro ⟨name, flat⟩ ha ⟨name', flat'⟩ hb rfl
  obtain ⟨-, d, hd, rfl⟩ := mem_rows_iff.mp ha
  obtain ⟨-, d', hd', rfl⟩ := mem_rows_iff.mp hb
  obtain rfl := Except.ok.inj (hd.symm.trans hd')
  rfl

/-- Benchmarks that pass are gone through, and what they add is in the table. -/
theorem collectInto_append {before : List String} (h : ∀ b ∈ before, s.Passes files b)
    (table : Keyed (Keyed Value)) (rest : List String) :
    s.collectInto files table (before ++ rest) =
      s.collectInto files
        ((s.rows files before).foldl (fun table e => table.insert e.1 e.2) table) rest := by
  induction before generalizing table with
  | nil => rfl
  | cons b before ih =>
    have hrest := ih fun c hc => h c (List.mem_cons_of_mem _ hc)
    rw [List.cons_append, collectInto, rows, List.filterMap_cons]
    rcases h b (List.mem_cons_self ..) with ⟨d, hd⟩ | ⟨e, he, hmissing⟩
    · rw [row?, hd]
      exact hrest _
    · rw [row?, he]
      dsimp only
      rw [if_pos hmissing]
      exact hrest table

/-- Either all benchmarks pass, or one is the first that does not. -/
theorem all_pass_or_first_fails (files : Files) (s : Suite) (benchmarks : List String) :
    (∀ b ∈ benchmarks, s.Passes files b) ∨
      ∃ before name after e, benchmarks = before ++ name :: after ∧
        (∀ b ∈ before, s.Passes files b) ∧ s.Fails files name e := by
  induction benchmarks with
  | nil => exact Or.inl fun b hb => absurd hb List.not_mem_nil
  | cons b rest ih =>
    rcases passes_or_fails files s b with hpass | ⟨e, hfail⟩
    · rcases ih with hall | ⟨before, name, after, e, rfl, hbefore, hfail⟩
      · exact Or.inl (List.forall_mem_cons.mpr ⟨hpass, hall⟩)
      · exact Or.inr ⟨b :: before, name, after, e, rfl,
          List.forall_mem_cons.mpr ⟨hpass, hbefore⟩, hfail⟩
    · exact Or.inr ⟨[], b, rest, e, rfl, fun c hc => absurd hc List.not_mem_nil, hfail⟩

theorem collect_of_passes {benchmarks : List String} (h : ∀ b ∈ benchmarks, s.Passes files b) :
    s.collect files benchmarks = .ok (Keyed.ofList (s.rows files benchmarks)) := by
  have hall := collectInto_append h .empty []
  rw [List.append_nil] at hall
  exact hall

theorem collect_of_fails {before after : List String} {name : String} {e : Error}
    (hbefore : ∀ b ∈ before, s.Passes files b) (h : s.Fails files name e) :
    s.collect files (before ++ name :: after) = .error e := by
  rw [collect, collectInto_append hbefore, collectInto, h.1]
  dsimp only
  rw [h.2]
  rfl

/-- Collecting succeeds exactly if all benchmarks pass. -/
theorem collect_eq_ok_iff {benchmarks : List String} {table : Keyed (Keyed Value)} :
    s.collect files benchmarks = .ok table ↔
      (∀ b ∈ benchmarks, s.Passes files b) ∧
        Keyed.ofList (s.rows files benchmarks) = table := by
  constructor
  · intro h
    rcases all_pass_or_first_fails files s benchmarks with
      hall | ⟨before, name, after, e, rfl, hbefore, hfail⟩
    · exact ⟨hall, Except.ok.inj ((collect_of_passes hall).symm.trans h)⟩
    · rw [collect_of_fails hbefore hfail] at h
      cases h
  · rintro ⟨hall, rfl⟩
    exact collect_of_passes hall

/-- Collecting stops with the error of the first benchmark that does not pass. -/
theorem collect_eq_error_iff {benchmarks : List String} {e : Error} :
    s.collect files benchmarks = .error e ↔
      ∃ before name after, benchmarks = before ++ name :: after ∧
        (∀ b ∈ before, s.Passes files b) ∧ s.Fails files name e := by
  constructor
  · intro h
    rcases all_pass_or_first_fails files s benchmarks with
      hall | ⟨before, name, after, e', rfl, hbefore, hfail⟩
    · rw [collect_of_passes hall] at h
      cases h
    · obtain rfl := Except.error.inj ((collect_of_fails hbefore hfail).symm.trans h)
      exact ⟨before, name, after, rfl, hbefore, hfail⟩
  · rintro ⟨before, name, after, rfl, hbefore, hfail⟩
    exact collect_of_fails hbefore hfail

/-- The table has an entry for each benchmark that can be read. -/
theorem mem_collect_iff {benchmarks : List String} {table : Keyed (Keyed Value)}
    (h : s.collect files benchmarks = .ok table) {name : String} {flat : Keyed Value} :
    (name, flat) ∈ table.entries ↔
      name ∈ benchmarks ∧ ∃ d, s.load files name = .ok d ∧ d.flatten = flat := by
  obtain ⟨-, rfl⟩ := collect_eq_ok_iff.mp h
  rw [Keyed.mem_entries_ofList_of_inj (rows_inj benchmarks), mem_rows_iff]

theorem mem_keys_collect_iff {benchmarks : List String} {table : Keyed (Keyed Value)}
    (h : s.collect files benchmarks = .ok table) {name : String} :
    name ∈ table.keys ↔ name ∈ benchmarks ∧ ∃ d, s.load files name = .ok d := by
  rw [Keyed.keys, List.mem_map]
  constructor
  · rintro ⟨⟨name, flat⟩, hmem, rfl⟩
    obtain ⟨hname, d, hd, -⟩ := (mem_collect_iff h).mp hmem
    exact ⟨hname, d, hd⟩
  · rintro ⟨hname, d, hd⟩
    exact ⟨(name, d.flatten), (mem_collect_iff h).mpr ⟨hname, d, hd, rfl⟩, rfl⟩

/-- The table depends only on which benchmarks are named. -/
theorem collect_congr {names names' : List String} (hnames : ∀ name, name ∈ names' ↔ name ∈ names)
    {table : Keyed (Keyed Value)} (h : s.collect files names = .ok table) :
    s.collect files names' = .ok table := by
  obtain ⟨hall, -⟩ := collect_eq_ok_iff.mp h
  have h' := collect_of_passes fun b hb => hall b ((hnames b).mp hb)
  rw [h']
  refine congrArg Except.ok (Keyed.ext_of_mem ?_)
  rintro ⟨name, flat⟩
  rw [mem_collect_iff h', mem_collect_iff h, hnames]

/-! ## Instructions per cycle -/

/-- The benchmark is read and has the given number of instructions per cycle. -/
def HasIpc (files : Files) (s : Suite) (paths : MetricPaths) (benchmark : String) (x : Float) :
    Prop :=
  ∃ d, s.load files benchmark = .ok d ∧ d.ipc paths = .ok x

theorem hasIpc_of_ipcOf {paths : MetricPaths} {benchmark : String} {x : Float}
    (h : s.ipcOf files paths benchmark = .ok x) : s.HasIpc files paths benchmark x := by
  rw [ipcOf] at h
  rcases hload : s.load files benchmark with e | d
  · rw [hload] at h
    cases h
  · rw [hload] at h
    exact ⟨d, hload, h⟩

theorem ipcPairs_sound {paths : MetricPaths} {benchmarks : List String}
    {l : List (String × Float)} (h : s.ipcPairs files paths benchmarks = .ok l) :
    l.map Prod.fst = benchmarks ∧
      List.Forall₂ (s.HasIpc files paths) benchmarks (l.map Prod.snd) := by
  induction benchmarks generalizing l with
  | nil =>
    obtain rfl := Except.ok.inj h
    exact ⟨rfl, List.Forall₂.nil⟩
  | cons b rest ih =>
    rw [ipcPairs] at h
    rcases hb : s.ipcOf files paths b with e | x
    · rw [hb] at h
      cases h
    · rcases hrest : s.ipcPairs files paths rest with e | l'
      · rw [hb, hrest] at h
        cases h
      · rw [hb, hrest] at h
        obtain rfl := Except.ok.inj h
        obtain ⟨hlabels, hvalues⟩ := ih hrest
        exact ⟨congrArg (b :: ·) hlabels, List.Forall₂.cons (hasIpc_of_ipcOf hb) hvalues⟩

/-- Benchmarks whose instructions per cycle are computed are all in the table. -/
theorem exists_collect_of_ipc {paths : MetricPaths} {benchmarks : List String} {series : Series}
    (h : s.ipc files paths benchmarks = .ok series) :
    series.labels = benchmarks ∧
      List.Forall₂ (s.HasIpc files paths) benchmarks series.values ∧
      ∃ table, s.collect files benchmarks = .ok table ∧
        ∀ name, name ∈ table.keys ↔ name ∈ benchmarks := by
  rw [ipc] at h
  rcases hpairs : s.ipcPairs files paths benchmarks with e | l
  · rw [hpairs] at h
    cases h
  · rw [hpairs] at h
    obtain rfl := Except.ok.inj h
    obtain ⟨hlabels, hvalues⟩ := ipcPairs_sound hpairs
    have hread : ∀ name ∈ benchmarks, ∃ d, s.load files name = .ok d := by
      have hboth : List.Forall₂ (fun name x => (∃ d, s.load files name = .ok d) ∧
          s.HasIpc files paths name x) benchmarks (l.map Prod.snd) :=
        hvalues.imp fun _ _ hx => ⟨hx.imp fun _ hd => hd.1, hx⟩
      exact ((List.forall₂_and_left _ _).mp hboth).1
    have hcollect := collect_of_passes fun name hname => Or.inl (hread name hname)
    refine ⟨hlabels, hvalues, _, hcollect, ?_⟩
    intro name
    rw [mem_keys_collect_iff hcollect]
    exact ⟨fun hname => hname.1, fun hname => ⟨hname, hread name hname⟩⟩

/-! ## The whole suite -/

/-- **Collecting is exact.** Collecting succeeds exactly if each benchmark can be read or has no
file; the table then holds the flat maps of those that can be read and nothing else, and is the same
for every list that names the same benchmarks. Otherwise the error is that of the first benchmark
that fails for another reason than a missing file. If instructions per cycle are computed, there is
one number for each name in the order of the names, computed from its own dump, and the table has
all of the names. -/
theorem collect_exact (files : Files) (s : Suite) (names : List String) :
    ((∃ table, s.collect files names = .ok table) ↔ ∀ name ∈ names, s.Passes files name) ∧
    (∀ table, s.collect files names = .ok table →
      (∀ name, name ∈ table.keys ↔ name ∈ names ∧ ∃ d, s.load files name = .ok d) ∧
      (∀ name flat, (name, flat) ∈ table.entries ↔
        name ∈ names ∧ ∃ d, s.load files name = .ok d ∧ d.flatten = flat) ∧
      ∀ names', (∀ name, name ∈ names' ↔ name ∈ names) → s.collect files names' = .ok table) ∧
    (∀ e, s.collect files names = .error e ↔
      ∃ before name after, names = before ++ name :: after ∧
        (∀ b ∈ before, s.Passes files b) ∧ s.Fails files name e) ∧
    ∀ paths series, s.ipc files paths names = .ok series →
      series.labels = names ∧
      List.Forall₂ (s.HasIpc files paths) names series.values ∧
      ∃ table, s.collect files names = .ok table ∧ ∀ name, name ∈ table.keys ↔ name ∈ names := by
  refine ⟨?_, ?_, fun e => collect_eq_error_iff, fun paths series => exists_collect_of_ipc⟩
  · constructor
    · rintro ⟨table, h⟩
      exact (collect_eq_ok_iff.mp h).1
    · intro h
      exact ⟨_, collect_of_passes h⟩
  · intro table h
    exact ⟨fun name => mem_keys_collect_iff h, fun name flat => mem_collect_iff h,
      fun names' hnames => collect_congr hnames h⟩

/-- A benchmark with a file, one without and one whose file is a directory. -/
theorem collect_exact_three_benchmarks :
    let files : Files := fun path =>
      if path = "d/a.txt" then .file "begin\ni 6 # i\nc 4 # c\n".toUTF8
      else if path = "d/x.txt" then .directory
      else .closed .missing
    let s : Suite := ⟨"d", ".txt", 1, ⟨"begin", "end", ["."], "all"⟩⟩
    (∃ table, s.collect files ["b", "a"] = .ok table ∧ s.collect files ["a", "b", "a"] = .ok table ∧
      ∀ name, name ∈ table.keys ↔ name ∈ ["b", "a"] ∧ ∃ d, s.load files name = .ok d) ∧
    s.collect files ["b", "x", "a"] = .error (.unreadable "d/x.txt" .isDirectory) ∧
    ∃ series, s.ipc files ⟨"i", "c", "mix", "total"⟩ ["a", "a"] = .ok series ∧
      series.labels = ["a", "a"] ∧
      List.Forall₂ (s.HasIpc files ⟨"i", "c", "mix", "total"⟩) ["a", "a"] series.values := by
  intro files s
  have hpass : ∀ name ∈ ["b", "a"], s.Passes files name := by
    intro name hname
    rw [List.mem_cons, List.mem_singleton] at hname
    rcases hname with rfl | rfl
    · exact Or.inr ⟨.unreadable "d/b.txt" .missing, by decide +kernel, rfl⟩
    · refine Or.inl ⟨⟨⟨"all", .stat ⟨"c", .int 4, "c"⟩ (.stat ⟨"i", .int 6, "i"⟩ .nil)⟩, ["."]⟩, ?_⟩
      decide +kernel
  obtain ⟨table, htable⟩ := (collect_exact files s ["b", "a"]).1.mpr hpass
  obtain ⟨hkeys, -, hsame⟩ := (collect_exact files s ["b", "a"]).2.1 table htable
  have hfail : s.Fails files "x" (.unreadable "d/x.txt" .isDirectory) :=
    ⟨by decide +kernel, rfl⟩
  have hipc : s.ipc files ⟨"i", "c", "mix", "total"⟩ ["a", "a"] = .ok ⟨["a", "a"], [1.5, 1.5]⟩ := by
    decide +kernel
  obtain ⟨hlabels, hvalues, -⟩ := (collect_exact files s ["a", "a"]).2.2.2 _ _ hipc
  refine ⟨⟨table, htable, hsame _ ?_, hkeys⟩, ?_, _, hipc, hlabels, hvalues⟩
  · intro name
    simp only [List.mem_cons, List.not_mem_nil, or_false]
    tauto
  · refine ((collect_exact files s ["b", "x", "a"]).2.2.1 _).mpr ?_
    refine ⟨["b"], "x", ["a"], rfl, ?_, hfail⟩
    intro b hb
    obtain rfl := List.mem_singleton.mp hb
    exact hpass "b" (List.mem_cons_self ..)

end SimStats.Suite
