import SimStats.Proofs.Suite.Missing

/-!
# Requests that cannot be met

Dump number zero does not exist, and by some formats no line can be read. Such a request is refused
for what is wrong with it, but only when the lines of a file are to be read: a file is opened before
anything else, and what keeps it from being opened is the error then. So a suite none of whose
benchmarks has a file is collected into an empty table, whatever is asked of it, and that is the
only way in which a request that cannot be met is answered (`Suite.refused_unless_missing`).
-/

namespace SimStats.Suite

variable {files : Files} {s : Suite} {e : Error}

/-- The request cannot be met, whatever the files are, for the given reason. -/
inductive Refused (s : Suite) : Error → Prop where
  /-- dumps are counted from one -/
  | index : s.index = 0 → s.Refused .invalidDumpIndex
  /-- the format cannot be used -/
  | format {cause : ConfigError} :
    1 ≤ s.index → s.format.validate = .error cause → s.Refused (.config cause)

/-- Lines are not looked at before the request is. -/
theorem Refused.read_eq (h : s.Refused e) (origin : String) (raw : List RawLine) :
    Dump.read origin s.format s.index raw = .error e := by
  cases h with
  | index hindex => exact Dump.read_eq_invalidDumpIndex_iff.mpr hindex
  | format hindex hformat =>
    exact Dump.read_eq_config_iff.mpr ⟨Nat.one_le_iff_ne_zero.mp hindex, hformat⟩

/-! ## One benchmark -/

theorem Refused.load_eq (h : s.Refused e) {benchmark : String}
    (hopen : ∀ fault, files (s.pathOf benchmark) ≠ .closed fault) :
    s.load files benchmark = .error e := by
  rw [load, Dump.load]
  cases hentry : files (s.pathOf benchmark) with
  | closed fault => exact absurd hentry (hopen fault)
  | directory => exact h.read_eq _ _
  | file content => exact h.read_eq _ _

theorem Refused.load_ne_ok (h : s.Refused e) {benchmark : String} {d : Dump} :
    s.load files benchmark ≠ .ok d := by
  intro hload
  obtain ⟨content, hfile⟩ := exists_file_of_load hload
  rw [h.load_eq fun fault => hfile ▸ nofun] at hload
  cases hload

/-- A benchmark is passed over if it has no file, and for no other reason. -/
theorem Refused.passes_iff (h : s.Refused e) {benchmark : String} :
    s.Passes files benchmark ↔ s.Missing files benchmark := by
  rw [Passes, missing_iff]
  exact or_iff_right fun ⟨_, hload⟩ => h.load_ne_ok hload

/-! ## Many benchmarks -/

/-- Benchmarks without files add nothing. -/
theorem rows_of_missing {benchmarks : List String} (h : ∀ b ∈ benchmarks, s.Missing files b) :
    s.rows files benchmarks = [] := by
  rw [rows, List.filterMap_eq_nil_iff]
  intro b hb
  rw [row?, load_of_closed (h b hb)]

theorem Refused.collect_eq_ok_iff (h : s.Refused e) {benchmarks : List String}
    {table : Keyed (Keyed Value)} :
    s.collect files benchmarks = .ok table ↔
      (∀ b ∈ benchmarks, s.Missing files b) ∧ table = .empty := by
  rw [Suite.collect_eq_ok_iff]
  simp only [h.passes_iff]
  constructor
  · rintro ⟨hmissing, rfl⟩
    rw [rows_of_missing hmissing]
    exact ⟨hmissing, rfl⟩
  · rintro ⟨hmissing, rfl⟩
    rw [rows_of_missing hmissing]
    exact ⟨hmissing, rfl⟩

theorem Refused.collect_eq_error_iff (h : s.Refused e) {benchmarks : List String} {e' : Error} :
    s.collect files benchmarks = .error e' ↔
      ∃ before name after, benchmarks = before ++ name :: after ∧
        (∀ b ∈ before, s.Missing files b) ∧ ¬ s.Missing files name ∧
        s.load files name = .error e' := by
  rw [Suite.collect_eq_error_iff]
  simp only [h.passes_iff, fails_iff]

/-- **A request that cannot be met is refused, unless there is nothing to open.** Reading a
benchmark ends with what is wrong with the request if its file can be opened, and with what keeps it
from being opened otherwise. Collecting ends with the error of the first benchmark whose file is not
missing; only if all of them are, it ends well, with an empty table. So it is refused for the
request itself as soon as some file can be opened and those of the benchmarks before it can be
opened or are missing. -/
theorem refused_unless_missing (h : s.Refused e) (files : Files) (names : List String) :
    (∀ name, (∀ fault, files (s.pathOf name) ≠ .closed fault) → s.load files name = .error e) ∧
    (∀ name fault, files (s.pathOf name) = .closed fault →
      s.load files name = .error (.unreadable (s.pathOf name) fault)) ∧
    (∀ table, s.collect files names = .ok table ↔
      (∀ name ∈ names, s.Missing files name) ∧ table = .empty) ∧
    (∀ e', s.collect files names = .error e' ↔
      ∃ before name after, names = before ++ name :: after ∧
        (∀ b ∈ before, s.Missing files b) ∧ ¬ s.Missing files name ∧
        s.load files name = .error e') ∧
    ((∀ name ∈ names, ∀ fault, files (s.pathOf name) = .closed fault → fault = .missing) →
      (∃ name ∈ names, ¬ s.Missing files name) → s.collect files names = .error e) := by
  refine ⟨fun name => h.load_eq, fun name fault => load_of_closed,
    fun table => h.collect_eq_ok_iff, fun e' => h.collect_eq_error_iff, ?_⟩
  rintro hmissing ⟨found, hfound, hopen⟩
  rcases hcollect : s.collect files names with e' | table
  · obtain ⟨before, name, after, rfl, -, hname, hload⟩ := h.collect_eq_error_iff.mp hcollect
    have hmem : name ∈ before ++ name :: after := List.mem_append_cons_self
    rw [h.load_eq fun fault hfault => hname ?_] at hload
    · obtain rfl := Except.error.inj hload
      rfl
    · rw [Missing, hfault, hmissing name hmem fault hfault]
  · exact absurd ((h.collect_eq_ok_iff.mp hcollect).1 found hfound) hopen

/-- Dump number zero of a benchmark without a file and of one with a file. -/
theorem refused_unless_missing_number_zero :
    let files : Files := fun path =>
      if path = "d/a.txt" then .file "begin\ni 6 # i\n".toUTF8 else .closed .missing
    let s : Suite := ⟨"d", ".txt", 0, ⟨"begin", "end", ["."], "all"⟩⟩
    s.Refused .invalidDumpIndex ∧
      s.load files "b" = .error (.unreadable "d/b.txt" .missing) ∧
      s.load files "a" = .error .invalidDumpIndex ∧
      s.collect files ["b", "a"] = .error .invalidDumpIndex ∧
      s.collect files ["b", "b"] = .ok .empty := by
  intro files s
  have h : s.Refused .invalidDumpIndex := .index rfl
  have hpathA : s.pathOf "a" = "d/a.txt" := by decide +kernel
  have hpathB : s.pathOf "b" = "d/b.txt" := by decide +kernel
  have hb : s.Missing files "b" := by
    rw [Missing, hpathB]
    exact if_neg (by decide)
  have hopen : ∀ fault, files (s.pathOf "a") ≠ .closed fault := by
    intro fault hfault
    rw [hpathA] at hfault
    cases (if_pos rfl).symm.trans hfault
  obtain ⟨hread, hclosed, -, herror, -⟩ := refused_unless_missing h files ["b", "a"]
  obtain ⟨-, -, hempty, -⟩ := refused_unless_missing h files ["b", "b"]
  have hload := hclosed "b" .missing hb
  rw [hpathB] at hload
  refine ⟨h, hload, hread "a" hopen, ?_, ?_⟩
  · refine (herror _).mpr ⟨["b"], "a", [], rfl, ?_, hopen .missing, hread "a" hopen⟩
    exact List.forall_mem_singleton.mpr hb
  · refine (hempty .empty).mpr ⟨?_, rfl⟩
    simp [hb]

/-- A request that cannot be met can be answered: where there are no files, dump number zero of them
is an empty table, and what a single benchmark is refused for is its missing file. -/
theorem exists_collect_of_refused :
    ¬ ∀ (files : Files) (s : Suite) (names : List String) (e : Error), names ≠ [] → s.Refused e →
      (∀ name, s.load files name = .error e) ∧ s.collect files names = .error e := by
  intro h
  obtain ⟨-, hcollect⟩ := h (fun _ => .closed .missing) ⟨"d", ".txt", 0, .standard⟩ ["a"]
    .invalidDumpIndex (List.cons_ne_nil _ _) (.index rfl)
  cases hcollect

end SimStats.Suite
