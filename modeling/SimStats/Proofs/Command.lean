import SimStats.Proofs.Arguments

/-!
# What a command prints before it fails

Every request but a comparison is answered whole or refused with nothing printed. A comparison of
several files is its comparisons of the single files one after the other, up to the first that
fails, also if it is the configuration that cannot be read. What follows that file is not looked at:
neither its name nor what it holds makes a difference (`Command.run_whole_or_front`).
-/

namespace SimStats

namespace Outcome

/-- All is printed and there is no error, or nothing is printed but one error. -/
def Whole (o : Outcome) : Prop :=
  (o.status = 0 ∧ o.complaint = "") ∨
    (o.status = 1 ∧ o.output = "" ∧ ∃ e : Error, o.complaint = "Error: " ++ e.message ++ "\n")

theorem whole_of_error (e : Error) : Whole ⟨"", some e⟩ := Or.inr ⟨rfl, rfl, e, rfl⟩

theorem whole_ofExcept (x : Except Error String) : (ofExcept x).Whole := by
  cases x with
  | error e => exact whole_of_error e
  | ok output => exact Or.inl ⟨rfl, rfl⟩

theorem status_eq_zero_iff {o : Outcome} : o.status = 0 ↔ o.error = none := by
  cases h : o.error <;> simp [status, h]

theorem status_eq_one_iff {o : Outcome} : o.status = 1 ↔ o.status ≠ 0 := by
  cases h : o.error <;> simp [status, h]

theorem Whole.output_eq {o : Outcome} (h : o.Whole) (hfail : o.status = 1) : o.output = "" := by
  rcases h with ⟨hok, -⟩ | ⟨-, houtput, -⟩
  · rw [hok] at hfail
    cases hfail
  · exact houtput

/-! ## One after the other -/

/-- What is printed in order, up to the first error. -/
def inOrder : List Outcome → Outcome
  | [] => ⟨"", none⟩
  | o :: rest =>
    match o.error with
    | some _ => o
    | none => ⟨o.output ++ (inOrder rest).output, (inOrder rest).error⟩

/-- Behind an error nothing counts. -/
theorem inOrder_cons_of_error {o : Outcome} (h : o.status = 1) (rest : List Outcome) :
    inOrder (o :: rest) = o := by
  cases herror : o.error with
  | none =>
    rw [status_eq_zero_iff.mpr herror] at h
    cases h
  | some e => rw [inOrder, herror]

/-- What succeeds is printed whole, and then comes the rest. -/
theorem inOrder_append {front : List Outcome} (h : ∀ o ∈ front, o.status = 0)
    (rest : List Outcome) :
    inOrder (front ++ rest) =
      ⟨String.join (front.map output) ++ (inOrder rest).output, (inOrder rest).error⟩ := by
  induction front with
  | nil => rw [List.nil_append, List.map_nil, String.join_nil, String.empty_append]
  | cons o front ih =>
    obtain ⟨ho, hfront⟩ := List.forall_mem_cons.mp h
    rw [List.cons_append, inOrder, status_eq_zero_iff.mp ho, ih hfront, List.map_cons,
      String.join_cons, String.append_assoc]

end Outcome

/-! ## What is looked at -/

section Congr

variable {files files' : Files}

theorem readText_congr {path : String} (h : files' path = files path) :
    readText files' path = readText files path := by
  rw [readText, readText, h]

theorem Dump.load_congr {path : String} (h : files' path = files path) (format : Format)
    (index : Nat) : Dump.load files' format path index = Dump.load files format path index := by
  rw [Dump.load, Dump.load, h]

theorem Dump.count_congr {path : String} (h : files' path = files path) (format : Format) :
    Dump.count files' format path = Dump.count files format path := by
  rw [Dump.count, Dump.count, h]

theorem Request.ipcLines_congr {list : List String} (h : ∀ path ∈ list, files' path = files path)
    (format : Format) (paths : MetricPaths) (index : Nat) :
    ipcLines files' format paths index list = ipcLines files format paths index list := by
  induction list with
  | nil => rfl
  | cons file rest ih =>
    obtain ⟨hfile, hrest⟩ := List.forall_mem_cons.mp h
    rw [ipcLines, ipcLines, ipcLine, ipcLine, Dump.load_congr hfile, ih hrest]

namespace Command

variable {c : Command}

theorem loadFormat_congr (h : ∀ path ∈ c.format.toList, files' path = files path) :
    c.loadFormat files' = c.loadFormat files := by
  rw [loadFormat, loadFormat]
  cases hformat : c.format with
  | none => rfl
  | some path =>
    rw [hformat, Option.toList_some, List.forall_mem_singleton] at h
    dsimp only
    rw [Format.load, Format.load, readText_congr h]

theorem loadMetricPaths_congr (h : ∀ path ∈ c.metricPaths.toList, files' path = files path) :
    c.loadMetricPaths files' = c.loadMetricPaths files := by
  rw [loadMetricPaths, loadMetricPaths]
  cases hpaths : c.metricPaths with
  | none => rfl
  | some path =>
    rw [hpaths, Option.toList_some, List.forall_mem_singleton] at h
    dsimp only
    rw [MetricPaths.load, MetricPaths.load, readText_congr h]

/-- A command depends on nothing but what is at the paths it reads. -/
theorem run_congr (h : ∀ path ∈ c.reads, files' path = files path) :
    c.run files' = c.run files := by
  rw [reads, List.forall_mem_append, List.forall_mem_append] at h
  obtain ⟨⟨hformat, hpaths⟩, hrequest⟩ := h
  have hanswer (format : Format) (paths : MetricPaths) :
      c.request.answer files' format paths = c.request.answer files format paths := by
    cases hr : c.request with
    | ipc =>
      rw [hr] at hrequest
      exact Request.ipcLines_congr hrequest ..
    | query | flatten | mix =>
      rw [hr, List.forall_mem_singleton] at hrequest
      rw [Request.answer, Request.answer, Dump.load_congr hrequest]
    | dumps =>
      rw [hr, List.forall_mem_singleton] at hrequest
      rw [Request.answer, Request.answer, Dump.count_congr hrequest]
  simp only [run, loadFormat_congr hformat, loadMetricPaths_congr hpaths, hanswer]

end Command

end Congr

/-! ## Several files -/

namespace Request

variable {files : Files} {format : Format} {paths : MetricPaths} {index : Nat}

theorem ipcLines_singleton (file : String) :
    ipcLines files format paths index [file] =
      .ofExcept (ipcLine files format paths index file) := by
  rw [ipcLines]
  cases ipcLine files format paths index file with
  | error e => rfl
  | ok line => simp [ipcLines, Outcome.ofExcept]

/-- Several files are compared one after the other. -/
theorem ipcLines_eq_inOrder (list : List String) :
    ipcLines files format paths index list =
      .inOrder (list.map fun file => ipcLines files format paths index [file]) := by
  induction list with
  | nil => rfl
  | cons file rest ih =>
    rw [List.map_cons, ipcLines_singleton, ipcLines, ih]
    cases ipcLine files format paths index file <;> rfl

end Request

namespace Command

variable {files files' : Files} {c : Command} {list : List String} {index : Nat}

/-- One of the configuration files cannot be used, and the error is that of the first. -/
def Misconfigured (files : Files) (c : Command) (e : Error) : Prop :=
  c.loadFormat files = .error e ∨
    ∃ format, c.loadFormat files = .ok format ∧ c.loadMetricPaths files = .error e

theorem misconfigured_or_loaded (files : Files) (c : Command) :
    (∃ e, c.Misconfigured files e) ∨
      ∃ format paths, c.loadFormat files = .ok format ∧ c.loadMetricPaths files = .ok paths := by
  rcases hformat : c.loadFormat files with e | format
  · exact Or.inl ⟨e, Or.inl hformat⟩
  · rcases hpaths : c.loadMetricPaths files with e | paths
    · exact Or.inl ⟨e, Or.inr ⟨format, hformat, hpaths⟩⟩
    · exact Or.inr ⟨format, paths, rfl, rfl⟩

theorem run_of_misconfigured {e : Error} (h : c.Misconfigured files e) :
    c.run files = ⟨"", some e⟩ := by
  rcases h with hformat | ⟨format, hformat, hpaths⟩
  · simp only [run, hformat]
  · simp only [run, hformat, hpaths]

theorem run_of_loaded {format : Format} {paths : MetricPaths}
    (hformat : c.loadFormat files = .ok format) (hpaths : c.loadMetricPaths files = .ok paths) :
    c.run files = c.request.answer files format paths := by
  simp only [run, hformat, hpaths]

/-- A command with a request that is answered whole or not at all is so itself. -/
theorem whole_run (h : ∀ format paths, (c.request.answer files format paths).Whole) :
    (c.run files).Whole := by
  rcases misconfigured_or_loaded files c with ⟨e, he⟩ | ⟨format, paths, hformat, hpaths⟩
  · rw [run_of_misconfigured he]
    exact Outcome.whole_of_error e
  · rw [run_of_loaded hformat hpaths]
    exact h format paths

/-- The same command for a comparison of other files. -/
def comparing (c : Command) (index : Nat) (list : List String) : Command :=
  { c with request := .ipc list index }

theorem comparing_eq_self (h : c.request = .ipc list index) : c.comparing index list = c := by
  rw [comparing, ← h]

/-- What the command does with one file alone. -/
def alone (files : Files) (c : Command) (index : Nat) (file : String) : Outcome :=
  (c.comparing index [file]).run files

theorem whole_alone (file : String) : (c.alone files index file).Whole := by
  refine whole_run fun format paths => ?_
  rw [comparing, Request.answer, Request.ipcLines_singleton]
  exact Outcome.whole_ofExcept _

/-- The configuration is the same for each of the files: it is read before all of them, or refused
with the first. There has to be a first, since it would be refused without one as well. -/
theorem run_comparing (hlist : list ≠ []) :
    (c.comparing index list).run files = .inOrder (list.map (c.alone files index)) := by
  obtain ⟨file, rest, rfl⟩ := List.exists_cons_of_ne_nil hlist
  rcases misconfigured_or_loaded files c with ⟨e, he⟩ | ⟨format, paths, hformat, hpaths⟩
  · have hrun (l : List String) : (c.comparing index l).run files = ⟨"", some e⟩ :=
      run_of_misconfigured he
    rw [List.map_cons, alone, hrun, hrun, Outcome.inOrder_cons_of_error rfl]
  · have hrun (l : List String) :
        (c.comparing index l).run files = Request.ipcLines files format paths index l :=
      run_of_loaded hformat hpaths
    rw [hrun, Request.ipcLines_eq_inOrder]
    exact congrArg Outcome.inOrder (List.map_congr_left fun f _ => (hrun [f]).symm)

/-- Either all files succeed alone, or one is the first that does not. -/
theorem all_succeed_or_first_fails (files : Files) (c : Command) (index : Nat)
    (list : List String) :
    (∀ file ∈ list, (c.alone files index file).status = 0) ∨
      ∃ before file later, list = before ++ file :: later ∧
        (∀ f ∈ before, (c.alone files index f).status = 0) ∧
        (c.alone files index file).status = 1 := by
  cases hfind : list.find? fun file => (c.alone files index file).status != 0 with
  | none => exact Or.inl (by simpa using hfind)
  | some file =>
    obtain ⟨hfile, before, later, hlist, hbefore⟩ := List.find?_eq_some_iff_append.mp hfind
    refine Or.inr ⟨before, file, later, hlist, by simpa using hbefore, ?_⟩
    exact Outcome.status_eq_one_iff.mpr (by simpa using hfile)

/-- If all files succeed, what is printed about each is printed. -/
theorem run_comparing_of_succeed (hlist : list ≠ [])
    (h : ∀ file ∈ list, (c.alone files index file).status = 0) :
    (c.comparing index list).run files =
      ⟨String.join (list.map fun file => (c.alone files index file).output), none⟩ := by
  have happend := Outcome.inOrder_append (List.forall_mem_map.mpr h) []
  rw [List.append_nil, List.map_map] at happend
  rw [run_comparing hlist, happend, Outcome.inOrder, String.append_empty]
  rfl

/-- The first file that fails ends the comparison. -/
theorem run_comparing_of_fails {before : List String} {file : String}
    (hbefore : ∀ f ∈ before, (c.alone files index f).status = 0)
    (h : (c.alone files index file).status = 1) (later : List String) :
    (c.comparing index (before ++ file :: later)).run files =
      ⟨String.join (before.map fun f => (c.alone files index f).output),
        (c.alone files index file).error⟩ := by
  have hne : before ++ file :: later ≠ [] :=
    List.append_ne_nil_of_right_ne_nil _ (List.cons_ne_nil _ _)
  rw [run_comparing hne, List.map_append, Outcome.inOrder_append (List.forall_mem_map.mpr hbefore),
    List.map_cons, Outcome.inOrder_cons_of_error h, (whole_alone file).output_eq h,
    String.append_empty, List.map_map]
  rfl

/-- What is behind the first file that fails makes no difference. -/
theorem run_comparing_congr {before : List String} {file : String}
    (hbefore : ∀ f ∈ before, (c.alone files index f).status = 0)
    (h : (c.alone files index file).status = 1)
    (hfiles : ∀ path ∈ (c.comparing index (before ++ [file])).reads, files' path = files path)
    (later later' : List String) :
    (c.comparing index (before ++ file :: later')).run files' =
      (c.comparing index (before ++ file :: later)).run files := by
  rw [reads, List.forall_mem_append] at hfiles
  obtain ⟨hconfiguration, hlist⟩ := hfiles
  have halone (f : String) (hf : f ∈ before ++ [file]) :
      c.alone files' index f = c.alone files index f := by
    refine run_congr (List.forall_mem_append.mpr ⟨hconfiguration, ?_⟩)
    exact List.forall_mem_singleton.mpr (hlist f hf)
  obtain ⟨hfront, hfile⟩ := List.forall_mem_append.mp halone
  rw [List.forall_mem_singleton] at hfile
  have hbefore' (f : String) (hf : f ∈ before) : (c.alone files' index f).status = 0 := by
    rw [hfront f hf]
    exact hbefore f hf
  have h' : (c.alone files' index file).status = 1 := by
    rw [hfile]
    exact h
  rw [run_comparing_of_fails hbefore' h', run_comparing_of_fails hbefore h, hfile,
    List.map_congr_left fun f hf => congrArg Outcome.output (hfront f hf)]

/-! ## Commands that can be written -/

theorem comparing_writable {file : String} (h : (c.comparing index list).Writable)
    (hfile : file ∈ list) : (c.comparing index [file]).Writable := by
  obtain ⟨hformat, hpaths, -, hlist, hindex⟩ := h
  exact ⟨hformat, hpaths, List.cons_ne_nil _ _, List.forall_mem_singleton.mpr (hlist file hfile),
    hindex⟩

/-- **All or nothing, but comparisons by files.** A command that can be written prints nothing but
the error if its configuration cannot be used. A request other than a comparison is answered whole
or not at all. A comparison prints what the comparisons of the single files print, for as long as
they succeed; it succeeds if all of them do. Otherwise it ends with the complaint about the first
file that fails, whatever the files behind it are and hold. -/
theorem run_whole_or_front {args : List String} (h : Arguments.command? args = some c)
    (files : Files) :
    (∀ e, c.Misconfigured files e → c.run files = ⟨"", some e⟩) ∧
    ((∀ list index, c.request ≠ .ipc list index) → (c.run files).Whole) ∧
    ∀ list index, c.request = .ipc list index →
      (∀ file ∈ list, ∃ args', Arguments.command? args' = some (c.comparing index [file])) ∧
      ∃ before after, list = before ++ after ∧
        (∀ file ∈ before, (c.alone files index file).status = 0) ∧
        (c.run files).output = String.join (before.map fun f => (c.alone files index f).output) ∧
        ((after = [] ∧ (c.run files).status = 0 ∧ (c.run files).complaint = "") ∨
          ∃ file later, after = file :: later ∧ (c.alone files index file).status = 1 ∧
            (c.run files).status = 1 ∧
            (c.run files).complaint = (c.alone files index file).complaint ∧
            ∀ files' later',
              (∀ path ∈ (c.comparing index (before ++ [file])).reads, files' path = files path) →
              (c.comparing index (before ++ file :: later')).run files' = c.run files) := by
  refine ⟨fun e => run_of_misconfigured, ?_, ?_⟩
  · intro hother
    refine whole_run fun format paths => ?_
    cases hr : c.request with
    | ipc list index => exact absurd hr (hother list index)
    | query | flatten | dumps | mix => exact Outcome.whole_ofExcept _
  · intro list index hrequest
    have hself := comparing_eq_self hrequest
    have hwritable : (c.comparing index list).Writable := by
      rw [hself]
      exact writable_of_command? h
    refine ⟨fun file hfile => exists_command?_iff.mpr (comparing_writable hwritable hfile), ?_⟩
    rcases all_succeed_or_first_fails files c index list with
      hall | ⟨before, file, later, rfl, hbefore, hfile⟩
    · have hrun := run_comparing_of_succeed hwritable.request.1 hall
      rw [hself] at hrun
      refine ⟨list, [], (List.append_nil _).symm, hall, ?_, Or.inl ⟨rfl, ?_⟩⟩
      · rw [hrun]
      · rw [hrun]
        exact ⟨rfl, rfl⟩
    · have hrun := run_comparing_of_fails hbefore hfile later
      rw [hself] at hrun
      refine ⟨before, file :: later, rfl, hbefore, ?_, Or.inr ⟨file, later, rfl, hfile, ?_, ?_, ?_⟩⟩
      · rw [hrun]
      · rw [hrun]
        exact hfile
      · rw [hrun]
        rfl
      · intro files' later' hfiles
        have hcongr := run_comparing_congr hbefore hfile hfiles later later'
        rw [hself] at hcongr
        exact hcongr

/-- A file that can be compared, one that is missing, and the first again. -/
theorem run_whole_or_front_missing_second :
    let files : Files := fun path =>
      if path = "a" then .file "begin\ni 6 # i\nc 4 # c\nend\n".toUTF8
      else if path = "f" then
        .file "\x7b\"begin_marker\": \"begin\", \"end_marker\": \"end\"\x7d".toUTF8
      else if path = "m" then .file "\x7b\"sim_insts\": \"i\", \"num_cycles\": \"c\"\x7d".toUTF8
      else .closed .missing
    let c : Command := ⟨some "f", some "m", false, .ipc ["a", "b", "a"] 1⟩
    let o := c.run files
    Arguments.command? ["--format", "f", "ipc", "--analysis=m", "a", "b", "a"] = some c ∧
      o.output = "a                                        1.5000\n" ∧ o.status = 1 ∧
      o.complaint = "Error: could not read 'b': No such file or directory (os error 2)\n" ∧
      (c.comparing 1 ["a", "b"]).run files = o := by
  intro files c o
  have hargs : Arguments.command? ["--format", "f", "ipc", "--analysis=m", "a", "b", "a"] =
      some c := by
    decide +kernel
  have ha : c.alone files 1 "a" = ⟨"a                                        1.5000\n", none⟩ := by
    decide +kernel
  have hb : c.alone files 1 "b" = ⟨"", some (.unreadable "b" .missing)⟩ := by decide +kernel
  have hbfails : (c.alone files 1 "b").status ≠ 0 := by
    rw [hb]
    decide
  obtain ⟨-, before, after, hlist, hbefore, houtput, hafter⟩ :=
    (run_whole_or_front hargs files).2.2 ["a", "b", "a"] 1 rfl
  rcases hafter with ⟨rfl, -⟩ | ⟨file, later, rfl, hfile, hstatus, hcomplaint, hsame⟩
  · rw [List.append_nil] at hlist
    exact absurd (hbefore "b" (hlist ▸ by decide)) hbfails
  · rcases before with _ | ⟨x, _ | ⟨y, before⟩⟩
    · cases hlist
      rw [ha] at hfile
      cases hfile
    · cases hlist
      refine ⟨hargs, ?_, hstatus, ?_, hsame files [] fun _ _ => rfl⟩
      · rw [houtput, List.map_singleton, ha]
        decide +kernel
      · rw [hcomplaint, hb]
        decide +kernel
    · have hy : "b" = y := (List.cons.inj (List.cons.inj hlist).2).1
      rw [hy] at hbfails
      exact absurd (hbefore y (List.mem_cons_of_mem _ (List.mem_cons_self ..))) hbfails

end Command

end SimStats
