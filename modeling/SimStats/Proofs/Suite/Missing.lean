import SimStats.Proofs.Dump.Outcome
import SimStats.Proofs.Files.Listing
import SimStats.Proofs.Suite

/-!
# Which benchmarks have a file

That a benchmark is passed over means that there is nothing at its path: neither a directory nor the
bytes of a file are taken for a file that is missing (`Suite.missing_iff`), and no dump is read but
from a file. So a table has an entry for those of the named benchmarks that have a file, and in a
directory whose contents are known these are the ones that are listed
(`Suite.mem_keys_collect_files_iff`).
-/

namespace SimStats

/-- Lines of bytes are text or not; nothing else is wrong with them. -/
theorem RawLine.notText_of_ofBytes {bytes : List UInt8} {fault : Fault}
    (h : RawLine.ofBytes bytes = .error fault) : fault = .notText := by
  rw [ofBytes] at h
  split at h
  · cases h
  · exact (Except.error.inj h).symm

namespace Suite

variable {files : Files} {s : Suite} {benchmark : String}

/-- There is no file for the benchmark. -/
def Missing (files : Files) (s : Suite) (benchmark : String) : Prop :=
  files (s.pathOf benchmark) = .closed .missing

theorem load_of_closed {fault : Fault} (h : files (s.pathOf benchmark) = .closed fault) :
    s.load files benchmark = .error (.unreadable (s.pathOf benchmark) fault) := by
  rw [load, Dump.load, h]
  rfl

theorem missing_of_isMissingFile {path : String} {fault : Fault}
    (h : (Error.unreadable path fault).isMissingFile = true) : fault = .missing := by
  cases fault with
  | missing => rfl
  | _ => cases h

/-- A benchmark is taken for one without a file if there is nothing at its path, and for no other
reason. -/
theorem missing_iff :
    (∃ e, s.load files benchmark = .error e ∧ e.isMissingFile = true) ↔
      s.Missing files benchmark := by
  refine ⟨?_, fun h => ⟨_, load_of_closed h, rfl⟩⟩
  rintro ⟨e, hload, hmissing⟩
  obtain ⟨path, rfl⟩ : ∃ path, e = .unreadable path .missing := by
    cases e with
    | unreadable path fault => exact ⟨path, by rw [missing_of_isMissingFile hmissing]⟩
    | _ => cases hmissing
  cases hentry : files (s.pathOf benchmark) with
  | closed fault =>
    obtain ⟨-, rfl⟩ := Error.unreadable.inj (Except.error.inj (load_of_closed hentry ▸ hload))
    exact hentry
  | directory =>
    rw [load, Dump.load, hentry] at hload
    cases List.mem_singleton.mp (Dump.mem_of_read_eq_unreadable hload)
  | file content =>
    rw [load, Dump.load, hentry] at hload
    obtain ⟨bytes, -, hbytes⟩ := List.mem_map.mp (Dump.mem_of_read_eq_unreadable hload)
    cases RawLine.notText_of_ofBytes hbytes

/-- Collecting stops at a benchmark if there is something at its path, but no dump can be read. -/
theorem fails_iff {e : Error} :
    s.Fails files benchmark e ↔
      ¬ s.Missing files benchmark ∧ s.load files benchmark = .error e := by
  rw [← missing_iff, Fails, and_comm]
  refine and_congr_left fun hload => ⟨?_, fun h => ?_⟩
  · rintro hfound ⟨e', hload', hmissing⟩
    obtain rfl := Except.error.inj (hload.symm.trans hload')
    rw [hfound] at hmissing
    cases hmissing
  · exact Bool.eq_false_iff.mpr fun hmissing => h ⟨e, hload, hmissing⟩

/-- A dump is read from a file. -/
theorem exists_file_of_load {d : Dump} (h : s.load files benchmark = .ok d) :
    ∃ content, files (s.pathOf benchmark) = .file content := by
  cases hentry : files (s.pathOf benchmark) with
  | closed fault =>
    rw [load_of_closed hentry] at h
    cases h
  | directory =>
    rw [load, Dump.load, hentry] at h
    cases Dump.read_error_ne_ok h
  | file content => exact ⟨content, rfl⟩

/-- The table has an entry for each benchmark that has a file. -/
theorem mem_keys_collect_iff_file {benchmarks : List String} {table : Keyed (Keyed Value)}
    (h : s.collect files benchmarks = .ok table) :
    benchmark ∈ table.keys ↔
      benchmark ∈ benchmarks ∧ ∃ content, files (s.pathOf benchmark) = .file content := by
  rw [mem_keys_collect_iff h]
  refine and_congr_right fun hmem => ⟨fun ⟨d, hd⟩ => exists_file_of_load hd, ?_⟩
  rintro ⟨content, hfile⟩
  rcases (collect_eq_ok_iff.mp h).1 benchmark hmem with hread | hmissing
  · exact hread
  · have hclosed := missing_iff.mp hmissing
    rw [Missing, hfile] at hclosed
    cases hclosed

/-- **Collecting a directory.** If the directory of a suite is known, the table has an entry for
exactly those of the named benchmarks whose files are listed in it. -/
theorem mem_keys_collect_files_iff {l : Listing} {names : List String}
    (hreach : l.reach s.dir = .ok (.inside names)) (hdir : l.at? names = some .directory)
    {benchmarks : List String} {table : Keyed (Keyed Value)}
    (h : s.collect l.files benchmarks = .ok table)
    (hname : Listing.Ordinary (benchmark ++ s.ending))
    (hpath : Listing.Allowed (s.pathOf benchmark)) :
    benchmark ∈ table.keys ↔
      benchmark ∈ benchmarks ∧
        ∃ content, l.at? (names ++ [benchmark ++ s.ending]) = some (.file content) := by
  have hentry : l.files (s.pathOf benchmark) =
      Listing.found (l.at? (names ++ [benchmark ++ s.ending])) :=
    Listing.entry_joinPath hreach hdir hname hpath
  rw [mem_keys_collect_iff_file h, hentry]
  simp only [Listing.found_eq_file_iff]

end Suite

end SimStats
