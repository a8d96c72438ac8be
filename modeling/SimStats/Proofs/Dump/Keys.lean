import SimStats.Proofs.Dump.Query
import SimStats.Proofs.Tree.Keys

/-!
# Keys as paths

A flat map names each statistic by its key, the segments of its path joined with dots. Where the
dot is a separator, no segment holds one, so that no two statistics have one key
(`Dump.OfLines.keys_nodup`), and none is missing from the flat map. Where it is none, two
statistics can have one key, and then the flat map has lost one of them
(`Dump.flatten_complete_of_ofBytes`).

Where the dot is a separator that no other one holds, the key is itself a path to the statistic
(`Dump.OfLines.split_key`), and the flat map and the dump hold the same values.
-/

namespace SimStats.Dump

variable {d : Dump} {lines : List String}

theorem value_eq_ok_iff {p : String} {v : Value} :
    d.value p = .ok v ↔ ∃ s, d.stat p = .ok s ∧ s.value = v := by
  rw [value]
  rcases d.stat p with e | s <;> simp [Except.map]

/-- The empty path leads to no statistic. -/
theorem ne_empty_of_stat {p : String} {s : Stat} (h : d.stat p = .ok s) : p ≠ "" := by
  rintro rfl
  cases h

/-- A statistic is listed under the segments of a name, none of which is empty. -/
theorem OfLines.exists_split (h : d.OfLines lines) {path : List String} {s : Stat}
    (hmem : (path, s) ∈ d.root.leaves) :
    ∃ name, Path.split d.separators name = path ∧ "" ∉ path := by
  obtain ⟨line, -, l, hl, rfl, -⟩ := h.mem_leaves_iff.mp hmem
  obtain ⟨fields, -, hempty, -, hsegments, -⟩ := Line.of_parseTrimmed_eq_ok hl
  exact ⟨String.ofList fields.name, hsegments.symm, hsegments ▸ hempty⟩

/-- The key of a statistic is cut into the segments it was joined from. -/
theorem OfLines.split_key (h : d.OfLines lines) (hdot : Path.Dotted d.separators)
    {path : List String} {s : Stat} (hmem : (path, s) ∈ d.root.leaves) :
    Path.split d.separators (Path.key path) = path := by
  obtain ⟨name, rfl, -⟩ := h.exists_split hmem
  refine Path.split_key hdot (Path.split_ne_nil _ _) fun segment hsegment => ?_
  exact Path.split_of_mem_split hsegment

theorem OfLines.key_ne_empty (h : d.OfLines lines) (hdot : Path.Dotted d.separators)
    {path : List String} {s : Stat} (hmem : (path, s) ∈ d.root.leaves) : Path.key path ≠ "" := by
  intro hkey
  obtain ⟨-, -, hempty⟩ := h.exists_split hmem
  have hsplit := h.split_key hdot hmem
  rw [hkey, Path.split_empty] at hsplit
  exact hempty (hsplit ▸ List.mem_singleton_self _)

/-- Where the dot is a separator no segment holds one. -/
theorem OfLines.undotted (h : d.OfLines lines) (hdot : "." ∈ d.separators) : d.root.Undotted := by
  intro leaf hleaf segment hsegment
  obtain ⟨name, hname, -⟩ := h.exists_split hleaf
  rw [← hname] at hsegment
  exact Path.split_dot_of_mem_split hdot hsegment

/-- No two statistics have one key where the dot is a separator, so that no segment holds one. -/
theorem OfLines.keys_nodup (h : d.OfLines lines) (hdot : "." ∈ d.separators) :
    ((d.root.leaves.map fun leaf => (Path.key leaf.1, leaf.2.value)).map Prod.fst).Nodup :=
  Group.keys_nodup h.wellFormed (h.undotted hdot)

theorem OfLines.mem_flatten_iff (h : d.OfLines lines) (hdot : "." ∈ d.separators)
    {key : String} {v : Value} :
    (key, v) ∈ d.flatten.entries ↔
      ∃ path s, (path, s) ∈ d.root.leaves ∧ Path.key path = key ∧ s.value = v :=
  Group.mem_flatten_iff h.wellFormed (h.undotted hdot)

/-- **Flattening and lookup agree.** Where the dot is a separator that no other one holds, every
key of the flat map is a path to its value, and the value at every path is in the flat map under
the key of the path. -/
theorem flatten_agrees_of_ofBytes {format : Format} (hdot : Path.Dotted format.separators)
    {index : Nat} {bytes : ByteArray} (h : ofBytes format index bytes = .ok d) :
    (∀ e ∈ d.flatten.entries, d.value e.1 = .ok e.2) ∧
      ∀ p v, d.value p = .ok v →
        (Path.key (Path.split format.separators p), v) ∈ d.flatten.entries := by
  obtain ⟨hsep, lines, hlines⟩ := exists_ofLines_of_ofBytes h
  rw [← hsep] at hdot ⊢
  constructor
  · rintro ⟨key, v⟩ he
    obtain ⟨path, s, hmem, rfl, rfl⟩ := (hlines.mem_flatten_iff hdot.1).mp he
    have hkey := hlines.key_ne_empty hdot hmem
    refine value_eq_ok_iff.mpr ⟨s, (hlines.stat_eq_ok_iff_mem_leaves hkey).mpr ?_, rfl⟩
    rw [hlines.split_key hdot hmem]
    exact hmem
  · intro p v hv
    obtain ⟨s, hs, rfl⟩ := value_eq_ok_iff.mp hv
    have hmem := (hlines.stat_eq_ok_iff_mem_leaves (ne_empty_of_stat hs)).mp hs
    exact (hlines.mem_flatten_iff hdot.1).mpr ⟨_, s, hmem, rfl, rfl⟩

/-- The flat map of a dump of two lines in the standard format. -/
theorem flatten_agrees_two_lines :
    Path.Dotted standardSeparators ∧
      ∃ d, ofBytes .standard 1 (Format.standard.beginMarker ++
          "\nl2.hits 9 # h\n\nl2::misses 1 # m\n").toUTF8 = .ok d ∧
        (∀ e ∈ d.flatten.entries, d.value e.1 = .ok e.2) ∧
        ∀ p v, d.value p = .ok v →
          (Path.key (Path.split standardSeparators p), v) ∈ d.flatten.entries := by
  let hits : Stat := ⟨"hits", .int 9, "h"⟩
  let misses : Stat := ⟨"misses", .int 1, "m"⟩
  have hdot : Path.Dotted standardSeparators := by
    refine ⟨List.mem_cons_self .., ?_⟩
    decide +kernel
  have h : ofBytes .standard 1 (Format.standard.beginMarker ++
      "\nl2.hits 9 # h\n\nl2::misses 1 # m\n").toUTF8 =
      .ok ⟨⟨"all", .group "l2" (.stat hits (.stat misses .nil)) .nil⟩, standardSeparators⟩ := by
    decide +kernel
  exact ⟨hdot, _, h, flatten_agrees_of_ofBytes hdot h⟩

/-! ## Statistics that are lost -/

/-- A flat map has an entry for each statistic exactly if no two statistics have one key. -/
theorem size_flatten_eq_count_iff (d : Dump) :
    d.flatten.size = d.root.count ↔
      (d.root.leaves.map fun leaf => Path.key leaf.1).Nodup :=
  d.root.size_flatten_eq_count_iff

/-- **What flattening keeps.** A flat map has one entry for each statistic of a dump exactly if no
two statistics have one key. If the dot is a separator this is so, and every value is in the flat
map under the key of its path. -/
theorem flatten_complete_of_ofBytes {format : Format} {index : Nat} {bytes : ByteArray}
    (h : ofBytes format index bytes = .ok d) :
    (d.flatten.size = d.root.count ↔
      (d.root.leaves.map fun leaf => Path.key leaf.1).Nodup) ∧
    ("." ∈ format.separators →
      d.flatten.size = d.root.count ∧
      ∀ path s, (path, s) ∈ d.root.leaves → (Path.key path, s.value) ∈ d.flatten.entries) := by
  refine ⟨d.size_flatten_eq_count_iff, ?_⟩
  intro hdot
  obtain ⟨hsep, lines, hlines⟩ := exists_ofLines_of_ofBytes h
  rw [← hsep] at hdot
  constructor
  · have hkeys := hlines.keys_nodup hdot
    rw [List.map_map] at hkeys
    exact d.size_flatten_eq_count_iff.mpr hkeys
  · intro path s hmem
    exact (hlines.mem_flatten_iff hdot).mpr ⟨path, s, hmem, rfl, rfl⟩

/-- A dump of two lines, cut at dots and at slashes. -/
theorem flatten_complete_two_lines :
    ∃ d, ofBytes ⟨"begin", "end", ["/", "."], "all"⟩ 1
        "begin\nl2/a.hits 9 # h\nl2.a/misses 1 # m\nend\n".toUTF8 = .ok d ∧
      (d.flatten.size = d.root.count ↔
        (d.root.leaves.map fun leaf => Path.key leaf.1).Nodup) ∧
      ("." ∈ ["/", "."] →
        d.flatten.size = d.root.count ∧
        ∀ path s, (path, s) ∈ d.root.leaves →
          (Path.key path, s.value) ∈ d.flatten.entries) := by
  let hits : Stat := ⟨"hits", .int 9, "h"⟩
  let misses : Stat := ⟨"misses", .int 1, "m"⟩
  have h : ofBytes ⟨"begin", "end", ["/", "."], "all"⟩ 1
      "begin\nl2/a.hits 9 # h\nl2.a/misses 1 # m\nend\n".toUTF8 =
      .ok ⟨⟨"all", .group "l2" (.group "a" (.stat hits (.stat misses .nil)) .nil) .nil⟩,
        ["/", "."]⟩ := by
    decide +kernel
  exact ⟨_, h, flatten_complete_of_ofBytes h⟩

/-- Where the dot is no separator a name can hold one, and then two statistics of a dump can have
one key: not every usable format lets the flat map have an entry for each statistic. -/
theorem exists_size_flatten_ne_count :
    ¬ ∀ (format : Format) (index : Nat) (text : String) (d : Dump), format.validate = .ok () →
      ofBytes format index text.toUTF8 = .ok d → d.flatten.size = d.root.count := by
  intro h
  let first : Stat := ⟨"a.b", .int 1, "x"⟩
  let second : Stat := ⟨"b", .int 2, "y"⟩
  have hformat : (Format.mk "begin" "end" ["/"] "all").validate = .ok () := by decide +kernel
  have hread : ofBytes ⟨"begin", "end", ["/"], "all"⟩ 1
      "begin\na.b 1 # x\na/b 2 # y\nend\n".toUTF8 =
      .ok ⟨⟨"all", .group "a" (.stat second .nil) (.stat first .nil)⟩, ["/"]⟩ := by
    decide +kernel
  have hsize := h _ _ _ _ hformat hread
  -- the flat map has one entry, the tree has two statistics
  revert hsize
  decide +kernel

end SimStats.Dump
