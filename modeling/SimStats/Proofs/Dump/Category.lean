import SimStats.Proofs.Dump.Keys

/-!
# The flat map of a category

Keys are relative to the category that is flattened. Where the dot is a separator, the flat map of a
category is what the flat map of the whole dump lists under the key of the category and a dot
(`Dump.flatten_group_of_ofBytes`): nothing is missing from it, and no sibling whose name merely
begins like that of the category gets into it.
-/

namespace SimStats.Dump

/-- **Flattening a category is restricting the flat map of the dump.** Where the dot is a separator,
an entry is in the flat map of the category at a path exactly if it is in that of the dump with the
key of the category and a dot in front. -/
theorem flatten_group_of_ofBytes {format : Format} (hdot : "." ∈ format.separators) {index : Nat}
    {bytes : ByteArray} {d : Dump} (h : ofBytes format index bytes = .ok d) {p : String}
    (hp : p ≠ "") {g : Group} (hg : d.group p = .ok g) (key : String) (v : Value) :
    (key, v) ∈ g.flatten.entries ↔
      (Path.key (Path.split format.separators p) ++ "." ++ key, v) ∈ d.flatten.entries := by
  obtain ⟨hsep, lines, hlines⟩ := exists_ofLines_of_ofBytes h
  rw [← hsep] at hdot ⊢
  have hdescend := (query_eq_ok_iff hp).mp (group_eq_ok_iff.mp hg)
  exact Group.mem_flatten_iff_of_descend hlines.wellFormed (hlines.undotted hdot)
    (Path.split_ne_nil _ _) hdescend

/-- A category beside one whose name begins like its own. -/
theorem flatten_group_beside_another :
    "." ∈ ["/", "."] ∧ "l2/a" ≠ "" ∧
      ∃ d g, ofBytes ⟨"begin", "end", ["/", "."], "all"⟩ 1
          "begin\nl2.a/x.y 1 # y\nl2.a:.z 3 # z\nend\n".toUTF8 = .ok d ∧
        d.group "l2/a" = .ok g ∧
        ∀ key v, (key, v) ∈ g.flatten.entries ↔
          (Path.key (Path.split ["/", "."] "l2/a") ++ "." ++ key, v) ∈ d.flatten.entries := by
  let y : Stat := ⟨"y", .int 1, "y"⟩
  let z : Stat := ⟨"z", .int 3, "z"⟩
  let a : Forest := .group "x" (.stat y .nil) .nil
  let d : Dump :=
    ⟨⟨"all", .group "l2" (.group "a" a (.group "a:" (.stat z .nil) .nil)) .nil⟩, ["/", "."]⟩
  have hdot : "." ∈ ["/", "."] := by decide +kernel
  have hp : "l2/a" ≠ "" := by decide +kernel
  have h : ofBytes ⟨"begin", "end", ["/", "."], "all"⟩ 1
      "begin\nl2.a/x.y 1 # y\nl2.a:.z 3 # z\nend\n".toUTF8 = .ok d := by
    decide +kernel
  have hg : d.group "l2/a" = .ok ⟨"a", a⟩ := by decide +kernel
  exact ⟨hdot, hp, d, _, h, hg, flatten_group_of_ofBytes hdot h hp hg⟩

end SimStats.Dump
