import SimStats.Proofs.Tree.Flatten
import SimStats.Proofs.Tree.Runs

/-!
# Which statistic a key stands for

Names may be empty and may hold dots, so several statistics of a tree can have one key. The flat map
lists the key once, with the value of the statistic that the walk meets last
(`Group.get?_flatten_eq_some_iff`). The walk visits children in the order of their names, which is
to say that it meets the statistics in ascending order of their paths, names compared one after the
other (`Forest.WellFormed.leaves_ascend`). This is not the order of the keys: `a` comes before `a-`,
while the key `a.b` comes after `a-`.
-/

namespace SimStats

/-! ## The order of the walk -/

/-- The walk meets statistics in ascending order of their paths. -/
theorem Forest.WellFormed.leaves_ascend {f : Forest} (hf : f.WellFormed) :
    f.leaves.Pairwise fun a b => a.1 < b.1 := by
  -- a path that begins with a name is less than those that begin with a later one
  have hlater : ∀ {n : String} {rest : Forest} (p : List String), (∀ m ∈ rest.names, n < m) →
      ∀ leaf ∈ rest.leaves, n :: p < leaf.1 := by
    rintro n rest p hlt ⟨q, s⟩ hleaf
    obtain ⟨m, q, rfl⟩ := List.exists_cons_of_ne_nil (path_ne_nil hleaf)
    exact List.cons_lt_cons_iff.mpr (Or.inl (hlt m (head_mem_names hleaf)))
  induction f with
  | nil => exact List.Pairwise.nil
  | stat t rest ih => exact List.pairwise_cons.mpr ⟨hlater [] hf.1, ih hf.2⟩
  | group n children rest ihc ih =>
    obtain ⟨-, hc, hlt, hrest⟩ := hf
    refine List.pairwise_append.mpr ⟨?_, ih hrest, ?_⟩
    · refine List.pairwise_map.mpr ((ihc hc).imp ?_)
      exact fun h => List.cons_lt_cons_iff.mpr (Or.inr ⟨rfl, h⟩)
    · intro a ha b hb
      obtain ⟨inner, -, rfl⟩ := List.mem_map.mp ha
      exact hlater inner.1 hlt b hb

namespace Group

/-! ## The last statistic with a key -/

theorem get?_flatten_eq_some_iff {g : Group} {key : String} {v : Value} :
    g.flatten.get? key = some v ↔
      ∃ front path s back, g.leaves = front ++ (path, s) :: back ∧ Path.key path = key ∧
        s.value = v ∧ ∀ leaf ∈ back, Path.key leaf.1 ≠ key := by
  rw [flatten_eq_ofList, Keyed.get?_ofList_eq_some_iff]
  constructor
  · rintro ⟨front, back, hleaves, hback⟩
    obtain ⟨front, tail, hsplit, -, htail⟩ := List.map_eq_append_iff.mp hleaves
    obtain ⟨⟨path, s⟩, back, rfl, hentry, rfl⟩ := List.map_eq_cons_iff.mp htail
    obtain ⟨hkey, hvalue⟩ := Prod.mk.inj hentry
    refine ⟨front, path, s, back, hsplit, hkey, hvalue, ?_⟩
    intro leaf hleaf
    exact hback _ (List.mem_map_of_mem hleaf)
  · rintro ⟨front, path, s, back, hsplit, rfl, rfl, hback⟩
    refine ⟨_, _, by rw [hsplit, List.map_append, List.map_cons], ?_⟩
    intro e he
    obtain ⟨leaf, hleaf, rfl⟩ := List.mem_map.mp he
    exact hback leaf hleaf

theorem mem_keys_flatten_iff {g : Group} {key : String} :
    key ∈ g.flatten.keys ↔ ∃ leaf ∈ g.leaves, Path.key leaf.1 = key := by
  rw [flatten_eq_ofList, Keyed.mem_keys_ofList_iff, List.map_map, List.mem_map]
  rfl

theorem count_eq_length_entries (g : Group) :
    g.count = (g.leaves.map fun leaf => (Path.key leaf.1, leaf.2.value)).length := by
  rw [List.length_map]
  exact g.children.count_eq_length_leaves

theorem size_flatten_le_count (g : Group) : g.flatten.size ≤ g.count := by
  rw [flatten_eq_ofList, count_eq_length_entries]
  exact Keyed.size_ofList_le _

/-- A flat map has an entry for each statistic exactly if no two statistics have one key. -/
theorem size_flatten_eq_count_iff (g : Group) :
    g.flatten.size = g.count ↔ (g.leaves.map fun leaf => Path.key leaf.1).Nodup := by
  rw [flatten_eq_ofList, count_eq_length_entries, Keyed.size_ofList_eq_iff, List.map_map]
  rfl

/-- **What a flat map says of any tree.** Take the tree after any run of requests, whatever the
names in them. The walk meets each statistic once, with the path that leads to it, in ascending
order of the paths. The flat map has a key exactly if it is that of a statistic, and then the value
of the last statistic with that key that the walk meets. It has at most as many entries as there are
statistics, and as many exactly if all their keys differ. -/
theorem flatten_exact (name : String) (requests : List AddRequest) :
    let tree := (AddRequest.run apply (.empty name) requests).1
    (∀ path s, (path, s) ∈ tree.leaves ↔ (Node.group tree).descend path = some (.stat s)) ∧
      (tree.leaves.Pairwise fun a b => a.1 < b.1) ∧
      (∀ key v, tree.flatten.get? key = some v ↔
        ∃ front path s back, tree.leaves = front ++ (path, s) :: back ∧ Path.key path = key ∧
          s.value = v ∧ ∀ leaf ∈ back, Path.key leaf.1 ≠ key) ∧
      (∀ key, key ∈ tree.flatten.keys ↔ ∃ leaf ∈ tree.leaves, Path.key leaf.1 = key) ∧
      tree.flatten.size ≤ tree.count ∧
      (tree.flatten.size = tree.count ↔
        (tree.leaves.map fun leaf => Path.key leaf.1).Nodup) := by
  intro tree
  obtain ⟨hwf, -, -⟩ := wellFormed_run (wellFormed_empty name) requests
  exact ⟨fun path s => (descend_eq_stat_iff hwf).symm, hwf.leaves_ascend,
    fun key v => get?_flatten_eq_some_iff, fun key => mem_keys_flatten_iff,
    tree.size_flatten_le_count, tree.size_flatten_eq_count_iff⟩

/-- Of two statistics with one key the one that was added last is met first, so its value is
lost. -/
theorem flatten_exact_one_key :
    let requests : List AddRequest :=
      [.stat [""] ⟨"", .int 3, "e"⟩, .stat [] ⟨"a.b", .int 1, "x"⟩, .stat ["a"] ⟨"b", .int 2, "y"⟩]
    let tree := (AddRequest.run apply (.empty "all") requests).1
    tree.leaves = [(["", ""], ⟨"", .int 3, "e"⟩), (["a", "b"], ⟨"b", .int 2, "y"⟩),
        (["a.b"], ⟨"a.b", .int 1, "x"⟩)] ∧
      tree.flatten.get? "a.b" = some (.int 1) ∧ "." ∈ tree.flatten.keys ∧
      tree.flatten.size ≠ tree.count := by
  intro requests tree
  have hleaves : tree.leaves = [(["", ""], ⟨"", .int 3, "e"⟩), (["a", "b"], ⟨"b", .int 2, "y"⟩),
      (["a.b"], ⟨"a.b", .int 1, "x"⟩)] := by decide +kernel
  obtain ⟨-, -, hget, hkeys, -, hsize⟩ := flatten_exact "all" requests
  refine ⟨hleaves, ?_, ?_, ?_⟩
  · exact (hget _ _).mpr ⟨[_, _], _, _, [], hleaves, rfl, rfl, by simp⟩
  · exact (hkeys _).mpr ⟨_, hleaves ▸ List.mem_cons_self .., rfl⟩
  · refine mt hsize.mp ?_
    change ¬ (tree.leaves.map fun leaf => Path.key leaf.1).Nodup
    rw [hleaves]
    decide

end Group

end SimStats
