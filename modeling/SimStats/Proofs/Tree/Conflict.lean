import SimStats.Proofs.Tree.Keys

/-!
# The node in the way

A refused statistic is told which node is in its way. That is the statistic where one of its
categories should be, of which there is at most one (`Group.Blocks.eq`), or else the node that has
its place. The node is named by its key (`Group.insert_named`), with one exception: below the single
category with the empty name a taken place is named by its last segment alone, as if it were a child
of the root.
-/

namespace SimStats

/-- Nothing is below a statistic. -/
theorem Node.descend_stat_eq_some {s : Stat} {path : List String} {node : Node}
    (h : (Node.stat s).descend path = some node) : path = [] := by
  cases path with
  | nil => rfl
  | cons segment rest => cases h

namespace Group

variable {g : Group} {categories : List String}

/-- The path leads to a statistic where one of the categories should be. -/
def Blocks (g : Group) (categories path : List String) : Prop :=
  path ≠ [] ∧ path <+: categories ∧ ∃ s, (Node.group g).descend path = some (.stat s)

/-- No statistic stands before another one on the way. -/
theorem Blocks.eq {p q : List String} (hp : g.Blocks categories p) (hq : g.Blocks categories q) :
    p = q := by
  -- one of the paths goes on from the other, but nothing is below a statistic
  have hend : ∀ {p r : List String} {s t : Stat}, (Node.group g).descend p = some (.stat s) →
      (Node.group g).descend (p ++ r) = some (.stat t) → r = [] := by
    intro p r s t hs ht
    rw [Node.descend_append, hs] at ht
    exact Node.descend_stat_eq_some ht
  obtain ⟨-, hp, s, hs⟩ := hp
  obtain ⟨-, hq, t, ht⟩ := hq
  rcases List.prefix_or_prefix_of_prefix hp hq with ⟨r, rfl⟩ | ⟨r, rfl⟩
  · rw [hend hs ht, List.append_nil]
  · rw [hend ht hs, List.append_nil]

/-! ## What is named -/

/-- The key of a place is that of its path, but the first segment is left out if it is empty and the
only category. -/
theorem placeKey_eq (categories : List String) (name : String) :
    placeKey categories name =
      if categories = [""] then name else Path.key (categories ++ [name]) := by
  rw [placeKey]
  by_cases hnil : categories = []
  · simp [hnil]
  · have hempty : Path.key categories = "" ↔ categories = [""] := by
      rw [Path.key_eq_empty_iff, or_iff_right hnil]
    simp only [hempty, Path.key_append hnil (List.cons_ne_nil _ _), Path.key_singleton]

theorem blocks_of_obstacle? {path : List String}
    (h : (Node.group g).obstacle? categories = some path) : g.Blocks categories path := by
  obtain ⟨hpre, s, hs⟩ := Node.obstacle?_eq_some h
  refine ⟨?_, hpre, s, hs⟩
  rintro rfl
  cases hs

theorem not_blocks_of_obstacle? (h : (Node.group g).obstacle? categories = none) :
    ¬ ∃ path, g.Blocks categories path := by
  rintro ⟨path, hne, hpre, s, hs⟩
  exact Node.descend_ne_stat_of_obstacle? h hpre hne s hs

/-- What is in the way is the statistic on the way, or else the node at the place. -/
theorem conflict?_eq_some {name key : String} (h : g.conflict? categories name = some key) :
    (∃ path, g.Blocks categories path ∧ key = Path.key path) ∨
      (¬ ∃ path, g.Blocks categories path) ∧
        ∃ node, (Node.group g).descend (categories ++ [name]) = some node ∧
          key = placeKey categories name := by
  rw [conflict?] at h
  split at h
  · next path hpath =>
    exact Or.inl ⟨path, blocks_of_obstacle? hpath, (Option.some.inj h).symm⟩
  · next hnone =>
    obtain ⟨node, hnode, hkey⟩ := Option.map_eq_some_iff.mp h
    exact Or.inr ⟨not_blocks_of_obstacle? hnone, node, hnode, hkey.symm⟩

/-- A statistic is refused only for a node in its way. -/
theorem of_insert_eq_error (hg : g.children.WellFormed) {s : Stat} {e : LineError}
    (h : g.insert categories s = .error e) :
    ∃ key, e = .conflictingKey key ∧ g.conflict? categories s.name = some key := by
  rcases hconflict : g.conflict? categories s.name with _ | key
  · obtain ⟨g', hok, -⟩ := insert_eq_ok hg ((conflict?_eq_none_iff hg).mp hconflict)
    rw [hok] at h
    cases h
  · rw [insert, hconflict] at h
    exact ⟨key, (Except.error.inj h).symm, rfl⟩

/-- **A refused statistic is told which node is in its way.** Take the tree after any run of
requests, whatever the names in them. If a statistic stands where one of the categories should be,
the key is that of the first such. Otherwise there is a node at the new path. The key is then that
of the path, under which the flat map has the node if it is a statistic; only where the empty name
is the one category is it the name of the new statistic alone. -/
theorem insert_named (name : String) (requests : List AddRequest) (categories : List String)
    (s : Stat) :
    let tree := (AddRequest.run apply (.empty name) requests).1
    let path := categories ++ [s.name]
    ∀ e, tree.insert categories s = .error e →
      ∃ key, e = .conflictingKey key ∧
        ((∃ front, tree.Blocks categories front) →
          ∃ front, tree.Blocks categories front ∧ key = Path.key front ∧
            ∀ other, tree.Blocks categories other → front <+: other) ∧
        ((¬ ∃ front, tree.Blocks categories front) →
          ∃ node, (Node.group tree).descend path = some node ∧
            (categories ≠ [""] → key = Path.key path) ∧ (categories = [""] → key = s.name) ∧
            ∀ t, node = .stat t → Path.key path ∈ tree.flatten.keys) := by
  intro tree path e he
  obtain ⟨hwf, -, -⟩ := wellFormed_run (wellFormed_empty name) requests
  obtain ⟨key, hkey, hconflict⟩ := of_insert_eq_error hwf he
  refine ⟨key, hkey, ?_⟩
  rcases conflict?_eq_some hconflict with ⟨front, hfront, hfrontkey⟩ | ⟨hfree, node, hnode, hplace⟩
  · refine ⟨fun _ => ⟨front, hfront, hfrontkey, ?_⟩, fun h => absurd ⟨front, hfront⟩ h⟩
    intro other hother
    exact hfront.eq hother ▸ List.prefix_refl _
  · refine ⟨fun h => absurd h hfree, fun _ => ⟨node, hnode, ?_, ?_, ?_⟩⟩
    · intro hne
      rw [hplace, placeKey_eq, if_neg hne]
    · intro heq
      rw [hplace, placeKey_eq, if_pos heq]
    · rintro t rfl
      exact mem_keys_flatten_iff.mpr ⟨_, (descend_eq_stat_iff hwf).mp hnode, rfl⟩

/-- Names hold dots here. A statistic is refused for one that stands where a category should be, and
another one because its place is taken. -/
theorem insert_named_below_dotted :
    let requests : List AddRequest := [.stat ["a.b"] ⟨"c", .int 1, "x"⟩]
    let tree := (AddRequest.run apply (.empty "all") requests).1
    let below : Stat := ⟨"e", .int 2, "y"⟩
    let again : Stat := ⟨"c", .int 3, "z"⟩
    tree.insert ["a.b", "c", "d"] below = .error (.conflictingKey "a.b.c") ∧
      (∃ front, tree.Blocks ["a.b", "c", "d"] front ∧ "a.b.c" = Path.key front) ∧
      tree.insert ["a.b"] again = .error (.conflictingKey "a.b.c") ∧
      (¬ ∃ front, tree.Blocks ["a.b"] front) ∧
      ∃ node, (Node.group tree).descend ["a.b", "c"] = some node := by
  intro requests tree below again
  have htree : tree = ⟨"all", .group "a.b" (.stat ⟨"c", .int 1, "x"⟩ .nil) .nil⟩ := by
    decide +kernel
  have hbelow : tree.insert ["a.b", "c", "d"] below = .error (.conflictingKey "a.b.c") := by
    decide +kernel
  have hagain : tree.insert ["a.b"] again = .error (.conflictingKey "a.b.c") := by decide +kernel
  have hblocks : ∃ front, tree.Blocks ["a.b", "c", "d"] front := by
    refine ⟨["a.b", "c"], by decide, ⟨["d"], rfl⟩, ⟨"c", .int 1, "x"⟩, ?_⟩
    rw [htree]
    rfl
  have hfree : ¬ ∃ front, tree.Blocks ["a.b"] front :=
    not_blocks_of_obstacle? (htree ▸ rfl)
  obtain ⟨key, hkey, hfront, -⟩ := insert_named "all" requests ["a.b", "c", "d"] below _ hbelow
  obtain rfl := LineError.conflictingKey.inj hkey
  obtain ⟨front, hfirst, hfirstkey, -⟩ := hfront hblocks
  obtain ⟨_, -, -, hplace⟩ := insert_named "all" requests ["a.b"] again _ hagain
  obtain ⟨node, hnode, -⟩ := hplace hfree
  exact ⟨hbelow, ⟨front, hfirst, hfirstkey⟩, hagain, hfree, node, hnode⟩

/-- The key of a taken place is not always that of its path: below the category with the empty name
it is the key of another place. -/
theorem exists_insert_misnamed :
    ¬ ∀ (requests : List AddRequest) (categories : List String) (s : Stat) (key : String),
      let tree := (AddRequest.run apply (.empty "all") requests).1
      tree.insert categories s = .error (.conflictingKey key) →
        (¬ ∃ front, tree.Blocks categories front) → key = Path.key (categories ++ [s.name]) := by
  intro h
  let requests : List AddRequest := [.stat [""] ⟨"x", .int 1, "d"⟩]
  have htree : (AddRequest.run apply (.empty "all") requests).1 =
      ⟨"all", .group "" (.stat ⟨"x", .int 1, "d"⟩ .nil) .nil⟩ := by decide +kernel
  have hrefused : (AddRequest.run apply (.empty "all") requests).1.insert [""] ⟨"x", .int 2, "d"⟩ =
      .error (.conflictingKey "x") := by decide +kernel
  have hkey : "x" = Path.key ["", "x"] :=
    h requests [""] ⟨"x", .int 2, "d"⟩ "x" hrefused (not_blocks_of_obstacle? (htree ▸ rfl))
  revert hkey
  decide

end Group

end SimStats
