import SimStats.Proofs.Keyed
import SimStats.Proofs.Path.Split
import SimStats.Proofs.Tree.WellFormed

/-!
# A flat map as the list of statistics

Flattening is entering the statistics of the tree, in the order in which they are listed, under
their joined paths (`Group.flatten_eq_ofList`). Where no name holds a dot, no two paths are joined
to one key, so that the entries are the statistics (`Group.mem_flatten_iff`).
-/

namespace SimStats

/-- The key of a path below a name is the key of the whole path. -/
theorem Path.below_key_cons {p : List String} (hp : p ≠ []) (parent : Option String) (n : String) :
    Path.below (some (Path.below parent n)) (Path.key p) =
      Path.below parent (Path.key (n :: p)) := by
  rw [Path.key_cons hp]
  cases parent with
  | none => rfl
  | some parent => simp [Path.below, String.append_assoc]

namespace Forest

theorem flattenInto_eq_foldl (f : Forest) (parent : Option String) (flat : Keyed Value) :
    f.flattenInto parent flat =
      (f.leaves.map fun leaf => (Path.below parent (Path.key leaf.1), leaf.2.value)).foldl
        (fun flat e => flat.insert e.1 e.2) flat := by
  induction f generalizing parent flat with
  | nil => rfl
  | stat s rest ih =>
    rw [flattenInto, ih]
    rfl
  | group n children rest ihc ih =>
    have hkeys : children.leaves.map
        (fun leaf => (Path.below (some (Path.below parent n)) (Path.key leaf.1), leaf.2.value)) =
        children.leaves.map
          (fun leaf => (Path.below parent (Path.key (n :: leaf.1)), leaf.2.value)) :=
      List.map_congr_left fun leaf hleaf => by rw [Path.below_key_cons (path_ne_nil hleaf)]
    rw [flattenInto, ih, ihc, hkeys, leaves_group, List.map_append, List.foldl_append,
      List.map_map]
    rfl

end Forest

namespace Group

/-- The flat map of a category is that of its statistics' keys and values. -/
theorem flatten_eq_ofList (g : Group) :
    g.flatten = Keyed.ofList (g.leaves.map fun leaf => (Path.key leaf.1, leaf.2.value)) :=
  g.children.flattenInto_eq_foldl none .empty

/-! ## Names without dots -/

/-- No name on the way to a statistic below the category holds a dot. -/
def Undotted (g : Group) : Prop :=
  ∀ leaf ∈ g.leaves, ∀ segment ∈ leaf.1, Path.split ["."] segment = [segment]

/-- Where names hold no dots, no two statistics have one key. -/
theorem keys_nodup {g : Group} (hg : g.children.WellFormed) (hdots : g.Undotted) :
    ((g.leaves.map fun leaf => (Path.key leaf.1, leaf.2.value)).map Prod.fst).Nodup := by
  rw [List.map_map, List.Nodup, List.pairwise_map]
  refine hg.leaves_apart.imp_of_mem ?_
  intro a b ha hb hapart hkey
  -- equal keys are keys of equal paths, but no two paths in a tree are equal
  have hpath : a.1 = b.1 := by
    refine Path.eq_of_key_eq (Forest.path_ne_nil ha) (Forest.path_ne_nil hb) ?_ hkey
    intro segment hsegment
    rcases List.mem_append.mp hsegment with hsegment | hsegment
    · exact hdots a ha segment hsegment
    · exact hdots b hb segment hsegment
  exact hapart.1 (hpath ▸ List.prefix_refl _)

theorem mem_flatten_iff {g : Group} (hg : g.children.WellFormed) (hdots : g.Undotted)
    {key : String} {v : Value} :
    (key, v) ∈ g.flatten.entries ↔
      ∃ path s, (path, s) ∈ g.leaves ∧ Path.key path = key ∧ s.value = v := by
  rw [flatten_eq_ofList, Keyed.mem_entries_ofList (keys_nodup hg hdots)]
  simp

/-! ## Categories below -/

variable {g k : Group} {p : List String}

theorem Undotted.of_descend (hdots : g.Undotted) (hg : g.children.WellFormed)
    (h : (Node.group g).descend p = some (.group k)) : k.Undotted := by
  have hroot := Node.wellFormed_group.mpr hg
  rintro ⟨q, s⟩ hleaf segment hsegment
  have hmem := (hroot.mem_leaves_of_descend h).mp hleaf
  exact hdots _ hmem segment (List.mem_append_right p hsegment)

/-- The names on the way to a category hold no dots, because no category is empty. -/
theorem Undotted.of_mem (hdots : g.Undotted) (hg : g.children.WellFormed) (hp : p ≠ [])
    (h : (Node.group g).descend p = some (.group k)) {segment : String} (hsegment : segment ∈ p) :
    Path.split ["."] segment = [segment] := by
  have hroot := Node.wellFormed_group.mpr hg
  obtain ⟨q, s, -, hmem⟩ := (Node.descend_eq_group_iff hroot hp).mp ⟨k, h⟩
  exact hdots _ hmem segment (List.mem_append_left q hsegment)

/-- Where names hold no dots, the flat map of a category is the part of the flat map of the tree
that is listed under its key. -/
theorem mem_flatten_iff_of_descend (hg : g.children.WellFormed) (hdots : g.Undotted) (hp : p ≠ [])
    (h : (Node.group g).descend p = some (.group k)) {key : String} {v : Value} :
    (key, v) ∈ k.flatten.entries ↔ (Path.key p ++ "." ++ key, v) ∈ g.flatten.entries := by
  have hroot := Node.wellFormed_group.mpr hg
  have hk : k.children.WellFormed := hroot.of_descend h
  have hbelow : ∀ q s, (q, s) ∈ k.leaves ↔ (p ++ q, s) ∈ g.leaves := fun q s =>
    hroot.mem_leaves_of_descend h
  rw [mem_flatten_iff hk (hdots.of_descend hg h), mem_flatten_iff hg hdots]
  constructor
  · rintro ⟨q, s, hmem, rfl, rfl⟩
    exact ⟨p ++ q, s, (hbelow q s).mp hmem, Path.key_append hp (Forest.path_ne_nil hmem), rfl⟩
  · rintro ⟨path, s, hmem, hkey, rfl⟩
    -- the key tells the segments of the path, so the path leads through the category
    have hwhole : ∀ segment ∈ p ++ path, Path.split ["."] segment = [segment] := by
      intro segment hsegment
      rcases List.mem_append.mp hsegment with hsegment | hsegment
      · exact hdots.of_mem hg hp h hsegment
      · exact hdots _ hmem segment hsegment
    obtain ⟨q, rfl, rfl⟩ :=
      Path.exists_append_of_key_eq hp (Forest.path_ne_nil hmem) hwhole hkey
    exact ⟨q, s, (hbelow q s).mpr hmem, rfl, rfl⟩

end Group

end SimStats
