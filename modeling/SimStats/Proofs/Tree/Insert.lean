import SimStats.Proofs.Tree.WellFormed
import SimStats.Tree.Insert

/-!
# What adding a statistic does

On a well-formed tree a statistic can be added at a path exactly if the path is apart from those of
all statistics that are there (`Group.insert_eq_ok` and `Group.insert_eq_error`). The tree stays
well-formed, and it then lists what it listed before and the new statistic.
-/

namespace SimStats

/-! ## Adding to one chain -/

namespace Forest

/-- What comes before the first of ascending names comes before all of them. -/
theorem lt_of_mem_cons {x a : String} {names : List String} (hlt : x < a)
    (h : ∀ n ∈ names, a < n) : ∀ n ∈ a :: names, x < n := by
  intro n hn
  rcases List.mem_cons.mp hn with rfl | hn
  · exact hlt
  · exact String.lt_trans hlt (h n hn)

/-- A name that comes before all others still does if one is added that does not come before it. -/
theorem lt_of_mem_added {a added : String} {names names' : List String} (hne : added ≠ a)
    (hnlt : ¬ added < a) (h : ∀ n ∈ names, a < n)
    (hnames : ∀ n ∈ names', n = added ∨ n ∈ names) : ∀ n ∈ names', a < n := by
  intro n hn
  rcases hnames n hn with rfl | hn
  · exact Keyed.lt_of_ne_of_not_lt hne hnlt
  · exact h n hn

theorem names_put {f : Forest} {s : Stat} {n : String} (h : n ∈ (f.put s).names) :
    n = s.name ∨ n ∈ f.names := by
  induction f with
  | nil => exact Or.inl (List.mem_singleton.mp h)
  | stat t rest ih =>
    rw [put] at h
    split at h
    · exact (List.mem_cons.mp h).imp_right (List.mem_cons_of_mem _)
    · split at h
      · exact List.mem_cons.mp h
      · rcases List.mem_cons.mp h with rfl | h
        · exact Or.inr (List.mem_cons_self ..)
        · exact (ih h).imp_right (List.mem_cons_of_mem _)
  | group m children rest _ ih =>
    rw [put] at h
    split at h
    · exact (List.mem_cons.mp h).imp_right (List.mem_cons_of_mem _)
    · split at h
      · exact List.mem_cons.mp h
      · rcases List.mem_cons.mp h with rfl | h
        · exact Or.inr (List.mem_cons_self ..)
        · exact (ih h).imp_right (List.mem_cons_of_mem _)

theorem WellFormed.put {f : Forest} (hf : f.WellFormed) {s : Stat} (h : s.name ∉ f.names) :
    (f.put s).WellFormed := by
  induction f with
  | nil => exact ⟨fun n hn => absurd hn (List.not_mem_nil), trivial⟩
  | stat t rest ih =>
    rw [names_stat, List.mem_cons, not_or] at h
    rw [Forest.put, if_neg h.1]
    split
    · next hlt => exact ⟨lt_of_mem_cons hlt hf.1, hf⟩
    · next hnlt =>
      have hbefore := lt_of_mem_added h.1 hnlt hf.1 fun _ => names_put
      exact ⟨hbefore, ih hf.2 h.2⟩
  | group m children rest _ ih =>
    obtain ⟨hne, hc, hmlt, hrest⟩ := hf
    rw [names_group, List.mem_cons, not_or] at h
    rw [Forest.put, if_neg h.1]
    split
    · next hlt => exact ⟨lt_of_mem_cons hlt hmlt, hne, hc, hmlt, hrest⟩
    · next hnlt =>
      have hbefore := lt_of_mem_added h.1 hnlt hmlt fun _ => names_put
      exact ⟨hne, hc, hbefore, ih hrest h.2⟩

/-- Putting a statistic under a new name adds it to the statistics. -/
theorem leaves_put {f : Forest} {s : Stat} (h : s.name ∉ f.names) :
    (f.put s).leaves.Perm (([s.name], s) :: f.leaves) := by
  induction f with
  | nil => exact List.Perm.refl _
  | stat t rest ih =>
    rw [names_stat, List.mem_cons, not_or] at h
    rw [put, if_neg h.1]
    split
    · exact List.Perm.refl _
    · exact ((ih h.2).cons _).trans (List.Perm.swap ..)
  | group m children rest _ ih =>
    rw [names_group, List.mem_cons, not_or] at h
    rw [put, if_neg h.1]
    split
    · exact List.Perm.refl _
    · exact ((ih h.2).append_left _).trans List.perm_middle

/-! ## Changing one category -/

/-- The children of the category `name`; none if it is missing. -/
def childrenOf (f : Forest) (name : String) : Forest :=
  match f.get? name with
  | some (.group g) => g.children
  | _ => .nil

/-- The chain in which the category `name` has the given children. -/
def withChildren : Forest → String → Forest → Forest
  | .nil, name, children => .group name children .nil
  | .stat t rest, name, children =>
    if name < t.name then .group name children (.stat t rest)
    else .stat t (rest.withChildren name children)
  | .group n old rest, name, children =>
    if name = n then .group n children rest
    else if name < n then .group name children (.group n old rest)
    else .group n old (rest.withChildren name children)

/-- The name is missing or that of a category. -/
def Open (f : Forest) (name : String) : Prop := ∀ s, f.get? name ≠ some (.stat s)

theorem Open.name_ne {t : Stat} {rest : Forest} {name : String}
    (h : (Forest.stat t rest).Open name) : name ≠ t.name := fun heq => h t (if_pos heq.symm)

theorem get?_stat_of_ne {t : Stat} {name : String} (h : name ≠ t.name) (rest : Forest) :
    (Forest.stat t rest).get? name = rest.get? name := if_neg (Ne.symm h)

theorem get?_group_of_ne {n name : String} (h : name ≠ n) (c rest : Forest) :
    (Forest.group n c rest).get? name = rest.get? name := if_neg (Ne.symm h)

theorem childrenOf_group (n : String) (c rest : Forest) :
    (Forest.group n c rest).childrenOf n = c := by
  rw [childrenOf, get?, if_pos rfl]

theorem childrenOf_congr {f g : Forest} {name : String} (h : f.get? name = g.get? name) :
    f.childrenOf name = g.childrenOf name := by
  rw [childrenOf, h, childrenOf]

theorem childrenOf_of_not_mem {f : Forest} {name : String} (h : name ∉ f.names) :
    f.childrenOf name = .nil := by
  rw [childrenOf, get?_eq_none h]

/-- A name before the first one of a well-formed chain is missing. -/
theorem WellFormed.not_mem_of_lt {f : Forest} (hf : f.WellFormed) {n name : String}
    (hn : f.names.head? = some n) (hlt : name < n) : name ∉ f.names := by
  intro hmem
  obtain ⟨rest, hrest⟩ := List.head?_eq_some_iff.mp hn
  rw [hrest] at hmem
  have hasc := hf.names_ascend
  rw [hrest] at hasc
  rcases List.mem_cons.mp hmem with rfl | hmem
  · exact String.lt_irrefl _ hlt
  · exact String.lt_irrefl _ (String.lt_trans hlt (List.rel_of_pairwise_cons hasc hmem))

theorem WellFormed.childrenOf {f : Forest} (hf : f.WellFormed) (name : String) :
    (f.childrenOf name).WellFormed := by
  rw [Forest.childrenOf]
  split
  · next g h => exact hf.of_get? h
  · exact trivial

theorem WellFormed.mem_leaves_childrenOf {f : Forest} (hf : f.WellFormed) {name : String}
    {p : List String} {s : Stat} (h : (p, s) ∈ (f.childrenOf name).leaves) :
    (name :: p, s) ∈ f.leaves := by
  rw [Forest.childrenOf] at h
  split at h
  · next g hg => exact hf.mem_leaves_cons.mpr ⟨_, hg, h⟩
  · cases h

/-- If the name is open and its children can be changed, `alter` changes them and nothing else. -/
theorem WellFormed.alter_eq {f : Forest} (hf : f.WellFormed) {name : String} (ho : f.Open name)
    {change : Forest → Except (List String) Forest} {c : Forest}
    (hc : change (f.childrenOf name) = .ok c) :
    f.alter name change = .ok (f.withChildren name c) := by
  induction f with
  | nil =>
    rw [childrenOf_of_not_mem List.not_mem_nil] at hc
    rw [alter, hc]
    rfl
  | stat t rest ih =>
    have hne := ho.name_ne
    rw [alter, if_neg hne, withChildren]
    by_cases hlt : name < t.name
    · rw [childrenOf_of_not_mem (hf.not_mem_of_lt rfl hlt)] at hc
      rw [if_pos hlt, if_pos hlt, hc]
      rfl
    · have hget := get?_stat_of_ne hne rest
      rw [childrenOf_congr hget] at hc
      rw [if_neg hlt, if_neg hlt, ih hf.2 (fun s => hget ▸ ho s) hc]
      rfl
  | group n old rest _ ih =>
    rw [alter, withChildren]
    by_cases heq : name = n
    · subst heq
      rw [childrenOf_group] at hc
      rw [if_pos rfl, if_pos rfl, hc]
      rfl
    · rw [if_neg heq, if_neg heq]
      by_cases hlt : name < n
      · rw [childrenOf_of_not_mem (hf.not_mem_of_lt rfl hlt)] at hc
        rw [if_pos hlt, if_pos hlt, hc]
        rfl
      · have hget := get?_group_of_ne heq old rest
        rw [childrenOf_congr hget] at hc
        rw [if_neg hlt, if_neg hlt, ih hf.2.2.2 (fun s => hget ▸ ho s) hc]
        rfl

theorem names_withChildren {f c : Forest} {name n : String}
    (h : n ∈ (f.withChildren name c).names) : n = name ∨ n ∈ f.names := by
  induction f with
  | nil => exact Or.inl (List.mem_singleton.mp h)
  | stat t rest ih =>
    rw [withChildren] at h
    split at h
    · exact List.mem_cons.mp h
    · rcases List.mem_cons.mp h with rfl | h
      · exact Or.inr (List.mem_cons_self ..)
      · exact (ih h).imp_right (List.mem_cons_of_mem _)
  | group m old rest _ ih =>
    rw [withChildren] at h
    split at h
    · exact Or.inr h
    · split at h
      · exact List.mem_cons.mp h
      · rcases List.mem_cons.mp h with rfl | h
        · exact Or.inr (List.mem_cons_self ..)
        · exact (ih h).imp_right (List.mem_cons_of_mem _)

theorem WellFormed.withChildren {f : Forest} (hf : f.WellFormed) {name : String}
    (ho : f.Open name) {c : Forest} (hc : c.WellFormed) (hne : c ≠ .nil) :
    (f.withChildren name c).WellFormed := by
  induction f with
  | nil => exact ⟨hne, hc, fun n hn => absurd hn List.not_mem_nil, trivial⟩
  | stat t rest ih =>
    have hname := ho.name_ne
    rw [Forest.withChildren]
    split
    · next hlt => exact ⟨hne, hc, lt_of_mem_cons hlt hf.1, hf⟩
    · next hnlt =>
      have hget := get?_stat_of_ne hname rest
      have hbefore := lt_of_mem_added hname hnlt hf.1 fun _ => names_withChildren (c := c)
      exact ⟨hbefore, ih hf.2 fun s => hget ▸ ho s⟩
  | group m old rest _ ih =>
    obtain ⟨holdne, hold, hmlt, hrest⟩ := hf
    rw [Forest.withChildren]
    split
    · exact ⟨hne, hc, hmlt, hrest⟩
    · next hname =>
      split
      · next hlt => exact ⟨hne, hc, lt_of_mem_cons hlt hmlt, holdne, hold, hmlt, hrest⟩
      · next hnlt =>
        have hget := get?_group_of_ne hname old rest
        have hbefore := lt_of_mem_added hname hnlt hmlt fun _ => names_withChildren (c := c)
        exact ⟨holdne, hold, hbefore, ih hrest fun s => hget ▸ ho s⟩

/-- One more statistic in a category is one more statistic in the tree. -/
theorem WellFormed.leaves_withChildren {f : Forest} (hf : f.WellFormed) {name : String}
    (ho : f.Open name) {c : Forest} {p : List String} {s : Stat}
    (hc : c.leaves.Perm ((p, s) :: (f.childrenOf name).leaves)) :
    (f.withChildren name c).leaves.Perm ((name :: p, s) :: f.leaves) := by
  have hmap := hc.map fun leaf => (name :: leaf.1, leaf.2)
  induction f with
  | nil =>
    rw [childrenOf_of_not_mem List.not_mem_nil] at hmap
    exact hmap.append_right []
  | stat t rest ih =>
    rw [Forest.withChildren]
    split
    · next hlt =>
      rw [childrenOf_of_not_mem (hf.not_mem_of_lt rfl hlt)] at hmap
      exact hmap.append_right _
    · have hget := get?_stat_of_ne ho.name_ne rest
      rw [childrenOf_congr hget] at hc hmap
      exact ((ih hf.2 (fun s => hget ▸ ho s) hc hmap).cons _).trans (List.Perm.swap ..)
  | group m old rest _ ih =>
    rw [Forest.withChildren]
    split
    · next heq =>
      subst heq
      rw [childrenOf_group] at hmap
      exact hmap.append_right _
    · next hname =>
      split
      · next hlt =>
        rw [childrenOf_of_not_mem (hf.not_mem_of_lt rfl hlt)] at hmap
        exact hmap.append_right _
      · have hget := get?_group_of_ne hname old rest
        rw [childrenOf_congr hget] at hc hmap
        exact ((ih hf.2.2.2 (fun s => hget ▸ ho s) hc hmap).append_left _).trans List.perm_middle

/-! ## Adding below categories -/

/-- The first of the categories is open if the path is apart from all others. -/
theorem WellFormed.open_of_apart {f : Forest} (hf : f.WellFormed) {n : String} {p : List String}
    (h : ∀ leaf ∈ f.leaves, Path.Apart leaf.1 (n :: p)) : f.Open n := by
  intro t ht
  have hleaf : ([n], t) ∈ f.leaves := hf.mem_leaves_cons.mpr ⟨_, ht, List.mem_singleton_self _⟩
  exact (h _ hleaf).1 ⟨p, rfl⟩

/-- Within the first of the categories, the rest of the path is apart from all others. -/
theorem WellFormed.apart_childrenOf {f : Forest} (hf : f.WellFormed) {n : String} {p : List String}
    (h : ∀ leaf ∈ f.leaves, Path.Apart leaf.1 (n :: p)) :
    ∀ leaf ∈ (f.childrenOf n).leaves, Path.Apart leaf.1 p := by
  intro leaf hleaf
  exact Path.apart_cons_iff.mp (h _ (hf.mem_leaves_childrenOf hleaf))

/-- A statistic whose path is apart from all others can be placed. -/
theorem WellFormed.place_eq_ok {f : Forest} (hf : f.WellFormed) {s : Stat}
    {categories : List String}
    (h : ∀ leaf ∈ f.leaves, Path.Apart leaf.1 (categories ++ [s.name])) :
    ∃ f', f.place s categories = .ok f' ∧ f'.WellFormed ∧
      f'.leaves.Perm ((categories ++ [s.name], s) :: f.leaves) := by
  induction categories generalizing f with
  | nil =>
    -- no category is empty, so a sibling of that name would have a statistic at or below it
    have hnew : s.name ∉ f.names := by
      intro hmem
      obtain ⟨p, t, hleaf⟩ := hf.exists_leaf hmem
      exact (h _ hleaf).2 ⟨p, rfl⟩
    exact ⟨f.put s, rfl, hf.put hnew, leaves_put hnew⟩
  | cons n categories ih =>
    have ho := hf.open_of_apart h
    obtain ⟨c, hc, hwf, hperm⟩ := ih (hf.childrenOf n) (hf.apart_childrenOf h)
    have hne : c ≠ .nil := by
      rintro rfl
      exact List.not_perm_nil_cons _ _ hperm
    exact ⟨f.withChildren n c, hf.alter_eq ho hc, hf.withChildren ho hwf hne,
      hf.leaves_withChildren ho hperm⟩

end Forest

/-! ## What is in the way -/

namespace Node

/-- An obstacle is a statistic that the categories lead to. -/
theorem obstacle?_eq_some {n : Node} {categories path : List String}
    (h : n.obstacle? categories = some path) :
    path <+: categories ∧ ∃ s, n.descend path = some (.stat s) := by
  induction categories generalizing n path with
  | nil => cases h
  | cons c categories ih =>
    rw [obstacle?] at h
    split at h
    · cases h
    · next s hs =>
      obtain rfl := Option.some.inj h
      exact ⟨⟨categories, rfl⟩, s, by rw [descend_cons, hs]; rfl⟩
    · next g hg =>
      obtain ⟨inner, hinner, rfl⟩ := Option.map_eq_some_iff.mp h
      obtain ⟨hpre, s, hs⟩ := ih hinner
      exact ⟨List.cons_prefix_cons.mpr ⟨rfl, hpre⟩, s, by rw [descend_cons, hg]; exact hs⟩

/-- Where no obstacle is found, the categories lead to no statistic. -/
theorem descend_ne_stat_of_obstacle? {n : Node} {categories path : List String}
    (h : n.obstacle? categories = none) (hpre : path <+: categories) (hne : path ≠ []) (s : Stat) :
    n.descend path ≠ some (.stat s) := by
  induction categories generalizing n path with
  | nil => exact absurd (List.prefix_nil.mp hpre) hne
  | cons c categories ih =>
    obtain ⟨d, path, rfl⟩ := List.exists_cons_of_ne_nil hne
    obtain ⟨rfl, hrestpre⟩ := List.cons_prefix_cons.mp hpre
    intro hdesc
    obtain ⟨child, hchild, hrest⟩ := Option.bind_eq_some_iff.mp hdesc
    rw [obstacle?, hchild] at h
    cases child with
    | stat t => cases h
    | group g =>
      have hinner := Option.map_eq_none_iff.mp h
      rcases eq_or_ne path [] with rfl | hpath
      · cases hrest
      · exact ih hinner hrestpre hpath hrest

end Node

namespace Group

/-- A well-formed category lists a statistic where walking down finds one. -/
theorem descend_eq_stat_iff {g : Group} (hg : g.children.WellFormed) {p : List String} {s : Stat} :
    (Node.group g).descend p = some (.stat s) ↔ (p, s) ∈ g.leaves :=
  Node.descend_eq_stat_iff (Node.wellFormed_group.mpr hg)

/-- Nothing is in the way exactly if the path is apart from those of all statistics. -/
theorem conflict?_eq_none_iff {g : Group} (hg : g.children.WellFormed) {categories : List String}
    {name : String} :
    g.conflict? categories name = none ↔
      ∀ leaf ∈ g.leaves, Path.Apart leaf.1 (categories ++ [name]) := by
  constructor
  · rintro h ⟨p, s⟩ hleaf
    have hp := (descend_eq_stat_iff hg).mpr hleaf
    rw [conflict?] at h
    split at h
    · cases h
    · next hobs =>
      have hfree := Option.map_eq_none_iff.mp h
      constructor
      · intro hpre
        rcases List.prefix_concat_iff.mp hpre with heq | hpre
        -- the place itself is taken, or a category on the way to it
        · obtain rfl : p = categories ++ [name] := heq
          rw [hfree] at hp
          cases hp
        · exact Node.descend_ne_stat_of_obstacle? hobs hpre (Forest.path_ne_nil hleaf) s hp
      · rintro ⟨q, rfl⟩
        rw [Node.descend_append, hfree] at hp
        cases hp
  · intro h
    rw [conflict?]
    split
    · next path hobs =>
      obtain ⟨hpre, s, hs⟩ := Node.obstacle?_eq_some hobs
      exact absurd (hpre.trans ⟨[name], rfl⟩) (h _ ((descend_eq_stat_iff hg).mp hs)).1
    · rw [Option.map_eq_none_iff]
      rcases hnode : (Node.group g).descend (categories ++ [name]) with _ | node
      · rfl
      · cases node with
        | stat s =>
          exact absurd (List.prefix_refl _) (h _ ((descend_eq_stat_iff hg).mp hnode)).1
        | group k =>
          have hwf := Node.wellFormed_group.mpr hg
          obtain ⟨q, s, -, hleaf⟩ :=
            (Node.descend_eq_group_iff hwf (List.concat_ne_nil _ _)).mp ⟨k, hnode⟩
          exact absurd ⟨q, rfl⟩ (h _ hleaf).2

/-! ## Insertion -/

/-- A statistic whose path is apart from all others is added. -/
theorem insert_eq_ok {g : Group} (hg : g.children.WellFormed) {categories : List String} {s : Stat}
    (h : ∀ leaf ∈ g.leaves, Path.Apart leaf.1 (categories ++ [s.name])) :
    ∃ g', g.insert categories s = .ok g' ∧ g'.name = g.name ∧ g'.children.WellFormed ∧
      g'.leaves.Perm ((categories ++ [s.name], s) :: g.leaves) := by
  obtain ⟨c, hc, hwf, hperm⟩ := hg.place_eq_ok h
  refine ⟨{ g with children := c }, ?_, rfl, hwf, hperm⟩
  rw [insert, (conflict?_eq_none_iff hg).mpr h, hc]

/-- A statistic whose path is not apart from all others is refused. -/
theorem insert_eq_error {g : Group} (hg : g.children.WellFormed) {categories : List String}
    {s : Stat} (h : ¬ ∀ leaf ∈ g.leaves, Path.Apart leaf.1 (categories ++ [s.name])) :
    ∃ key, g.insert categories s = .error (.conflictingKey key) := by
  rcases hconf : g.conflict? categories s.name with _ | key
  · exact absurd ((conflict?_eq_none_iff hg).mp hconf) h
  · exact ⟨key, by rw [insert, hconf]⟩

/-- What a statistic has to be that is added, and what the tree is then. -/
theorem of_insert_eq_ok {g g' : Group} (hg : g.children.WellFormed) {categories : List String}
    {s : Stat} (h : g.insert categories s = .ok g') :
    (∀ leaf ∈ g.leaves, Path.Apart leaf.1 (categories ++ [s.name])) ∧
      g'.name = g.name ∧ g'.children.WellFormed ∧
      g'.leaves.Perm ((categories ++ [s.name], s) :: g.leaves) := by
  by_cases hfree : ∀ leaf ∈ g.leaves, Path.Apart leaf.1 (categories ++ [s.name])
  · obtain ⟨k, hk, hname, hwf, hperm⟩ := insert_eq_ok hg hfree
    obtain rfl : k = g' := Except.ok.inj (hk.symm.trans h)
    exact ⟨hfree, hname, hwf, hperm⟩
  · obtain ⟨key, hkey⟩ := insert_eq_error hg hfree
    rw [hkey] at h
    cases h

end Group

end SimStats
