import Mathlib.Data.List.Sort
import SimStats.Tree.Flatten

/-!
# Well-formed trees and their statistics

Every tree the library builds is `WellFormed`: along each chain of siblings names ascend strictly,
and no category is empty. On such a tree the list of statistics says all there is to know:

* walking down a path ends at a statistic exactly if the path and the statistic are listed
  (`Node.descend_eq_stat_iff`), and at a category exactly if the path goes on to one
  (`Node.descend_eq_group_iff`);
* no listed path leads to or through another one (`WellFormed.leaves_apart`);
* two trees that list the same statistics are equal (`WellFormed.eq_of_leaves`).
-/

namespace SimStats

/-! ## Paths that exclude each other -/

/-- Neither path goes on from the other, and they are not equal. -/
def Path.Apart (p q : List String) : Prop := ¬ p <+: q ∧ ¬ q <+: p

namespace Path

theorem Apart.symm {p q : List String} (h : Apart p q) : Apart q p := ⟨h.2, h.1⟩

theorem apart_cons_iff {n : String} {p q : List String} : Apart (n :: p) (n :: q) ↔ Apart p q := by
  simp only [Apart, List.cons_prefix_cons, true_and]

theorem apart_of_head?_ne {n : String} {p q : List String} (hq : q ≠ [])
    (h : q.head? ≠ some n) : Apart (n :: p) q := by
  obtain ⟨m, q, rfl⟩ := List.exists_cons_of_ne_nil hq
  refine ⟨fun hp => ?_, fun hp => ?_⟩
  · exact h (congrArg some (List.cons_prefix_cons.mp hp).1.symm)
  · exact h (congrArg some (List.cons_prefix_cons.mp hp).1)

end Path

attribute [ext] Stat Group

/-! ## The shape of a tree -/

namespace Forest

/-- The names of the siblings in order. -/
def names (f : Forest) : List String := f.toList.map Node.name

/-- Names ascend strictly along every chain, and no category is empty. -/
def WellFormed : Forest → Prop
  | .nil => True
  | .stat s rest => (∀ n ∈ rest.names, s.name < n) ∧ rest.WellFormed
  | .group n children rest =>
    children ≠ .nil ∧ children.WellFormed ∧ (∀ m ∈ rest.names, n < m) ∧ rest.WellFormed

@[simp] theorem names_nil : Forest.nil.names = [] := rfl

@[simp] theorem names_stat (s : Stat) (rest : Forest) :
    (Forest.stat s rest).names = s.name :: rest.names := rfl

@[simp] theorem names_group (n : String) (children rest : Forest) :
    (Forest.group n children rest).names = n :: rest.names := rfl

theorem get?_eq_none {f : Forest} {n : String} (h : n ∉ f.names) : f.get? n = none := by
  induction f with
  | nil => rfl
  | stat s rest ih =>
    rw [names_stat, List.mem_cons, not_or] at h
    rw [get?, if_neg (Ne.symm h.1), ih h.2]
  | group m children rest _ ih =>
    rw [names_group, List.mem_cons, not_or] at h
    rw [get?, if_neg (Ne.symm h.1), ih h.2]

end Forest

/-- The empty tree is well-formed. -/
theorem Group.wellFormed_empty (name : String) : (Group.empty name).children.WellFormed := trivial

namespace Node

/-- The statistics at or below the node, with the segments that lead to them from the node. -/
def leaves : Node → List (List String × Stat)
  | .stat s => [([], s)]
  | .group g => g.leaves

/-- The tree below the node is well-formed. -/
def WellFormed : Node → Prop
  | .stat _ => True
  | .group g => g.children.WellFormed

theorem wellFormed_group {g : Group} : (Node.group g).WellFormed ↔ g.children.WellFormed := Iff.rfl

end Node

namespace Forest

theorem WellFormed.of_get? {f : Forest} (hf : f.WellFormed) {n : String} {node : Node}
    (h : f.get? n = some node) : node.WellFormed := by
  induction f with
  | nil => cases h
  | stat s rest ih =>
    rw [get?] at h
    split at h
    · obtain rfl := Option.some.inj h
      exact trivial
    · exact ih hf.2 h
  | group m children rest _ ih =>
    rw [get?] at h
    split at h
    · obtain rfl := Option.some.inj h
      exact hf.2.1
    · exact ih hf.2.2.2 h

/-- A category in a well-formed chain is not empty. -/
theorem WellFormed.children_ne_nil {f : Forest} (hf : f.WellFormed) {n : String} {g : Group}
    (h : f.get? n = some (.group g)) : g.children ≠ .nil := by
  induction f with
  | nil => cases h
  | stat s rest ih =>
    rw [get?] at h
    split at h
    · cases h
    · exact ih hf.2 h
  | group m children rest _ ih =>
    rw [get?] at h
    split at h
    · cases h
      exact hf.1
    · exact ih hf.2.2.2 h

/-! ## The statistics of a tree -/

@[simp] theorem leaves_nil : Forest.nil.leaves = [] := rfl

@[simp] theorem leaves_stat (s : Stat) (rest : Forest) :
    (Forest.stat s rest).leaves = ([s.name], s) :: rest.leaves := rfl

@[simp] theorem leaves_group (n : String) (children rest : Forest) :
    (Forest.group n children rest).leaves =
      children.leaves.map (fun leaf => (n :: leaf.1, leaf.2)) ++ rest.leaves := rfl

theorem count_eq_length_leaves (f : Forest) : f.count = f.leaves.length := by
  induction f with
  | nil => rfl
  | stat s rest ih => simp [count, ih, Nat.add_comm]
  | group n children rest ihc ih => simp [count, ihc, ih]

theorem path_ne_nil {f : Forest} {leaf : List String × Stat} (h : leaf ∈ f.leaves) :
    leaf.1 ≠ [] := by
  induction f with
  | nil => cases h
  | stat s rest ih =>
    rcases List.mem_cons.mp h with rfl | h
    · exact List.cons_ne_nil _ _
    · exact ih h
  | group n children rest _ ih =>
    rcases List.mem_append.mp h with h | h
    · obtain ⟨inner, -, rfl⟩ := List.mem_map.mp h
      exact List.cons_ne_nil _ _
    · exact ih h

/-- A path to a statistic begins with the name of a sibling. -/
theorem head_mem_names {f : Forest} {n : String} {p : List String} {s : Stat}
    (h : (n :: p, s) ∈ f.leaves) : n ∈ f.names := by
  induction f with
  | nil => cases h
  | stat t rest ih =>
    rcases List.mem_cons.mp h with h | h
    · obtain ⟨rfl, -⟩ := List.cons.inj (Prod.mk.inj h).1
      exact List.mem_cons_self ..
    · exact List.mem_cons_of_mem _ (ih h)
  | group m children rest _ ih =>
    rcases List.mem_append.mp h with h | h
    · obtain ⟨inner, -, heq⟩ := List.mem_map.mp h
      obtain ⟨rfl, -⟩ := List.cons.inj (Prod.mk.inj heq).1
      exact List.mem_cons_self ..
    · exact List.mem_cons_of_mem _ (ih h)

/-- No statistic of a chain is listed under a name that comes before all of its names. -/
theorem head?_ne_of_lt {f : Forest} {n : String} (h : ∀ m ∈ f.names, n < m)
    {leaf : List String × Stat} (hleaf : leaf ∈ f.leaves) : leaf.1.head? ≠ some n := by
  obtain ⟨p, s⟩ := leaf
  obtain ⟨m, p, rfl⟩ := List.exists_cons_of_ne_nil (path_ne_nil hleaf)
  intro heq
  obtain rfl : m = n := Option.some.inj heq
  exact String.lt_irrefl m (h m (head_mem_names hleaf))

theorem exists_mem_names {f : Forest} (h : f ≠ .nil) : ∃ n, n ∈ f.names := by
  cases f with
  | nil => exact absurd rfl h
  | stat s _ => exact ⟨s.name, List.mem_cons_self ..⟩
  | group n _ _ => exact ⟨n, List.mem_cons_self ..⟩

/-- A well-formed chain lists a statistic for each of its names: no sibling is without one. -/
theorem WellFormed.exists_leaf {f : Forest} (hf : f.WellFormed) {n : String} (h : n ∈ f.names) :
    ∃ p s, (n :: p, s) ∈ f.leaves := by
  induction f generalizing n with
  | nil => cases h
  | stat t rest ih =>
    rcases List.mem_cons.mp h with rfl | h
    · exact ⟨[], t, List.mem_cons_self ..⟩
    · obtain ⟨p, s, hmem⟩ := ih hf.2 h
      exact ⟨p, s, List.mem_cons_of_mem _ hmem⟩
  | group m children rest ihc ih =>
    obtain ⟨hne, hc, -, hrest⟩ := hf
    rcases List.mem_cons.mp h with rfl | h
    · obtain ⟨k, hk⟩ := exists_mem_names hne
      obtain ⟨p, s, hmem⟩ := ihc hc hk
      exact ⟨k :: p, s, List.mem_append_left _ (List.mem_map.mpr ⟨_, hmem, rfl⟩)⟩
    · obtain ⟨p, s, hmem⟩ := ih hrest h
      exact ⟨p, s, List.mem_append_right _ hmem⟩

/-- The statistics of a chain are those at or below its siblings. -/
theorem WellFormed.mem_leaves_cons {f : Forest} (hf : f.WellFormed) {n : String}
    {p : List String} {s : Stat} :
    (n :: p, s) ∈ f.leaves ↔ ∃ node, f.get? n = some node ∧ (p, s) ∈ node.leaves := by
  induction f with
  | nil => simp [get?]
  | stat t rest ih =>
    rw [leaves_stat, List.mem_cons, get?, ih hf.2]
    by_cases h : t.name = n
    · have hnone : rest.get? n = none :=
        get?_eq_none fun hmem => String.lt_irrefl n (h ▸ hf.1 n hmem)
      simp [h, hnone, Node.leaves]
    · simp [h, Ne.symm h]
  | group m children rest _ ih =>
    obtain ⟨-, -, hlt, hrest⟩ := hf
    rw [leaves_group, List.mem_append, get?, ih hrest]
    by_cases h : m = n
    · have hnone : rest.get? n = none :=
        get?_eq_none fun hmem => String.lt_irrefl n (h ▸ hlt n hmem)
      simp [h, hnone, Node.leaves, Group.leaves]
    · simp [h]

/-- No path to a statistic leads to or through another one. -/
theorem WellFormed.leaves_apart {f : Forest} (hf : f.WellFormed) :
    f.leaves.Pairwise fun a b => Path.Apart a.1 b.1 := by
  induction f with
  | nil => exact List.Pairwise.nil
  | stat t rest ih =>
    refine List.pairwise_cons.mpr ⟨fun b hb => ?_, ih hf.2⟩
    exact Path.apart_of_head?_ne (path_ne_nil hb) (head?_ne_of_lt hf.1 hb)
  | group m children rest ihc ih =>
    obtain ⟨-, hc, hlt, hrest⟩ := hf
    refine List.pairwise_append.mpr ⟨?_, ih hrest, ?_⟩
    · exact List.pairwise_map.mpr ((ihc hc).imp fun h => Path.apart_cons_iff.mpr h)
    · intro a ha b hb
      obtain ⟨inner, -, rfl⟩ := List.mem_map.mp ha
      exact Path.apart_of_head?_ne (path_ne_nil hb) (head?_ne_of_lt hlt hb)

/-! ## A tree is determined by its statistics -/

theorem WellFormed.names_ascend {f : Forest} (hf : f.WellFormed) :
    f.names.Pairwise (· < ·) := by
  induction f with
  | nil => exact List.Pairwise.nil
  | stat s rest ih => exact List.pairwise_cons.mpr ⟨hf.1, ih hf.2⟩
  | group n children rest _ ih => exact List.pairwise_cons.mpr ⟨hf.2.2.1, ih hf.2.2.2⟩

/-- The siblings after the first. -/
def tail : Forest → Forest
  | .nil => .nil
  | .stat _ rest => rest
  | .group _ _ rest => rest

/-- The statistics of the later siblings are those that are not listed under the first name. -/
theorem WellFormed.mem_leaves_tail {f : Forest} (hf : f.WellFormed) {leaf : List String × Stat} :
    leaf ∈ f.tail.leaves ↔ leaf ∈ f.leaves ∧ leaf.1.head? ≠ f.names.head? := by
  cases f with
  | nil => simp [tail]
  | stat s rest =>
    rw [tail, leaves_stat, List.mem_cons, names_stat, List.head?_cons]
    constructor
    · exact fun h => ⟨Or.inr h, head?_ne_of_lt hf.1 h⟩
    · rintro ⟨rfl | h, hne⟩
      · exact absurd rfl hne
      · exact h
  | group n children rest =>
    rw [tail, leaves_group, List.mem_append, names_group, List.head?_cons]
    constructor
    · exact fun h => ⟨Or.inr h, head?_ne_of_lt hf.2.2.1 h⟩
    · rintro ⟨h | h, hne⟩
      · obtain ⟨inner, -, rfl⟩ := List.mem_map.mp h
        exact absurd rfl hne
      · exact h

theorem WellFormed.tail {f : Forest} (hf : f.WellFormed) : f.tail.WellFormed := by
  cases f with
  | nil => exact trivial
  | stat s rest => exact hf.2
  | group n children rest => exact hf.2.2.2

/-- Chains that list the same statistics have the same names. -/
theorem WellFormed.names_eq {f g : Forest} (hf : f.WellFormed) (hg : g.WellFormed)
    (h : ∀ leaf, leaf ∈ f.leaves ↔ leaf ∈ g.leaves) : f.names = g.names := by
  refine hf.names_ascend.eq_of_mem_iff hg.names_ascend fun n => ⟨fun hn => ?_, fun hn => ?_⟩
  · obtain ⟨p, s, hmem⟩ := hf.exists_leaf hn
    exact head_mem_names ((h _).mp hmem)
  · obtain ⟨p, s, hmem⟩ := hg.exists_leaf hn
    exact head_mem_names ((h _).mpr hmem)

/-- Chains that list the same statistics do so after the first sibling, too. -/
theorem WellFormed.mem_leaves_tail_congr {f g : Forest} (hf : f.WellFormed) (hg : g.WellFormed)
    (h : ∀ leaf, leaf ∈ f.leaves ↔ leaf ∈ g.leaves) (leaf : List String × Stat) :
    leaf ∈ f.tail.leaves ↔ leaf ∈ g.tail.leaves := by
  rw [hf.mem_leaves_tail, hg.mem_leaves_tail, h leaf, hf.names_eq hg h]

/-- Chains that list the same statistics find siblings that do. -/
theorem WellFormed.mem_leaves_get?_congr {f g : Forest} (hf : f.WellFormed) (hg : g.WellFormed)
    (h : ∀ leaf, leaf ∈ f.leaves ↔ leaf ∈ g.leaves) {n : String} {a b : Node}
    (ha : f.get? n = some a) (hb : g.get? n = some b) (leaf : List String × Stat) :
    leaf ∈ a.leaves ↔ leaf ∈ b.leaves := by
  have hn := h (n :: leaf.1, leaf.2)
  rw [hf.mem_leaves_cons, hg.mem_leaves_cons] at hn
  simpa [ha, hb] using hn

/-- Two well-formed trees that list the same statistics are equal. -/
theorem WellFormed.eq_of_leaves {f g : Forest} (hf : f.WellFormed) (hg : g.WellFormed)
    (h : ∀ leaf, leaf ∈ f.leaves ↔ leaf ∈ g.leaves) : f = g := by
  induction f generalizing g with
  | nil =>
    have hnames := hf.names_eq hg h
    cases g with
    | nil => rfl
    | stat t rest' => cases hnames
    | group m d rest' => cases hnames
  | stat s rest ih =>
    have hnames := hf.names_eq hg h
    have hrest := hf.mem_leaves_tail_congr hg h
    have hs : (Forest.stat s rest).get? s.name = some (.stat s) := if_pos rfl
    -- the first siblings have one name, so what is listed under it decides their kind
    cases g with
    | nil => cases hnames
    | stat t rest' =>
      have ht : (Forest.stat t rest').get? s.name = some (.stat t) :=
        if_pos (List.cons.inj hnames).1.symm
      have hmem := (hf.mem_leaves_get?_congr hg h hs ht ([], s)).mp (List.mem_singleton_self _)
      obtain rfl := (Prod.mk.inj (List.mem_singleton.mp hmem)).2
      rw [ih hf.2 hg.2 hrest]
    | group m d rest' =>
      have hm : (Forest.group m d rest').get? s.name = some (.group ⟨m, d⟩) :=
        if_pos (List.cons.inj hnames).1.symm
      have hmem := (hf.mem_leaves_get?_congr hg h hs hm ([], s)).mp (List.mem_singleton_self _)
      exact absurd rfl (path_ne_nil (f := d) hmem)
  | group n c rest ihc ih =>
    have hnames := hf.names_eq hg h
    have hrest := hf.mem_leaves_tail_congr hg h
    have hn : (Forest.group n c rest).get? n = some (.group ⟨n, c⟩) := if_pos rfl
    cases g with
    | nil => cases hnames
    | stat t rest' =>
      have ht : (Forest.stat t rest').get? n = some (.stat t) :=
        if_pos (List.cons.inj hnames).1.symm
      have hmem := (hf.mem_leaves_get?_congr hg h hn ht ([], t)).mpr (List.mem_singleton_self _)
      exact absurd rfl (path_ne_nil (f := c) hmem)
    | group m d rest' =>
      obtain rfl : n = m := (List.cons.inj hnames).1
      have hm : (Forest.group n d rest').get? n = some (.group ⟨n, d⟩) := if_pos rfl
      obtain rfl := ihc hf.2.1 hg.2.1 (hf.mem_leaves_get?_congr hg h hn hm)
      rw [ih hf.2.2.2 hg.2.2.2 hrest]

/-- A name leads to a node that bears it. -/
theorem name_of_get? {f : Forest} {name : String} {node : Node} (h : f.get? name = some node) :
    node.name = name := by
  induction f with
  | nil => cases h
  | stat s rest ih => grind [get?, Node.name]
  | group n children rest _ ih => grind [get?, Node.name]

end Forest

/-! ## Walking down -/

namespace Node

/-- A path leads to a node that bears its last segment. -/
theorem name_of_descend {node m : Node} {p : List String} (hp : p ≠ [])
    (h : node.descend p = some m) : m.name = p.getLastD "" := by
  rcases List.eq_nil_or_concat p with rfl | ⟨q, n, rfl⟩
  · exact absurd rfl hp
  · rw [List.concat_eq_append, descend_append] at h
    obtain ⟨parent, -, hstep⟩ := Option.bind_eq_some_iff.mp h
    obtain ⟨child, hchild, hend⟩ := Option.bind_eq_some_iff.mp hstep
    obtain rfl := Option.some.inj hend
    rw [List.concat_eq_append, List.getLastD_concat]
    cases parent with
    | stat t => cases hchild
    | group g => exact Forest.name_of_get? hchild

/-- A statistic is reached exactly if it is listed with the path. -/
theorem descend_eq_stat_iff {node : Node} (hn : node.WellFormed) {p : List String} {s : Stat} :
    node.descend p = some (.stat s) ↔ (p, s) ∈ node.leaves := by
  induction p generalizing node with
  | nil =>
    rw [descend_nil, Option.some.injEq]
    cases node with
    | stat t => simp [leaves, eq_comm]
    | group g => exact ⟨fun h => Node.noConfusion h, fun h => absurd rfl (Forest.path_ne_nil h)⟩
  | cons n p ih =>
    cases node with
    | stat t => simp [leaves]
    | group g =>
      rw [descend_cons, get?_group, leaves, Group.leaves, hn.mem_leaves_cons,
        Option.bind_eq_some_iff]
      refine exists_congr fun child => and_congr_right fun hchild => ?_
      exact ih (hn.of_get? hchild)

/-- What is reached from a well-formed node is well-formed. -/
theorem WellFormed.of_descend {node : Node} (hn : node.WellFormed) {p : List String} {m : Node}
    (h : node.descend p = some m) : m.WellFormed := by
  induction p generalizing node with
  | nil =>
    obtain rfl := Option.some.inj h
    exact hn
  | cons n p ih =>
    obtain ⟨child, hchild, hdesc⟩ := Option.bind_eq_some_iff.mp h
    cases node with
    | stat t => cases hchild
    | group g => exact ih (hn.of_get? hchild) hdesc

/-- What is listed below a node that is reached is what is listed under the path to it. -/
theorem WellFormed.mem_leaves_of_descend {node : Node} (hn : node.WellFormed) {p : List String}
    {m : Node} (h : node.descend p = some m) {q : List String} {s : Stat} :
    (q, s) ∈ m.leaves ↔ (p ++ q, s) ∈ node.leaves := by
  rw [← descend_eq_stat_iff (hn.of_descend h), ← descend_eq_stat_iff hn, descend_append, h,
    Option.bind_some]

/-- A category below a well-formed node is not empty. -/
theorem WellFormed.children_ne_nil {node : Node} (hn : node.WellFormed) {p : List String}
    {g : Group} (hp : p ≠ []) (h : node.descend p = some (.group g)) : g.children ≠ .nil := by
  rcases List.eq_nil_or_concat p with rfl | ⟨q, n, rfl⟩
  · exact absurd rfl hp
  · rw [List.concat_eq_append, descend_append] at h
    obtain ⟨parent, hparent, hstep⟩ := Option.bind_eq_some_iff.mp h
    have hwf := hn.of_descend hparent
    cases parent with
    | stat t => cases hstep
    | group k =>
      rw [descend_cons, get?_group, Option.bind_eq_some_iff] at hstep
      obtain ⟨child, hchild, hdone⟩ := hstep
      obtain rfl := Option.some.inj hdone
      exact Forest.WellFormed.children_ne_nil hwf hchild

/-- A category is reached exactly if the path goes on to a statistic. -/
theorem descend_eq_group_iff {node : Node} (hn : node.WellFormed) {p : List String} (hp : p ≠ []) :
    (∃ g, node.descend p = some (.group g)) ↔ ∃ q s, q ≠ [] ∧ (p ++ q, s) ∈ node.leaves := by
  constructor
  · rintro ⟨g, hg⟩
    have hwf := wellFormed_group.mp (hn.of_descend hg)
    obtain ⟨n, hname⟩ := Forest.exists_mem_names (hn.children_ne_nil hp hg)
    obtain ⟨q, s, hmem⟩ := hwf.exists_leaf hname
    exact ⟨n :: q, s, List.cons_ne_nil _ _, (hn.mem_leaves_of_descend hg).mp hmem⟩
  · rintro ⟨q, s, hq, hmem⟩
    have hall := (descend_eq_stat_iff hn).mpr hmem
    rw [descend_append] at hall
    obtain ⟨child, hchild, hrest⟩ := Option.bind_eq_some_iff.mp hall
    cases child with
    | group g => exact ⟨g, hchild⟩
    | stat t =>
      obtain ⟨n, q, rfl⟩ := List.exists_cons_of_ne_nil hq
      cases hrest

end Node

end SimStats
