import SimStats.Proofs.Line.Columns
import SimStats.Proofs.Tree.Lines
import SimStats.Proofs.Tree.Stored

/-!
# Trees after any run of requests

`AddRequest.run` makes requests to add statistics one after the other, of which any may be refused.
What one accepted request does is said by `Group.of_apply_eq_none`, and that it does the same where
children are entries of maps by `Group.apply_stored`. From these follows by induction what holds
after every run: the tree is sound at every depth, it holds one statistic for each request that was
accepted, each node is stored under its name, and if all requests were content lines of one format,
all its names are proper segments of that format (`Group.sound_run`).
-/

namespace SimStats

/-! ## Every node of a tree -/

/-- The nodes at every depth below a category. -/
inductive Group.Below (g : Group) : Node → Prop where
  /-- a child -/
  | child {node : Node} : node ∈ g.toList → g.Below node
  /-- a child of a category below -/
  | step {k : Group} {node : Node} : g.Below (.group k) → node ∈ k.toList → g.Below node

namespace Forest

theorem name_mem_names {f : Forest} {node : Node} (h : node ∈ f.toList) : node.name ∈ f.names :=
  List.mem_map_of_mem h

/-- Where names ascend, a name leads to the one sibling that bears it. -/
theorem WellFormed.get?_eq_some_iff {f : Forest} (hf : f.WellFormed) {name : String}
    {node : Node} : f.get? name = some node ↔ node ∈ f.toList ∧ node.name = name := by
  induction f with
  | nil => simp [get?, toList]
  | stat s rest ih =>
    rw [get?, toList, List.mem_cons]
    split
    · next heq =>
      have hrest : node ∈ rest.toList → node.name ≠ name := by
        rintro hmem rfl
        exact String.lt_irrefl _ (heq ▸ hf.1 _ (name_mem_names hmem))
      grind [Node.name]
    · next hne =>
      rw [ih hf.2]
      grind [Node.name]
  | group n children rest _ ih =>
    obtain ⟨-, -, hlt, hrest⟩ := hf
    rw [get?, toList, List.mem_cons]
    split
    · next heq =>
      have hrest : node ∈ rest.toList → node.name ≠ name := by
        rintro hmem rfl
        exact String.lt_irrefl _ (heq ▸ hlt _ (name_mem_names hmem))
      grind [Node.name]
    · next hne =>
      rw [ih hrest]
      grind [Node.name]

/-- A category among well-formed siblings is well-formed and not empty. -/
theorem WellFormed.of_mem_toList {f : Forest} (hf : f.WellFormed) {g : Group}
    (h : .group g ∈ f.toList) : g.children.WellFormed ∧ g.children ≠ .nil := by
  have hget := hf.get?_eq_some_iff.mpr ⟨h, rfl⟩
  exact ⟨hf.of_get? hget, hf.children_ne_nil hget⟩

/-- Well-formed siblings that are not none have a statistic at or below them. -/
theorem WellFormed.leaves_ne_nil {f : Forest} (hf : f.WellFormed) (hne : f ≠ .nil) :
    f.leaves ≠ [] := by
  obtain ⟨n, hn⟩ := exists_mem_names hne
  obtain ⟨p, s, hmem⟩ := hf.exists_leaf hn
  exact List.ne_nil_of_mem hmem

end Forest

namespace Group

theorem Below.wellFormed {g : Group} (hg : g.children.WellFormed) {node : Node}
    (h : g.Below node) : ∀ k, node = .group k → k.children.WellFormed ∧ k.children ≠ .nil := by
  induction h with
  | child hmem =>
    rintro k rfl
    exact hg.of_mem_toList hmem
  | step _ hmem ih =>
    rintro k rfl
    exact (ih _ rfl).1.of_mem_toList hmem

/-- What is listed at or below a node is listed, under a path through the node's name, above. -/
theorem Below.exists_path {g : Group} (hg : g.children.WellFormed) {node : Node}
    (h : g.Below node) :
    ∃ q, ∀ p s, (p, s) ∈ node.leaves → (q ++ node.name :: p, s) ∈ g.leaves := by
  induction h with
  | @child node hmem =>
    refine ⟨[], ?_⟩
    intro p s hleaf
    exact hg.mem_leaves_cons.mpr ⟨node, hg.get?_eq_some_iff.mpr ⟨hmem, rfl⟩, hleaf⟩
  | @step k node hk hmem ih =>
    obtain ⟨q, hq⟩ := ih
    have hwf := (hk.wellFormed hg k rfl).1
    refine ⟨q ++ [k.name], ?_⟩
    intro p s hleaf
    rw [List.append_assoc, List.singleton_append]
    apply hq
    exact hwf.mem_leaves_cons.mpr ⟨node, hwf.get?_eq_some_iff.mpr ⟨hmem, rfl⟩, hleaf⟩

/-- The name of every node is a segment of the path to some statistic. -/
theorem Below.exists_leaf {g : Group} (hg : g.children.WellFormed) {node : Node}
    (h : g.Below node) : ∃ leaf ∈ g.leaves, node.name ∈ leaf.1 := by
  obtain ⟨q, hq⟩ := h.exists_path hg
  have hne : node.leaves ≠ [] := by
    cases node with
    | stat s => exact List.cons_ne_nil _ _
    | group k =>
      obtain ⟨hwf, hk⟩ := h.wellFormed hg k rfl
      exact hwf.leaves_ne_nil hk
  obtain ⟨⟨p, s⟩, hleaf⟩ := List.exists_mem_of_ne_nil _ hne
  exact ⟨_, hq p s hleaf, List.mem_append_right _ (List.mem_cons_self ..)⟩

/-- A tree that stands for a map of names to nodes at every depth, without empty categories. -/
structure Sound (g : Group) : Prop where
  /-- a name leads to a child exactly if that is the child's name -/
  named (k : Group) : k = g ∨ g.Below (.group k) → ∀ name child,
    k.get? name = some child ↔ child ∈ k.toList ∧ child.name = name
  /-- the names of children ascend, so no two are the same -/
  ascending (k : Group) : k = g ∨ g.Below (.group k) →
    (k.toList.map Node.name).Pairwise (· < ·)
  /-- every category but the root has a statistic at some depth below it -/
  inhabited (k : Group) : g.Below (.group k) → 0 < k.count

theorem sound_of_wellFormed {g : Group} (hg : g.children.WellFormed) : g.Sound := by
  have hwf : ∀ k : Group, k = g ∨ g.Below (.group k) → k.children.WellFormed := by
    rintro k (rfl | hk)
    · exact hg
    · exact (hk.wellFormed hg k rfl).1
  refine ⟨?_, ?_, ?_⟩
  · intro k hk name child
    exact (hwf k hk).get?_eq_some_iff
  · intro k hk
    exact (hwf k hk).names_ascend
  · intro k hk
    obtain ⟨hkwf, hne⟩ := hk.wellFormed hg k rfl
    rw [count, Forest.count_eq_length_leaves]
    exact List.length_pos_iff.mpr (hkwf.leaves_ne_nil hne)

end Group

/-! ## Requests -/

/-- A request to add a statistic. -/
inductive AddRequest where
  /-- a statistic below categories -/
  | stat (categories : List String) (s : Stat)
  /-- a content line whose name is cut at the separators -/
  | line (separators : List String) (text : String)

namespace AddRequest

/-- What an accepted request adds: a statistic with the segments that lead to it. -/
def Adds : AddRequest → List String × Stat → Prop
  | .stat categories s, leaf => leaf = (categories ++ [s.name], s)
  | .line separators text, leaf => Line.leaf? separators text = some leaf

/-- Makes one request after the other and counts those that are not refused. -/
def run {Tree : Type} (apply : Tree → AddRequest → Tree × Option LineError) :
    Tree → List AddRequest → Tree × Nat
  | tree, [] => (tree, 0)
  | tree, r :: requests =>
    match apply tree r with
    | (tree', none) => ((run apply tree' requests).1, (run apply tree' requests).2 + 1)
    | (tree', some _) => run apply tree' requests

end AddRequest

/-- What is stored after the request, and why it was refused if it was. -/
def Stored.apply (children : List (String × Stored)) :
    AddRequest → List (String × Stored) × Option LineError
  | .stat categories s => insert children categories s
  | .line separators text =>
    match Line.parse separators text with
    | .ok l => insert children l.categories l.stat
    | .error e => (children, some e)

namespace Group

/-- The tree after the request, and why it was refused if it was. -/
def apply (g : Group) : AddRequest → Group × Option LineError
  | .stat categories s => g.settle (g.insert categories s)
  | .line separators text => g.settle (g.addLine separators text)

theorem of_settle_eq_none {g g' : Group} {result : Except LineError Group}
    (h : g.settle result = (g', none)) : result = .ok g' := by
  cases result <;> cases h
  rfl

theorem of_settle_eq_some {g g' : Group} {result : Except LineError Group} {e : LineError}
    (h : g.settle result = (g', some e)) : g' = g := by
  cases result <;> cases h
  rfl

/-- A refused request leaves the tree as it is. -/
theorem of_apply_eq_some {g g' : Group} {r : AddRequest} {e : LineError}
    (h : g.apply r = (g', some e)) : g' = g := by
  cases r <;> exact of_settle_eq_some h

/-- An accepted request adds one statistic to a well-formed tree, which stays well-formed. -/
theorem of_apply_eq_none {g g' : Group} (hg : g.children.WellFormed) {r : AddRequest}
    (h : g.apply r = (g', none)) :
    g'.children.WellFormed ∧ ∃ leaf, r.Adds leaf ∧ g'.leaves.Perm (leaf :: g.leaves) := by
  cases r with
  | stat categories s =>
    obtain ⟨-, -, hwf, hperm⟩ := of_insert_eq_ok hg (of_settle_eq_none h)
    exact ⟨hwf, _, rfl, hperm⟩
  | line separators text =>
    obtain ⟨l, hl, -, -, hwf, hperm⟩ := of_addLine_eq_ok hg (of_settle_eq_none h)
    exact ⟨hwf, _, Line.leaf?_of_parse hl, hperm⟩

/-- A request that is made by keys and one that is made by names do the same. -/
theorem apply_stored {g : Group} (hg : g.children.WellFormed) (r : AddRequest) :
    Stored.apply g.children.stored r = (g.apply r).map (fun g => g.children.stored) id := by
  cases r with
  | stat categories s => exact insert_stored hg categories s
  | line separators text =>
    rw [Stored.apply, apply, addLine]
    cases Line.parse separators text with
    | error e => rfl
    | ok l => exact insert_stored hg l.categories l.stat

/-- One more statistic in the list is one more in the count. -/
theorem count_of_leaves_perm {g g' : Group} {leaf : List String × Stat}
    (h : g'.leaves.Perm (leaf :: g.leaves)) : g'.count = g.count + 1 := by
  rw [count, count, Forest.count_eq_length_leaves, Forest.count_eq_length_leaves]
  exact h.length_eq

/-- After any run a tree is well-formed, has one more statistic for each accepted request, and what
is new in it was added by one of the requests. -/
theorem wellFormed_run {g : Group} (hg : g.children.WellFormed) (requests : List AddRequest) :
    (AddRequest.run apply g requests).1.children.WellFormed ∧
      (AddRequest.run apply g requests).1.count = g.count + (AddRequest.run apply g requests).2 ∧
      ∀ leaf ∈ (AddRequest.run apply g requests).1.leaves,
        leaf ∈ g.leaves ∨ ∃ r ∈ requests, r.Adds leaf := by
  induction requests generalizing g with
  | nil => exact ⟨hg, rfl, fun leaf hleaf => Or.inl hleaf⟩
  | cons r requests ih =>
    rw [AddRequest.run]
    rcases hr : g.apply r with ⟨g', _ | e⟩
    · obtain ⟨hwf', added, hadded, hperm⟩ := of_apply_eq_none hg hr
      obtain ⟨hwf, hcount, hleaves⟩ := ih hwf'
      have hone := count_of_leaves_perm hperm
      refine ⟨hwf, by simp only [hcount, hone]; omega, ?_⟩
      intro leaf hleaf
      rcases hleaves leaf hleaf with hleaf | ⟨q, hq, hadds⟩
      · rcases List.mem_cons.mp (hperm.mem_iff.mp hleaf) with rfl | hleaf
        · exact Or.inr ⟨r, List.mem_cons_self .., hadded⟩
        · exact Or.inl hleaf
      · exact Or.inr ⟨q, List.mem_cons_of_mem _ hq, hadds⟩
    · obtain rfl := of_apply_eq_some hr
      obtain ⟨hwf, hcount, hleaves⟩ := ih hg
      refine ⟨hwf, hcount, ?_⟩
      intro leaf hleaf
      refine (hleaves leaf hleaf).imp_right ?_
      rintro ⟨q, hq, hadds⟩
      exact ⟨q, List.mem_cons_of_mem _ hq, hadds⟩

/-- A run by keys and one by names do the same. -/
theorem run_stored {g : Group} (hg : g.children.WellFormed) (requests : List AddRequest) :
    AddRequest.run Stored.apply g.children.stored requests =
      (AddRequest.run apply g requests).map (fun g => g.children.stored) id := by
  induction requests generalizing g with
  | nil => rfl
  | cons r requests ih =>
    rw [AddRequest.run, AddRequest.run, apply_stored hg]
    rcases hr : g.apply r with ⟨g', _ | e⟩
    · obtain ⟨hwf, -⟩ := of_apply_eq_none hg hr
      simp only [Prod.map_apply, id_eq]
      rw [ih hwf]
      rfl
    · obtain rfl := of_apply_eq_some hr
      exact ih hg

/-- **What holds after every run.** Whatever is requested of an empty tree, and whether it is
accepted or refused: at every depth a name leads to the child that bears it, every category but the
root has a statistic below it, and there are as many statistics as requests were accepted. A tree of
maps that is changed in place by the same requests has the same nodes, at every depth each under its
name as the key. If all requests are content lines cut at the same separators, all names below the
root are proper. -/
theorem sound_run (name : String) (requests : List AddRequest) :
    let tree := AddRequest.run apply (.empty name) requests
    let maps := AddRequest.run Stored.apply [] requests
    tree.1.Sound ∧ tree.1.count = tree.2 ∧
      maps = (tree.1.children.stored, tree.2) ∧
      (∀ key node, Stored.Holds maps.1 key node → key = node.name) ∧
      ∀ separators : List String, (∀ sep ∈ separators, sep ≠ "") →
        (∀ r ∈ requests, ∃ text, r = .line separators text) →
        ∀ node, tree.1.Below node → Path.Proper separators node.name := by
  intro tree maps
  obtain ⟨hwf, hcount, hleaves⟩ := wellFormed_run (wellFormed_empty name) requests
  have hmaps : maps = (tree.1.children.stored, tree.2) :=
    run_stored (wellFormed_empty name) requests
  refine ⟨sound_of_wellFormed hwf, hcount.trans (Nat.zero_add _), hmaps, ?_, ?_⟩
  · intro key node hnode
    rw [hmaps] at hnode
    exact Forest.key_eq_name_of_holds hnode
  · intro separators hseps hlines node hnode
    obtain ⟨leaf, hleaf, hmem⟩ := hnode.exists_leaf hwf
    rcases hleaves leaf hleaf with hnil | ⟨r, hr, hadds⟩
    · exact absurd hnil List.not_mem_nil
    · obtain ⟨text, rfl⟩ := hlines r hr
      obtain ⟨l, hl, rfl⟩ := Line.parse_of_leaf? hadds
      exact Line.proper_of_parse hseps hl _ hmem

/-- Of three lines the second is refused, as its name is that of a category, and the third, as it
has no value. -/
theorem sound_run_three_lines :
    let requests : List AddRequest :=
      [.line ["."] "l2.hits 9 # h", .line ["."] "l2 1 # m", .line ["."] "l2.misses"]
    let tree := AddRequest.run apply (.empty "all") requests
    tree = (⟨"all", .group "l2" (.stat ⟨"hits", .int 9, "h"⟩ .nil) .nil⟩, 1) ∧
      AddRequest.run Stored.apply [] requests =
        ([("l2", .group "l2" [("hits", .stat ⟨"hits", .int 9, "h"⟩)])], 1) ∧
      tree.1.Sound ∧ ∀ node, tree.1.Below node → Path.Proper ["."] node.name := by
  intro requests tree
  have htree : tree = (⟨"all", .group "l2" (.stat ⟨"hits", .int 9, "h"⟩ .nil) .nil⟩, 1) := by
    decide +kernel
  have hlines : ∀ r ∈ requests, ∃ text, r = .line ["."] text := by
    intro r hr
    simp only [requests, List.mem_cons, List.not_mem_nil, or_false] at hr
    rcases hr with rfl | rfl | rfl <;> exact ⟨_, rfl⟩
  obtain ⟨hsound, -, hmaps, -, hproper⟩ := sound_run "all" requests
  refine ⟨htree, hmaps.trans ?_, hsound, hproper ["."] (by decide) hlines⟩
  change (tree.1.children.stored, tree.2) = _
  rw [htree]
  rfl

end Group

end SimStats
