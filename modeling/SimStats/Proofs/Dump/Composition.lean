import SimStats.Proofs.Dump.Query
import SimStats.Proofs.Line.Text

/-!
# Composed paths

Where the dot is a separator that no other one holds, a dot between two paths is cut at whatever the
paths are, also where one ends or the other begins like a separator. So a question can be asked in
two steps: first for the category that the one path leads to, and from there one child after the
other along the segments of the other path (`Dump.query_append_dot`). The two ways give the same
node, or both give none.
-/

namespace SimStats

/-- The segments lead from one node to another by asking categories for their children. -/
inductive Node.Leads : Node → List String → Node → Prop where
  /-- no segment leads anywhere else -/
  | here (n : Node) : Leads n [] n
  /-- the first segment is the name of a child -/
  | child {g : Group} {name : String} {m n : Node} {rest : List String} :
    g.get? name = some m → Leads m rest n → Leads (.group g) (name :: rest) n

/-- The walk finds the node that the segments lead to. -/
theorem Node.descend_eq_some_iff {n m : Node} {segments : List String} :
    n.descend segments = some m ↔ n.Leads segments m := by
  constructor
  · intro h
    induction segments generalizing n with
    | nil =>
      obtain rfl := Option.some.inj h
      exact .here n
    | cons name rest ih =>
      rw [descend_cons, Option.bind_eq_some_iff] at h
      obtain ⟨child, hchild, hrest⟩ := h
      cases n with
      | stat s => cases hchild
      | group g => exact .child hchild (ih hrest)
  · intro h
    induction h with
    | here n => rfl
    | child hchild _ ih =>
      rw [descend_cons, Option.bind_eq_some_iff]
      exact ⟨_, hchild, ih⟩

/-- Only categories lead on. -/
theorem Node.Leads.exists_group {n m : Node} {segments : List String} (h : n.Leads segments m)
    (hne : segments ≠ []) : ∃ g, n = .group g := by
  cases h with
  | here => exact absurd rfl hne
  | child => exact ⟨_, rfl⟩

namespace Dump

/-- A path that goes on after a dot leads to the nodes to which its rest leads from a category. -/
theorem query_append_dot_eq_ok_iff {d : Dump} (hdot : Path.Dotted d.separators) {p : String}
    (hp : p ≠ "") (q : String) {n : Node} :
    d.query (p ++ "." ++ q) = .ok n ↔
      ∃ g, d.query p = .ok (.group g) ∧
        (Node.group g).Leads (Path.split d.separators q) n := by
  have hpq : p ++ "." ++ q ≠ "" := by
    intro h
    have hlist := congrArg String.toList h
    simp at hlist
  rw [query_eq_ok_iff hpq, Path.split_append_dot hdot, Node.descend_append,
    Option.bind_eq_some_iff]
  constructor
  · rintro ⟨m, hm, hn⟩
    have hleads := Node.descend_eq_some_iff.mp hn
    obtain ⟨g, rfl⟩ := hleads.exists_group (Path.split_ne_nil _ _)
    exact ⟨g, (query_eq_ok_iff hp).mpr hm, hleads⟩
  · rintro ⟨g, hg, hleads⟩
    exact ⟨.group g, (query_eq_ok_iff hp).mp hg, Node.descend_eq_some_iff.mpr hleads⟩

/-- **Paths compose.** Where the dot is a separator that no other one holds, two paths with a dot
between them have the segments of the one and then those of the other. A dump finds a node at such
a path exactly if it finds a category at the first one, not the empty path, and the segments of the
second one lead from there to the node. Otherwise the whole path is refused. -/
theorem query_append_dot {format : Format} (hdot : Path.Dotted format.separators)
    {origin : String} {index : Nat} {raw : List RawLine} {d : Dump}
    (h : read origin format index raw = .ok d) {p : String} (hp : p ≠ "") (q : String) :
    Path.split format.separators (p ++ "." ++ q) =
        Path.split format.separators p ++ Path.split format.separators q ∧
      (∀ n, d.query (p ++ "." ++ q) = .ok n ↔
        ∃ g, d.query p = .ok (.group g) ∧
          (Node.group g).Leads (Path.split format.separators q) n) ∧
      (d.query (p ++ "." ++ q) = .error (.pathNotFound (p ++ "." ++ q)) ↔
        ¬ ∃ g n, d.query p = .ok (.group g) ∧
          (Node.group g).Leads (Path.split format.separators q) n) := by
  have hsep := (of_read_eq_ok h).1
  rw [← hsep] at hdot ⊢
  have hiff := fun n => query_append_dot_eq_ok_iff hdot hp q (n := n)
  refine ⟨Path.split_append_dot hdot p q, hiff, ?_, ?_⟩
  · rintro herror ⟨g, n, hg⟩
    cases herror.symm.trans ((hiff n).mpr ⟨g, hg⟩)
  · intro hnone
    rcases hquery : d.query (p ++ "." ++ q) with e | n
    · exact congrArg Except.error (query_eq_error hquery)
    · obtain ⟨g, hg⟩ := (hiff n).mp hquery
      exact absurd ⟨g, n, hg⟩ hnone

/-- A category whose name ends like a separator begins, and a statistic whose name begins so. -/
theorem query_append_dot_colons :
    Path.Dotted standardSeparators ∧ "l2:" ≠ "" ∧
      ∃ d, ofBytes .standard 1
          (Format.standard.beginMarker ++ "\nl2:.:hits 9 # h\n").toUTF8 = .ok d ∧
        d.query ("l2:" ++ "." ++ ":hits") = .ok (.stat ⟨":hits", .int 9, "h"⟩) ∧
        d.query ("l2:" ++ "." ++ ":") = .error (.pathNotFound "l2:.:") := by
  let hits : Stat := ⟨":hits", .int 9, "h"⟩
  let d : Dump := ⟨⟨"all", .group "l2:" (.stat hits .nil) .nil⟩, standardSeparators⟩
  have hp : "l2:" ≠ "" := by decide
  have h : ofBytes .standard 1
      (Format.standard.beginMarker ++ "\nl2:.:hits 9 # h\n").toUTF8 = .ok d := by
    decide +kernel
  have hgroup : d.query "l2:" = .ok (.group ⟨"l2:", .stat hits .nil⟩) := by decide +kernel
  obtain ⟨-, hfound, -⟩ := query_append_dot Path.dotted_standard h hp ":hits"
  obtain ⟨-, -, hmissing⟩ := query_append_dot Path.dotted_standard h hp ":"
  refine ⟨Path.dotted_standard, hp, d, h, (hfound _).mpr ⟨_, hgroup, ?_⟩, hmissing.mpr ?_⟩
  · refine Node.descend_eq_some_iff.mp ?_
    decide +kernel
  · rintro ⟨g, n, hg, hleads⟩
    obtain rfl := Node.group.inj (Except.ok.inj (hgroup.symm.trans hg))
    have hnone : (Node.group ⟨"l2:", .stat hits .nil⟩).descend
        (Path.split Format.standard.separators ":") = none := by
      decide +kernel
    cases hnone.symm.trans (Node.descend_eq_some_iff.mpr hleads)

end Dump

end SimStats
