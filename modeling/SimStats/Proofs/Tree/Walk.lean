import SimStats.Proofs.Tree.Runs

/-!
# The walk to the place of a statistic

A statistic is added in two walks: the first looks for what is in the way, the second goes along the
same categories, creates those that are missing, and stores the statistic at the end. The second
one changes the tree as it goes, so it must neither stop halfway, where it would leave new
categories behind, nor come to a place that is taken, where it would replace what is there.

`Stored.walk` is the second walk with a record of how it ends. On any maps whatsoever it comes to a
free place exactly if the first walk found nothing in the way (`Stored.arrival_walk_iff`). What the
first walk finds is, after any run of requests, a statistic whose path begins with the new path or
is the beginning of it (`Group.insert_exact`).
-/

namespace SimStats

namespace Stored

/-- How the walk to the place of a statistic ends. -/
inductive Arrival where
  /-- a statistic is stored under the keys, where a category should be -/
  | blocked (keys : List String)
  /-- the statistic was stored, in the place of what was there before -/
  | stored (old : Option Stored)

namespace Arrival

/-- The end of a walk that begins in a category and goes on from there. -/
def below (category : String) : Arrival → Arrival
  | .blocked keys => .blocked (category :: keys)
  | .stored old => .stored old

/-- The keys of the statistic at which the walk stopped, if it did. -/
def blocked? : Arrival → Option (List String)
  | .blocked keys => some keys
  | .stored _ => none

theorem blocked?_below (category : String) (a : Arrival) :
    (a.below category).blocked? = a.blocked?.map (category :: ·) := by
  cases a <;> rfl

theorem below_eq_stored_none_iff {category : String} {a : Arrival} :
    a.below category = .stored none ↔ a = .stored none := by
  cases a <;> simp [below]

end Arrival

/-- Walks along the keys and stores the statistic under its name. Gives what is stored then and how
the walk ended. -/
def walk (s : Stat) : List String → List (String × Stored) → List (String × Stored) × Arrival
  | [], children =>
    (Keyed.insertEntry s.name (.stat s) children, .stored (children.lookup s.name))
  | category :: rest, children =>
    match (children.lookup category).getD (.group category []) with
    | .stat _ => (children, .blocked [category])
    | .group n below =>
      (Keyed.insertEntry category (.group n (walk s rest below).1) children,
        (walk s rest below).2.below category)

theorem place_eq_walk (s : Stat) (categories : List String) (children : List (String × Stored)) :
    place s categories children = (walk s categories children).map id Arrival.blocked? := by
  induction categories generalizing children with
  | nil => rfl
  | cons category rest ih =>
    rw [place, walk]
    cases (children.lookup category).getD (.group category []) with
    | stat t => rfl
    | group n below => simp [ih below, Arrival.blocked?_below]

/-! ## The two walks agree -/

theorem conflict?_eq_none_iff {children : List (String × Stored)} {categories : List String}
    {key : String} :
    conflict? children categories key = none ↔
      obstacle? children categories = none ∧ occupied children categories key = false := by
  rw [conflict?]
  cases obstacle? children categories <;> simp

/-- Where nothing is stored, nothing is in the way. -/
theorem conflict?_nil (categories : List String) (key : String) :
    conflict? [] categories key = none := by
  rw [conflict?_eq_none_iff]
  cases categories <;> exact ⟨rfl, rfl⟩

/-- What is in the way below a category is in the way of those who walk into it. -/
theorem conflict?_cons_of_group {children below : List (String × Stored)} {category n : String}
    (h : children.lookup category = some (.group n below)) (rest : List String) (key : String) :
    conflict? children (category :: rest) key = none ↔ conflict? below rest key = none := by
  simp [conflict?_eq_none_iff, obstacle?, occupied, h]

/-- The walk comes to a free place exactly if nothing was found in its way, whatever is stored. -/
theorem arrival_walk_iff {s : Stat} {categories : List String}
    {children : List (String × Stored)} :
    (walk s categories children).2 = .stored none ↔
      conflict? children categories s.name = none := by
  induction categories generalizing children with
  | nil => simp [walk, conflict?_eq_none_iff, obstacle?, occupied]
  | cons category rest ih =>
    rw [walk]
    rcases h : children.lookup category with _ | ⟨t⟩ | ⟨n, below⟩
    · -- the category is created, and so is every one after it
      simp only [Option.getD_none, Arrival.below_eq_stored_none_iff, ih, conflict?_nil]
      simp [conflict?_eq_none_iff, obstacle?, occupied, h]
    · simp [conflict?_eq_none_iff, obstacle?, h]
    · simp only [Option.getD_some, Arrival.below_eq_stored_none_iff, ih]
      exact (conflict?_cons_of_group h rest s.name).symm

/-- If nothing is in the way, adding a statistic is walking to its place, which is free. -/
theorem walk_eq_of_conflict? {s : Stat} {categories : List String}
    {children : List (String × Stored)} (h : conflict? children categories s.name = none) :
    walk s categories children = ((insert children categories s).1, .stored none) := by
  refine Prod.ext ?_ (arrival_walk_iff.mpr h)
  rw [insert, h, place_eq_walk]
  rfl

end Stored

namespace Group

/-! ## What is in the way of a path -/

theorem not_apart_iff {g : Group} {path : List String} :
    (¬ ∀ leaf ∈ g.leaves, Path.Apart leaf.1 path) ↔
      ∃ leaf ∈ g.leaves, path <+: leaf.1 ∨ leaf.1 <+: path := by
  simp only [Path.Apart, not_forall, exists_prop]
  refine exists_congr fun leaf => and_congr_right fun _ => ?_
  tauto

/-- **Adding a statistic is exact and leaves no trace if it fails.** Take the tree after any run of
requests, refused ones among them, and the maps that the same requests changed in place. A new
statistic is refused exactly if its path begins with that of a statistic in the tree, or that one's
path with it; then the maps stay as they are. Otherwise the tree lists what it listed before and the
new statistic at its path, one more in all, and so do the maps. The walk that stores the statistic
is only begun if nothing is in its way; it then meets no statistic where a category should be, and
replaces nothing at its end. -/
theorem insert_exact (name : String) (requests : List AddRequest) (categories : List String)
    (s : Stat) :
    let tree := (AddRequest.run apply (.empty name) requests).1
    let maps := (AddRequest.run Stored.apply [] requests).1
    let path := categories ++ [s.name]
    maps = tree.children.stored ∧
      ((∃ e, tree.insert categories s = .error e) ↔
        ∃ leaf ∈ tree.leaves, path <+: leaf.1 ∨ leaf.1 <+: path) ∧
      (∀ e, tree.insert categories s = .error e →
        Stored.insert maps categories s = (maps, some e)) ∧
      (∀ tree', tree.insert categories s = .ok tree' →
        tree'.leaves.Perm ((path, s) :: tree.leaves) ∧ tree'.count = tree.count + 1 ∧
          tree'.name = tree.name ∧
          Stored.insert maps categories s = (tree'.children.stored, none)) ∧
      (Stored.conflict? maps categories s.name = none →
        Stored.walk s categories maps =
          ((Stored.insert maps categories s).1, .stored none)) := by
  intro tree maps path
  obtain ⟨hwf, -, -⟩ := wellFormed_run (wellFormed_empty name) requests
  have hmaps : maps = tree.children.stored :=
    congrArg Prod.fst (run_stored (wellFormed_empty name) requests)
  have hinsert := insert_stored hwf categories s
  rw [← hmaps] at hinsert
  refine ⟨hmaps, ?_, ?_, ?_, Stored.walk_eq_of_conflict?⟩
  · rw [← not_apart_iff]
    refine ⟨?_, ?_⟩
    · rintro ⟨e, he⟩ hapart
      obtain ⟨tree', hok, -⟩ := insert_eq_ok hwf hapart
      rw [hok] at he
      cases he
    · intro hapart
      obtain ⟨key, hkey⟩ := insert_eq_error hwf hapart
      exact ⟨_, hkey⟩
  · intro e he
    rw [hinsert, he, hmaps]
    rfl
  · intro tree' htree'
    obtain ⟨-, hname, -, hperm⟩ := of_insert_eq_ok hwf htree'
    refine ⟨hperm, count_of_leaves_perm hperm, hname, ?_⟩
    rw [hinsert, htree']
    rfl

/-- After one line was refused, a statistic below the category that holds one is added, and one with
the name of that category is refused. -/
theorem insert_exact_beside_hits :
    let requests : List AddRequest := [.line ["."] "l2.hits 9 # h", .line ["."] "l2.hits.x 1 # x"]
    let tree := (AddRequest.run apply (.empty "all") requests).1
    let maps := (AddRequest.run Stored.apply [] requests).1
    let misses : Stat := ⟨"misses", .int 1, "m"⟩
    (∃ tree', tree.insert ["l2"] misses = .ok tree' ∧
      tree'.leaves.Perm ((["l2", "misses"], misses) :: tree.leaves) ∧ tree'.count = 2) ∧
      Stored.conflict? maps ["l2"] "misses" = none ∧
      (Stored.walk misses ["l2"] maps).2 = .stored none ∧
      tree.insert [] ⟨"l2", .int 1, "l"⟩ = .error (.conflictingKey "l2") ∧
      (∃ leaf ∈ tree.leaves, ["l2"] <+: leaf.1 ∨ leaf.1 <+: ["l2"]) ∧
      Stored.insert maps [] ⟨"l2", .int 1, "l"⟩ = (maps, some (.conflictingKey "l2")) := by
  intro requests tree maps misses
  have htree : tree = ⟨"all", .group "l2" (.stat ⟨"hits", .int 9, "h"⟩ .nil) .nil⟩ := by
    decide +kernel
  obtain ⟨hmaps, -, -, hadded, hwalk⟩ := insert_exact "all" requests ["l2"] misses
  obtain ⟨-, hrefused, hkept, -, -⟩ := insert_exact "all" requests [] ⟨"l2", .int 1, "l"⟩
  have hfree : Stored.conflict? maps ["l2"] "misses" = none := by
    change maps = tree.children.stored at hmaps
    rw [hmaps, htree]
    rfl
  have hfails : tree.insert [] ⟨"l2", .int 1, "l"⟩ = .error (.conflictingKey "l2") := by
    decide +kernel
  have hok : tree.insert ["l2"] misses = .ok ⟨"all", .group "l2"
      (.stat ⟨"hits", .int 9, "h"⟩ (.stat ⟨"misses", .int 1, "m"⟩ .nil)) .nil⟩ := by
    decide +kernel
  obtain ⟨hleaves, hcount, -, -⟩ := hadded _ hok
  refine ⟨⟨_, hok, hleaves, ?_⟩, hfree, congrArg Prod.snd (hwalk hfree), hfails,
    hrefused.mp ⟨_, hfails⟩, hkept _ hfails⟩
  exact hcount.trans (congrArg (fun g : Group => g.count + 1) htree)

end Group

end SimStats
