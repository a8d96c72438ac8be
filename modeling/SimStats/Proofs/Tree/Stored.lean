import SimStats.Keyed
import SimStats.Proofs.Tree.Insert

/-!
# Trees whose children have keys of their own

A chain of siblings keeps no keys, as each node is found by its name. Where children are entries of
a map, a key is one thing and the name of the node under it another. Statistics are added to such
maps by their keys alone and in place, so that what is refused halfway would leave its categories
behind (`Stored.insert`). It never does: what is refused leaves the maps as they are, and what is
accepted is in the maps as it is in the chain, each node under its name (`Group.insert_stored`).
-/

namespace SimStats

/-- What is stored under a key. -/
inductive Stored where
  /-- a statistic -/
  | stat (s : Stat)
  /-- a category with its name and what it stores under which key -/
  | group (name : String) (children : List (String × Stored))

namespace Stored

/-- The name of the node, whatever key it is stored under. -/
def name : Stored → String
  | .stat s => s.name
  | .group n _ => n

/-- The nodes at every depth with the keys they are stored under. -/
inductive Holds (children : List (String × Stored)) : String → Stored → Prop where
  /-- an entry of the map itself -/
  | entry {key : String} {node : Stored} : (key, node) ∈ children → Holds children key node
  /-- an entry of a category that is held -/
  | step {key k n : String} {node : Stored} {below : List (String × Stored)} :
    Holds children k (.group n below) → (key, node) ∈ below → Holds children key node

/-! ## Adding by key -/

/-- The keys of the categories up to the first that is a statistic instead. -/
def obstacle? : List (String × Stored) → List String → Option (List String)
  | _, [] => none
  | children, category :: rest =>
    match children.lookup category with
    | none => none
    | some (.stat _) => some [category]
    | some (.group _ below) => (obstacle? below rest).map (category :: ·)

/-- Whether a node is stored under the keys. -/
def occupied : List (String × Stored) → List String → String → Bool
  | children, [], key => (children.lookup key).isSome
  | children, category :: rest, key =>
    match children.lookup category with
    | some (.group _ below) => occupied below rest key
    | _ => false

/-- The key of the node that is in the way of `key` below `categories`. -/
def conflict? (children : List (String × Stored)) (categories : List String) (key : String) :
    Option String :=
  match obstacle? children categories with
  | some path => some (Path.key path)
  | none => if occupied children categories key then some (Group.placeKey categories key) else none

/-- Stores a statistic under its name in the category that the keys lead to, and creates categories
that are missing under the keys for their names. Stops at a key that leads to a statistic; then the
keys up to that one are given with what is stored by then. -/
def place (s : Stat) :
    List String → List (String × Stored) → List (String × Stored) × Option (List String)
  | [], children => (Keyed.insertEntry s.name (.stat s) children, none)
  | category :: rest, children =>
    match (children.lookup category).getD (.group category []) with
    | .stat _ => (children, some [category])
    | .group n below =>
      (Keyed.insertEntry category (.group n (place s rest below).1) children,
        (place s rest below).2.map (category :: ·))

/-- Adds a statistic below the given categories. Gives what is stored then, and why the statistic
was refused if it was. -/
def insert (children : List (String × Stored)) (categories : List String) (s : Stat) :
    List (String × Stored) × Option LineError :=
  match conflict? children categories s.name with
  | some key => (children, some (.conflictingKey key))
  | none => (place s categories children).map id
      (Option.map fun path => .conflictingKey (Path.key path))

end Stored

/-! ## Nodes under their names -/

namespace Forest

/-- The siblings as entries, each under its name. -/
def stored : Forest → List (String × Stored)
  | .nil => []
  | .stat s rest => (s.name, .stat s) :: rest.stored
  | .group n children rest => (n, .group n children.stored) :: rest.stored

end Forest

/-- The node as it is stored under a key. -/
def Node.stored : Node → Stored
  | .stat s => .stat s
  | .group g => .group g.name g.children.stored

namespace Forest

/-- An entry is a node under its name. -/
theorem exists_of_mem_stored {f : Forest} {key : String} {entry : Stored}
    (h : (key, entry) ∈ f.stored) : ∃ node : Node, key = node.name ∧ entry = node.stored := by
  induction f with
  | nil => cases h
  | stat s rest ih =>
    rcases List.mem_cons.mp h with heq | h
    · obtain ⟨rfl, rfl⟩ := Prod.mk.inj heq
      exact ⟨.stat s, rfl, rfl⟩
    · exact ih h
  | group n children rest _ ih =>
    rcases List.mem_cons.mp h with heq | h
    · obtain ⟨rfl, rfl⟩ := Prod.mk.inj heq
      exact ⟨.group ⟨key, children⟩, rfl, rfl⟩
    · exact ih h

theorem exists_of_holds {f : Forest} {key : String} {entry : Stored}
    (h : Stored.Holds f.stored key entry) :
    ∃ node : Node, key = node.name ∧ entry = node.stored := by
  induction h with
  | entry hmem => exact exists_of_mem_stored hmem
  | step _ hmem ih =>
    obtain ⟨node, -, hnode⟩ := ih
    cases node with
    | stat s => cases hnode
    | group g =>
      obtain ⟨-, rfl⟩ := Stored.group.inj hnode
      exact exists_of_mem_stored hmem

/-- At every depth the key of a node is its name. -/
theorem key_eq_name_of_holds {f : Forest} {key : String} {entry : Stored}
    (h : Stored.Holds f.stored key entry) : key = entry.name := by
  obtain ⟨node, rfl, rfl⟩ := exists_of_holds h
  cases node <;> rfl

/-- The entry under a key is the sibling of that name. -/
theorem lookup_stored (f : Forest) (name : String) :
    f.stored.lookup name = (f.get? name).map Node.stored := by
  induction f with
  | nil => rfl
  | stat s rest ih => grind [stored, get?, Node.stored]
  | group n children rest _ ih => grind [stored, get?, Node.stored]

theorem stored_put (f : Forest) (s : Stat) :
    (f.put s).stored = Keyed.insertEntry s.name (.stat s) f.stored := by
  induction f with
  | nil => rfl
  | stat t rest ih => grind [stored, put, Keyed.insertEntry]
  | group n children rest _ ih => grind [stored, put, Keyed.insertEntry]

/-- Where no statistic has the name, the category of that name is replaced or created. -/
theorem stored_withChildren {f : Forest} {name : String} (ho : f.Open name) (c : Forest) :
    (f.withChildren name c).stored =
      Keyed.insertEntry name (.group name c.stored) f.stored := by
  induction f with
  | nil => rfl
  | stat t rest ih =>
    have hne := ho.name_ne
    have hget := get?_stat_of_ne hne rest
    have hrest := ih fun s => hget ▸ ho s
    grind [stored, withChildren, Keyed.insertEntry]
  | group n old rest _ ih =>
    by_cases heq : name = n
    · grind [stored, withChildren, Keyed.insertEntry]
    · have hget := get?_group_of_ne heq old rest
      have hrest := ih fun s => hget ▸ ho s
      grind [stored, withChildren, Keyed.insertEntry]

/-- The category of the name, created if it is missing. -/
theorem lookup_stored_getD {f : Forest} {name : String} (ho : f.Open name) :
    (f.stored.lookup name).getD (.group name []) = .group name (f.childrenOf name).stored := by
  rw [lookup_stored, childrenOf]
  rcases hget : f.get? name with _ | ⟨s⟩ | ⟨g⟩
  · rfl
  · exact absurd hget (ho s)
  · obtain rfl : g.name = name := name_of_get? hget
    rfl

/-! ## Adding by key and by name -/

/-- What is placed in a well-formed chain is placed under the same keys. -/
theorem WellFormed.place_stored {f f' : Forest} (hf : f.WellFormed) {s : Stat}
    {categories : List String}
    (h : ∀ leaf ∈ f.leaves, Path.Apart leaf.1 (categories ++ [s.name]))
    (hplace : f.place s categories = .ok f') :
    Stored.place s categories f.stored = (f'.stored, none) := by
  induction categories generalizing f f' with
  | nil =>
    cases hplace
    rw [Stored.place, stored_put]
  | cons n categories ih =>
    have ho := hf.open_of_apart h
    have hbelow := hf.apart_childrenOf h
    obtain ⟨c, hc, -, -⟩ := (hf.childrenOf n).place_eq_ok hbelow
    rw [place, hf.alter_eq ho hc] at hplace
    cases hplace
    rw [Stored.place, lookup_stored_getD ho]
    dsimp only
    rw [ih (hf.childrenOf n) hbelow hc, stored_withChildren ho]
    rfl

theorem obstacle?_stored (f : Forest) (name : String) (categories : List String) :
    Stored.obstacle? f.stored categories = (Node.group ⟨name, f⟩).obstacle? categories := by
  induction categories generalizing f name with
  | nil => rfl
  | cons category rest ih =>
    rw [Stored.obstacle?, Node.obstacle?, lookup_stored, Node.get?_group]
    rcases f.get? category with _ | ⟨s⟩ | ⟨g⟩
    · rfl
    · rfl
    · exact congrArg (Option.map (category :: ·)) (ih g.children g.name)

theorem occupied_stored (f : Forest) (name : String) (categories : List String) (key : String) :
    Stored.occupied f.stored categories key =
      ((Node.group ⟨name, f⟩).descend (categories ++ [key])).isSome := by
  induction categories generalizing f name with
  | nil =>
    rw [Stored.occupied, lookup_stored, List.nil_append, Node.descend_cons, Node.get?_group]
    cases f.get? key <;> rfl
  | cons category rest ih =>
    rw [Stored.occupied, lookup_stored, List.cons_append, Node.descend_cons, Node.get?_group]
    rcases f.get? category with _ | ⟨s⟩ | ⟨g⟩
    · rfl
    · cases rest <;> rfl
    · exact ih g.children g.name

end Forest

namespace Group

theorem conflict?_stored (g : Group) (categories : List String) (name : String) :
    Stored.conflict? g.children.stored categories name = g.conflict? categories name := by
  rw [Stored.conflict?, conflict?, Forest.obstacle?_stored _ g.name,
    Forest.occupied_stored _ g.name]
  cases (Node.group g).obstacle? categories with
  | some path => rfl
  | none => cases (Node.group g).descend (categories ++ [name]) <;> rfl

/-- The tree after a statistic was added or refused, and why it was refused if it was. -/
def settle (g : Group) : Except LineError Group → Group × Option LineError
  | .ok g' => (g', none)
  | .error e => (g, some e)

/-- **Keys and names agree.** A statistic that is added by keys alone to a tree in which every node
is stored under its name is refused for the same reason and leaves nothing behind, or it gives the
tree in which it is added by names, every node again under its name. -/
theorem insert_stored {g : Group} (hg : g.children.WellFormed) (categories : List String)
    (s : Stat) :
    Stored.insert g.children.stored categories s =
      (g.settle (g.insert categories s)).map (fun g => g.children.stored) id := by
  rw [Stored.insert, conflict?_stored, insert]
  cases hconflict : g.conflict? categories s.name with
  | some key => rfl
  | none =>
    have hfree := (conflict?_eq_none_iff hg).mp hconflict
    obtain ⟨f, hf, -, -⟩ := hg.place_eq_ok hfree
    dsimp only
    rw [hg.place_stored hfree hf, hf]
    rfl

end Group

end SimStats
