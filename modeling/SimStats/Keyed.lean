/-!
# Entries in key order

`Keyed α` is a finite map from texts to `α`, kept as the list of its entries in ascending order of
their keys. Texts are ordered by code point. Because the order is part of the type, two maps with
the same entries are equal, and what is printed from the list comes out in key order.
-/

namespace SimStats

/-- A finite map from texts, its entries in ascending order of their keys. -/
structure Keyed (α : Type) where
  /-- the keys with their values -/
  entries : List (String × α)
  /-- keys ascend strictly -/
  ascending : entries.Pairwise fun a b => a.1 < b.1

namespace Keyed

variable {α : Type}

/-- The map without entries. -/
def empty : Keyed α := ⟨[], List.Pairwise.nil⟩

/-- Puts `v` at `k`, replacing what is there. -/
def insertEntry (k : String) (v : α) : List (String × α) → List (String × α)
  | [] => [(k, v)]
  | e :: rest =>
    if k = e.1 then (k, v) :: rest
    else if k < e.1 then (k, v) :: e :: rest
    else e :: insertEntry k v rest

theorem mem_insertEntry {k : String} {v : α} {l : List (String × α)} {e : String × α}
    (h : e ∈ insertEntry k v l) : e = (k, v) ∨ e ∈ l := by
  induction l with
  | nil => simpa [insertEntry] using h
  | cons d rest ih =>
    rw [insertEntry] at h
    split at h
    · rcases List.mem_cons.mp h with rfl | h
      · exact Or.inl rfl
      · exact Or.inr (List.mem_cons_of_mem _ h)
    · split at h
      · rcases List.mem_cons.mp h with rfl | h
        · exact Or.inl rfl
        · exact Or.inr h
      · rcases List.mem_cons.mp h with rfl | h
        · exact Or.inr (List.mem_cons_self ..)
        · exact (ih h).imp_right (List.mem_cons_of_mem _)

/-- Of two different texts that are not in order, the other order holds. -/
theorem lt_of_ne_of_not_lt {a b : String} (hne : a ≠ b) (h : ¬ a < b) : b < a := by
  refine Decidable.byContradiction fun h' => hne ?_
  exact String.le_antisymm (String.not_lt.mp h') (String.not_lt.mp h)

theorem insertEntry_ascending (k : String) (v : α) {l : List (String × α)}
    (h : l.Pairwise fun a b => a.1 < b.1) :
    (insertEntry k v l).Pairwise fun a b => a.1 < b.1 := by
  induction l with
  | nil => exact List.pairwise_singleton _ _
  | cons e rest ih =>
    obtain ⟨hhead, htail⟩ := List.pairwise_cons.mp h
    rw [insertEntry]
    split
    · next heq =>
      refine List.pairwise_cons.mpr ⟨fun a ha => ?_, htail⟩
      rw [heq]
      exact hhead a ha
    · next hne =>
      split
      · next hlt =>
        refine List.pairwise_cons.mpr ⟨fun a ha => ?_, h⟩
        rcases List.mem_cons.mp ha with rfl | ha
        · exact hlt
        · exact String.lt_trans hlt (hhead a ha)
      · next hnlt =>
        refine List.pairwise_cons.mpr ⟨fun a ha => ?_, ih htail⟩
        rcases mem_insertEntry ha with rfl | ha
        · exact lt_of_ne_of_not_lt hne hnlt
        · exact hhead a ha

/-- The map with `v` at `k`. -/
def insert (m : Keyed α) (k : String) (v : α) : Keyed α :=
  ⟨insertEntry k v m.entries, insertEntry_ascending k v m.ascending⟩

/-- The value at `k`. -/
def get? (m : Keyed α) (k : String) : Option α := m.entries.lookup k

/-- The keys in ascending order. -/
def keys (m : Keyed α) : List String := m.entries.map Prod.fst

/-- The number of entries. -/
def size (m : Keyed α) : Nat := m.entries.length

/-- The map of a list of pairs; a later pair replaces an earlier one with its key. -/
def ofList (l : List (String × α)) : Keyed α := l.foldl (fun m e => m.insert e.1 e.2) empty

@[simp] theorem entries_empty : (empty : Keyed α).entries = [] := rfl

theorem ext {m n : Keyed α} (h : m.entries = n.entries) : m = n := by
  cases m
  cases n
  cases h
  rfl

instance [DecidableEq α] : DecidableEq (Keyed α) := fun m n =>
  if h : m.entries = n.entries then isTrue (ext h)
  else isFalse fun e => h (congrArg entries e)

end Keyed

end SimStats
