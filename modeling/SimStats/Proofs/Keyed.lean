import Mathlib.Data.List.Perm.Subperm
import Mathlib.Data.List.Sort
import SimStats.Keyed

/-!
# Entries of keyed maps

After `insert` the map holds the new entry and the old entries with other keys
(`mem_entries_insert`). A map that is made of a list in which no two different pairs have one key
holds the pairs of the list and nothing else (`mem_entries_ofList_of_inj`), and maps that hold the
same entries are equal (`ext_of_mem`). Where two pairs have one key, one of them is lost
(`size_ofList_eq_iff`), and it is the last one that stays (`get?_ofList_eq_some_iff`).
-/

namespace SimStats.Keyed

variable {α : Type}

theorem mem_insertEntry_iff {k : String} {v : α} {l : List (String × α)}
    (h : l.Pairwise fun a b => a.1 < b.1) {e : String × α} :
    e ∈ insertEntry k v l ↔ e = (k, v) ∨ (e ∈ l ∧ e.1 ≠ k) := by
  induction l with
  | nil => simp [insertEntry]
  | cons d rest ih =>
    obtain ⟨hhead, htail⟩ := List.pairwise_cons.mp h
    have hrest : d.1 = k ∨ k < d.1 → ∀ a ∈ rest, a.1 ≠ k := by
      rintro hle a ha rfl
      rcases hle with heq | hlt
      · exact String.lt_irrefl _ (heq ▸ hhead a ha)
      · exact String.lt_irrefl _ (String.lt_trans hlt (hhead a ha))
    rw [insertEntry]
    split
    · next heq =>
      have := hrest (Or.inl heq.symm)
      grind
    · next hne =>
      split
      · next hlt =>
        have := hrest (Or.inr hlt)
        grind
      · rw [List.mem_cons, List.mem_cons, ih htail]
        grind

theorem mem_entries_insert {m : Keyed α} {k : String} {v : α} {e : String × α} :
    e ∈ (m.insert k v).entries ↔ e = (k, v) ∨ (e ∈ m.entries ∧ e.1 ≠ k) :=
  mem_insertEntry_iff m.ascending

/-- Pairs are all entered, and leave the entries with other keys, if of those with one key none
differs from the others. -/
theorem mem_entries_foldl {l : List (String × α)} (hl : ∀ a ∈ l, ∀ b ∈ l, a.1 = b.1 → a = b)
    {m : Keyed α} {e : String × α} :
    e ∈ (l.foldl (fun m e => m.insert e.1 e.2) m).entries ↔
      e ∈ l ∨ (e ∈ m.entries ∧ e.1 ∉ l.map Prod.fst) := by
  induction l generalizing m with
  | nil => simp
  | cons d l ih =>
    have hrest : ∀ a ∈ l, ∀ b ∈ l, a.1 = b.1 → a = b := fun a ha b hb =>
      hl a (List.mem_cons_of_mem _ ha) b (List.mem_cons_of_mem _ hb)
    rw [List.foldl_cons, ih hrest, mem_entries_insert, List.map_cons, List.mem_cons, List.mem_cons,
      not_or]
    constructor
    · rintro (h | ⟨rfl | ⟨h, hne⟩, hnew⟩)
      · exact Or.inl (Or.inr h)
      · exact Or.inl (Or.inl rfl)
      · exact Or.inr ⟨h, hne, hnew⟩
    · rintro ((rfl | h) | ⟨h, hne, hnew⟩)
      -- if a later pair has the key of the first one, it is the first one again
      · by_cases hlater : e.1 ∈ l.map Prod.fst
        · obtain ⟨b, hb, hkey⟩ := List.mem_map.mp hlater
          obtain rfl := hl b (List.mem_cons_of_mem _ hb) e (List.mem_cons_self ..) hkey
          exact Or.inl hb
        · exact Or.inr ⟨Or.inl rfl, hlater⟩
      · exact Or.inl h
      · exact Or.inr ⟨Or.inr ⟨h, hne⟩, hnew⟩

theorem mem_entries_ofList_of_inj {l : List (String × α)}
    (hl : ∀ a ∈ l, ∀ b ∈ l, a.1 = b.1 → a = b) {e : String × α} :
    e ∈ (ofList l).entries ↔ e ∈ l := by
  rw [ofList, mem_entries_foldl hl, entries_empty]
  simp

theorem mem_entries_ofList {l : List (String × α)} (hl : (l.map Prod.fst).Nodup)
    {e : String × α} : e ∈ (ofList l).entries ↔ e ∈ l :=
  mem_entries_ofList_of_inj fun _ ha _ hb => List.inj_on_of_nodup_map hl ha hb

/-- Maps with the same entries are equal. -/
theorem ext_of_mem {m n : Keyed α} (h : ∀ e, e ∈ m.entries ↔ e ∈ n.entries) : m = n := by
  have : Std.Irrefl fun a b : String × α => a.1 < b.1 := ⟨fun a => String.lt_irrefl a.1⟩
  have : Std.Antisymm fun a b : String × α => a.1 < b.1 :=
    ⟨fun a b hab hba => absurd (String.lt_trans hab hba) (String.lt_irrefl a.1)⟩
  exact ext (m.ascending.eq_of_mem_iff n.ascending h)

/-! ## The last pair with a key -/

theorem lookup_insertEntry (k : String) (v : α) (l : List (String × α)) (k' : String) :
    (insertEntry k v l).lookup k' = if k' = k then some v else l.lookup k' := by
  induction l with
  | nil => grind [insertEntry]
  | cons e rest ih => grind [insertEntry]

theorem get?_insert (m : Keyed α) (k : String) (v : α) (k' : String) :
    (m.insert k v).get? k' = if k' = k then some v else m.get? k' :=
  lookup_insertEntry k v m.entries k'

/-- After pairs are entered a key has the value of the last pair with it, or the one it had. -/
theorem get?_foldl (l : List (String × α)) (m : Keyed α) (k : String) :
    (l.foldl (fun m e => m.insert e.1 e.2) m).get? k = (l.reverse.lookup k).or (m.get? k) := by
  induction l generalizing m with
  | nil => rfl
  | cons e l ih =>
    have hlast : ([e].lookup k).or (m.get? k) = (m.insert e.1 e.2).get? k := by
      rw [get?_insert]
      grind
    rw [List.foldl_cons, ih, List.reverse_cons, List.lookup_append, Option.or_assoc, hlast]

theorem get?_ofList_eq_some_iff {l : List (String × α)} {k : String} {v : α} :
    (ofList l).get? k = some v ↔
      ∃ front back, l = front ++ (k, v) :: back ∧ ∀ e ∈ back, e.1 ≠ k := by
  have hempty : (empty : Keyed α).get? k = none := rfl
  rw [ofList, get?_foldl, hempty, Option.or_none, List.lookup_eq_some_iff]
  -- the first pair with the key from behind is the last one
  constructor
  · rintro ⟨back, front, hl, hback⟩
    refine ⟨front.reverse, back.reverse, ?_, ?_⟩
    · rw [← List.reverse_reverse l, hl]
      simp
    · intro e he
      exact Ne.symm (bne_iff_ne.mp (hback e (List.mem_reverse.mp he)))
  · rintro ⟨front, back, rfl, hback⟩
    refine ⟨back.reverse, front.reverse, by simp, ?_⟩
    intro e he
    exact bne_iff_ne.mpr (Ne.symm (hback e (List.mem_reverse.mp he)))

/-! ## Keys -/

theorem nodup_keys (m : Keyed α) : m.keys.Nodup := by
  refine List.pairwise_map.mpr (m.ascending.imp ?_)
  intro a b hlt heq
  exact String.lt_irrefl _ (heq ▸ hlt)

/-- Nothing gets into a map that was not put there. -/
theorem mem_of_mem_foldl {l : List (String × α)} {m : Keyed α} {e : String × α}
    (h : e ∈ (l.foldl (fun m e => m.insert e.1 e.2) m).entries) : e ∈ l ∨ e ∈ m.entries := by
  induction l generalizing m with
  | nil => exact Or.inr h
  | cons d l ih =>
    rcases ih h with h | h
    · exact Or.inl (List.mem_cons_of_mem _ h)
    · rcases mem_entries_insert.mp h with rfl | ⟨h, -⟩
      · exact Or.inl (List.mem_cons_self ..)
      · exact Or.inr h

theorem keys_ofList_subset (l : List (String × α)) : (ofList l).keys ⊆ l.map Prod.fst := by
  intro k hk
  obtain ⟨e, he, rfl⟩ := List.mem_map.mp hk
  rcases mem_of_mem_foldl he with he | he
  · exact List.mem_map.mpr ⟨e, he, rfl⟩
  · exact absurd he List.not_mem_nil

theorem mem_keys_ofList_iff {l : List (String × α)} {k : String} :
    k ∈ (ofList l).keys ↔ k ∈ l.map Prod.fst := by
  refine ⟨fun h => keys_ofList_subset l h, fun h => ?_⟩
  have hget : (ofList l).get? k ≠ none := by
    obtain ⟨e, he, rfl⟩ := List.mem_map.mp h
    rw [ofList, get?_foldl]
    intro hnone
    have hlookup := (Option.or_eq_none_iff.mp hnone).1
    simpa using List.lookup_eq_none_iff.mp hlookup e (List.mem_reverse.mpr he)
  obtain ⟨v, hv⟩ := Option.ne_none_iff_exists'.mp hget
  obtain ⟨front, back, hentries, -⟩ := List.lookup_eq_some_iff.mp hv
  refine List.mem_map.mpr ⟨(k, v), ?_, rfl⟩
  rw [hentries]
  exact List.mem_append_right _ (List.mem_cons_self ..)

/-- A map has at most as many entries as it was made of pairs. -/
theorem size_ofList_le (l : List (String × α)) : (ofList l).size ≤ l.length := by
  have hle := ((nodup_keys (ofList l)).subperm (keys_ofList_subset l)).length_le
  rwa [keys, List.length_map, List.length_map] at hle

/-- A map has as many entries as it was made of pairs exactly if no two pairs have one key. -/
theorem size_ofList_eq_iff {l : List (String × α)} :
    (ofList l).size = l.length ↔ (l.map Prod.fst).Nodup := by
  have hkeys : (ofList l).keys.length = (ofList l).size := List.length_map ..
  have hlist : (l.map Prod.fst).length = l.length := List.length_map ..
  have hsub := (nodup_keys (ofList l)).subperm (keys_ofList_subset l)
  constructor
  · intro hsize
    have hle : (l.map Prod.fst).length ≤ (ofList l).keys.length := by omega
    exact (hsub.perm_of_length_le hle).nodup_iff.mp (nodup_keys _)
  · intro hl
    have hnodup : l.Nodup := by
      refine List.Pairwise.of_map Prod.fst ?_ hl
      rintro a b hne rfl
      exact hne rfl
    -- every pair is in the map, and no pair is in the list twice
    have hall : l ⊆ (ofList l).entries := fun e he => (mem_entries_ofList hl).mpr he
    have hle : l.length ≤ (ofList l).size := (hnodup.subperm hall).length_le
    have hge := hsub.length_le
    omega

end SimStats.Keyed
