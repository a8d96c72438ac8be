import Mathlib.Data.List.Count
import Mathlib.Data.List.Nodup
import Mathlib.Data.Option.Basic
import SimStats.Json.Value

/-!
# Records read by member

An object is read for the members that have one of the names of a record. The others are left aside
with whatever they hold, and the order of the members does not matter: a name that is used once is
found wherever it stands (`lookup_eq_some_iff`). So what a reader that asks for fields makes of an
object depends on the known members only, up to their order (`record?_bind_congr`). It gets nothing
from an object in which a known name is used twice or has a value that its field cannot have
(`record?_bind_of_faulty`).
-/

namespace SimStats.Json

variable {α : Type} {names : List String} {fields fields' : List (String × Json)} {name : String}

/-! ## Fields -/

/-- Where every name is used once, a name has the value that stands with it. -/
theorem lookup_eq_some_iff (h : (fields.map Prod.fst).Nodup) {v : Json} :
    fields.lookup name = some v ↔ (name, v) ∈ fields := by
  rw [List.lookup_eq_some_iff]
  refine ⟨?_, fun hmem => ?_⟩
  · rintro ⟨front, back, rfl, -⟩
    exact List.mem_append_cons_self
  · obtain ⟨front, back, rfl⟩ := List.append_of_mem hmem
    refine ⟨front, back, rfl, fun m hm => ?_⟩
    rw [List.map_append, List.nodup_append] at h
    have hne : m.1 ≠ name := h.2.2 _ (List.mem_map_of_mem hm) _ (List.mem_cons_self ..)
    simpa using hne.symm

/-- The order of the fields does not matter. -/
theorem lookup_perm (hperm : fields.Perm fields') (h : (fields.map Prod.fst).Nodup)
    (name : String) : fields.lookup name = fields'.lookup name := by
  have h' : (fields'.map Prod.fst).Nodup := (hperm.map Prod.fst).nodup_iff.mp h
  refine Option.ext fun v => ?_
  rw [lookup_eq_some_iff h, lookup_eq_some_iff h', hperm.mem_iff]

theorem field?_congr (h : fields.lookup name = fields'.lookup name) (read? : Json → Option α)
    (default : α) : field? fields name read? default = field? fields' name read? default := by
  rw [field?, field?, h]

/-- A field that is there is read. -/
theorem read?_of_field? {read? : Json → Option α} {default a : α} {v : Json}
    (h : field? fields name read? default = some a) (hv : fields.lookup name = some v) :
    read? v = some a := by
  rwa [field?, hv] at h

/-! ## Texts -/

/-- If every value is read from one thing only, values are read from the list of these things. -/
theorem mapM_eq_some_iff {β γ : Type} {read? : β → Option γ} {write : γ → β}
    (h : ∀ b c, read? b = some c ↔ b = write c) {l : List β} {l' : List γ} :
    l.mapM read? = some l' ↔ l = l'.map write := by
  induction l generalizing l' with
  | nil => cases l' <;> simp
  | cons b l ih =>
    rw [List.mapM_cons]
    refine ⟨fun hread => ?_, fun hwrite => ?_⟩
    · obtain ⟨c, hc, hrest⟩ := Option.bind_eq_some_iff.mp hread
      obtain ⟨cs, hcs, hl⟩ := Option.bind_eq_some_iff.mp hrest
      obtain rfl := Option.some.inj hl
      rw [List.map_cons, ← (h b c).mp hc, ← ih.mp hcs]
    · obtain ⟨c, cs, rfl, hc, hcs⟩ := List.map_eq_cons_iff.mp hwrite.symm
      rw [(h b c).mpr hc.symm, ih.mpr hcs.symm]
      rfl

theorem text?_eq_some_iff {v : Json} {s : String} :
    v.text? = some s ↔ v = .string (some s) := by
  cases v <;> simp [text?]

theorem texts?_eq_some_iff {v : Json} {l : List String} :
    v.texts? = some l ↔ v = .array (l.map fun s => .string (some s)) := by
  cases v with
  | array vs => rw [texts?, mapM_eq_some_iff fun _ _ => text?_eq_some_iff, array.injEq]
  | scalar => simp [texts?]
  | string => simp [texts?]
  | object => simp [texts?]

/-! ## Members -/

/-- The object with the given members, whose names are texts. -/
def named (ms : List (String × Json)) : Json := .object (ms.map fun m => (some m.1, m.2))

/-- The members that have one of the names. -/
def known (names : List String) (ms : List (String × Json)) : List (String × Json) :=
  ms.filter fun m => m.1 ∈ names

/-- A record is read from an object whose names are texts, if no known one is used twice. -/
theorem record?_object_eq_some_iff {ms : List (Option String × Json)} :
    (object ms).record? names = some fields ↔
      ∃ ms', ms = ms'.map (fun m => (some m.1, m.2)) ∧ fields = known names ms' ∧
        (fields.map Prod.fst).Nodup := by
  have hname : ∀ (m : Option String × Json) (m' : String × Json),
      (m.1.map fun name => (name, m.2)) = some m' ↔ m = (some m'.1, m'.2) := by
    rintro ⟨_ | name, v⟩ ⟨name', v'⟩ <;> simp
  rw [record?, Option.bind_eq_some_iff]
  simp only [mapM_eq_some_iff hname]
  refine ⟨?_, ?_⟩
  · rintro ⟨ms', rfl, h⟩
    split at h
    · next hnodup =>
      obtain rfl := Option.some.inj h
      exact ⟨ms', rfl, rfl, hnodup⟩
    · cases h
  · rintro ⟨ms', rfl, rfl, hnodup⟩
    exact ⟨ms', rfl, if_pos hnodup⟩

theorem record?_named (ms : List (String × Json)) :
    (named ms).record? names =
      if ((known names ms).map Prod.fst).Nodup then some (known names ms) else none := by
  split
  · next hnodup => exact record?_object_eq_some_iff.mpr ⟨ms, rfl, rfl, hnodup⟩
  · next hnodup =>
    refine Option.eq_none_iff_forall_ne_some.mpr fun fields h => ?_
    obtain ⟨ms', hms, rfl, hnodup'⟩ := record?_object_eq_some_iff.mp h
    have hinj : Function.Injective fun m : String × Json => (some m.1, m.2) := by
      rintro ⟨name, v⟩ ⟨name', v'⟩ heq
      simpa using heq
    obtain rfl := List.map_injective_iff.mpr hinj hms
    exact hnodup hnodup'

/-! ## Readers of fields -/

variable {read? : List (String × Json) → Option α}

/-- Known members are read in whatever order, and whatever members are between them. -/
theorem record?_bind_of_perm
    (hread : ∀ fields fields', fields.Perm fields' → (fields.map Prod.fst).Nodup →
      read? fields = read? fields')
    {ms given : List (String × Json)} (h : (known names ms).Perm given)
    (hnodup : (given.map Prod.fst).Nodup) :
    ((named ms).record? names).bind read? = read? given := by
  have hknown := (h.map Prod.fst).nodup_iff.mpr hnodup
  rw [record?_named, if_pos hknown, Option.bind_some, hread _ _ h hknown]

/-- Objects with the same known members, in whatever order, are read alike. -/
theorem record?_bind_congr
    (hread : ∀ fields fields', fields.Perm fields' → (fields.map Prod.fst).Nodup →
      read? fields = read? fields')
    {ms ms' : List (String × Json)} (h : (known names ms).Perm (known names ms')) :
    ((named ms).record? names).bind read? = ((named ms').record? names).bind read? := by
  by_cases hnodup : ((known names ms').map Prod.fst).Nodup
  · rw [record?_bind_of_perm hread h hnodup, record?_bind_of_perm hread (.refl _) hnodup]
  · have hnodup' := mt (h.map Prod.fst).nodup_iff.mp hnodup
    rw [record?_named, record?_named, if_neg hnodup, if_neg hnodup']

/-- A known name is used twice, or has a value that its field cannot have. -/
def Faulty (names : List String) (typed : String → Json → Prop)
    (ms : List (Option String × Json)) : Prop :=
  (∃ name ∈ names, 2 ≤ (ms.map Prod.fst).count (some name)) ∨
    ∃ name v, (some name, v) ∈ ms ∧ name ∈ names ∧ ¬ typed name v

theorem count_known {ms : List (String × Json)} (h : name ∈ names) :
    ((known names ms).map Prod.fst).count name =
      ((ms.map fun m => (some m.1, m.2)).map Prod.fst).count (some name) := by
  have hsome : (ms.map fun m => (some m.1, m.2)).map Prod.fst = (ms.map Prod.fst).map some := by
    rw [List.map_map, List.map_map]
    rfl
  have hknown : (known names ms).map Prod.fst = (ms.map Prod.fst).filter fun n => n ∈ names := by
    rw [known, List.filter_map]
    rfl
  rw [hsome, hknown, List.count_map_of_injective _ _ (Option.some_injective _),
    List.count_filter (by simpa using h)]

/-- Nothing is read from an object with a fault, whatever else is in it. -/
theorem record?_bind_of_faulty {typed : String → Json → Prop}
    (hread : ∀ fields a, read? fields = some a → ∀ name ∈ names, ∀ v,
      fields.lookup name = some v → typed name v)
    {ms : List (Option String × Json)} (h : Faulty names typed ms) :
    ((object ms).record? names).bind read? = none := by
  refine Option.eq_none_iff_forall_ne_some.mpr fun a ha => ?_
  obtain ⟨fields, hrecord, hfields⟩ := Option.bind_eq_some_iff.mp ha
  obtain ⟨ms, rfl, rfl, hnodup⟩ := record?_object_eq_some_iff.mp hrecord
  rcases h with ⟨name, hname, htwice⟩ | ⟨name, v, hmem, hname, htyped⟩
  · rw [← count_known hname] at htwice
    have honce := List.nodup_iff_count_le_one.mp hnodup name
    omega
  · obtain ⟨m, hm, heq⟩ := List.mem_map.mp hmem
    obtain ⟨rfl, rfl⟩ : m.1 = name ∧ m.2 = v := by simpa using heq
    have hknown : m ∈ known names ms := List.mem_filter.mpr ⟨hm, decide_eq_true hname⟩
    exact htyped (hread _ a hfields _ hname _ ((lookup_eq_some_iff hnodup).mpr hknown))

end SimStats.Json
