import Mathlib.Data.List.Basic
import Mathlib.Tactic.SplitIfs
import SimStats.Files.Listing
import SimStats.Proofs.Path.Split

/-!
# What a directory in memory holds

A walk along a path is a walk along its front and then along the rest (`Listing.walk_append`), so a
name that is joined to a directory is looked for in that directory (`Listing.entry_joinPath`). What
is listed under the names of a path is found at the path (`Listing.entry_of_listed`), and a file
that is found is listed (`Listing.mem_of_entry`).
-/

namespace SimStats

namespace Listing

variable {l : Listing} {place : Place} {names rest : List String} {path dir name : String}

/-! ## Walks -/

theorem walk_append (l : Listing) (place : Place) (names rest : List String) :
    l.walk place (names ++ rest) = (l.walk place names).bind fun place => l.walk place rest := by
  induction names generalizing place with
  | nil => rfl
  | cons name names ih =>
    rw [List.cons_append, walk, walk]
    cases l.step place name with
    | error fault => rfl
    | ok next => exact ih next

/-- An empty name asks for a directory, as does any name after it. -/
theorem walk_empty_cons (h : rest ≠ []) : l.walk place ("" :: rest) = l.walk place rest := by
  obtain ⟨name, rest, rfl⟩ := List.exists_cons_of_ne_nil h
  rw [walk]
  cases hdir : l.isDirectory place with
  | true =>
    have hstep : l.step place "" = .ok place := by
      rw [step.eq_def, hdir]
      rfl
    rw [hstep]
    rfl
  | false =>
    have hstep (name : String) : l.step place name = .error .notDirectory := by
      rw [step.eq_def, hdir]
      rfl
    rw [walk, hstep, hstep]
    rfl

/-- Empty names before the last one do not matter. -/
theorem walk_filter (h : names.getLast? ≠ some "") :
    l.walk place (names.filter (· != "")) = l.walk place names := by
  induction names generalizing place with
  | nil => rfl
  | cons name names ih =>
    by_cases hnames : names = []
    · subst hnames
      rw [List.filter_cons_of_pos (by simpa using h), List.filter_nil]
    · rw [List.getLast?_cons_of_ne_nil hnames] at h
      by_cases hname : name = ""
      · rw [hname, List.filter_cons_of_neg (by simp), ih h, walk_empty_cons hnames]
      · rw [List.filter_cons_of_pos (by simpa using hname), walk, walk]
        exact congrArg _ (funext fun place => ih h)

/-! ## Paths -/

/-- Where the walk along a path starts. -/
def start (path : String) : Place :=
  if path.toList.head? = some '/' then .outside else .inside []

/-- Where a path leads. -/
def reach (l : Listing) (path : String) : Except Fault Place :=
  l.walk (start path) (Path.split ["/"] path)

theorem split_append_slash (p q : String) :
    Path.split ["/"] (p ++ "/" ++ q) = Path.split ["/"] p ++ Path.split ["/"] q := by
  have hsep : ['/'] ∈ ["/"].map String.toList := by decide
  have halone : ∀ sep ∈ ["/"].map String.toList, '/' ∈ sep → sep = ['/'] := by decide
  have hlist : (p ++ "/" ++ q).toList = p.toList ++ '/' :: q.toList := by simp
  rw [Path.split, hlist, Path.splitChars_append_cons hsep halone, List.map_append, Path.split,
    Path.split]

theorem start_append (h : dir ≠ "") (rest : String) : start (dir ++ rest) = start dir := by
  rw [start, start, String.toList_append,
    List.head?_append_of_ne_nil _ (mt String.toList_eq_nil_iff.mp h)]

/-- A directory that needs no slash behind it is empty or has one. -/
theorem eq_empty_or_slash (h : dir.toList.getLast?.all (· == '/') = true) :
    dir = "" ∨ ∃ front, dir = front ++ "/" := by
  rcases List.eq_nil_or_concat dir.toList with hnil | ⟨front, c, hconcat⟩
  · exact Or.inl (String.toList_eq_nil_iff.mp hnil)
  · rw [List.concat_eq_append] at hconcat
    rw [hconcat, List.getLast?_concat, Option.all_some, beq_iff_eq] at h
    refine Or.inr ⟨String.ofList front, String.toList_inj.mp ?_⟩
    rw [hconcat, h, String.toList_append, String.toList_ofList]
    rfl

/-- A name is looked for from where the directory before it is. -/
theorem reach_joinPath (h : name.toList.head? ≠ some '/') :
    l.reach (joinPath dir name) =
      (l.reach dir).bind fun place => l.walk place (Path.split ["/"] name) := by
  have hname := Path.split_ne_nil ["/"] name
  rw [joinPath, if_neg h]
  split
  · next hlast =>
    -- the directory ends with an empty name, whose place the name takes
    obtain ⟨front, hdir, hjoined, hstart⟩ : ∃ front, Path.split ["/"] dir = front ++ [""] ∧
        Path.split ["/"] (dir ++ name) = front ++ Path.split ["/"] name ∧
          start (dir ++ name) = start dir := by
      rcases eq_empty_or_slash hlast with rfl | ⟨front, rfl⟩
      · rw [String.empty_append]
        exact ⟨[], Path.split_empty _, rfl, if_neg h⟩
      · have hsplit := split_append_slash front ""
        rw [String.append_empty, Path.split_empty] at hsplit
        refine ⟨_, hsplit, split_append_slash front name, start_append ?_ name⟩
        simp
    rw [reach, reach, hstart, hdir, hjoined, ← walk_append, List.append_assoc, walk_append,
      List.singleton_append, walk_append]
    exact congrArg _ (funext fun place => (walk_empty_cons hname).symm)
  · next hlast =>
    have hne : dir ≠ "" := by
      rintro rfl
      exact hlast rfl
    rw [reach, reach, String.append_assoc, start_append hne, ← String.append_assoc,
      split_append_slash, walk_append]

theorem joinPath_ne_empty (dir : String) (h : name ≠ "") : joinPath dir name ≠ "" := by
  rw [joinPath]
  split_ifs <;> simp [h]

/-! ## What is at the end of names -/

theorem mem_of_lookup {listed : Listed} (h : l.lookup names = some listed) :
    (names, listed) ∈ l := by
  obtain ⟨front, back, rfl, -⟩ := List.lookup_eq_some_iff.mp h
  exact List.mem_append_cons_self

/-- Only directories are there without being listed. -/
theorem mem_of_at? {content : ByteArray} (h : l.at? names = some (.file content)) :
    (names, .file content) ∈ l := by
  rw [at?] at h
  split at h
  · next hlookup =>
    rw [h] at hlookup
    exact mem_of_lookup hlookup
  · split at h
    · cases h
    · cases h

/-- There is something on the way to what is listed. -/
theorem isSome_at?_of_prefix {e : List String × Listed} (hmem : e ∈ l) (h : names <+: e.1) :
    (l.at? names).isSome := by
  rw [at?]
  split
  · rfl
  · rw [if_pos]
    · rfl
    · rw [Bool.or_eq_true]
      exact Or.inr (List.any_eq_true.mpr ⟨e, hmem, List.isPrefixOf_iff_prefix.mpr h⟩)

/-! ## What is at a path -/

/-- A name that leads one step down. -/
structure Ordinary (name : String) : Prop where
  /-- there is a name -/
  ne_empty : name ≠ ""
  /-- it does not stay -/
  ne_dot : name ≠ "."
  /-- it does not go up -/
  ne_dots : name ≠ ".."
  /-- it is one name -/
  slash : '/' ∉ name.toList
  /-- it is not too long -/
  size : name.utf8ByteSize ≤ nameLimit

theorem Ordinary.split_eq (h : Ordinary name) : Path.split ["/"] name = [name] := by
  refine Path.split_of_avoids (Path.avoids_iff.mpr fun sep hsep _ hinfix => h.slash ?_)
  obtain rfl := List.mem_singleton.mp hsep
  exact hinfix.subset (List.mem_singleton.mpr rfl)

theorem Ordinary.step_eq (h : Ordinary name) (hdir : l.at? names = some .directory) :
    l.step (.inside names) name =
      if (l.at? (names ++ [name])).isSome then .ok (.inside (names ++ [name]))
      else .error .missing := by
  have hdirectory : l.isDirectory (.inside names) = true := by
    rw [isDirectory, hdir]
  rw [step.eq_def, hdirectory, if_neg (by simp), if_neg (by simp [h.ne_empty, h.ne_dot]),
    if_neg h.ne_dots, if_neg (Nat.not_lt.mpr h.size)]

/-- A path that a system takes. -/
structure Allowed (path : String) : Prop where
  /-- it holds no character that no path can hold -/
  nul : '\x00' ∉ path.toList
  /-- it is not too long -/
  size : path.utf8ByteSize ≤ pathLimit

/-- What a path leads to if this is at its end. -/
def found : Option Listed → Entry
  | some (.file content) => .file content
  | some .directory => .directory
  | none => .closed .missing

theorem found_eq_file_iff {o : Option Listed} {content : ByteArray} :
    found o = .file content ↔ o = some (.file content) := by
  rcases o with _ | (_ | _) <;> simp [found]

/-- What the walk along a path leads to. -/
def landing (l : Listing) : Except Fault Place → Entry
  | .error fault => .closed fault
  | .ok .outside => .directory
  | .ok (.inside names) => found (l.at? names)

theorem entry_eq (l : Listing) (path : String) :
    l.entry path =
      if '\x00' ∈ path.toList then .closed .nulInPath
      else if path = "" then .closed .missing
      else if pathLimit < path.utf8ByteSize then .closed .nameTooLong
      else l.landing (l.reach path) := rfl

theorem entry_of_allowed (h : Allowed path) (hne : path ≠ "") :
    l.entry path = l.landing (l.reach path) := by
  rw [entry_eq, if_neg h.nul, if_neg hne, if_neg (Nat.not_lt.mpr h.size)]

/-- A name that is joined to a directory leads to what is listed there under it. -/
theorem entry_joinPath (hreach : l.reach dir = .ok (.inside names))
    (hdir : l.at? names = some .directory) (hname : Ordinary name)
    (hpath : Allowed (joinPath dir name)) :
    l.entry (joinPath dir name) = found (l.at? (names ++ [name])) := by
  have hhead : name.toList.head? ≠ some '/' := fun h => hname.slash (List.mem_of_mem_head? h)
  have hwalk : l.reach (joinPath dir name) = l.walk (.inside names) [name] := by
    rw [reach_joinPath hhead, hreach, hname.split_eq]
    rfl
  rw [entry_of_allowed hpath (joinPath_ne_empty dir hname.ne_empty), hwalk, walk,
    hname.step_eq hdir]
  cases hat : l.at? (names ++ [name]) with
  | none => rfl
  | some listed => exact congrArg found hat

/-! ## What is listed -/

/-- A file that is found is listed. -/
theorem mem_of_entry {content : ByteArray} (h : l.entry path = .file content) :
    ∃ names, (names, .file content) ∈ l := by
  rw [entry_eq] at h
  split_ifs at h
  rcases hreach : l.reach path with fault | (names | _)
  · rw [hreach] at h
    cases h
  · rw [hreach, landing, found_eq_file_iff] at h
    exact ⟨names, mem_of_at? h⟩
  · rw [hreach] at h
    cases h

/-- What leads to something that is listed is a directory. -/
def Consistent (l : Listing) : Prop :=
  ∀ e ∈ l, ∀ names, names <+: e.1 → names ≠ e.1 → l.at? names = some .directory

/-- Names that are listed are walked along one by one. -/
theorem walk_of_mem (h : l.Consistent) {listed : Listed} (hmem : (names, listed) ∈ l)
    (hnames : ∀ name ∈ names, Ordinary name) :
    l.walk (.inside []) names = .ok (.inside names) := by
  have hrest : ∀ rest front, names = front ++ rest →
      l.walk (.inside front) rest = .ok (.inside names) := by
    intro rest
    induction rest with
    | nil =>
      intro front hsplit
      rw [hsplit, List.append_nil]
      rfl
    | cons name rest ih =>
      intro front hsplit
      have hdir : l.at? front = some .directory := by
        refine h _ hmem _ ⟨_, hsplit.symm⟩ fun heq => ?_
        have hlength := congrArg List.length (heq.trans hsplit)
        simp at hlength
      have hnext : names = (front ++ [name]) ++ rest := by
        rw [hsplit, List.append_assoc, List.singleton_append]
      have hsome : (l.at? (front ++ [name])).isSome := isSome_at?_of_prefix hmem ⟨_, hnext.symm⟩
      have hname : Ordinary name := hnames _ (hsplit ▸ List.mem_append_cons_self)
      rw [walk, hname.step_eq hdir, if_pos hsome]
      exact ih _ hnext
  exact hrest names [] rfl

/-- What is listed under the names of a path is found at the path. -/
theorem entry_of_listed (h : l.Consistent) {listed : Listed}
    (hlisted : l.lookup (namesOf path) = some listed)
    (hnames : ∀ name ∈ namesOf path, Ordinary name) (hpath : Allowed path)
    (hhead : path.toList.head? ≠ some '/') (hlast : (Path.split ["/"] path).getLast? ≠ some "") :
    l.entry path = found (some listed) := by
  have hne : path ≠ "" := by
    rintro rfl
    rw [Path.split_empty] at hlast
    exact hlast rfl
  have hat : l.at? (namesOf path) = some listed := by
    rw [at?, hlisted]
  have hreach : l.reach path = .ok (.inside (namesOf path)) := by
    rw [reach, start, if_neg hhead, ← walk_filter hlast]
    exact walk_of_mem h (mem_of_lookup hlisted) hnames
  rw [entry_of_allowed hpath hne, hreach, landing, hat]

end Listing

end SimStats
