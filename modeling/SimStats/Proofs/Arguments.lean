import SimStats.Arguments
import SimStats.Proofs.Value

/-!
# Which commands can be written

A command can be written exactly if it names no empty path, asks for no number beyond the largest
one and compares at least one file (`Command.exists_command?_iff`). It is then written with its
options by their names, their values attached, and with all operands at the end.
-/

namespace SimStats

namespace Arguments

/-! ## Options by their names -/

/-- An option by its name, with its value attached if it has one. -/
def word (sw : Switch) (value : String) : String :=
  if sw.valued then "--" ++ sw.name ++ "=" ++ value else "--" ++ sw.name

/-- The option can be given by its name: it is found by the name, the name can be told from a value
behind it, and there is no value if the option takes none. -/
structure Nameable (switches : List Switch) (sw : Switch) (value : String) : Prop where
  find : switches.find? (fun other => other.name == sw.name) = some sw
  nonempty : sw.name.toList ≠ []
  unequal : '=' ∉ sw.name.toList
  valueless : sw.valued = false → value = ""

variable {switches : List Switch}

theorem read?_word {sw : Switch} {value : String} (h : Nameable switches sw value) :
    read? switches (word sw value).toList = some (.options [(sw.name, value)]) := by
  have hname : ∀ c ∈ sw.name.toList, (c != '=') = true := by
    intro c hc
    rw [bne_iff_ne]
    rintro rfl
    exact h.unequal hc
  have hread (s : List Char) :
      read? switches ('-' :: '-' :: (sw.name.toList ++ s)) =
        readName? switches (sw.name.toList ++ s) := by
    obtain ⟨c, name, hc⟩ := List.exists_cons_of_ne_nil h.nonempty
    rw [hc]
    rfl
  cases hvalued : sw.valued with
  | true =>
    have hword : (word sw value).toList =
        '-' :: '-' :: (sw.name.toList ++ '=' :: value.toList) := by
      simp [word, hvalued]
    rw [hword, hread, readName?, List.takeWhile_append_of_pos hname,
      List.dropWhile_append_of_pos hname, List.takeWhile_cons_of_neg (by decide),
      List.dropWhile_cons_of_neg (by decide), List.append_nil, String.ofList_toList]
    simp [h.find, hvalued]
  | false =>
    have hword : (word sw value).toList = '-' :: '-' :: (sw.name.toList ++ []) := by
      simp [word, hvalued]
    rw [hword, hread, List.append_nil, readName?, List.takeWhile_eq_self_iff.mpr hname,
      List.dropWhile_eq_nil_iff.mpr hname, String.ofList_toList]
    simp [h.find, hvalued, h.valueless hvalued]

/-! ## Many options -/

/-- The options and values that words stand for. -/
def named (given : List (Switch × String)) : List (String × String) :=
  given.map fun o => (o.1.name, o.2)

/-- Options as words. -/
def words (given : List (Switch × String)) : List String :=
  given.map fun o => word o.1 o.2

/-- An option that is not given yet is added in front. -/
theorem withOptions_one {name value : String} {p : Parts}
    (h : name ∉ p.options.map Prod.fst) :
    withOptions [(name, value)] p = some { p with options := (name, value) :: p.options } := by
  have hhas : p.has name = false := by
    rw [Parts.has, Option.isSome_eq_false_iff, Option.isNone_iff_eq_none, List.lookup_eq_none_iff]
    intro o ho
    rw [bne_iff_ne]
    rintro rfl
    exact h (List.mem_map_of_mem ho)
  have hfold : withOptions [(name, value)] p = p.withOption name value := by
    rw [withOptions, List.foldrM_cons, List.foldrM_nil, pure_bind]
  rw [hfold, Parts.withOption, hhas]
  rfl

/-- The options can be given together: each by its name, and none twice. -/
structure Distinct (switches : List Switch) (given : List (Switch × String)) : Prop where
  nameable : ∀ o ∈ given, Nameable switches o.1 o.2
  nodup : ((named given).map Prod.fst).Nodup

section Words

variable {given : List (Switch × String)}

/-- The first of the options is put in front of the others. -/
theorem Distinct.withOptions_cons {o : Switch × String} (h : Distinct switches (o :: given))
    (operands : List String) :
    withOptions [(o.1.name, o.2)] ⟨named given, operands⟩ =
      some ⟨named (o :: given), operands⟩ :=
  withOptions_one (List.nodup_cons.mp h.nodup).1

theorem Distinct.of_cons {o : Switch × String} (h : Distinct switches (o :: given)) :
    Nameable switches o.1 o.2 ∧ Distinct switches given :=
  ⟨h.nameable o (List.mem_cons_self ..), fun _ ho => h.nameable _ (List.mem_cons_of_mem _ ho),
    (List.nodup_cons.mp h.nodup).2⟩

/-- Options as words before the first operand are read back. -/
theorem leading?_words (h : Distinct switches given) {operand : String}
    (hoperand : read? switches operand.toList = some .operand) (rest : List String) :
    leading? switches (words given ++ operand :: rest) =
      some (⟨named given, []⟩, operand, rest) := by
  induction given with
  | nil =>
    rw [words, List.map_nil, List.nil_append, leading?, hoperand]
    rfl
  | cons o given ih =>
    obtain ⟨ho, hgiven⟩ := h.of_cons
    rw [words, List.map_cons, List.cons_append, leading?, read?_word ho]
    dsimp only
    rw [← words, ih hgiven, Option.bind_some, h.withOptions_cons]
    rfl

/-- Options as words are read back, and what follows the mark is operands. -/
theorem parts?_words (h : Distinct switches given) (operands : List String) :
    parts? switches (words given ++ "--" :: operands) = some ⟨named given, operands⟩ := by
  induction given with
  | nil => rfl
  | cons o given ih =>
    obtain ⟨ho, hgiven⟩ := h.of_cons
    rw [words, List.map_cons, List.cons_append, parts?, read?_word ho]
    dsimp only
    rw [← words, ih hgiven, Option.bind_some, h.withOptions_cons]

end Words

/-! ## Values -/

theorem index?_repr {n : Nat} (h : n < indexLimit) : index? n.repr = some n := by
  have hdigits : ∀ c ∈ Nat.toDigits 10 n, c.isDigit = true := by
    intro c hc
    exact Nat.isDigit_of_mem_toDigits (by decide) (by decide) hc
  have hvalue : Literal.natOfDigits (Nat.toDigits 10 n) = n := Nat.ofDigitChars_ten_toDigits
  rw [index?, Nat.toList_repr]
  dsimp only
  split
  · next s hs =>
    have hplus := hdigits '+' (hs ▸ List.mem_cons_self ..)
    cases hplus
  · rw [if_pos ⟨Nat.toDigits_ne_nil, List.all_eq_true.mpr hdigits⟩, hvalue, if_pos h]

theorem lt_of_index? {s : String} {n : Nat} (h : index? s = some n) : n < indexLimit := by
  simp only [index?, Option.ite_none_right_eq_some, Option.some.injEq] at h
  obtain ⟨-, hlt, rfl⟩ := h
  exact hlt

theorem file?_eq_some_iff {s file : String} : file? s = some file ↔ file ≠ "" ∧ s = file := by
  rw [file?]
  split
  · next hempty => simp [hempty]
  · next hempty =>
    rw [Option.some.injEq]
    refine ⟨?_, And.right⟩
    rintro rfl
    exact ⟨hempty, rfl⟩

theorem mapM_file?_eq_some_iff {l files : List String} :
    l.mapM file? = some files ↔ (∀ file ∈ files, file ≠ "") ∧ l = files := by
  induction l generalizing files with
  | nil => simp +contextual [List.mapM_nil, eq_comm]
  | cons s l ih =>
    simp only [List.mapM_cons, Option.bind_eq_bind, Option.bind_eq_some_iff, Option.pure_def,
      Option.some.injEq, file?_eq_some_iff, ih]
    refine ⟨?_, ?_⟩
    · rintro ⟨file, ⟨hfile, rfl⟩, rest, ⟨hrest, rfl⟩, rfl⟩
      exact ⟨List.forall_mem_cons.mpr ⟨hfile, hrest⟩, rfl⟩
    · rintro ⟨h, rfl⟩
      obtain ⟨hs, hl⟩ := List.forall_mem_cons.mp h
      exact ⟨s, ⟨hs, rfl⟩, l, ⟨hl, rfl⟩, rfl⟩

/-- The value of an option that has a path is the path. -/
theorem value?_path {p : Parts} {name : String} {path : Option String} (hne : path ≠ some "")
    (h : p.options.lookup name = path) :
    value? p name (fun v => (file? v).map some) none = some path := by
  rw [value?, h]
  cases path with
  | none => rfl
  | some file =>
    have hfile : file ≠ "" := fun hempty => hne (congrArg some hempty)
    dsimp only
    rw [file?_eq_some_iff.mpr ⟨hfile, rfl⟩]
    rfl

theorem ne_empty_of_value?_path {p : Parts} {name : String} {path : Option String}
    (h : value? p name (fun v => (file? v).map some) none = some path) : path ≠ some "" := by
  rw [value?] at h
  split at h
  · rw [← Option.some.inj h]
    exact nofun
  · obtain ⟨file, hfile, rfl⟩ := Option.map_eq_some_iff.mp h
    rintro hempty
    exact (file?_eq_some_iff.mp hfile).1 (Option.some.inj hempty)

theorem shared?_of_before {before after : Parts} {name : String} {path : Option String}
    (hne : path ≠ some "") (hbefore : before.options.lookup name = path)
    (hafter : after.options.lookup name = none) : shared? before after name = some path := by
  have hnone : (none : Option String) ≠ some "" := nofun
  rw [shared?, value?_path hne hbefore, value?_path hnone hafter]
  rfl

theorem ne_empty_of_shared? {before after : Parts} {name : String} {path : Option String}
    (h : shared? before after name = some path) : path ≠ some "" := by
  rw [shared?] at h
  split at h
  · next a b ha hb =>
    rw [← Option.some.inj h]
    cases b with
    | none => exact ne_empty_of_value?_path ha
    | some _ => exact ne_empty_of_value?_path hb
  · cases h

end Arguments

/-! ## Commands -/

/-- The request can be written. -/
def Request.Writable : Request → Prop
  | .query file _ index _ => file ≠ "" ∧ index < Arguments.indexLimit
  | .flatten file index _ => file ≠ "" ∧ index < Arguments.indexLimit
  | .dumps file => file ≠ ""
  | .ipc files index => files ≠ [] ∧ (∀ file ∈ files, file ≠ "") ∧ index < Arguments.indexLimit
  | .mix file index => file ≠ "" ∧ index < Arguments.indexLimit

/-- The command can be written. -/
structure Command.Writable (c : Command) : Prop where
  format : c.format ≠ some ""
  metricPaths : c.metricPaths ≠ some ""
  request : c.request.Writable

namespace Request

open Arguments

/-- The name of a request. -/
def name : Request → String
  | .query .. => "query"
  | .flatten .. => "flatten"
  | .dumps .. => "dumps"
  | .ipc .. => "ipc"
  | .mix .. => "mix"

/-- The options of a request. -/
def given : Request → List (Switch × String)
  | .query _ _ index json | .flatten _ index json =>
    (dumpSwitch, toString index) :: if json then [(jsonSwitch, "")] else []
  | .dumps _ => []
  | .ipc _ index | .mix _ index => [(dumpSwitch, toString index)]

/-- What follows the options of a request. -/
def operands : Request → List String
  | .query file path _ _ => [file, path]
  | .flatten file _ _ | .dumps file | .mix file _ => [file]
  | .ipc files _ => files

theorem read?_name (r : Request) : read? sharedSwitches r.name.toList = some .operand := by
  cases r <;> (rw [name]; decide +kernel)

theorem distinct_given (r : Request) :
    ∃ own, ownSwitches? r.name = some own ∧ Distinct (sharedSwitches ++ own) r.given := by
  have hdump (own : List Switch) (value : String) :
      Nameable (sharedSwitches ++ dumpSwitch :: own) dumpSwitch value :=
    ⟨rfl, by decide, by decide, nofun⟩
  have hjson : Nameable (sharedSwitches ++ [dumpSwitch, jsonSwitch]) jsonSwitch "" :=
    ⟨rfl, by decide, by decide, fun _ => rfl⟩
  cases r with
  | query _ _ index json | flatten _ index json =>
    refine ⟨_, rfl, List.forall_mem_cons.mpr ⟨hdump .., ?_⟩, ?_⟩
    · cases json with
      | false => exact List.forall_mem_nil _
      | true => exact List.forall_mem_singleton.mpr hjson
    · cases json <;> simp [given, named, dumpSwitch, jsonSwitch]
  | dumps => exact ⟨_, rfl, List.forall_mem_nil _, List.nodup_nil⟩
  | ipc _ index | mix _ index =>
    exact ⟨_, rfl, List.forall_mem_singleton.mpr (hdump ..),
      List.nodup_cons.mpr ⟨List.not_mem_nil, List.nodup_nil⟩⟩

/-- None of them is a shared option. -/
theorem lookup_given (r : Request) :
    (named r.given).lookup "format" = none ∧ (named r.given).lookup "analysis" = none ∧
      (named r.given).lookup "verbose" = none := by
  cases r with
  | query _ _ _ json | flatten _ _ json =>
    cases json <;> simp [given, named, dumpSwitch, jsonSwitch, List.lookup_cons]
  | dumps | ipc | mix => simp [given, named, dumpSwitch]

/-- The request is read back from its parts. -/
theorem request?_eq_self {r : Request} (h : r.Writable) :
    request? r.name ⟨named r.given, r.operands⟩ = some r := by
  cases r with
  | query file path index json | flatten file index json =>
    obtain ⟨hfile, hindex⟩ := h
    cases json <;>
      simp [request?, name, given, named, operands, value?, Parts.has, dumpSwitch, jsonSwitch,
        index?_repr hindex, file?, hfile, List.lookup_cons]
  | dumps file =>
    have hfile : file ≠ "" := h
    simp [request?, name, given, named, operands, value?, file?, hfile]
  | ipc files index =>
    obtain ⟨hne, hfiles, hindex⟩ := h
    obtain ⟨file, rest, rfl⟩ := List.exists_cons_of_ne_nil hne
    simp [request?, name, given, named, operands, value?, dumpSwitch, index?_repr hindex,
      mapM_file?_eq_some_iff.mpr ⟨hfiles, rfl⟩]
  | mix file index =>
    obtain ⟨hfile, hindex⟩ := h
    simp [request?, name, given, named, operands, value?, dumpSwitch, index?_repr hindex,
      file?, hfile]

theorem writable_of_request? {name : String} {p : Parts} {r : Request}
    (h : request? name p = some r) : r.Writable := by
  obtain ⟨index, hindex, h⟩ := Option.bind_eq_some_iff.mp h
  have hlt : index < indexLimit := by
    rw [value?] at hindex
    split at hindex
    · rw [← Option.some.inj hindex]
      decide
    · exact lt_of_index? hindex
  dsimp only at h
  split at h
  case h_4 =>
    obtain ⟨file, hfile, rfl⟩ := Option.map_eq_some_iff.mp h
    exact (file?_eq_some_iff.mp hfile).1
  case h_5 =>
    obtain ⟨files, hfiles, rfl⟩ := Option.map_eq_some_iff.mp h
    obtain ⟨hne, rfl⟩ := mapM_file?_eq_some_iff.mp hfiles
    exact ⟨List.cons_ne_nil _ _, hne, hlt⟩
  case h_7 => cases h
  all_goals
    obtain ⟨file, hfile, rfl⟩ := Option.map_eq_some_iff.mp h
    exact ⟨(file?_eq_some_iff.mp hfile).1, hlt⟩

end Request

namespace Command

open Arguments

variable {c : Command}

/-- The shared options of a command. -/
def given (c : Command) : List (Switch × String) :=
  c.format.toList.map (Prod.mk formatSwitch) ++ c.metricPaths.toList.map (Prod.mk analysisSwitch) ++
    if c.verbose then [(verboseSwitch, "")] else []

/-- A list of arguments that the command can be written as. -/
def written (c : Command) : List String :=
  words c.given ++ c.request.name :: (words c.request.given ++ "--" :: c.request.operands)

theorem distinct_given (c : Command) : Distinct sharedSwitches c.given := by
  have hformat (path : String) : Nameable sharedSwitches formatSwitch path :=
    ⟨rfl, by decide, by decide, nofun⟩
  have hpaths (path : String) : Nameable sharedSwitches analysisSwitch path :=
    ⟨rfl, by decide, by decide, nofun⟩
  have hverbose : Nameable sharedSwitches verboseSwitch "" :=
    ⟨rfl, by decide, by decide, fun _ => rfl⟩
  refine ⟨?_, ?_⟩
  · intro o ho
    rw [given, List.mem_append, List.mem_append, List.mem_map, List.mem_map] at ho
    rcases ho with (⟨path, -, rfl⟩ | ⟨path, -, rfl⟩) | ho
    · exact hformat path
    · exact hpaths path
    · split at ho
      · obtain rfl := List.mem_singleton.mp ho
        exact hverbose
      · cases ho
  · rw [given]
    cases c.format <;> cases c.metricPaths <;> cases c.verbose <;>
      simp [named, formatSwitch, analysisSwitch, verboseSwitch]

/-- The shared options are found by their names. -/
theorem lookup_given (c : Command) :
    (named c.given).lookup "format" = c.format ∧
      (named c.given).lookup "analysis" = c.metricPaths ∧
      ((named c.given).lookup "verbose").isSome = c.verbose := by
  rw [given]
  cases c.format <;> cases c.metricPaths <;> cases c.verbose <;>
    simp [named, formatSwitch, analysisSwitch, verboseSwitch, List.lookup_cons]

/-- The command is read back from the arguments it is written as. -/
theorem command?_written (h : c.Writable) : command? c.written = some c := by
  obtain ⟨own, hown, hgiven⟩ := c.request.distinct_given
  obtain ⟨hformat, hpaths, hverbose⟩ := c.lookup_given
  obtain ⟨hnoFormat, hnoPaths, hnoVerbose⟩ := c.request.lookup_given
  rw [command?, written, leading?_words c.distinct_given c.request.read?_name, Option.bind_some]
  dsimp only
  rw [hown, Option.bind_some, parts?_words hgiven, Option.bind_some,
    shared?_of_before h.format hformat hnoFormat, Option.bind_some,
    shared?_of_before h.metricPaths hpaths hnoPaths, Option.bind_some,
    Request.request?_eq_self h.request, Option.map_some, Parts.has, hverbose, Parts.has, hnoVerbose,
    Option.isSome_none, Bool.or_false]

theorem writable_of_command? {args : List String} (h : command? args = some c) : c.Writable := by
  simp only [command?, Option.bind_eq_some_iff, Option.map_eq_some_iff] at h
  obtain ⟨⟨before, name, rest⟩, -, own, -, after, -, format, hformat, paths, hpaths, request,
    hrequest, rfl⟩ := h
  exact ⟨ne_empty_of_shared? hformat, ne_empty_of_shared? hpaths,
    Request.writable_of_request? hrequest⟩

/-- **The commands that can be written.** -/
theorem exists_command?_iff : (∃ args, command? args = some c) ↔ c.Writable :=
  ⟨fun ⟨_, h⟩ => writable_of_command? h, fun h => ⟨_, command?_written h⟩⟩

end Command

end SimStats
