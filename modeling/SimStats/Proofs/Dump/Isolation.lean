import SimStats.Proofs.Dump.Content

/-!
# Dumps are read for themselves

What a reader makes of a dump depends on the lines between its begin marker and its end marker and
on nothing else (`Dump.read_eq_readBody`). Lines before it count only if they are begin markers,
and what comes after its end marker is not looked at, so that it need not even be text. A dump that
is cut out of its file is therefore read as it is read in the file, or refused for the same reason
(`Dump.ofBytes_isolated`).
-/

namespace SimStats

namespace Dump

/-! ## The lines before -/

/-- Lines are passed as long as a further marker is looked for than there are among them. -/
theorem seek_append (marker : String) (n : Nat) (before : List String) (rest : List RawLine) :
    seek marker (before.count marker + n + 1) (before.map .ok ++ rest) =
      seek marker (n + 1) rest := by
  rw [seek_map_ok_append, if_neg (by omega), Nat.add_assoc, Nat.add_sub_cancel_left]

/-! ## The lines after -/

/-- A body ends at its end marker, whatever follows. -/
theorem readBody_append {origin : String} {format : Format} (hend : format.endMarker ≠ "")
    {body : List String} (hbody : format.endMarker ∉ body) (g : Group) (rest : List RawLine) :
    readBody origin format g (body.map .ok ++ .ok format.endMarker :: rest) =
      readBody origin format g (body.map .ok) := by
  induction body generalizing g with
  | nil =>
    rw [List.map_nil, List.nil_append, readBody, readBody, if_neg hend, if_pos rfl]
  | cons line body ih =>
    rw [List.mem_cons, not_or] at hbody
    rw [List.map_cons, List.cons_append, readBody, readBody, if_neg (Ne.symm hbody.1),
      if_neg (Ne.symm hbody.1)]
    split
    · exact ih hbody.2 g
    · split
      · rfl
      · exact ih hbody.2 _

/-! ## The dump by itself -/

/-- The dump after `before.count` begin markers is read by reading its body. -/
theorem read_eq_readBody {origin : String} {format : Format} (hformat : format.problem? = none)
    (before : List String) {body : List String} (hbody : format.endMarker ∉ body)
    (rest : List RawLine) :
    read origin format (before.count format.beginMarker + 1)
        (before.map .ok ++ .ok format.beginMarker ::
          (body.map .ok ++ .ok format.endMarker :: rest)) =
      (readBody origin format (.empty format.rootName) (body.map .ok)).map fun root =>
        { root, separators := format.separators } := by
  have hend := Format.endMarker_ne_empty hformat
  have hseek := seek_append format.beginMarker 0 before
    (.ok format.beginMarker :: (body.map .ok ++ .ok format.endMarker :: rest))
  rw [Nat.add_zero, seek, if_pos rfl, seek] at hseek
  rw [read, if_neg (Nat.succ_ne_zero _), hformat, hseek]
  dsimp only
  rw [readBody_append hend hbody]

/-- The same for bytes that begin with the lines of the dump and those before it. -/
theorem ofBytes_eq_readBody {format : Format} (hformat : format.problem? = none)
    {before body : List String} {opening closing : String}
    (hlines : ∀ line ∈ before ++ opening :: body ++ [closing], '\n' ∉ line.toList)
    (hopening : Text.trim opening = format.beginMarker)
    (hbody : ∀ line ∈ body, Text.trim line ≠ format.endMarker)
    (hclosing : Text.trim closing = format.endMarker) (rest : ByteArray) :
    ofBytes format ((before.map Text.trim).count format.beginMarker + 1)
        ((Text.unlines (before ++ opening :: body ++ [closing])).toUTF8 ++ rest) =
      (readBody nameless format (.empty format.rootName) ((body.map Text.trim).map .ok)).map
        fun root => { root, separators := format.separators } := by
  have hnotin : format.endMarker ∉ body.map Text.trim := by
    intro hmem
    obtain ⟨line, hline, htrim⟩ := List.mem_map.mp hmem
    exact hbody line hline htrim
  rw [ofBytes, ByteArray.data_append, Array.toList_append,
    RawLine.splitBytes_unlines_append hlines]
  simp only [List.map_append, List.map_cons, List.map_nil, List.append_assoc, List.cons_append,
    List.nil_append, hopening, hclosing]
  exact read_eq_readBody hformat _ hnotin _

/-- **Dumps are isolated from each other.** With a usable format, the dump after `index - 1` begin
markers is read, or refused, as it is if its lines from the begin marker to the end marker are all
there is. Neither the lines before it nor the bytes after it matter. -/
theorem ofBytes_isolated {format : Format} (hformat : format.validate = .ok ()) {index : Nat}
    {before body : List String} {opening closing : String}
    (hlines : ∀ line ∈ before ++ opening :: body ++ [closing], '\n' ∉ line.toList)
    (hbefore : (before.map Text.trim).count format.beginMarker + 1 = index)
    (hopening : Text.trim opening = format.beginMarker)
    (hbody : ∀ line ∈ body, Text.trim line ≠ format.endMarker)
    (hclosing : Text.trim closing = format.endMarker) (rest : ByteArray) :
    ofBytes format index
        ((Text.unlines (before ++ opening :: body ++ [closing])).toUTF8 ++ rest) =
      ofBytes format 1 (Text.unlines (opening :: body ++ [closing])).toUTF8 := by
  have hproblem := Format.problem?_eq_none_iff.mpr hformat
  have hown : ∀ line ∈ [] ++ opening :: body ++ [closing], '\n' ∉ line.toList := by
    intro line hline
    apply hlines
    rw [List.append_assoc]
    exact List.mem_append_right before hline
  have hall := ofBytes_eq_readBody hproblem hlines hopening hbody hclosing rest
  have hone := ofBytes_eq_readBody hproblem hown hopening hbody hclosing .empty
  rw [ByteArray.append_empty] at hone
  rw [← hbefore, hall]
  exact hone.symm

/-- A second dump, after one that is never closed and before a byte that is no text. -/
theorem ofBytes_isolated_second :
    (Format.mk "begin" "end" ["."] "top").validate = .ok () ∧
      (∀ line ∈ ["end", " begin\r", "a 1"] ++ "begin" :: ["l2.hits 9 # h", ""] ++ ["\tend"],
        '\n' ∉ line.toList) ∧
      (["end", " begin\r", "a 1"].map Text.trim).count "begin" + 1 = 2 ∧
      Text.trim "begin" = "begin" ∧
      (∀ line ∈ ["l2.hits 9 # h", ""], Text.trim line ≠ "end") ∧
      Text.trim "\tend" = "end" ∧
      ofBytes ⟨"begin", "end", ["."], "top"⟩ 2
          ((Text.unlines (["end", " begin\r", "a 1"] ++ "begin" :: ["l2.hits 9 # h", ""] ++
            ["\tend"])).toUTF8 ++ ⟨#[0xFF]⟩) =
        ofBytes ⟨"begin", "end", ["."], "top"⟩ 1
          (Text.unlines ("begin" :: ["l2.hits 9 # h", ""] ++ ["\tend"])).toUTF8 := by
  have hformat : (Format.mk "begin" "end" ["."] "top").validate = .ok () := by decide +kernel
  have hlines : ∀ line ∈ ["end", " begin\r", "a 1"] ++ "begin" :: ["l2.hits 9 # h", ""] ++
      ["\tend"], '\n' ∉ line.toList := by decide +kernel
  have hbefore : (["end", " begin\r", "a 1"].map Text.trim).count "begin" + 1 = 2 := by
    decide +kernel
  have hopening : Text.trim "begin" = "begin" := by decide +kernel
  have hbody : ∀ line ∈ ["l2.hits 9 # h", ""], Text.trim line ≠ "end" := by decide +kernel
  have hclosing : Text.trim "\tend" = "end" := by decide +kernel
  exact ⟨hformat, hlines, hbefore, hopening, hbody, hclosing,
    ofBytes_isolated hformat hlines hbefore hopening hbody hclosing _⟩

end Dump

end SimStats
