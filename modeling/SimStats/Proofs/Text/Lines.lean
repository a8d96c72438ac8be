import Mathlib.Data.List.TakeWhile
import SimStats.Dump.Lines

/-!
# The lines of a text

`Text.lines` are the lines of a text as characters have it: what stands between its line feeds,
without the blanks at the ends. A reader that splits the bytes of the text and looks at each line
for itself sees just these (`RawLine.splitBytes_toUTF8`), since the byte of the line feed is part
of no other character. Of bytes that begin with lines it sees these lines first, whatever follows
(`RawLine.splitBytes_unlines_append`).
-/

namespace SimStats

namespace Text

/-! ## Blanks at the ends -/

theorem trimStart_eq_self {s : List Char} (h : ∀ c, s.head? = some c → isBlank c = false) :
    trimStart s = s := by
  cases s with
  | nil => rfl
  | cons c s => exact List.dropWhile_cons_of_neg (by simp [h c rfl])

/-- Trimmed text does not begin with a blank. -/
theorem head?_trimStart {s : List Char} {c : Char} (h : (trimStart s).head? = some c) :
    isBlank c = false := by
  have := List.head?_dropWhile_not isBlank s
  rw [trimStart] at h
  rw [h] at this
  simpa using this

theorem trimStart_trimStart (s : List Char) : trimStart (trimStart s) = trimStart s :=
  trimStart_eq_self fun _ => head?_trimStart

theorem trimEnd_eq_reverse (s : List Char) : trimEnd s = (trimStart s.reverse).reverse := rfl

/-- Dropping blanks at the end leaves the front as it is. -/
theorem trimEnd_prefix (s : List Char) : trimEnd s <+: s := by
  rw [trimEnd_eq_reverse, ← List.reverse_suffix, List.reverse_reverse]
  exact List.dropWhile_suffix _

/-- What is left of a text when it is trimmed are characters of it. -/
theorem trimStart_subset (s : List Char) : trimStart s ⊆ s := (List.dropWhile_suffix _).subset

theorem trimChars_subset (s : List Char) : trimChars s ⊆ s := by
  have hfront := trimEnd_prefix (trimStart s)
  exact List.Subset.trans hfront.subset (trimStart_subset s)

theorem trimEnd_trimEnd (s : List Char) : trimEnd (trimEnd s) = trimEnd s := by
  rw [trimEnd_eq_reverse, trimEnd_eq_reverse, List.reverse_reverse, trimStart_trimStart]

theorem trimStart_trimEnd_trimStart (s : List Char) :
    trimStart (trimEnd (trimStart s)) = trimEnd (trimStart s) := by
  refine trimStart_eq_self fun c hc => head?_trimStart (s := s) ?_
  obtain ⟨rest, hrest⟩ := List.head?_eq_some_iff.mp hc
  obtain ⟨t, ht⟩ := trimEnd_prefix (trimStart s)
  rw [← ht, hrest]
  rfl

/-- Trimming twice is trimming once. -/
theorem trimChars_trimChars (s : List Char) : trimChars (trimChars s) = trimChars s := by
  rw [trimChars, trimChars, trimStart_trimEnd_trimStart, trimEnd_trimEnd]

theorem trimStart_cons_of_blank {c : Char} (h : isBlank c = true) (s : List Char) :
    trimStart (c :: s) = trimStart s := List.dropWhile_cons_of_pos h

/-- A text that begins with a character that is no blank keeps its front. -/
theorem trimStart_append {s : List Char} (hne : s ≠ []) (h : ∀ c ∈ s, isBlank c = false)
    (t : List Char) : trimStart (s ++ t) = s ++ t := by
  obtain ⟨c, s, rfl⟩ := List.exists_cons_of_ne_nil hne
  refine trimStart_eq_self ?_
  intro d hd
  obtain rfl : c = d := Option.some.inj hd
  exact h c (List.mem_cons_self ..)

/-- The end of two texts in a row is trimmed in the second, and in the first if nothing is left of
the second. -/
theorem trimEnd_append (s t : List Char) :
    trimEnd (s ++ t) = if trimEnd t = [] then trimEnd s else s ++ trimEnd t := by
  rw [trimEnd, List.reverse_append, List.dropWhile_append, trimEnd, trimEnd]
  simp only [List.isEmpty_iff, List.reverse_eq_nil_iff]
  split
  · rfl
  · rw [List.reverse_append, List.reverse_reverse]

/-- A trimmed text has nothing to trim at its front or at its end. -/
theorem trim_ends {s : List Char} (h : trimChars s = s) : trimStart s = s ∧ trimEnd s = s := by
  constructor
  · rw [← h, trimChars, trimStart_trimEnd_trimStart]
  · rw [← h, trimChars, trimEnd_trimEnd]

/-- A text that begins with a character that is no blank is not trimmed to nothing. -/
theorem trimChars_cons_ne_nil {c : Char} (h : isBlank c = false) (s : List Char) :
    trimChars (c :: s) ≠ [] := by
  have hstart : trimStart (c :: s) = c :: s := by
    refine trimStart_eq_self ?_
    rintro d ⟨⟩
    exact h
  rw [trimChars, hstart, trimEnd_eq_reverse, Ne, List.reverse_eq_nil_iff, trimStart,
    List.dropWhile_eq_nil_iff]
  intro hall
  have hc := hall c (List.mem_reverse.mpr (List.mem_cons_self ..))
  rw [h] at hc
  cases hc

/-- A trimmed text that is not empty begins with a character that is no blank. -/
theorem exists_cons_of_trim {s : String} (hne : s ≠ "") (htrim : trim s = s) :
    ∃ c rest, s.toList = c :: rest ∧ isBlank c = false := by
  obtain ⟨c, rest, hs⟩ := List.exists_cons_of_ne_nil (mt String.toList_eq_nil_iff.mp hne)
  refine ⟨c, rest, hs, head?_trimStart (s := s.toList) ?_⟩
  have hstart := (trim_ends ((toList_trim s).symm.trans (congrArg String.toList htrim))).1
  rw [hstart, hs, List.head?_cons]

/-! ## Lines of characters -/

/-- What stands between line feeds; what follows the last one counts unless it is empty. -/
def lineChars (s : List Char) : List (List Char) :=
  let pieces := s.splitOn '\n'
  if pieces.getLast? = some [] then pieces.dropLast else pieces

/-- The lines of a text without the blanks at their ends. -/
def lines (text : String) : List String :=
  (lineChars text.toList).map fun line => String.ofList (trimChars line)

theorem trim_of_mem_lines {text line : String} (h : line ∈ lines text) : trim line = line := by
  obtain ⟨piece, -, rfl⟩ := List.mem_map.mp h
  rw [trim, String.toList_ofList, trimChars_trimChars]

theorem lineChars_of_not_mem {s : List Char} (h : '\n' ∉ s) (hne : s ≠ []) :
    lineChars s = [s] := by
  rw [lineChars, List.splitOn_eq_singleton h]
  simp [hne]

/-- A line ends at its line feed. -/
theorem lineChars_append_cons {s : List Char} (h : '\n' ∉ s) (t : List Char) :
    lineChars (s ++ '\n' :: t) = s :: lineChars t := by
  have hne := List.splitOn_ne_nil '\n' t
  rw [lineChars, List.splitOn_append_cons_self_of_not_mem h, lineChars]
  simp only [List.getLast?_cons_of_ne_nil hne, List.dropLast_cons_of_ne_nil hne]
  split <;> rfl

/-- A line ends at its line feed, and what follows is a text of its own. -/
theorem lines_append_lineFeed {line : String} (h : '\n' ∉ line.toList) (text : String) :
    lines (line ++ "\n" ++ text) = trim line :: lines text := by
  have hlist : (line ++ "\n" ++ text).toList = line.toList ++ '\n' :: text.toList := by simp
  rw [lines, hlist, lineChars_append_cons h, List.map_cons]
  rfl

/-! ## Texts made of lines -/

/-- The text of the lines, each of which is ended by a line feed. -/
def unlines : List String → String
  | [] => ""
  | line :: lines => line ++ "\n" ++ unlines lines

theorem toList_unlines_cons (line : String) (lines : List String) :
    (unlines (line :: lines)).toList = line.toList ++ '\n' :: (unlines lines).toList := by
  simp [unlines]

/-- The lines of a text are those it was made of. -/
theorem lineChars_unlines {lines : List String} (h : ∀ line ∈ lines, '\n' ∉ line.toList) :
    lineChars (unlines lines).toList = lines.map String.toList := by
  induction lines with
  | nil => rfl
  | cons line lines ih =>
    rw [toList_unlines_cons, lineChars_append_cons (h line (List.mem_cons_self ..)),
      ih fun l hl => h l (List.mem_cons_of_mem _ hl), List.map_cons]

theorem lines_unlines {lines : List String} (h : ∀ line ∈ lines, '\n' ∉ line.toList) :
    Text.lines (unlines lines) = lines.map trim := by
  rw [Text.lines, lineChars_unlines h, List.map_map]
  rfl

/-! ## Characters as bytes -/

/-- The bytes of the characters. -/
def utf8 (s : List Char) : List UInt8 := s.flatMap String.utf8EncodeChar

theorem utf8_append (s t : List Char) : utf8 (s ++ t) = utf8 s ++ utf8 t := List.flatMap_append

theorem utf8_cons (c : Char) (s : List Char) : utf8 (c :: s) = String.utf8EncodeChar c ++ utf8 s :=
  List.flatMap_cons

theorem utf8_ne_nil {s : List Char} (h : s ≠ []) : utf8 s ≠ [] := by
  obtain ⟨c, s, rfl⟩ := List.exists_cons_of_ne_nil h
  rw [utf8_cons]
  exact List.append_ne_nil_of_left_ne_nil String.utf8EncodeChar_ne_nil _

/-- The bytes of a text are those of its characters. -/
theorem data_toUTF8 (text : String) : text.toUTF8.data.toList = utf8 text.toList := by
  conv => lhs; rw [← String.ofList_toList (s := text)]
  rw [String.toUTF8_eq_toByteArray]
  exact List.toList_data_toByteArray

/-- The bytes of characters are read as those characters. -/
theorem fromUTF8?_utf8 (s : List Char) :
    String.fromUTF8? ⟨(utf8 s).toArray⟩ = some (String.ofList s) := by
  have hbytes : (⟨(utf8 s).toArray⟩ : ByteArray) = (String.ofList s).toByteArray := by
    refine ByteArray.ext (Array.toList_inj.mp ?_)
    rw [← String.toUTF8_eq_toByteArray, data_toUTF8, String.toList_ofList]
  rw [hbytes, String.fromUTF8?, dif_pos (String.isValidUTF8 _)]
  rfl

/-- Bytes that are read as a text are those of its characters. -/
theorem utf8_of_fromUTF8? {bytes : List UInt8} {text : String}
    (h : String.fromUTF8? ⟨bytes.toArray⟩ = some text) : utf8 text.toList = bytes := by
  rw [String.fromUTF8?] at h
  split at h
  · obtain rfl := Option.some.inj h
    rw [← data_toUTF8]
    rfl
  · cases h

/-- The byte of the line feed is part of no other character. -/
theorem lineFeed_not_mem_utf8EncodeChar {c : Char} (h : c ≠ '\n') :
    (10 : UInt8) ∉ String.utf8EncodeChar c := by
  have hval : c.val.toNat ≠ 10 := fun heq => h (Char.ext (UInt32.toNat_inj.mp heq))
  fun_cases String.utf8EncodeChar c <;>
    simp only [List.mem_cons, List.not_mem_nil, or_false, not_or, ← UInt8.toNat_inj] <;>
    simp only [UInt8.toNat_ofNat', UInt8.reduceToNat] <;> omega

theorem lineFeed_not_mem_utf8 {s : List Char} (h : '\n' ∉ s) : (10 : UInt8) ∉ utf8 s := by
  intro hmem
  obtain ⟨c, hc, hbyte⟩ := List.mem_flatMap.mp hmem
  exact lineFeed_not_mem_utf8EncodeChar (fun heq => h (heq ▸ hc)) hbyte

end Text

/-! ## Lines of bytes -/

namespace RawLine

theorem splitBytes_of_not_mem {bytes : List UInt8} (h : 10 ∉ bytes) (hne : bytes ≠ []) :
    splitBytes bytes = [bytes] := by
  obtain ⟨b, rest, rfl⟩ := List.exists_cons_of_ne_nil hne
  have hall : ∀ x ∈ b :: rest, (x != 10) = true := fun x hx => by
    rw [bne_iff_ne]
    exact fun heq => h (heq ▸ hx)
  rw [splitBytes, List.takeWhile_eq_self_iff.mpr hall, List.dropWhile_eq_nil_iff.mpr hall,
    List.drop_nil, splitBytes]

/-- A line ends at its line feed. -/
theorem splitBytes_append_cons {bytes : List UInt8} (h : 10 ∉ bytes) (rest : List UInt8) :
    splitBytes (bytes ++ 10 :: rest) = bytes :: splitBytes rest := by
  have hall : ∀ x ∈ bytes, (x != 10) = true := fun x hx => by
    rw [bne_iff_ne]
    exact fun heq => h (heq ▸ hx)
  obtain ⟨b, tail, htail⟩ := List.exists_cons_of_ne_nil
    (List.append_ne_nil_of_right_ne_nil bytes (List.cons_ne_nil 10 rest))
  rw [htail, splitBytes, ← htail, List.takeWhile_append_of_pos hall,
    List.dropWhile_append_of_pos hall, List.takeWhile_cons_of_neg (by decide),
    List.dropWhile_cons_of_neg (by decide), List.append_nil]
  rfl

/-- The lines of the bytes of characters are the bytes of the lines of the characters. -/
theorem splitBytes_utf8 (s : List Char) :
    splitBytes (Text.utf8 s) = (Text.lineChars s).map Text.utf8 := by
  by_cases h : '\n' ∈ s
  -- the first line is as long in bytes as its characters are, and the rest is shorter
  · obtain ⟨line, rest, hs, hline⟩ := List.eq_append_cons_of_mem h
    have hlf : String.utf8EncodeChar '\n' = [10] := rfl
    rw [hs, Text.utf8_append, Text.utf8_cons, hlf, List.singleton_append,
      splitBytes_append_cons (Text.lineFeed_not_mem_utf8 hline), splitBytes_utf8 rest,
      Text.lineChars_append_cons hline, List.map_cons]
  · by_cases hne : s = []
    · subst hne
      exact splitBytes.eq_1
    · rw [splitBytes_of_not_mem (Text.lineFeed_not_mem_utf8 h) (Text.utf8_ne_nil hne),
        Text.lineChars_of_not_mem h hne, List.map_singleton]
termination_by s.length
decreasing_by
  rw [hs, List.length_append, List.length_cons]
  omega

/-- The bytes of characters are a line that can be read. -/
theorem ofBytes_utf8 (s : List Char) :
    ofBytes (Text.utf8 s) = .ok (Text.trim (String.ofList s)) := by
  rw [ofBytes, Text.fromUTF8?_utf8]

/-- What a line that can be read holds has no line feed in it if its bytes have none. -/
theorem lineFeed_not_mem_of_ofBytes {bytes : List UInt8} (h : 10 ∉ bytes) {line : String}
    (hline : ofBytes bytes = .ok line) : '\n' ∉ line.toList := by
  rw [ofBytes] at hline
  split at hline
  · next s hs =>
    obtain rfl := Except.ok.inj hline
    intro hmem
    rw [Text.toList_trim] at hmem
    apply h
    have hbytes := Text.utf8_of_fromUTF8? hs
    rw [← hbytes]
    exact List.mem_flatMap.mpr ⟨'\n', Text.trimChars_subset _ hmem, List.mem_singleton_self _⟩
  · cases hline

/-- No line has a line feed in it. -/
theorem not_mem_of_mem_splitBytes {bytes line : List UInt8} (h : line ∈ splitBytes bytes) :
    10 ∉ line := by
  fun_induction splitBytes bytes with
  | case1 => cases h
  | case2 b rest ih =>
    rcases List.mem_cons.mp h with rfl | h
    · intro hmem
      exact absurd (List.mem_takeWhile_imp hmem) (by decide)
    · exact ih h

/-- A reader of bytes sees the lines of the text, every one of which it can read. -/
theorem splitBytes_toUTF8 (text : String) :
    (splitBytes text.toUTF8.data.toList).map ofBytes = (Text.lines text).map .ok := by
  rw [Text.data_toUTF8, splitBytes_utf8, Text.lines, List.map_map, List.map_map]
  refine List.map_congr_left fun line _ => ?_
  rw [Function.comp_apply, ofBytes_utf8, Text.trim, String.toList_ofList]
  rfl

/-- No line of a text has a line feed in it. -/
theorem lineFeed_not_mem_of_mem_lines {text line : String} (h : line ∈ Text.lines text) :
    '\n' ∉ line.toList := by
  have hmem : .ok line ∈ (splitBytes text.toUTF8.data.toList).map ofBytes := by
    rw [splitBytes_toUTF8]
    exact List.mem_map_of_mem h
  obtain ⟨bytes, hbytes, hline⟩ := List.mem_map.mp hmem
  exact lineFeed_not_mem_of_ofBytes (not_mem_of_mem_splitBytes hbytes) hline

/-- The bytes of lines, each of which is ended by a line feed. -/
def join (lines : List (List UInt8)) : List UInt8 := lines.flatMap (· ++ [10])

/-- Bytes that begin with lines are split into these lines and what follows them. -/
theorem splitBytes_join_append {lines : List (List UInt8)} (h : ∀ line ∈ lines, 10 ∉ line)
    (rest : List UInt8) : splitBytes (join lines ++ rest) = lines ++ splitBytes rest := by
  induction lines with
  | nil => rfl
  | cons line lines ih =>
    rw [join, List.flatMap_cons, List.append_assoc, List.append_assoc, List.singleton_append,
      splitBytes_append_cons (h line (List.mem_cons_self ..)), List.cons_append]
    exact congrArg _ (ih fun l hl => h l (List.mem_cons_of_mem _ hl))

/-- The bytes of a text made of lines. -/
theorem utf8_unlines (lines : List String) :
    Text.utf8 (Text.unlines lines).toList = join (lines.map fun line => Text.utf8 line.toList) := by
  induction lines with
  | nil => rfl
  | cons line lines ih =>
    have hlf : String.utf8EncodeChar '\n' = [10] := rfl
    rw [Text.toList_unlines_cons, Text.utf8_append, Text.utf8_cons, hlf, ih, List.map_cons, join,
      join, List.flatMap_cons, List.append_assoc]

/-- Of bytes that begin with lines of text, a reader sees these lines first. -/
theorem splitBytes_unlines_append {lines : List String} (h : ∀ line ∈ lines, '\n' ∉ line.toList)
    (rest : List UInt8) :
    (splitBytes ((Text.unlines lines).toUTF8.data.toList ++ rest)).map ofBytes =
      (lines.map Text.trim).map .ok ++ (splitBytes rest).map ofBytes := by
  have hbytes : ∀ line ∈ lines.map fun line => Text.utf8 line.toList, 10 ∉ line := by
    intro line hline
    obtain ⟨text, htext, rfl⟩ := List.mem_map.mp hline
    exact Text.lineFeed_not_mem_utf8 (h text htext)
  rw [Text.data_toUTF8, utf8_unlines, splitBytes_join_append hbytes, List.map_append, List.map_map,
    List.map_map]
  congr 1
  refine List.map_congr_left fun line _ => ?_
  rw [Function.comp_apply, ofBytes_utf8, String.ofList_toList]
  rfl

end RawLine

end SimStats
