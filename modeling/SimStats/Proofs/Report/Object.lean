import SimStats.Dump
import SimStats.Proofs.Json.Number
import SimStats.Proofs.Json.Writing
import SimStats.Report

/-!
# Flat statistics as an object

Printed as JSON, a flat map is an object with one member for each entry, in the order of the keys
(`Report.scalars_flat`). What stands behind a key is the JSON text of the value: for a counter and
for a finite double a number that reads back as that value. A double that is infinite, or not a
number, has no such text. It is printed as `null`, and which of them it was is lost
(`Dump.flatten_json`).
-/

namespace SimStats

namespace Json

/-- The text is a text of the value, and these are its numbers and words in order. -/
def Scalars (text : String) (v : Json) (scalars : List String) : Prop :=
  ∃ ws, Cut text.toList ws ∧ ws.map Prod.snd = v.tokens ∧
    (ws.filter fun w => w.2 = .scalar).map Prod.fst = scalars.map String.toList

theorem Scalars.writes {text : String} {v : Json} {scalars : List String}
    (h : Scalars text v scalars) : Writes text v := by
  obtain ⟨ws, hcut, hws, -⟩ := h
  exact ⟨ws, hcut, hws⟩

/-- Every value is written as a number or as a word. -/
theorem lexeme_number (v : Value) : Lexeme (number v).toList .scalar := by
  by_cases h : v.Finite
  · exact .number (number_number h)
  · rw [number_of_not_finite h]
    exact .word (by decide)

end Json

namespace Report

open Json (Cut Token)

/-! ## Rows -/

/-- The object with the keys of a flat map in their order, and a number or a word at each. -/
def object (m : Keyed Value) : Json := .object (m.keys.map fun key => (some key, .scalar))

/-- An entry as a member of an object. -/
def memberText (e : String × Value) : String := "  " ++ Json.quote e.1 ++ ": " ++ Json.number e.2

/-- The lexemes of an entry. -/
def memberWords (e : String × Value) : List (List Char × Token) := [
  ((Json.quote e.1).toList, .string (some e.1)),
  ([':'], .colon),
  ((Json.number e.2).toList, .scalar)]

theorem cut_spaces {gap : List Char} (h : gap.all Json.isSpace = true) : Cut gap [] :=
  .nil (List.all_eq_true.mp h)

theorem cut_mark {c : Char} {t : Token} (h : Json.mark? c = some t) : Cut [c] [([c], t)] :=
  .of_lexeme (.mark h)

theorem cut_memberText (e : String × Value) : Cut (memberText e).toList (memberWords e) := by
  have hindent : Cut [' ', ' '] [] := cut_spaces rfl
  have hcolon : Cut [':', ' '] [([':'], .colon)] := (cut_mark rfl).append (cut_spaces rfl)
  have hkey := Cut.of_lexeme (Json.lexeme_quote e.1)
  have hvalue := Cut.of_lexeme (Json.lexeme_number e.2)
  rw [memberText, String.toList_append, String.toList_append, String.toList_append]
  exact ((hindent.append hkey).append hcolon).append hvalue

theorem toList_lines_cons (row : String) (rows : List String) :
    (lines (row :: rows)).toList = row.toList ++ (['\n'] ++ (lines rows).toList) := by
  simp [lines, String.join_cons]

theorem cut_lines_cons {row : String} {rows : List String} {us ws : List (List Char × Token)}
    (hrow : Cut row.toList us) (hrows : Cut (lines rows).toList ws) :
    Cut (lines (row :: rows)).toList (us ++ ws) := by
  rw [toList_lines_cons]
  exact hrow.append ((cut_spaces rfl).append hrows)

theorem cut_brace : Cut (lines ["\x7d"]).toList [(['\x7d'], .closeObject)] := by
  have hbrace : Cut "\x7d".toList [(['\x7d'], .closeObject)] := cut_mark rfl
  exact cut_lines_cons hbrace (cut_spaces rfl)

/-- The rows of members are their lexemes between commas, and the closing brace. -/
theorem cut_members (e : String × Value) (l : List (String × Value)) :
    Cut (lines (withCommas ((e :: l).map memberText) ++ ["\x7d"])).toList
      (memberWords e ++ l.flatMap (fun e => ([','], .comma) :: memberWords e) ++
        [(['\x7d'], .closeObject)]) := by
  induction l generalizing e with
  | nil =>
    rw [List.flatMap_nil, List.append_nil]
    exact cut_lines_cons (cut_memberText e) cut_brace
  | cons f l ih =>
    have hrow : Cut (memberText e ++ ",").toList (memberWords e ++ [([','], .comma)]) := by
      rw [String.toList_append]
      exact (cut_memberText e).append (cut_mark rfl)
    have hrows := cut_lines_cons hrow (ih f)
    rw [List.map_cons, List.map_cons, withCommas, List.cons_append]
    · simpa using hrows
    · nofun

/-- A flat map is printed as the object of its entries, and behind the keys stand the JSON texts of
the values. -/
theorem scalars_flat (m : Keyed Value) :
    Json.Scalars (flat true m) (object m) (m.entries.map fun e => Json.number e.2) := by
  have htext : flat true m = lines (jsonRows m) := rfl
  rw [htext, jsonRows, object, Keyed.keys, List.map_map]
  rcases m.entries with _ | ⟨e, l⟩
  · have hbraces : Cut "\x7b\x7d".toList
        ([(['\x7b'], .openObject)] ++ [(['\x7d'], .closeObject)]) :=
      (cut_mark rfl).append (cut_mark rfl)
    exact ⟨_, cut_lines_cons hbraces (cut_spaces rfl), rfl, rfl⟩
  · have hopen : Cut "\x7b".toList [(['\x7b'], .openObject)] := cut_mark rfl
    refine ⟨_, cut_lines_cons hopen (cut_members e l), ?_, ?_⟩
    · refine Eq.trans ?_ (Json.tokens_object (fun e => some e.1) (fun _ => .scalar) e l).symm
      simp [memberWords, Json.tokens, List.map_flatMap]
    · have htexts : l.flatMap (fun e => [(Json.number e.2).toList]) =
          l.map fun e => (Json.number e.2).toList := (List.map_eq_flatMap ..).symm
      simpa [memberWords, List.filter_flatMap, List.map_flatMap, Function.comp_def] using htexts

end Report

namespace Dump

/-- **As JSON every finite value is kept.** The flat statistics of a dump are printed as an object
with exactly their keys, in ascending order. The text behind a key is, for a counter and for a
finite double, a JSON number that reads back as the value: a counter as that counter and a double as
that double. For a double that is infinite or not a number it is the word `null`. -/
theorem flatten_json (d : Dump) :
    Json.parse? (Report.flat true d.flatten) = some (Report.object d.flatten) ∧
      d.flatten.keys.Pairwise (· < ·) ∧
      ∃ texts, Json.Scalars (Report.flat true d.flatten) (Report.object d.flatten) texts ∧
        List.Forall₂ (fun text e =>
          (e.2.Finite → Json.Number text.toList ∧ Value.ofToken? text = some e.2) ∧
          (¬ e.2.Finite → text = "null")) texts d.flatten.entries := by
  have hscalars := Report.scalars_flat d.flatten
  refine ⟨hscalars.writes.parse?_eq, List.pairwise_map.mpr d.flatten.ascending, _, hscalars, ?_⟩
  rw [List.forall₂_map_left_iff, List.forall₂_same]
  exact fun e _ => ⟨fun h => ⟨Json.number_number h, Value.ofToken?_number h⟩,
    Json.number_of_not_finite⟩

/-- A counter, a double that is written with an exponent, and what is not a number. -/
theorem flatten_json_three_values :
    let text := Format.standard.beginMarker ++ "\nhits 7 # h\nrate 1e300 # r\nwait nan # w\n"
    ∃ d, ofBytes .standard 1 text.toUTF8 = .ok d ∧ d.flatten.keys = ["hits", "rate", "wait"] ∧
      Json.parse? (Report.flat true d.flatten) = some (Report.object d.flatten) ∧
      ∃ hits rate wait, Json.Scalars (Report.flat true d.flatten) (Report.object d.flatten)
          [hits, rate, wait] ∧
        Value.ofToken? hits = some (.int 7) ∧
        Value.ofToken? rate = some (.float (Literal.toFloat (.decimal false ⟨1, 300⟩))) ∧
        wait = "null" := by
  intro text
  let rate : Value := .float (Literal.toFloat (.decimal false ⟨1, 300⟩))
  let wait : Value := .float (Literal.toFloat .nan)
  let d : Dump := ⟨⟨"all", .stat ⟨"hits", .int 7, "h"⟩
    (.stat ⟨"rate", rate, "r"⟩ (.stat ⟨"wait", wait, "w"⟩ .nil))⟩, standardSeparators⟩
  have hread : ofBytes .standard 1 text.toUTF8 = .ok d := by decide +kernel
  have hkeys : d.flatten.keys = ["hits", "rate", "wait"] := by decide +kernel
  have hentries : d.flatten.entries = [("hits", .int 7), ("rate", rate), ("wait", wait)] := by
    decide +kernel
  have hrate : rate.Finite := by decide +kernel
  have hwait : ¬ wait.Finite := by decide +kernel
  obtain ⟨hparse, -, texts, hscalars, hvalues⟩ := flatten_json d
  rw [hentries] at hvalues
  rcases hvalues with _ | ⟨hfirst, _ | ⟨hsecond, _ | ⟨hthird, _ | _⟩⟩⟩
  exact ⟨d, hread, hkeys, hparse, _, _, _, hscalars, (hfirst.1 trivial).2, (hsecond.1 hrate).2,
    hthird.2 hwait⟩

/-- A value can be lost: an infinite one is printed as a word that is no number. -/
theorem exists_flatten_json_lost :
    ¬ ∀ (format : Format) (index : Nat) (bytes : ByteArray) (d : Dump),
      ofBytes format index bytes = .ok d → ∀ e ∈ d.flatten.entries,
        Json.Number (Json.number e.2).toList ∧ Value.ofToken? (Json.number e.2) = some e.2 := by
  intro h
  let v : Value := .float (Literal.toFloat (.infinity false))
  let d : Dump := ⟨⟨"all", .stat ⟨"a", v, "x"⟩ .nil⟩, standardSeparators⟩
  let text := Format.standard.beginMarker ++ "\na inf # x\n"
  have hread : ofBytes .standard 1 text.toUTF8 = .ok d := by decide +kernel
  have hmem : ("a", v) ∈ d.flatten.entries := by decide +kernel
  have hlost : Value.ofToken? (Json.number v) = none := by decide +kernel
  have hkept := (h _ _ _ _ hread _ hmem).2
  cases hlost.symm.trans hkept

end Dump

end SimStats
