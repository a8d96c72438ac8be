import Mathlib.Data.List.Chain
import SimStats.Json.Value

/-!
# The tokens of JSON values

`Json.tokens` lists the tokens of a value. Reading them gives the value again, at any depth
(`run?_tokens`). A number and a word are both a scalar, and no two of them stand next to each other
among the tokens of a value (`apart_tokens`): that is what a reader needs to see where a number
ends.
-/

namespace SimStats.Json

/-! ## Values -/

mutual

/-- The tokens of a value. -/
def tokens : Json → List Token
  | .scalar => [.scalar]
  | .string s => [.string s]
  | .array [] => [.openArray, .closeArray]
  | .array (v :: vs) => .openArray :: (v.tokens ++ furtherValues vs ++ [.closeArray])
  | .object [] => [.openObject, .closeObject]
  | .object ((name, v) :: ms) =>
    .openObject :: .string name :: .colon :: (v.tokens ++ furtherMembers ms ++ [.closeObject])

/-- The tokens of values after another one. -/
def furtherValues : List Json → List Token
  | [] => []
  | v :: vs => .comma :: (v.tokens ++ furtherValues vs)

/-- The tokens of members after another one. -/
def furtherMembers : List (Option String × Json) → List Token
  | [] => []
  | (name, v) :: ms => .comma :: .string name :: .colon :: (v.tokens ++ furtherMembers ms)

end

/-- No value begins like the end of an array. -/
theorem tokens_ne_closeArray (v : Json) (ts rest : List Token) :
    v.tokens ++ ts ≠ .closeArray :: rest := by
  rcases v with _ | _ | ⟨_ | ⟨v, vs⟩⟩ | ⟨_ | ⟨⟨name, v⟩, ms⟩⟩ <;> simp [tokens]

mutual

/-- Reading the tokens of a value gives the value. -/
theorem run?_tokens (frames : List Frame) (v : Json) (rest : List Token) :
    run? frames none (v.tokens ++ rest) = run? frames (some v) rest := by
  match v with
  | .scalar => rw [tokens, List.singleton_append, run?]
  | .string s => rw [tokens, List.singleton_append, run?]
  | .array [] => rw [tokens, List.cons_append, List.singleton_append, run?]
  | .array (v :: vs) =>
    rw [tokens, List.cons_append, List.append_assoc, List.append_assoc, run?, run?_tokens,
      run?_furtherValues]
    · rfl
    · intro ts
      exact tokens_ne_closeArray v _ ts
  | .object [] => rw [tokens, List.cons_append, List.singleton_append, run?]
  | .object ((name, v) :: ms) =>
    rw [tokens, List.cons_append, List.cons_append, List.cons_append, List.append_assoc,
      List.append_assoc, run?, run?_tokens, run?_furtherMembers]
    rfl

theorem run?_furtherValues (frames : List Frame) (done : List Json) (v : Json) (vs : List Json)
    (rest : List Token) :
    run? (.array done :: frames) (some v) (furtherValues vs ++ ([.closeArray] ++ rest)) =
      run? frames (some (.array (done.reverse ++ v :: vs))) rest := by
  match vs with
  | [] =>
    rw [furtherValues, List.nil_append, List.singleton_append, run?]
    simp
  | w :: vs =>
    rw [furtherValues, List.cons_append, List.append_assoc, run?, run?_tokens, run?_furtherValues]
    simp

theorem run?_furtherMembers (frames : List Frame) (done : List (Option String × Json))
    (name : Option String) (v : Json) (ms : List (Option String × Json)) (rest : List Token) :
    run? (.object done name :: frames) (some v) (furtherMembers ms ++ ([.closeObject] ++ rest)) =
      run? frames (some (.object (done.reverse ++ (name, v) :: ms))) rest := by
  match ms with
  | [] =>
    rw [furtherMembers, List.nil_append, List.singleton_append, run?]
    simp
  | (next, w) :: ms =>
    rw [furtherMembers, List.cons_append, List.cons_append, List.cons_append, List.append_assoc,
      run?, run?_tokens, run?_furtherMembers]
    simp

end

/-! ## Neighbours -/

/-- No scalar stands right behind another one. -/
def Apart (ts : List Token) : Prop := ts.IsChain fun a b => a ≠ .scalar ∨ b ≠ .scalar

theorem Apart.cons {t : Token} {ts : List Token} (h : Apart ts)
    (ht : t = .scalar → ts.head? ≠ some .scalar) : Apart (t :: ts) := by
  refine List.isChain_cons.mpr ⟨?_, h⟩
  intro u hu
  by_contra hboth
  obtain ⟨rfl, rfl⟩ : t = .scalar ∧ u = .scalar := by simpa using hboth
  exact ht rfl hu

theorem Apart.cons_of_ne {t : Token} {ts : List Token} (ht : t ≠ .scalar) (h : Apart ts) :
    Apart (t :: ts) :=
  h.cons fun hscalar => absurd hscalar ht

theorem Apart.of_cons {t : Token} {ts : List Token} (h : Apart (t :: ts)) :
    Apart ts ∧ (t = .scalar → ts.head? ≠ some .scalar) := by
  obtain ⟨hhead, htail⟩ := List.isChain_cons.mp h
  refine ⟨htail, ?_⟩
  rintro rfl hscalar
  simpa using hhead _ hscalar

theorem head?_furtherValues {vs : List Json} {rest : List Token} (h : rest.head? ≠ some .scalar) :
    (furtherValues vs ++ rest).head? ≠ some .scalar := by
  cases vs <;> simp [furtherValues, h]

theorem head?_furtherMembers {ms : List (Option String × Json)} {rest : List Token}
    (h : rest.head? ≠ some .scalar) : (furtherMembers ms ++ rest).head? ≠ some .scalar := by
  rcases ms with _ | ⟨⟨name, v⟩, ms⟩ <;> simp [furtherMembers, h]

theorem apart_close {t : Token} {rest : List Token} (ht : t ≠ .scalar) (h : Apart rest) :
    Apart ([t] ++ rest) ∧ ([t] ++ rest).head? ≠ some .scalar :=
  ⟨.cons_of_ne ht h, by simpa using ht⟩

mutual

/-- Among the tokens of a value scalars stand apart. -/
theorem apart_tokens (v : Json) {rest : List Token} (h : Apart rest)
    (hhead : rest.head? ≠ some .scalar) : Apart (v.tokens ++ rest) := by
  match v with
  | .scalar => exact h.cons fun _ => hhead
  | .string s => exact .cons_of_ne nofun h
  | .array [] =>
    rw [tokens, List.cons_append]
    exact .cons_of_ne nofun (.cons_of_ne nofun h)
  | .array (v :: vs) =>
    obtain ⟨hclose, hend⟩ := apart_close (t := .closeArray) nofun h
    rw [tokens, List.cons_append, List.append_assoc, List.append_assoc]
    have hvalues := apart_furtherValues vs hclose hend
    exact .cons_of_ne nofun (apart_tokens v hvalues (head?_furtherValues hend))
  | .object [] =>
    rw [tokens, List.cons_append]
    exact .cons_of_ne nofun (.cons_of_ne nofun h)
  | .object ((name, v) :: ms) =>
    obtain ⟨hclose, hend⟩ := apart_close (t := .closeObject) nofun h
    rw [tokens, List.cons_append, List.cons_append, List.cons_append, List.append_assoc,
      List.append_assoc]
    have hmembers := apart_furtherMembers ms hclose hend
    have hvalue := apart_tokens v hmembers (head?_furtherMembers hend)
    exact .cons_of_ne nofun (.cons_of_ne nofun (.cons_of_ne nofun hvalue))

theorem apart_furtherValues (vs : List Json) {rest : List Token} (h : Apart rest)
    (hhead : rest.head? ≠ some .scalar) : Apart (furtherValues vs ++ rest) := by
  match vs with
  | [] => exact h
  | v :: vs =>
    rw [furtherValues, List.cons_append, List.append_assoc]
    have hvalues := apart_furtherValues vs h hhead
    exact .cons_of_ne nofun (apart_tokens v hvalues (head?_furtherValues hhead))

theorem apart_furtherMembers (ms : List (Option String × Json)) {rest : List Token} (h : Apart rest)
    (hhead : rest.head? ≠ some .scalar) : Apart (furtherMembers ms ++ rest) := by
  match ms with
  | [] => exact h
  | (name, v) :: ms =>
    rw [furtherMembers, List.cons_append, List.cons_append, List.cons_append, List.append_assoc]
    have hmembers := apart_furtherMembers ms h hhead
    have hvalue := apart_tokens v hmembers (head?_furtherMembers hhead)
    exact .cons_of_ne nofun (.cons_of_ne nofun (.cons_of_ne nofun hvalue))

end

/-! ## Arrays and objects -/

theorem tokens_array {α : Type} (value : α → Json) (a : α) (l : List α) :
    (array ((a :: l).map value)).tokens = [.openArray] ++
      ((value a).tokens ++ l.flatMap fun b => .comma :: (value b).tokens) ++ [.closeArray] := by
  have hfurther : furtherValues (l.map value) = l.flatMap fun b => .comma :: (value b).tokens := by
    induction l with
    | nil => rfl
    | cons b l ih => simp [furtherValues, ih]
  rw [List.map_cons, tokens, hfurther]
  rfl

theorem tokens_object {α : Type} (name : α → Option String) (value : α → Json) (a : α)
    (l : List α) :
    (object ((a :: l).map fun b => (name b, value b))).tokens = [.openObject] ++
      (.string (name a) :: .colon :: (value a).tokens ++
        l.flatMap fun b => .comma :: .string (name b) :: .colon :: (value b).tokens) ++
      [.closeObject] := by
  have hfurther : furtherMembers (l.map fun b => (name b, value b)) =
      l.flatMap fun b => .comma :: .string (name b) :: .colon :: (value b).tokens := by
    induction l with
    | nil => rfl
    | cons b l ih => simp [furtherMembers, ih]
  rw [List.map_cons, tokens, hfurther]
  rfl

end SimStats.Json
