import Mathlib.Algebra.Ring.Nat
import SimStats.Proofs.Text.Lines

/-!
# The order of texts and of their bytes

Texts are ordered by the code points of their characters. Their bytes are in the same order
(`Text.bytes_lt_bytes`): a character is coded in a first byte and up to three trailing ones, larger
characters have larger first bytes or the same form, and in one form they are numbers in base 64
with their digits from first to last.
-/

namespace SimStats.Text

/-! ## Forms of characters -/

/-- The last digits of a number in base 64, as trailing bytes. -/
def trailing : Nat → Nat → List UInt8
  | 0, _ => []
  | k + 1, n => trailing k (n / 64) ++ [UInt8.ofNat (n % 64 + 0x80)]

/-- A number in a first byte, which is counted from `lead` on, and `k` trailing bytes. -/
def coded (lead k n : Nat) : List UInt8 := UInt8.ofNat (n / 64 ^ k + lead) :: trailing k n

/-- Which characters are coded in which form. -/
inductive Form : Nat → Nat → Nat → Prop where
  /-- one byte -/
  | one {n : Nat} : n < 0x80 → Form 0 0 n
  /-- two bytes -/
  | two {n : Nat} : 0x80 ≤ n → n < 0x800 → Form 0xC0 1 n
  /-- three bytes -/
  | three {n : Nat} : 0x800 ≤ n → n < 0x10000 → Form 0xE0 2 n
  /-- four bytes -/
  | four {n : Nat} : 0x10000 ≤ n → n < 0x110000 → Form 0xF0 3 n

theorem exists_form (c : Char) :
    ∃ lead k, Form lead k c.toNat ∧ String.utf8EncodeChar c = coded lead k c.toNat := by
  have hnat : c.toNat = c.val.toNat := rfl
  have hlt : c.val.toNat < 0x110000 := by
    rcases c.valid with h | h
    · exact h.trans (by decide)
    · exact h.2
  rw [hnat]
  fun_cases String.utf8EncodeChar c with
  | case1 n h => exact ⟨0, 0, .one (Nat.lt_succ_of_le h), by simp [coded, trailing, n]⟩
  | case2 n h h2 =>
    have hfirst : n / 64 % 32 = n / 64 := Nat.mod_eq_of_lt (by omega)
    refine ⟨0xC0, 1, .two (Nat.not_le.mp h) (Nat.lt_succ_of_le h2), ?_⟩
    rw [hfirst]
    rfl
  | case3 n _ h h3 =>
    have hfirst : n / 4096 % 16 = n / 4096 := Nat.mod_eq_of_lt (by omega)
    refine ⟨0xE0, 2, .three (Nat.not_le.mp h) (Nat.lt_succ_of_le h3), ?_⟩
    rw [hfirst]
    rfl
  | case4 n _ _ h =>
    have hfirst : n / 262144 % 8 = n / 262144 := Nat.mod_eq_of_lt (by omega)
    have hsecond : n / 4096 = n / 64 / 64 := by omega
    refine ⟨0xF0, 3, .four (Nat.not_le.mp h) hlt, ?_⟩
    rw [hfirst, hsecond]
    rfl

namespace Form

variable {lead lead' k k' m n : Nat}

/-- The first byte is one. -/
theorem lt (h : Form lead k n) : n / 64 ^ k + lead < 256 := by
  cases h <;> omega

/-- Of two numbers in different forms the larger one has the larger first byte. -/
theorem eq_or_lt (hm : Form lead k m) (hn : Form lead' k' n) (h : m < n) :
    (lead = lead' ∧ k = k') ∨ m / 64 ^ k + lead < n / 64 ^ k' + lead' := by
  cases hm <;> cases hn <;> omega

end Form

/-! ## The order of bytes -/

theorem ofNat_cons_lt {m n : Nat} (h : m < n) (hn : n < 256) (s t : List UInt8) :
    UInt8.ofNat m :: s < UInt8.ofNat n :: t := by
  refine List.cons_lt_cons_iff.mpr (Or.inl ?_)
  rw [UInt8.lt_iff_toNat_lt, UInt8.toNat_ofNat', UInt8.toNat_ofNat']
  omega

/-- In one form the first digits decide, and the last one if they are the same. -/
theorem coded_append_lt {lead k m n : Nat} (h : m < n) (hn : n / 64 ^ k + lead < 256)
    (s t : List UInt8) : coded lead k m ++ s < coded lead k n ++ t := by
  induction k generalizing m n s t with
  | zero =>
    rw [Nat.pow_zero, Nat.div_one] at hn
    rw [coded, coded, Nat.pow_zero, Nat.div_one, Nat.div_one]
    exact ofNat_cons_lt (by omega) hn _ _
  | succ k ih =>
    have hlast (n : Nat) :
        coded lead (k + 1) n = coded lead k (n / 64) ++ [UInt8.ofNat (n % 64 + 0x80)] := by
      rw [coded, Nat.pow_succ', ← Nat.div_div_eq_div_mul]
      rfl
    rw [Nat.pow_succ', ← Nat.div_div_eq_div_mul] at hn
    rw [hlast, hlast, List.append_assoc, List.append_assoc]
    rcases (Nat.div_le_div_right (c := 64) h.le).lt_or_eq with hlt | heq
    · exact ih hlt hn _ _
    · rw [heq]
      exact List.append_left_lt (ofNat_cons_lt (by omega) (by omega) _ _)

theorem utf8EncodeChar_append_lt {c d : Char} (h : c < d) (s t : List UInt8) :
    String.utf8EncodeChar c ++ s < String.utf8EncodeChar d ++ t := by
  obtain ⟨lead, k, hc, hcoded⟩ := exists_form c
  obtain ⟨lead', k', hd, hcoded'⟩ := exists_form d
  rw [hcoded, hcoded']
  rcases hc.eq_or_lt hd h with ⟨rfl, rfl⟩ | hlt
  · exact coded_append_lt h hd.lt s t
  · exact ofNat_cons_lt hlt hd.lt _ _

theorem utf8_lt_utf8 {s t : List Char} (h : s < t) : utf8 s < utf8 t := by
  induction h with
  | nil =>
    obtain ⟨b, rest, hbytes⟩ := List.exists_cons_of_ne_nil (utf8_ne_nil (List.cons_ne_nil _ _))
    rw [hbytes]
    exact List.Lex.nil
  | rel h =>
    rw [utf8_cons, utf8_cons]
    exact utf8EncodeChar_append_lt h _ _
  | cons _ ih =>
    rw [utf8_cons, utf8_cons]
    exact List.append_left_lt ih

/-- Texts that are in order are in the order of their bytes. -/
theorem bytes_lt_bytes {a b : String} (h : a < b) :
    a.toUTF8.data.toList < b.toUTF8.data.toList := by
  rw [data_toUTF8, data_toUTF8]
  exact utf8_lt_utf8 (String.lt_iff.mp h)

end SimStats.Text
