import Guion.Text.Numeral
import Mathlib.Data.List.Induction
import Mathlib.Data.Nat.Digits.Defs

/-!
# Guion.Proofs.Text.Numeral — numbers and their digits

Digits without a sign denote a number that is not negative, and the canonical digits of a number
denote it again.

* `exists_nat_of_parseInt?`, `parseInt?_of_digits` — what digits denote;
* `parseInt?_toString` — the canonical digits of a number of 64 bits are read as that number.
-/

namespace Guion.Text

/-- A digit is no sign, so a text that begins with one is all digits or no numeral. -/
theorem parseInt?_of_isDigit {s : String} {c : Char} {cs : List Char} (hs : s.toList = c :: cs)
    (hc : c.isDigit = true) : parseInt? s = digitsInt? false (c :: cs) := by
  unfold parseInt?
  rw [hs]
  split
  case h_1 digits heq =>
    cases heq
    exact absurd hc (by decide)
  case h_2 digits heq =>
    cases heq
    exact absurd hc (by decide)
  case h_3 => rfl

theorem int64?_eq_some {n value : Int} (h : int64? n = some value) :
    value = n ∧ Word.InRange n := by
  by_cases hrange : Word.InRange n
  · rw [int64?, if_pos hrange] at h
    exact ⟨(Option.some.inj h).symm, hrange⟩
  · rw [int64?, if_neg hrange] at h
    cases h

/-- Digits denote a number that is not negative and fits 64 bits. -/
theorem exists_nat_of_parseInt? {s : String} {c : Char} {cs : List Char} {value : Int}
    (hs : s.toList = c :: cs) (hc : c.isDigit = true) (hvalue : parseInt? s = some value) :
    ∃ n : Nat, value = n ∧ Word.InRange n := by
  rw [parseInt?_of_isDigit hs hc, digitsInt?] at hvalue
  split at hvalue
  · cases hvalue
  · obtain ⟨rfl, hrange⟩ := int64?_eq_some hvalue
    exact ⟨digitsValue (c :: cs), rfl, hrange⟩

/-- Digits denote a number by their places, the last of which is that of the ones. -/
theorem digitsValue_eq_ofDigits (digits : List Char) :
    digitsValue digits = Nat.ofDigits 10 (digits.reverse.map digitValue) := by
  induction digits using List.reverseRecOn with
  | nil => rfl
  | append_singleton digits c ih =>
    have hlast : digitsValue (digits ++ [c]) = digitsValue digits * 10 + digitValue c :=
      List.foldl_append
    rw [hlast, List.reverse_concat, List.map_cons, Nat.ofDigits_cons, ← ih]
    omega

/-- Digits are read as the number that they denote, if that is below the bound, however many there
are. -/
theorem parseInt?_of_digits {s : String} (hne : s.toList ≠ [])
    (hdigits : ∀ c ∈ s.toList, c.isDigit = true) : parseInt? s
      = if digitsValue s.toList < 2 ^ 63 then some (digitsValue s.toList : Int) else none := by
  obtain ⟨c, cs, hs⟩ := List.exists_cons_of_ne_nil hne
  rw [hs] at hdigits ⊢
  have hall : (c :: cs).all Char.isDigit = true := List.all_eq_true.mpr hdigits
  rw [parseInt?_of_isDigit hs (hdigits c List.mem_cons_self), digitsInt?, hall, if_neg (by simp),
    if_neg Bool.false_ne_true, int64?]
  refine if_congr ?_ rfl rfl
  simp only [Word.InRange, Word.bound]
  omega

/-- The digits of a number denote it. -/
theorem digitsValue_toDigits (n : Nat) : digitsValue (Nat.toDigits 10 n) = n := by
  have h := Nat.ofDigitChars_ten_toDigits (n := n)
  rw [Nat.ofDigitChars_eq_foldl] at h
  simpa only [digitsValue, digitValue, Nat.mul_comm] using h

/-- The digits of a number are digits, and there is one. -/
theorem exists_digits (n : Nat) :
    ∃ c cs, (toString (n : Int)).toList = c :: cs ∧ ∀ d ∈ c :: cs, d.isDigit = true := by
  obtain ⟨c, cs, h⟩ := List.exists_cons_of_ne_nil (Nat.toDigits_ne_nil (n := n) (b := 10))
  refine ⟨c, cs, ?_, fun d hd => ?_⟩
  · rw [← h]
    exact Nat.toList_repr
  · rw [← h] at hd
    exact Nat.isDigit_of_mem_toDigits (by decide) (by decide) hd

/-- The canonical digits of a number of 64 bits are read as that number. -/
theorem parseInt?_toString {n : Nat} (h : Word.InRange n) :
    parseInt? (toString (n : Int)) = some (n : Int) := by
  obtain ⟨c, cs, hs, hdigits⟩ := exists_digits n
  have hvalue : digitsValue (toString (n : Int)).toList = n :=
    (congrArg digitsValue Nat.toList_repr).trans (digitsValue_toDigits n)
  have hlt : n < 2 ^ 63 := by
    simp only [Word.InRange, Word.bound] at h
    omega
  rw [← hs] at hdigits
  rw [parseInt?_of_digits (hs ▸ List.cons_ne_nil c cs) hdigits, hvalue, if_pos hlt]

end Guion.Text
