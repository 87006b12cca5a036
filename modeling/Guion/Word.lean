/-!
# Guion.Word — integers of 64 bits

Positions and settings are machine words: an integer with a sign that fits 64 bits. Sums and
differences that leave the range come back at its other end, which `Word.wrap` states as the
remainder of smallest absolute value modulo `2 ^ 64`.
-/

namespace Guion.Word

/-- The number of words, which is `2 ^ 64`. -/
abbrev count : Nat := 0x10000000000000000

/-- The least integer above all words, which is `2 ^ 63`. -/
abbrev bound : Int := 0x8000000000000000

/-- The word that a result of exact arithmetic becomes. -/
def wrap (n : Int) : Int :=
  n.bmod count

/-- A word is an integer of 64 bits with a sign. -/
def InRange (n : Int) : Prop :=
  -bound ≤ n ∧ n < bound

instance (n : Int) : Decidable (InRange n) :=
  inferInstanceAs (Decidable (_ ∧ _))

/-- Nothing wraps inside the range. -/
theorem wrap_of_inRange {n : Int} (h : InRange n) : wrap n = n := by
  simp only [InRange, bound] at h
  exact Int.bmod_eq_of_le (by simp only [count]; omega) (by simp only [count]; omega)

/-- Every result is a word. -/
theorem inRange_wrap (n : Int) : InRange (wrap n) := by
  have h₁ := Int.le_bmod (x := n) (m := count) (by decide)
  have h₂ := Int.bmod_lt (x := n) (m := count) (by decide)
  simp only [InRange, wrap, count, bound] at *
  omega

end Guion.Word
