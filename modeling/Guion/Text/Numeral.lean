import Guion.Word

/-!
# Guion.Text.Numeral — numbers from their decimal digits

A numeral denotes the number that its digits spell, however many there are. Reading it as a 64-bit
integer is exact: it succeeds only on an optional sign and at least one digit, and only if the
number lies between `-2 ^ 63` and `2 ^ 63 - 1`.
-/

namespace Guion.Text

/-- The value of an ASCII digit. -/
def digitValue (c : Char) : Nat :=
  c.toNat - '0'.toNat

/-- The number that decimal digits denote, the first being the most significant. -/
def digitsValue (digits : List Char) : Nat :=
  digits.foldl (fun n c => n * 10 + digitValue c) 0

/-- The integer itself if it fits 64 bits with a sign. -/
def int64? (n : Int) : Option Int :=
  if Word.InRange n then some n else none

/-- The 64-bit integer that unsigned decimal digits denote, negated if `negative`. -/
def digitsInt? (negative : Bool) (digits : List Char) : Option Int :=
  if digits.isEmpty || !digits.all Char.isDigit then none
  else int64? (if negative then -(digitsValue digits : Int) else digitsValue digits)

/-- The 64-bit integer that a text denotes: an optional sign and decimal digits. -/
def parseInt? (s : String) : Option Int :=
  match s.toList with
  | '-' :: digits => digitsInt? true digits
  | '+' :: digits => digitsInt? false digits
  | digits => digitsInt? false digits

end Guion.Text
