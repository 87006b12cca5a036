import Guion.Text.Numeral

/-!
# Guion.Decimal — decimal numbers and the 64-bit floating-point numbers nearest to them

A decimal number is a sign, a coefficient and a power of ten, and is exact. Where a format asks for
a binary floating-point number with 53 significant bits, the decimal is rounded to the nearest one,
a tie going to the even neighbour. All of it is done in integers.

* `Decimal.parse?` — the decimal that a numeral denotes;
* `Decimal.overflows` — whether the nearest floating-point number would be infinite;
* `Decimal.truncated` — the integer part of the nearest floating-point number.
-/

namespace Guion

/-- The number `coefficient * 10 ^ exponent`, negated if `negative`. -/
structure Decimal where
  negative : Bool
  coefficient : Nat
  exponent : Int
  deriving DecidableEq, Inhabited

namespace Decimal

/-! ## Numerals -/

/-- Splits off a sign; without one the number is not negative. -/
def splitSign : List Char → Bool × List Char
  | '-' :: rest => (true, rest)
  | '+' :: rest => (false, rest)
  | rest => (false, rest)

/-- The exponent after the mark `e`, or zero where there is no mark. -/
def exponent? (cs : List Char) : Option Int :=
  match cs with
  | [] => some 0
  | mark :: rest =>
    let (negative, digits) := splitSign rest
    if (mark = 'e' ∨ mark = 'E') ∧ digits ≠ [] ∧ digits.all Char.isDigit then
      some (if negative then -(Text.digitsValue digits : Int) else Text.digitsValue digits)
    else none

/-- The decimal that a numeral denotes: an optional sign, digits with an optional point among or
around them, and an optional exponent. -/
def parse? (cs : List Char) : Option Decimal :=
  let (negative, body) := splitSign cs
  let whole := body.takeWhile Char.isDigit
  let (fraction, rest) := match body.dropWhile Char.isDigit with
    | '.' :: more => (more.takeWhile Char.isDigit, more.dropWhile Char.isDigit)
    | more => ([], more)
  if whole.isEmpty && fraction.isEmpty then none
  else (exponent? rest).map fun e =>
    ⟨negative, Text.digitsValue (whole ++ fraction), e - fraction.length⟩

/-! ## Nearest floating-point numbers -/

/-- The number of decimal digits of `n`; none for zero. -/
def digitCount (n : Nat) : Nat :=
  if n = 0 then 0 else (Nat.toDigits 10 n).length

/-- The coefficient and power of ten as a fraction. -/
def fraction (d : Decimal) : Nat × Nat :=
  if 0 ≤ d.exponent then (d.coefficient * Nat.pow 10 d.exponent.toNat, 1)
  else (d.coefficient, Nat.pow 10 (-d.exponent).toNat)

/-- The least number that is rounded to infinity: half a unit above the largest finite one. -/
def infinityBound : Nat :=
  1 <<< 1024 - 1 <<< 970

/-- The power of ten just above the number. -/
def magnitude (d : Decimal) : Int :=
  digitCount d.coefficient + d.exponent

/-- Whether the nearest floating-point number is infinite. The magnitude decides all but the
numbers of as many digits as the bound. -/
def overflows (d : Decimal) : Bool :=
  if d.coefficient = 0 ∨ d.magnitude < 309 then false
  else if 309 < d.magnitude then true
  else infinityBound * d.fraction.2 ≤ d.fraction.1

/-- The integer nearest to `num / den`, a tie going to the even one. -/
def roundDiv (num den : Nat) : Nat :=
  let q := num / den
  let twice := 2 * (num % den)
  if twice < den then q else if den < twice then q + 1 else q + q % 2

/-- The integer part of the fraction `num / den` after rounding it to 53 significant bits. -/
def truncatedFraction (num den : Nat) : Nat :=
  if num = 0 ∨ den = 0 then 0
  else
    -- The position of the leading bit, possibly one too high.
    let guess : Int := (num.log2 : Int) - den.log2
    let atLeast (e : Int) : Bool :=
      if 0 ≤ e then den <<< e.toNat ≤ num else den ≤ num <<< (-e).toNat
    let lead := if atLeast guess then guess else guess - 1
    let shift := 52 - lead
    if 0 ≤ shift then roundDiv (num <<< shift.toNat) den >>> shift.toNat
    else roundDiv num (den <<< (-shift).toNat) <<< (-shift).toNat

/-- The integer part of the nearest floating-point number, for numbers of ordinary size: one with
more than thirty digits before the point is replaced by `10 ^ 30`. -/
def truncated (d : Decimal) : Int :=
  let size : Nat :=
    if d.coefficient = 0 ∨ d.magnitude < -5 then 0
    else if 30 < d.magnitude then Nat.pow 10 30
    else truncatedFraction d.fraction.1 d.fraction.2
  if d.negative then -size else size

end Decimal

end Guion
