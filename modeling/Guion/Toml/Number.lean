import Guion.Decimal
import Guion.Toml.Text

/-!
# Guion.Toml.Number — integers, floating-point numbers, dates and times

All of these begin with a digit, most numbers also with a sign. What follows the first digits tells
them apart: a dash or a colon makes a date or a time, a point or an exponent a floating-point
number. Integers must fit 64 bits and floating-point numbers must be finite; dates must exist.
-/

namespace Guion.Toml

/-- What a numeral denotes. Only the values of integers matter to readers of a document. -/
inductive Numeral where
  | integer (n : Int)
  | float
  | date
  deriving DecidableEq, Inhabited

/-! ## Underscores and zeros -/

/-- Whether every underscore has a digit on both sides, and a digit comes last. Digits are those of
any base. -/
def underscoresFit (cs : List Char) : Bool :=
  let fits := cs.foldl (fun (ok, digit) c => (ok && (c ≠ '_' || digit), (hexDigit? c).isSome))
    (true, false)
  fits.1 && fits.2

/-- Whether decimal digits, perhaps after a sign, begin with a zero that is not the only one. -/
def leadingZero (cs : List Char) : Bool :=
  match (Decimal.splitSign cs).2 with
  | '0' :: _ :: _ => true
  | _ => false

/-- The digits without the underscores among them. -/
def plainDigits (cs : List Char) : List Char :=
  cs.filter (· ≠ '_')

/-! ## Integers -/

/-- The integer that digits of a base denote, if it fits 64 bits. -/
def basedInteger? (base : Nat) (digits : List Char) : Option Numeral := do
  guard (underscoresFit digits)
  let values ← (plainDigits digits).mapM hexDigit?
  let n ← Text.int64? (values.foldl (fun n d => n * base + d) 0 : Nat)
  return .integer n

/-- The integer that decimal digits denote, perhaps after a sign. -/
def decimalInteger? (cs : List Char) : Option Numeral := do
  guard (underscoresFit cs && !leadingZero cs)
  let n ← Text.parseInt? (String.ofList (plainDigits cs))
  return .integer n

/-! ## Floating-point numbers -/

/-- The pieces of a numeral between points and exponent marks, without empty ones. -/
def floatParts (cs : List Char) : List (List Char) :=
  (cs.splitBy fun a b => !isMark a && !isMark b).filter fun part => !part.all isMark
where
  /-- Points and exponent marks. -/
  isMark (c : Char) : Bool := c = '.' || c = 'e' || c = 'E'

/-- Whether a digit follows every point. -/
def pointsFit : List Char → Bool
  | [] => true
  | '.' :: rest => rest.head?.any Char.isDigit && pointsFit rest
  | _ :: rest => pointsFit rest

/-- Whether a numeral with a point or an exponent denotes a finite number. -/
def float? (cs : List Char) : Option Numeral := do
  let parts := floatParts cs
  guard (parts.all underscoresFit && !(parts.head?.any leadingZero) && pointsFit cs)
  let d ← Decimal.parse? (plainDigits cs)
  guard !d.overflows
  return .float

/-! ## Dates and times -/

/-- Reads exactly `n` digits. -/
def fixed? (n : Nat) (cs : List Char) : Option (Nat × List Char) :=
  let digits := cs.take n
  if digits.length = n ∧ digits.all Char.isDigit then some (Text.digitsValue digits, cs.drop n)
  else none

/-- Reads the separator `c`. -/
def separator? (c : Char) : List Char → Option (List Char)
  | [] => none
  | d :: rest => if d = c then some rest else none

/-- The number of days of a month. -/
def daysIn (year month : Nat) : Nat :=
  if month = 2 then
    if year % 4 = 0 ∧ (year % 100 ≠ 0 ∨ year % 400 = 0) then 29 else 28
  else if month = 4 ∨ month = 6 ∨ month = 9 ∨ month = 11 then 30
  else 31

/-- Reads a date that exists. -/
def date? (cs : List Char) : Option (List Char) := do
  let (year, cs) ← fixed? 4 cs
  let (month, cs) ← fixed? 2 (← separator? '-' cs)
  let (day, cs) ← fixed? 2 (← separator? '-' cs)
  guard (1 ≤ month ∧ month ≤ 12 ∧ 1 ≤ day ∧ day ≤ daysIn year month)
  return cs

/-- Reads a time of day, with an optional fraction of a second. -/
def time? (cs : List Char) : Option (List Char) := do
  let (hour, cs) ← fixed? 2 cs
  let (minute, cs) ← fixed? 2 (← separator? ':' cs)
  let (second, cs) ← fixed? 2 (← separator? ':' cs)
  guard (hour ≤ 23 ∧ minute ≤ 59 ∧ second ≤ 59)
  match cs with
  | '.' :: d :: rest => return if d.isDigit then rest.dropWhile Char.isDigit else cs
  | cs => return cs

/-- Whether the characters are a distance from universal time, or nothing. -/
def isOffset (cs : List Char) : Bool :=
  match cs with
  | [] | ['Z'] => true
  | sign :: rest =>
    (sign = '+' || sign = '-') && (do
      let (hours, rest) ← fixed? 2 rest
      let (minutes, rest) ← fixed? 2 (← separator? ':' rest)
      guard (hours ≤ 24 ∧ minutes ≤ 60 ∧ rest = [])).isSome

/-- Whether the characters are a date, a time, or a date with a time, which may have a distance from
universal time. -/
def isMoment (cs : List Char) : Bool :=
  match date? cs with
  | some [] => true
  | some ('T' :: rest) => (time? rest).any isOffset
  | some _ => false
  | none => time? cs = some []

/-- The characters of dates and times. -/
def isMomentChar (c : Char) : Bool :=
  c.isDigit || ['-', ':', 'T', 't', ' ', '.', 'Z', 'z', '+'].contains c

/-- The standard spelling of a character of a date or time. -/
def momentChar (c : Char) : Char :=
  if c = 'z' then 'Z' else if c = 't' || c = ' ' then 'T' else c

/-- Reads a date or a time, and the blanks after it. -/
def moment? (cs : List Char) : Option (Numeral × List Char) :=
  let text := ((cs.takeWhile isMomentChar).reverse.dropWhile (· = ' ')).reverse
  if isMoment (text.map momentChar) then some (.date, cs.dropWhile isMomentChar) else none

/-! ## Numerals -/

/-- The characters of floating-point numbers. -/
def isFloatChar (c : Char) : Bool :=
  c.isDigit || ['_', '.', '-', '+', 'e', 'E'].contains c

/-- Reads digits of a base, of which there must be one at the front. -/
def based? (base : Nat) (cs : List Char) : Option (Numeral × List Char) :=
  let isDigit (c : Char) := (hexDigit? c).any (· < base)
  if cs.head?.any isDigit then
    (basedInteger? base (cs.takeWhile fun c => isDigit c || c = '_')).map
      (·, cs.dropWhile fun c => isDigit c || c = '_')
  else none

/-- Reads decimal digits, after the characters `before` of the same numeral, as an integer or a
floating-point number. -/
def decimal? (before cs : List Char) : Option (Numeral × List Char) :=
  let isDigit (c : Char) := c.isDigit || c = '_'
  match cs.dropWhile isDigit with
  | mark :: _ =>
    if mark = '.' || mark = 'e' || mark = 'E' then
      (float? (before ++ cs.takeWhile isFloatChar)).map (·, cs.dropWhile isFloatChar)
    else (decimalInteger? (before ++ cs.takeWhile isDigit)).map (·, cs.dropWhile isDigit)
  | [] => (decimalInteger? (before ++ cs.takeWhile isDigit)).map (·, [])

/-- Reads what begins with a digit. -/
def unsigned? : List Char → Option (Numeral × List Char)
  | '0' :: 'x' :: rest => based? 16 rest
  | '0' :: 'o' :: rest => based? 8 rest
  | '0' :: 'b' :: rest => based? 2 rest
  | cs =>
    match cs.dropWhile Char.isDigit with
    | mark :: _ => if mark = '-' || mark = ':' then moment? cs else decimal? [] cs
    | [] => decimal? [] cs

/-- Reads what begins with a sign, from after the sign on. -/
def signed? (sign : Char) : List Char → Option (Numeral × List Char)
  | 'i' :: 'n' :: 'f' :: rest => some (.float, rest)
  | 'n' :: 'a' :: 'n' :: rest => some (.float, rest)
  | '0' :: mark :: rest =>
    if mark = 'x' || mark = 'o' || mark = 'b' then none else decimal? [sign] ('0' :: mark :: rest)
  | d :: rest => if d.isDigit then decimal? [sign] (d :: rest) else none
  | [] => none

end Guion.Toml
