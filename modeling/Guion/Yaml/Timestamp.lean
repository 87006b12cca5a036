import Guion.Text.Numeral

/-!
# Guion.Yaml.Timestamp — dates and times

A timestamp is a date, or a date and a time of day. The year has four digits and everything else
one or two. The time follows the letter `T` and ends with a zone, or follows spaces and has none.
-/

namespace Guion.Yaml.Timestamp

/-- The number of one or two digits at the front. -/
def number? : List Char → Option (Nat × List Char)
  | a :: b :: rest =>
    if a.isDigit then
      some (if b.isDigit then (Text.digitsValue [a, b], rest)
        else (Text.digitsValue [a], b :: rest))
    else none
  | [a] => if a.isDigit then some (Text.digitsValue [a], []) else none
  | [] => none

/-- What follows a character at the front. -/
def after? (c : Char) : List Char → Option (List Char)
  | first :: rest => if first = c then some rest else none
  | [] => none

/-- The number of days of a month. -/
def daysIn (year month : Nat) : Nat :=
  if month = 2 then
    if year % 4 = 0 ∧ (year % 100 ≠ 0 ∨ year % 400 = 0) then 29 else 28
  else if month ∈ [4, 6, 9, 11] then 30
  else 31

/-- What follows the date at the front. -/
def date? (cs : List Char) : Option (List Char) := do
  let digits := cs.takeWhile Char.isDigit
  guard (digits.length = 4)
  let (month, rest) ← number? (← after? '-' (cs.drop 4))
  let (day, rest) ← number? (← after? '-' rest)
  guard (1 ≤ month ∧ month ≤ 12)
  guard (1 ≤ day ∧ day ≤ daysIn (Text.digitsValue digits) month)
  return rest

/-- What follows the time of day at the front. -/
def time? (cs : List Char) : Option (List Char) := do
  let (hour, rest) ← number? cs
  let (minute, rest) ← number? (← after? ':' rest)
  let (second, rest) ← number? (← after? ':' rest)
  guard (hour < 24 ∧ minute < 60 ∧ second < 60)
  match rest with
  | mark :: digit :: more =>
    if (mark = '.' ∨ mark = ',') ∧ digit.isDigit then some (more.dropWhile Char.isDigit)
    else some rest
  | _ => some rest

/-- Whether a text is a zone: `Z`, or a sign, hours and minutes. -/
def isZone : List Char → Bool
  | ['Z'] => true
  | [sign, a, b, ':', c, d] =>
    (sign = '+' || sign = '-') && [a, b, c, d].all Char.isDigit
      && Text.digitsValue [a, b] ≤ 24 && Text.digitsValue [c, d] ≤ 60
  | _ => false

/-- Whether a text is a timestamp. -/
def isTimestamp (text : String) : Bool :=
  match date? text.toList with
  | none => false
  | some [] => true
  | some (mark :: rest) =>
    if mark = 'T' || mark = 't' then (time? rest).any isZone
    else mark = ' ' && (time? (rest.dropWhile (· = ' '))).any List.isEmpty

end Guion.Yaml.Timestamp
