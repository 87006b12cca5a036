import Guion.Decimal
import Guion.Text.Base64
import Guion.Yaml.Node
import Guion.Yaml.Timestamp

/-!
# Guion.Yaml.Meaning — what scalars mean

A scalar without a tag means a truth value, a number, a point in time or nothing at all if its text
is written like one, and else its text. A tag can only confirm what the text is written like, but
for a few: a string is any text, an integer is also a number with a fraction, and tags that the
format does not define say nothing about the text.
-/

namespace Guion.Yaml

/-- The meaning of a scalar. -/
inductive Meaning where
  | null
  | boolean (value : Bool)
  | integer (value : Int)
  | decimal (value : Decimal)
  | infinity (negative : Bool)
  | notANumber
  | timestamp
  | text (value : Text.Raw)
  deriving DecidableEq, Inhabited

namespace Meaning

/-- The tag of everything with such a meaning. -/
def tag : Meaning → String
  | null => "!!null"
  | boolean _ => "!!bool"
  | integer _ => "!!int"
  | decimal _ | infinity _ | notANumber => "!!float"
  | timestamp => "!!timestamp"
  | text _ => "!!str"

/-! ## Words -/

/-- The meaning of the words that have one. -/
def ofWord? (text : String) : Option Meaning :=
  if text ∈ ["", "~", "null", "Null", "NULL"] then some null
  else if text ∈ ["true", "True", "TRUE"] then some (boolean true)
  else if text ∈ ["false", "False", "FALSE"] then some (boolean false)
  else if text ∈ [".nan", ".NaN", ".NAN"] then some notANumber
  else if text ∈ [".inf", ".Inf", ".INF", "+.inf", "+.Inf", "+.INF"] then some (infinity false)
  else if text ∈ ["-.inf", "-.Inf", "-.INF"] then some (infinity true)
  else none

/-! ## Numbers -/

/-- The number that digits of a base denote. -/
def natural? (base : Nat) (digits : List Char) : Option Nat := do
  let values ← digits.mapM hexDigit?
  guard (values.all (· < base))
  return values.foldl (fun n d => n * base + d) 0

/-- The number that a numeral without a sign denotes. After a zero, a letter gives the base; without
a letter it is eight. -/
def magnitude? : List Char → Option Nat
  | '0' :: mark :: digit :: digits =>
    if mark = 'b' || mark = 'B' then natural? 2 (digit :: digits)
    else if mark = 'o' || mark = 'O' then natural? 8 (digit :: digits)
    else if mark = 'x' || mark = 'X' then natural? 16 (digit :: digits)
    else natural? 8 (mark :: digit :: digits)
  | '0' :: digits => natural? 8 digits
  | [] => none
  | digits => natural? 10 digits

/-- The integer that a numeral denotes, if it fits 64 bits: with a sign, or without one if the
numeral has none. -/
def integer? (cs : List Char) : Option Int :=
  match cs with
  | '-' :: digits => (magnitude? digits).bind fun n => Text.int64? (-(n : Int))
  | '+' :: digits => (magnitude? digits).bind fun n => Text.int64? n
  | digits => (magnitude? digits).bind fun n => if n < Word.count then some (n : Int) else none

/-- The integer that a numeral denotes whose sign stands behind the mark of its base. -/
def lateSign? : List Char → Option Int
  | '0' :: mark :: sign :: digit :: digits => do
    let base ← if mark = 'b' then some 2 else if mark = 'o' then some 8 else none
    guard (sign = '-' ∨ sign = '+')
    let n ← natural? base (digit :: digits)
    Text.int64? (if sign = '-' then -(n : Int) else n)
  | _ => none

/-- The decimal number that a numeral denotes, unless it is too large. -/
def decimal? (cs : List Char) : Option Decimal :=
  (Decimal.parse? cs).filter (!·.overflows)

/-- Whether underscores stand only between digits. -/
def separatesDigits : List Char → Bool
  | a :: '_' :: b :: rest => a.isDigit && b.isDigit && separatesDigits (b :: rest)
  | a :: rest => a ≠ '_' && rest ≠ ['_'] && separatesDigits rest
  | [] => true

/-- The meaning of a text that begins with a point. -/
def ofPoint (text : String) : Meaning :=
  let cs := text.toList
  let number := if separatesDigits cs then decimal? (cs.filter (· ≠ '_')) else none
  (number.map decimal).getD (.text text)

/-- The meaning of a text that begins with a digit or a sign; `stamps` says whether it may be a
timestamp. -/
def ofNumeral (stamps : Bool) (text : String) : Meaning :=
  let cs := text.toList.filter (· ≠ '_')
  if stamps && Timestamp.isTimestamp text then timestamp
  else ((integer? cs).map integer
    <|> (decimal? cs).map decimal
    <|> (lateSign? cs).map integer).getD (.text text)

/-! ## Scalars -/

/-- What a text is written like. -/
def ofText (stamps : Bool) (text : String) : Meaning :=
  (ofWord? text).getD <|
    match text.toList with
    | [] => null
    | c :: _ =>
      if c = '.' then ofPoint text
      else if c.isDigit || c = '+' || c = '-' then ofNumeral stamps text
      else .text text

/-- The tags that a text must be written like. -/
def checkedTags : List String :=
  ["!!bool", "!!int", "!!float", "!!null", "!!timestamp"]

/-- The meaning of a scalar, unless its text does not fit its tag. -/
def ofScalar? (tag text : String) : Option Meaning :=
  if tag = "" then some (ofText true text)
  else if tag = "!!binary" then
    (Text.Base64.decode? text).map fun bytes => .text (.ofBytes bytes)
  else if tag ∉ checkedTags then some (.text text)
  else
    let meaning := ofText (tag = "!!timestamp") text
    match meaning with
    | integer n =>
      if tag = "!!int" then some meaning
      else if tag = "!!float" ∧ n < Word.bound then some (decimal ⟨n < 0, n.natAbs, 0⟩)
      else none
    | _ => if meaning.tag = tag then some meaning else none

end Meaning

end Guion.Yaml
