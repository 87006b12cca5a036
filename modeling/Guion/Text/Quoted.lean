import Guion.Text.Printable
import Guion.Text.Raw

/-!
# Guion.Text.Quoted — text in double quotes

A quoted text is shown between double quotes. The quote and the backslash are escaped with a
backslash, printable characters stand for themselves, seven control characters have a letter of
their own, and the rest is written with the fewest of two, four or eight hexadecimal digits that
its class of code points needs. A stray byte of a raw text has two.
-/

namespace Guion.Text

/-- The lower-case hexadecimal digits of `n`, padded with zeros to at least `width` of them. -/
def hex (width n : Nat) : String :=
  let digits := Nat.toDigits 16 n
  String.ofList (List.replicate (width - digits.length) '0' ++ digits)

/-- How `c` is written between double quotes. -/
def quoteChar (c : Char) : String :=
  if c = '"' then "\\\""
  else if c = '\\' then "\\\\"
  else if isPrintable c then c.toString
  else if c = '\x07' then "\\a"
  else if c = '\x08' then "\\b"
  else if c = '\x0c' then "\\f"
  else if c = '\n' then "\\n"
  else if c = '\r' then "\\r"
  else if c = '\t' then "\\t"
  else if c = '\x0b' then "\\v"
  else if c.toNat < 0x20 ∨ c.toNat = 0x7f then "\\x" ++ hex 2 c.toNat
  else if c.toNat < 0x10000 then "\\u" ++ hex 4 c.toNat
  else "\\U" ++ hex 8 c.toNat

/-- The text in double quotes. -/
def quote (s : String) : String :=
  "\"" ++ String.join (s.toList.map quoteChar) ++ "\""

/-- A raw text in double quotes. -/
def Raw.quote (r : Raw) : String :=
  "\"" ++ String.join (r.items.map fun
    | .char c => quoteChar c
    | .stray byte => "\\x" ++ hex 2 byte.toNat) ++ "\""

end Guion.Text
