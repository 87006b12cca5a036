/-!
# Guion.Text.Case — letter case, as far as it reaches ASCII

Names that users write in any letter case (levels, file extensions, keys) are compared with words
made of ASCII letters. What matters of the case mappings is therefore only which characters map
*to* an ASCII letter: the ASCII capitals, and a few characters beyond ASCII.

* `lower` — the lower-case mapping: U+0130 goes to `i` and U+212A to `k`;
* `fold` — case folding: U+017F goes to `s` and U+212A to `k`.
-/

namespace Guion.Text

/-- The lower-case form of `c` where that is an ASCII letter; every other character is kept. -/
def lowerChar (c : Char) : Char :=
  if c = '\u0130' then 'i'
  else if c = '\u212a' then 'k'
  else c.toLower

/-- The text with every character in lower case. -/
def lower (s : String) : String :=
  s.map lowerChar

/-- The folded form of `c` where that is an ASCII letter; every other character is kept. -/
def foldChar (c : Char) : Char :=
  if c = '\u017f' then 's'
  else if c = '\u212a' then 'k'
  else c.toLower

/-- The text with every character folded, so that texts equal up to case become equal. -/
def fold (s : String) : String :=
  s.map foldChar

end Guion.Text
