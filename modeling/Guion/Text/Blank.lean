import Guion.Text.Ranges

/-!
# Guion.Text.Blank — white space at the ends of a text

White space is the Unicode property of that name: the ASCII blanks and breaks, the next-line
character, the no-break space, and the space and break characters above them. Zero-width characters
such as U+200B and U+FEFF do not belong to it.
-/

namespace Guion.Text

/-- The characters with the property White_Space, as inclusive ranges in ascending order. -/
def Blank.ranges : List (Nat × Nat) :=
  [(0x9, 0xd), (0x20, 0x20), (0x85, 0x85), (0xa0, 0xa0), (0x1680, 0x1680), (0x2000, 0x200a),
   (0x2028, 0x2029), (0x202f, 0x202f), (0x205f, 0x205f), (0x3000, 0x3000)]

/-- Whether `c` has the property White_Space. -/
def isBlank (c : Char) : Bool :=
  inRanges Blank.ranges c.toNat

/-- The text `cs` without the elements satisfying `p` at its end. -/
def dropEndWhile (p : Char → Bool) (cs : List Char) : List Char :=
  (cs.reverse.dropWhile p).reverse

/-- The text without the white space at both its ends. -/
def trim (s : String) : String :=
  String.ofList (dropEndWhile isBlank (s.toList.dropWhile isBlank))

end Guion.Text
