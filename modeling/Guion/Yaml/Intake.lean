/-!
# Guion.Yaml.Intake — taking in a text

A text is taken in by blocks of at most 512 octets, the next one when more characters are asked for
than are at hand. So a character that is not allowed is met only when its block is taken in, and
what stands well before it can be read.

Whenever a block is taken in, the characters that were read are let go. It matters with what the
kept ones begin: as long as they begin with a byte order mark, a line is read from its second
character on.
-/

namespace Guion.Yaml

/-- The characters that may stand in a text. -/
def isAllowed (c : Char) : Bool :=
  let n := c.toNat
  n = 0x9 || n = 0xa || n = 0xd || 0x20 ≤ n && n ≤ 0x7e || n = 0x85 || 0xa0 ≤ n && n ≤ 0xfffd
    || 0x10000 ≤ n

/-- How much of a text was taken in. -/
structure Intake where
  /-- The blocks that follow. -/
  blocks : List (List Char)
  /-- The number of characters taken in. The end of the text counts as a character, as often as it
  was met. -/
  reach : Nat := 0
  /-- Whether the characters kept begin with a byte order mark. -/
  marked : Bool := false
  /-- Whether the next block cannot be taken in, as a character of it is not allowed. -/
  failed : Bool := false
  deriving Inhabited

namespace Intake

/-- The largest number of octets in a block. -/
def blockSize : Nat := 512

/-- Cuts a text into blocks of whole characters. `block` are the characters of the current block, in
reverse, and `room` is the number of octets that still fit in. -/
def cut (room : Nat) (block : List Char) : List Char → List (List Char)
  | [] => if block.isEmpty then [] else [block.reverse]
  | c :: rest =>
    if c.utf8Size ≤ room then cut (room - c.utf8Size) (c :: block) rest
    else block.reverse :: cut (blockSize - c.utf8Size) [c] rest

/-- Takes in blocks until the first `count` characters are there. After the last block there is the
end of the text, which is met once. -/
def extend (i : Intake) (count : Nat) : Intake :=
  if count ≤ i.reach || i.failed then i
  else match _h : i.blocks with
    | [] => { i with reach := i.reach + 1 }
    | block :: blocks =>
      if block.all isAllowed then extend { i with reach := i.reach + block.length, blocks } count
      else { i with failed := true }
termination_by i.blocks.length
decreasing_by simp [_h]

end Intake

end Guion.Yaml
