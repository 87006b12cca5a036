import Guion.Yaml.Scalar

/-!
# Guion.Yaml.Token — the tokens of YAML

Tokens are the indicators and scalars of a text, together with the starts and ends of block
collections, which a text only shows by its indentation.

The readers for names, tags and directives stand here too. Each starts at the indicator and gives a
token with the cursor after it, and nothing if the characters are malformed.
-/

namespace Guion.Yaml

/-- A token. -/
inductive Token where
  | version (major minor : Nat)
  /-- From here on, tags that begin with `handle` begin with `uri` instead. -/
  | tagHandle (handle uri : String)
  | documentStart
  | documentEnd
  | streamEnd
  | blockSequenceStart
  | blockMappingStart
  | blockEnd
  | flowSequenceStart
  | flowSequenceEnd
  | flowMappingStart
  | flowMappingEnd
  | blockEntry
  | flowEntry
  | key
  | value
  | aliasTo (name : String)
  | anchor (name : String)
  | tag (handle suffix : String)
  | scalar (plain : Bool) (text : String)
  deriving DecidableEq, Inhabited

/-! ## Names -/

/-- The name of an alias or anchor. -/
def name? (c : Cursor) : Option (String × Cursor) :=
  let start := (c.skip 1).need 1
  let name := start.rest.takeWhile isNameChar
  let after := start.skipWhile isNameChar
  let ends := gapAhead after.rest
    || after.rest.head?.any ['?', ':', ',', ']', '\x7d', '%', '@', '\x60'].contains
  if name.isEmpty || !ends then none else some (String.ofList name, after)

/-! ## Tags -/

/-- The characters that stand for themselves in the address of a tag. -/
def isUriChar (c : Char) : Bool :=
  isNameChar c || [';', '/', '?', ':', '@', '&', '=', '+', '$', ',', '.', '!', '~', '*', '\'', '(',
    ')', '[', ']'].contains c

/-- How many octets must follow a leading octet of UTF-8. -/
def octetsAfter? (octet : Nat) : Option Nat :=
  if octet < 0x80 then some 0
  else if 0xc0 ≤ octet ∧ octet < 0xe0 then some 1
  else if 0xe0 ≤ octet ∧ octet < 0xf0 then some 2
  else if 0xf0 ≤ octet ∧ octet < 0xf8 then some 3
  else none

/-- The octets of an address, where `due` octets of a character are still to come. An escape is a
percent sign with two hexadecimal digits. -/
def octets? (due : Nat) (c : Cursor) : Option (List UInt8 × Cursor) :=
  match _hrest : c.rest with
  | '%' :: a :: b :: _ =>
    match hexDigit? a, hexDigit? b with
    | some high, some low =>
      let octet := high * 16 + low
      let due? := if due = 0 then octetsAfter? octet
        else if 0x80 ≤ octet ∧ octet < 0xc0 then some (due - 1) else none
      match due? with
      | none => none
      | some due' =>
        (octets? due' (((c.need 3).skip 3).need (if due' = 0 then 1 else 3))).map
          fun (octets, after) => (octet.toUInt8 :: octets, after)
    | _, _ => none
  | ch :: _ =>
    if due = 0 && isUriChar ch then
      (octets? 0 ((c.skip 1).need 1)).map fun (octets, after) => (ch.toNat.toUInt8 :: octets, after)
    else if ch = '%' || due ≠ 0 then none
    else some ([], c)
  | [] => if due = 0 then some ([], c) else none
termination_by c.rest.length
decreasing_by all_goals simp [_hrest]; try omega

/-- The address at the cursor, which must not be empty. -/
def uri? (c : Cursor) : Option (String × Cursor) := do
  let (octets, after) ← octets? 0 (c.need 1)
  guard (!octets.isEmpty)
  return ((Text.Raw.ofBytes octets).toString, after)

/-- The handle and the suffix of a tag. A tag with its address in full has no handle. -/
def tag? (c : Cursor) : Option (Token × Cursor) := do
  let c := c.need 2
  let (handle, suffix, after) ←
    if c.rest.take 2 = ['!', '<'] then do
      let (suffix, after) ← uri? (c.skip 2)
      guard (after.rest.head? = some '>')
      some ("", suffix, after.skip 1)
    else
      let start := (c.skip 1).need 1
      let name := start.rest.takeWhile isNameChar
      let after := start.skipWhile isNameChar
      if after.rest.head? = some '!' then do
        let (suffix, after) ← uri? (after.skip 1)
        some (String.ofList ('!' :: name ++ ['!']), suffix, after)
      else if name.isEmpty && !after.rest.head?.any fun ch => isUriChar ch || ch = '%' then
        some ("", "!", after)
      else do
        let (suffix, after) ← uri? start
        some ("!", suffix, after)
  let after := after.need 1
  guard (gapAhead after.rest)
  return (.tag handle suffix, after)

/-! ## Directives -/

/-- A number of one or two digits. -/
def versionNumber? (c : Cursor) : Option (Nat × Cursor) :=
  let start := c.need 1
  let digits := start.rest.takeWhile Char.isDigit
  if digits.isEmpty || 2 < digits.length then none
  else some (Text.digitsValue digits, start.skipWhile Char.isDigit)

/-- What follows the name of a version directive. -/
def version? (c : Cursor) : Option (Token × Cursor) := do
  let (major, after) ← versionNumber? c
  guard (after.rest.head? = some '.')
  let (minor, after) ← versionNumber? (after.skip 1)
  return (.version major minor, after)

/-- What follows the name of a tag directive. -/
def tagHandle? (c : Cursor) : Option (Token × Cursor) := do
  guard (c.rest.head? = some '!')
  let start := (c.skip 1).need 1
  let name := start.rest.takeWhile isNameChar
  let after := start.skipWhile isNameChar
  let (handle, after) ←
    if after.rest.head? = some '!' then some ('!' :: name ++ ['!'], (after.skip 1).need 1)
    else if name.isEmpty then some (['!'], after)
    else none
  guard (after.rest.head?.any isBlank)
  let (uri, after) ← uri? (after.skipWhile isBlank)
  guard (gapAhead after.rest)
  return (.tagHandle (String.ofList handle) uri, after)

/-- A directive, up to the end of its line. -/
def directive? (c : Cursor) : Option (Token × Cursor) := do
  let start := (c.skip 1).need 1
  let name := String.ofList (start.rest.takeWhile isNameChar)
  let after := start.skipWhile isNameChar
  guard (gapAhead after.rest)
  let after := after.skipWhile isBlank
  let (token, after) ←
    if name = "YAML" then version? after else if name = "TAG" then tagHandle? after else none
  let after := after.skipWhile isBlank
  let after := if after.rest.head? = some '#' then after.skipWhile (!isBreak ·) else after
  guard (breakAhead after.rest)
  return (token, after)

end Guion.Yaml
