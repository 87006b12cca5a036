import Guion.Text.Raw

/-!
# Guion.Text.Utf8 — bytes as text

Every byte sequence reads as a text. Bytes that form the encoding of a character become that
character; a byte that does not belong to one is stray on its own, and reading goes on directly
after it. Overlong forms, surrogates and values above U+10FFFF encode no character.
-/

namespace Guion.Text

/-- The six payload bits of a continuation byte, or `none` for any other byte. -/
def continuation? (b : UInt8) : Option Nat :=
  if 0x80 ≤ b ∧ b ≤ 0xbf then some (b.toNat - 0x80) else none

/-- The character with code point `n`, if there is one and `n` is at least `least`. -/
def scalar? (least n : Nat) : Option Char :=
  if least ≤ n ∧ (n < 0xd800 ∨ 0xdfff < n ∧ n < 0x110000) then some (Char.ofNat n) else none

/-- The character whose encoding is the lead byte `lead` and the bytes of `tail`. -/
def encoded? (lead : UInt8) (tail : List UInt8) : Option Char := do
  let payload ← tail.mapM continuation?
  let value (bits : Nat) := payload.foldl (fun n p => n * 0x40 + p) bits
  match payload.length with
  | 0 => if lead < 0x80 then scalar? 0 lead.toNat else none
  | 1 => if 0xc0 ≤ lead ∧ lead ≤ 0xdf then scalar? 0x80 (value (lead.toNat - 0xc0)) else none
  | 2 => if 0xe0 ≤ lead ∧ lead ≤ 0xef then scalar? 0x800 (value (lead.toNat - 0xe0)) else none
  | 3 => if 0xf0 ≤ lead ∧ lead ≤ 0xf7 then scalar? 0x10000 (value (lead.toNat - 0xf0)) else none
  | _ => none

/-- The character that `lead :: rest` begins with, if it begins with one, and the number of bytes of
`rest` that it takes. -/
def decodeFirst? (lead : UInt8) (rest : List UInt8) : Option (Char × Nat) :=
  [0, 1, 2, 3].findSome? fun n =>
    if n ≤ rest.length then (encoded? lead (rest.take n)).map (·, n) else none

/-- The characters and the stray bytes of a byte sequence. -/
def decode (bytes : List UInt8) : List Raw.Item :=
  match bytes with
  | [] => []
  | lead :: rest =>
    let (item, taken) := match decodeFirst? lead rest with
      | some (c, taken) => (Raw.Item.char c, taken)
      | none => (Raw.Item.stray lead, 0)
    item :: decode (rest.drop taken)
termination_by bytes.length
decreasing_by
  have := List.length_drop (i := taken) (l := rest)
  simp only [List.length_cons]
  omega

/-- The text that a byte sequence reads as. -/
def Raw.ofBytes (bytes : List UInt8) : Raw :=
  ⟨decode bytes⟩

end Guion.Text
