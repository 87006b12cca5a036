/-!
# Guion.Text.Base64 — bytes written as text

Four characters of an alphabet of sixty-four stand for three bytes. The last group may be filled up
with one or two equals signs, and then stands for two bytes or one. Line feeds and carriage returns
are passed over anywhere.
-/

namespace Guion.Text.Base64

/-- The six bits that a character stands for. -/
def sextet? (c : Char) : Option Nat :=
  if 'A' ≤ c ∧ c ≤ 'Z' then some (c.toNat - 'A'.toNat)
  else if 'a' ≤ c ∧ c ≤ 'z' then some (c.toNat - 'a'.toNat + 26)
  else if '0' ≤ c ∧ c ≤ '9' then some (c.toNat - '0'.toNat + 52)
  else if c = '+' then some 62
  else if c = '/' then some 63
  else none

/-- The first `count` bytes of four sextets. -/
def bytes (count a b c d : Nat) : List UInt8 :=
  let n := ((a * 64 + b) * 64 + c) * 64 + d
  [(n / 65536).toUInt8, (n / 256).toUInt8, n.toUInt8].take count

/-- The bytes of whole groups of characters. -/
def groups? : List Char → Option (List UInt8)
  | [] => some []
  | [a, b, '=', '='] => do return bytes 1 (← sextet? a) (← sextet? b) 0 0
  | [a, b, c, '='] => do return bytes 2 (← sextet? a) (← sextet? b) (← sextet? c) 0
  | a :: b :: c :: d :: rest => do
    return bytes 3 (← sextet? a) (← sextet? b) (← sextet? c) (← sextet? d) ++ (← groups? rest)
  | _ => none

/-- The bytes that a text stands for. -/
def decode? (text : String) : Option (List UInt8) :=
  groups? (text.toList.filter fun c => c ≠ '\n' ∧ c ≠ '\r')

end Guion.Text.Base64
