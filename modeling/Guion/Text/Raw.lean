/-!
# Guion.Text.Raw — texts with stray bytes

A text that is given as bytes may hold some that belong to no character. A raw text keeps them, so
that a message can say which bytes they are and a line of the text can be written as it was given.
Where characters are needed, each stray byte is U+FFFD.

* `Raw.ofString`, `Raw.toString` — from a text and to a text;
* `Raw.toString_ofString` — a text has no stray bytes, so nothing is lost on the way;
* `Raw.lines` — the pieces between line feeds;
* `Raw.toBytes` — what is written for a raw text.
-/

namespace Guion.Text

/-- The character that stands for a byte outside any valid sequence. -/
def replacement : Char := '\ufffd'

/-- A character, or a byte that belongs to none. -/
inductive Raw.Item where
  | char (c : Char)
  | stray (byte : UInt8)
  deriving DecidableEq, Inhabited

/-- The character that is shown. -/
def Raw.Item.shown : Raw.Item → Char
  | char c => c
  | stray _ => replacement

/-- The bytes that stand for the character, or the stray one. -/
def Raw.Item.toBytes : Raw.Item → List UInt8
  | char c => String.utf8EncodeChar c
  | stray byte => [byte]

/-- A text that may hold stray bytes. -/
structure Raw where
  items : List Raw.Item
  deriving DecidableEq, Inhabited

namespace Raw

/-- A text as a raw one. -/
def ofString (s : String) : Raw :=
  ⟨s.toList.map .char⟩

instance : Coe String Raw :=
  ⟨ofString⟩

/-- The text with U+FFFD for every stray byte. -/
def toString (r : Raw) : String :=
  String.ofList (r.items.map Item.shown)

/-- The bytes of the characters, and the stray ones. -/
def toBytes (r : Raw) : List UInt8 :=
  r.items.flatMap Item.toBytes

/-- The number of characters, where a stray byte counts as one. -/
def length (r : Raw) : Nat :=
  r.items.length

instance : Append Raw :=
  ⟨fun r s => ⟨r.items ++ s.items⟩⟩

/-- Raw texts one after the other. -/
def join (rs : List Raw) : Raw :=
  ⟨rs.flatMap items⟩

/-- The lines: the pieces between the line feeds. A text with `n` of them has `n + 1` lines. -/
def lines (r : Raw) : List Raw :=
  (r.items.splitOn (.char '\n')).map Raw.mk

/-- A text has no stray bytes, so it is shown as it is. -/
theorem toString_ofString (s : String) : (ofString s).toString = s := by
  have hshown : Item.shown ∘ Item.char = id := rfl
  rw [ofString, toString, List.map_map, hshown, List.map_id, String.ofList_toList]

@[simp] theorem items_append (r s : Raw) : (r ++ s).items = r.items ++ s.items := rfl

@[simp] theorem length_ofString (s : String) : (ofString s).length = s.length := by
  rw [length, ofString, List.length_map, String.length_toList]

theorem ofString_append (s t : String) : ofString (s ++ t) = ofString s ++ ofString t := by
  show mk ((s ++ t).toList.map .char) = mk (s.toList.map .char ++ t.toList.map .char)
  rw [String.toList_append, List.map_append]

theorem append_assoc (r s t : Raw) : r ++ s ++ t = r ++ (s ++ t) :=
  congrArg mk (List.append_assoc _ _ _)

@[simp] theorem join_nil : join [] = ofString "" := rfl

@[simp] theorem join_cons (r : Raw) (rs : List Raw) : join (r :: rs) = r ++ join rs := rfl

theorem join_append (rs ss : List Raw) : join (rs ++ ss) = join rs ++ join ss :=
  congrArg mk List.flatMap_append

theorem join_singleton (r : Raw) : join [r] = r :=
  congrArg mk (List.append_nil r.items)

end Raw

end Guion.Text
