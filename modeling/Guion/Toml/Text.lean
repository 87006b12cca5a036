import Guion.Text.Utf8

/-!
# Guion.Toml.Text — strings and keys

Strings come in four forms: basic and literal, on one line or on several. Only basic strings have
escapes. A string of several lines loses a line break directly after its opening quotes, and in the
basic form a backslash at the end of a line takes the break and all blanks after it away.

All readers here take the characters from where they start and give what they read with what is
left, or nothing if the text is not well formed. Characters that may stand nowhere in a document
(`isForbidden`) are looked for beforehand, in `wellFormed`.
-/

namespace Guion.Toml

/-! ## Characters -/

/-- Controls other than tabs and line breaks may stand nowhere. -/
def isForbidden (c : Char) : Bool :=
  c.toNat < 0x20 && c ≠ '\t' && c ≠ '\n' && c ≠ '\r' || c = '\x7f'

/-- Whether no character is forbidden and every carriage return belongs to a line break. -/
def wellFormed : List Char → Bool
  | [] => true
  | '\r' :: '\n' :: rest => wellFormed rest
  | '\r' :: _ => false
  | c :: rest => !isForbidden c && wellFormed rest

/-- Blanks inside a line. -/
def isBlank (c : Char) : Bool :=
  c = ' ' || c = '\t'

/-- The characters of line breaks. -/
def isBreak (c : Char) : Bool :=
  c = '\n' || c = '\r'

/-- The characters of keys that need no quotes. -/
def isBare (c : Char) : Bool :=
  c.isAlphanum || c = '_' || c = '-'

/-- The value of a hexadecimal digit. -/
def hexDigit? (c : Char) : Option Nat :=
  if c.isDigit then some (c.toNat - '0'.toNat)
  else if 'a' ≤ c ∧ c ≤ 'f' then some (c.toNat - 'a'.toNat + 10)
  else if 'A' ≤ c ∧ c ≤ 'F' then some (c.toNat - 'A'.toNat + 10)
  else none

/-- The character with the code point that hexadecimal digits denote. -/
def scalarOfHex? (digits : List Char) : Option Char := do
  let values ← digits.mapM hexDigit?
  Text.scalar? 0 (values.foldl (fun n d => n * 16 + d) 0)

/-! ## Escapes -/

/-- The character that an escape denotes, from after the backslash on, and what follows it. -/
def escape? : List Char → Option (Char × List Char)
  | 'b' :: rest => some ('\x08', rest)
  | 't' :: rest => some ('\t', rest)
  | 'n' :: rest => some ('\n', rest)
  | 'f' :: rest => some ('\x0c', rest)
  | 'r' :: rest => some ('\r', rest)
  | '"' :: rest => some ('"', rest)
  | '\\' :: rest => some ('\\', rest)
  | 'u' :: a :: b :: c :: d :: rest => (scalarOfHex? [a, b, c, d]).map (·, rest)
  | 'U' :: a :: b :: c :: d :: e :: f :: g :: h :: rest =>
    (scalarOfHex? [a, b, c, d, e, f, g, h]).map (·, rest)
  | _ => none

/-! ## Strings on one line -/

/-- Reads a basic string from after its opening quote on. -/
def basic? (cs : List Char) : Option (List Char × List Char) :=
  match cs with
  | [] => none
  | '"' :: rest => some ([], rest)
  | '\\' :: rest =>
    match escape? rest with
    | none => none
    | some (c, rest') =>
      if _h : rest'.length ≤ rest.length then
        (basic? rest').map fun (text, after) => (c :: text, after)
      else none
  | c :: rest =>
    if isBreak c then none else (basic? rest).map fun (text, after) => (c :: text, after)
termination_by cs.length

/-- Reads a literal string from after its opening quote on. -/
def literal? : List Char → Option (List Char × List Char)
  | [] => none
  | '\'' :: rest => some ([], rest)
  | c :: rest =>
    if isBreak c then none else (literal? rest).map fun (text, after) => (c :: text, after)

/-! ## Strings on several lines -/

/-- Leaves out a line break at the beginning. -/
def dropFirstBreak : List Char → List Char
  | '\n' :: rest => rest
  | '\r' :: '\n' :: rest => rest
  | cs => cs

/-- The end of a string at a run of `count` of its quotes: the last three close it, and up to two
before them belong to it. `limit` is how many there can be. -/
def closing? (quote : Char) (count limit : Nat) : Option (List Char) :=
  if 3 ≤ count ∧ count ≤ limit then some (List.replicate (count - 3) quote) else none

/-- Reads a literal string of several lines from after its opening quotes on. -/
def literalLines? (cs : List Char) : Option (List Char × List Char) :=
  match cs with
  | [] => none
  | '\'' :: rest =>
    let run := 1 + (rest.takeWhile (· = '\'')).length
    if 3 ≤ run then (closing? '\'' run 5).map (·, rest.drop (run - 1))
    else (literalLines? rest).map fun (text, after) => ('\'' :: text, after)
  | c :: rest => (literalLines? rest).map fun (text, after) => (c :: text, after)

/-- Whether a backslash before `cs` stands at the end of its line, so that it takes the break away.
-/
def endsLine (cs : List Char) : Bool :=
  (cs.takeWhile fun c => isBlank c || isBreak c).contains '\n'

/-- Reads a basic string of several lines from after its opening quotes on. `afterBackslash` says
whether an escaped backslash was read last, after which one more quote fits before the closing
ones. -/
def basicLines? (afterBackslash : Bool) (cs : List Char) : Option (List Char × List Char) :=
  match cs with
  | [] => none
  | '"' :: rest =>
    let run := 1 + (rest.takeWhile (· = '"')).length
    if 3 ≤ run then
      (closing? '"' run (if afterBackslash then 6 else 5)).map (·, rest.drop (run - 1))
    else (basicLines? false rest).map fun (text, after) => ('"' :: text, after)
  | '\\' :: rest =>
    if endsLine rest then
      basicLines? false (rest.dropWhile fun c => isBlank c || isBreak c)
    else match escape? rest with
      | none => none
      | some (c, rest') =>
        if _h : rest'.length ≤ rest.length then
          (basicLines? (c = '\\' && rest.head? = some '\\') rest').map fun (text, after) =>
            (c :: text, after)
        else none
  | c :: rest => (basicLines? false rest).map fun (text, after) => (c :: text, after)
termination_by cs.length
decreasing_by
  all_goals simp only [List.length_cons]
  all_goals first
    | omega
    | exact Nat.lt_succ_of_le (List.dropWhile_sublist _).length_le

/-- Reads the string that begins at the front of `cs`, in any of the four forms. -/
def string? : List Char → Option (String × List Char)
  | '"' :: '"' :: '"' :: rest =>
    (basicLines? false (dropFirstBreak rest)).map fun (text, after) => (String.ofList text, after)
  | '"' :: rest => (basic? rest).map fun (text, after) => (String.ofList text, after)
  | '\'' :: '\'' :: '\'' :: rest =>
    (literalLines? (dropFirstBreak rest)).map fun (text, after) => (String.ofList text, after)
  | '\'' :: rest => (literal? rest).map fun (text, after) => (String.ofList text, after)
  | _ => none

/-! ## Keys -/

/-- The parts of a key, from the outermost table inwards. -/
abbrev Key := List String

/-- Reads one part of a key: bare, or a string on one line. -/
def keyPart? : List Char → Option (String × List Char)
  | '"' :: rest => (basic? rest).map fun (text, after) => (String.ofList text, after)
  | '\'' :: rest => (literal? rest).map fun (text, after) => (String.ofList text, after)
  | cs =>
    let bare := cs.takeWhile isBare
    if bare.isEmpty then none else some (String.ofList bare, cs.dropWhile isBare)

/-- Reads a key: parts with dots between them, and blanks around both. What is left begins with no
blank. -/
def key? (cs : List Char) : Option (Key × List Char) :=
  match keyPart? (cs.dropWhile isBlank) with
  | none => none
  | some (part, rest) =>
    match rest.dropWhile isBlank with
    | '.' :: rest' =>
      if _h : rest'.length < cs.length then
        (key? rest').map fun (parts, after) => (part :: parts, after)
      else none
    | after => some ([part], after)
termination_by cs.length

/-- How a character is written in a quoted part of a key. -/
def Key.escapeChar (c : Char) : String :=
  match c with
  | '"' => "\\\""
  | '\\' => "\\\\"
  | '\x08' => "\\b"
  | '\t' => "\\t"
  | '\n' => "\\n"
  | '\x0c' => "\\f"
  | '\r' => "\\r"
  | c =>
    if c.toNat < 0x20 ∨ c = '\x7f' then
      let digits := Nat.toDigits 16 c.toNat
      "\\u" ++ String.ofList (List.replicate (4 - digits.length) '0' ++ digits)
    else c.toString

/-- A part of a key as it would be written: in quotes unless it is bare. -/
def Key.renderPart (part : String) : String :=
  if part ≠ "" ∧ part.toList.all isBare then part
  else "\"" ++ String.join (part.toList.map Key.escapeChar) ++ "\""

/-- A key as it would be written. -/
def Key.render (key : Key) : String :=
  ".".intercalate (key.map Key.renderPart)

end Guion.Toml
