import Guion.Text.Letter
import Guion.Toml.Number

/-!
# Guion.Toml.Document — the lines of a document

A document is a list of lines that matter: headers of tables, headers of elements of arrays of
tables, and keys with values. Values nest through arrays and inline tables. Reading a document only
decides its form; what the lines mean together is decided in `Guion.Toml.Table`.

* `Document.read?` — the lines of a document, or nothing if its form is wrong.
-/

namespace Guion.Toml

/-- A value as it is written. -/
inductive Value where
  | text (s : String)
  | integer (n : Int)
  | boolean (b : Bool)
  | float
  | date
  | array (elements : List Value)
  | inline (pairs : List (Key × Value))
  deriving Inhabited

/-- A line that matters. -/
inductive Line where
  | table (key : Key)
  | element (key : Key)
  | pair (key : Key) (value : Value)
  deriving Inhabited

/-! ## What stands between values -/

/-- Leaves out a comment, up to the end of its line. -/
def dropComment (cs : List Char) : List Char :=
  cs.dropWhile (!isBreak ·)

/-- Leaves out blanks, line breaks and comments. -/
def skipLayout (cs : List Char) : List Char :=
  match cs with
  | [] => []
  | '#' :: rest => skipLayout (dropComment rest)
  | c :: rest => if isBlank c || isBreak c then skipLayout rest else c :: rest
termination_by cs.length
decreasing_by
  · exact Nat.lt_succ_of_le (List.dropWhile_sublist _).length_le
  · simp

theorem length_skipLayout_le (cs : List Char) : (skipLayout cs).length ≤ cs.length := by
  fun_induction skipLayout cs with
  | case1 => simp
  | case2 rest ih =>
    exact Nat.le_trans ih (Nat.le_succ_of_le (List.dropWhile_sublist _).length_le)
  | case3 c rest h hc ih => exact Nat.le_succ_of_le ih
  | case4 c rest h hc => simp

/-! ## Values -/

/-- A word that is a value by itself. -/
def word? (cs : List Char) : Option (Value × List Char) :=
  match cs with
  | 'i' :: 'n' :: 'f' :: rest => some (.float, rest)
  | 'n' :: 'a' :: 'n' :: rest => some (.float, rest)
  | cs =>
    match String.ofList (cs.takeWhile Text.isLetter) with
    | "true" => some (.boolean true, cs.dropWhile Text.isLetter)
    | "false" => some (.boolean false, cs.dropWhile Text.isLetter)
    | _ => none

/-- The value that a numeral is. -/
def Value.ofNumeral : Numeral → Value
  | .integer n => integer n
  | .float => float
  | .date => date

/-- Reads a value that holds no other values, from its first character on. -/
def scalar? (cs : List Char) : Option (Value × List Char) :=
  match cs with
  | '"' :: _ | '\'' :: _ => (string? cs).map fun (s, rest) => (.text s, rest)
  | '+' :: rest => (signed? '+' rest).map fun (n, rest) => (.ofNumeral n, rest)
  | '-' :: rest => (signed? '-' rest).map fun (n, rest) => (.ofNumeral n, rest)
  | c :: _ =>
    if c.isDigit then (unsigned? cs).map fun (n, rest) => (.ofNumeral n, rest) else word? cs
  | [] => none

mutual

/-- Reads a value after blanks. -/
def value? (cs : List Char) : Option (Value × List Char) :=
  match h : cs.dropWhile isBlank with
  | '[' :: rest =>
    have hlt : rest.length < cs.length := by
      have := (List.dropWhile_sublist isBlank (l := cs)).length_le
      rw [h] at this; exact this
    (elements? rest).map fun (vs, after) => (.array vs, after)
  | '\x7b' :: rest =>
    have hlt : rest.length < cs.length := by
      have := (List.dropWhile_sublist isBlank (l := cs)).length_le
      rw [h] at this; exact this
    match rest.dropWhile isBlank with
    | '\x7d' :: after => some (.inline [], after)
    | _ => (pairs? rest).map fun (ps, after) => (.inline ps, after)
  | cs' => scalar? cs'
termination_by cs.length * 2

/-- Reads the elements of an array from after its opening bracket, or after a comma, on. -/
def elements? (cs : List Char) : Option (List Value × List Char) :=
  have _hle := length_skipLayout_le cs
  match skipLayout cs with
  | ']' :: after => some ([], after)
  | _ =>
    match value? (skipLayout cs) with
    | none => none
    | some (v, rest) =>
      match skipLayout rest with
      | ']' :: after => some ([v], after)
      | ',' :: rest' =>
        if _h : rest'.length < cs.length then
          (elements? rest').map fun (vs, after) => (v :: vs, after)
        else none
      | _ => none
termination_by cs.length * 2 + 1

/-- Reads the pairs of an inline table from before its first key, or from after a comma, on. -/
def pairs? (cs : List Char) : Option (List (Key × Value) × List Char) :=
  match key? cs with
  | none => none
  | some (key, rest) =>
    match rest with
    | '=' :: rest' =>
      if _h : rest'.length < cs.length then
        match value? rest' with
        | none => none
        | some (v, after) =>
          match after.dropWhile isBlank with
          | '\x7d' :: after' => some ([(key, v)], after')
          | ',' :: after' =>
            if _h : after'.length < cs.length then
              (pairs? after').map fun (ps, end') => ((key, v) :: ps, end')
            else none
          | _ => none
      else none
    | _ => none
termination_by cs.length * 2 + 1

end

/-! ## Lines -/

/-- Reads the end of a line: blanks and a comment. -/
def lineEnd? (cs : List Char) : Option (List Char) :=
  match cs.dropWhile isBlank with
  | [] => some []
  | '#' :: rest => some (dropComment rest)
  | c :: rest => if isBreak c then some rest else none

/-- Reads a line from its first character on. -/
def line? (cs : List Char) : Option (Line × List Char) := do
  match cs with
  | '[' :: '[' :: rest =>
    match ← key? rest with
    | (key, ']' :: ']' :: rest) => return (.element key, rest)
    | _ => none
  | '[' :: rest =>
    match ← key? rest with
    | (key, ']' :: rest) => return (.table key, rest)
    | _ => none
  | cs =>
    match ← key? cs with
    | (key, '=' :: rest) =>
      let (v, rest) ← value? rest
      return (.pair key v, rest)
    | _ => none

/-- Reads lines up to the end of the text. -/
def lines? (cs : List Char) : Option (List Line) :=
  match skipLayout cs with
  | [] => some []
  | c :: rest =>
    match line? (c :: rest) with
    | none => none
    | some (line, after) =>
      match lineEnd? after with
      | none => none
      | some rest' =>
        if _h : rest'.length < cs.length then (lines? rest').map (line :: ·) else none
termination_by cs.length

/-- The lines of a document. A mark of the byte order in front of it is left out. -/
def Document.read? (text : String) : Option (List Line) :=
  let cs := match text.toList with
    | '\ufeff' :: rest => rest
    | cs => cs
  if wellFormed cs then lines? cs else none

end Guion.Toml
