import Guion.Diagnostic.Formatter

/-!
# Guion.Diagnostic.Stepwise — diagnostics written step by step

`Guion.Diagnostic.Formatter` says what is written for a diagnostic. This module says how a machine
with 64-bit words gets there: it puts places into groups, asks for lines by their numbers, and
paints marks over a row of blanks. Numbers are computed from the places and the options, so an entry
that is asked for may not exist, and a row may be asked for with a length below zero. Such a step is
a fault and ends the work.

* `Fault`, `entry`, `assign`, `blanks` — the steps that can be faults;
* `paint` — the marks of one style, over a row that may have marks already;
* `underline`, `rows`, `format` — the formatter, in steps.

Only numbers that come from places and options can leave the range of words. The length of a text in
memory is far from the bound, and so is a counter that stays below such a length.
-/

namespace Guion.Stepwise

variable {α κ : Type}

/-! ## Steps that can be faults -/

/-- A step that cannot be made. -/
inductive Fault where
  /-- The entry `i` of a list that has `size` entries. -/
  | index (i : Int) (size : Nat)
  /-- A text `n` times. -/
  | count (n : Int)
  deriving DecidableEq

/-- The entry with the number `i`, counted from zero. -/
def entry (xs : List α) (i : Int) : Except Fault α :=
  match if 0 ≤ i then xs[i.toNat]? else none with
  | some x => .ok x
  | none => .error (.index i xs.length)

/-- The list with `x` as its entry `i`. -/
def assign (xs : List α) (i : Int) (x : α) : Except Fault (List α) :=
  if 0 ≤ i ∧ i < xs.length then .ok (xs.set i.toNat x) else .error (.index i xs.length)

/-- `n` blanks. -/
def blanks (n : Int) : Except Fault (List Char) :=
  if n < 0 then .error (.count n) else .ok (List.replicate n.toNat ' ')

/-! ## Groups -/

/-- Adds `x` to the group of `key`, which is a new one after the others if there is none yet. -/
def addTo [DecidableEq κ] (key : κ) (x : α) : List (κ × List α) → List (κ × List α)
  | [] => [(key, [x])]
  | (k, xs) :: rest => if k = key then (k, xs ++ [x]) :: rest else (k, xs) :: addTo key x rest

/-- The entries with equal keys together, by the first appearance of their key. -/
def group [DecidableEq κ] (key : α → κ) (xs : List α) : List (κ × List α) :=
  xs.foldl (fun groups x => addTo (key x) x groups) []

/-! ## Marks under a line -/

/-- Puts `c` in place of the entry `i`, if that is a blank. -/
def cover (c : Char) (row : List Char) (i : Int) : Except Fault (List Char) := do
  let here ← entry row i
  if here = ' ' then assign row i c else .ok row

/-- Puts `c` in place of the blanks with the numbers from `i` to `stop`, without `stop`. -/
def paintFrom (c : Char) (stop i : Int) (row : List Char) : Except Fault (List Char) :=
  if _h : i < stop then do
    let row ← cover c row i
    paintFrom c stop (i + 1) row
  else .ok row
termination_by (stop - i).toNat

/-- Puts `c` in place of the blanks under the places of one style, on a row that is `width` long. -/
def paint (style : LabelStyle) (c : Char) (width : Int) :
    List Label → List Char → Except Fault (List Char)
  | [], row => .ok row
  | l :: labels, row =>
    if l.style = style then do
      let row ← paintFrom c (min width l.ends) l.begins row
      paint style c width labels row
    else paint style c width labels row

/-- Adds the text of a place, if it has one: that of a primary place to the row of marks, and any
other to the texts that have rows of their own. -/
def say (said : String × List String) (l : Label) : String × List String :=
  if l.text = "" then said
  else if l.style = .primary then (said.1 ++ " " ++ l.text, said.2)
  else (said.1, said.2 ++ [l.text])

/-- The rows for the texts below a row of `indent` marks. -/
def textRows (gutter : String) (indent : Int) : List String → Except Fault (List String)
  | [] => .ok []
  | text :: texts => do
    let margin ← blanks indent
    let rest ← textRows gutter indent texts
    return (gutter ++ " | " ++ String.ofList margin ++ " " ++ text) :: rest

/-- The rows under a line. -/
def underline (gutter : String) (line : Text.Raw) (labels : List Label) :
    Except Fault (List String) := do
  let width : Int := line.length + 1
  let row ← blanks width
  let row ← paint .primary '^' width labels row
  let row ← paint .secondary '~' width labels row
  let marks := (row.reverse.dropWhile (· = ' ')).reverse
  if marks.isEmpty then .ok []
  else do
    let said := labels.foldl say ("", [])
    let below ← textRows gutter marks.length said.2
    return (gutter ++ " | " ++ String.ofList marks ++ said.1) :: below

/-- The rows under a line that may have no places. -/
def underlineAny (gutter : String) (line : Text.Raw) (labels : List Label) :
    Except Fault (List String) :=
  if labels.isEmpty then .ok [] else underline gutter line labels

/-! ## The lines shown -/

/-- The lines with the numbers from `number` to `stop`, and the rows under them. -/
def lineRows (width : Nat) (gutter : String) (lines : List Text.Raw)
    (groups : List (Int × List Label)) (stop number : Int) : Except Fault (List Text.Raw) :=
  if _h : number ≤ stop then do
    let line ← entry lines (number - 1)
    let under ← underlineAny gutter line ((groups.lookup number).getD [])
    let rest ← lineRows width gutter lines groups stop (number + 1)
    return ((" " ++ Excerpt.alignRight width (toString number) ++ " | " : String) ++ line) ::
      (under.map .ofString ++ rest)
  else .ok []
termination_by (stop + 1 - number).toNat

/-- The rows of an excerpt of `text`, the text of `file`. -/
def rows (context : Int) (file : String) (text : Text.Raw) (labels : List Label) :
    Except Fault (List Text.Raw) := do
  let head ← entry labels 0
  let focus := ((labels.find? (·.style = .primary)).getD head).span
  let lines := text.lines
  let groups := group (·.span.line) (Excerpt.placed lines.length labels)
  let numbers := (groups.map Prod.fst).mergeSort (· ≤ ·)
  if numbers.isEmpty then .ok []
  else do
    let first ← entry numbers 0
    let last ← entry numbers (numbers.length - 1)
    let shown := Excerpt.window context lines.length first last
    let width := (toString shown.2).length
    let margin ← blanks width
    let gutter := " " ++ String.ofList margin
    let body ← lineRows width gutter lines groups shown.2 shown.1
    let edge : Text.Raw := (gutter ++ " |" : String)
    return Excerpt.locator file focus :: edge :: body ++ [edge]

/-! ## Diagnostics -/

/-- The rows for the places of one file. -/
def fileRows (disk : Disk Text.Raw) (f : Formatter) (d : Diagnostic) (file : String)
    (labels : List Label) : Except Fault (List Text.Raw × Formatter) :=
  match f.load disk file with
  | (.ok text, f) => do
    let excerpt ← rows f.options.contextLines file text labels
    return (excerpt, f)
  | (.error _, f) => .ok ([Formatter.ownPlace d], f)

/-- The rows for the places of several files. -/
def filesRows (disk : Disk Text.Raw) (f : Formatter) (d : Diagnostic) :
    List (String × List Label) → Except Fault (List Text.Raw × Formatter)
  | [] => .ok ([], f)
  | (file, labels) :: rest => do
    let first ← fileRows disk f d file labels
    let others ← filesRows disk first.2 d rest
    return (first.1 ++ others.1, others.2)

/-- A diagnostic as text, and the formatter with the texts it has read. -/
def format (disk : Disk Text.Raw) (f : Formatter) (d : Diagnostic) :
    Except Fault (Text.Raw × Formatter) :=
  let labels := Formatter.shownLabels d
  if labels.isEmpty then
    let place := if d.span.isValid then [Formatter.ownPlace d] else []
    .ok (Formatter.ofRows (Formatter.header d :: place ++ Formatter.helpRows f.options d), f)
  else do
    let excerpts ← filesRows disk f d (group (·.span.file) labels)
    return (Formatter.ofRows (Formatter.header d :: excerpts.1 ++ Formatter.helpRows f.options d),
      excerpts.2)

end Guion.Stepwise
