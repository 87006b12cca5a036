import Guion.Diagnostic.Basic
import Guion.Text.Raw
import Guion.Word

/-!
# Guion.Diagnostic.Excerpt — the lines of a text that a fault is about

An excerpt shows the lines of one file that carry labelled places, with lines of context around
them. Each line has its number in a gutter. Under a line with places stands a row of marks: carets
where a primary place reaches, tildes where only secondary ones do. The texts of primary places
follow on that row; the texts of the others have rows of their own below it. The lines may have
stray bytes; these are kept, and each has a column of its own.

* `Label.Covers` — which offsets of a line a place reaches;
* `Excerpt.marks` — the row of marks, one mark per offset;
* `Excerpt.window` — the numbers of the first and the last line shown;
* `Excerpt.rows` — the whole excerpt of one file.

Line, column and length arithmetic is that of 64-bit words (`Guion.Word`).
-/

namespace Guion

/-! ## Marks under a line -/

/-- The first offset that a labelled place reaches on its line. -/
def Label.begins (l : Label) : Int :=
  max 0 (Word.wrap (l.span.column - 1))

/-- The offset after the last one that a labelled place reaches; at least one is meant. -/
def Label.ends (l : Label) : Int :=
  Word.wrap (l.begins + max 1 (Word.wrap (l.span.stop - l.span.start)))

/-- Whether a labelled place reaches the offset `i` of its line. -/
def Label.Covers (l : Label) (i : Nat) : Prop :=
  l.begins ≤ i ∧ (i : Int) < l.ends

instance (l : Label) (i : Nat) : Decidable (l.Covers i) :=
  inferInstanceAs (Decidable (_ ∧ _))

namespace Excerpt

/-- Whether some place of the given style reaches the offset `i`. -/
def reached (labels : List Label) (style : LabelStyle) (i : Nat) : Bool :=
  labels.any fun l => l.style = style ∧ l.Covers i

/-- The mark at the offset `i`: primary places win over secondary ones. -/
def mark (labels : List Label) (i : Nat) : Char :=
  if reached labels .primary i then '^'
  else if reached labels .secondary i then '~'
  else ' '

/-- The marks under a line, one for each of its characters and one for its end, up to the last mark
that shows. -/
def marks (line : Text.Raw) (labels : List Label) : List Char :=
  (((List.range (line.length + 1)).map (mark labels)).reverse.dropWhile (· = ' ')).reverse

/-- The texts of the places for which `keep` holds, without the empty ones. -/
def texts (labels : List Label) (keep : LabelStyle → Bool) : List String :=
  (labels.filter fun l => keep l.style ∧ l.text ≠ "").map Label.text

/-- `n` blanks. -/
def blanks (n : Nat) : String :=
  String.ofList (List.replicate n ' ')

/-- The rows under a line: none if no place shows on it, and otherwise the marks with the texts of
the primary places, then a row for each other text. -/
def underline (gutter : String) (line : Text.Raw) (labels : List Label) : List String :=
  let marks := marks line labels
  if marks.isEmpty then []
  else
    let primary := (texts labels (· = .primary)).map (" " ++ ·)
    let others := texts labels (· ≠ .primary)
    (gutter ++ " | " ++ String.ofList marks ++ String.join primary) ::
      others.map fun text => gutter ++ " | " ++ blanks marks.length ++ " " ++ text

/-! ## The lines shown -/

/-- The order of places in a file: by line, then by column. -/
def before (a b : Label) : Bool :=
  a.span.line < b.span.line ∨ a.span.line = b.span.line ∧ a.span.column ≤ b.span.column

/-- The places on a line of a text of `count` lines, in the order of the text. Places that stand at
the same column keep their order. -/
def placed (count : Nat) (labels : List Label) : List Label :=
  (labels.mergeSort before).filter fun l => 0 < l.span.line ∧ l.span.line ≤ count

/-- The numbers of the first and last line shown of a text of `count` lines, `context` lines around
the lines from `first` to `last`. -/
def window (context : Int) (count : Nat) (first last : Int) : Int × Int :=
  (max 1 (Word.wrap (first - context)), min count (Word.wrap (last + context)))

/-- The text `s` after as many blanks as make it `width` characters long. -/
def alignRight (width : Nat) (s : String) : String :=
  blanks (width - s.length) ++ s

/-- The row that says where in which file to look. -/
def locator (file : String) (span : Span) : Text.Raw :=
  ("  --> " ++ { span with file := file : Span }.toText : String)

/-- The place that the locator names: the first primary one, or else the first. -/
def focus (labels : List Label) : Span :=
  ((labels.find? (·.style = .primary)).or labels.head?).map (·.span) |>.getD {}

/-- A line with its number, and the rows under it. -/
def numbered (width : Nat) (labels : List Label) (line : Text.Raw) (number : Nat) : List Text.Raw :=
  let gutter := " " ++ blanks width
  ((" " ++ alignRight width (toString number) ++ " | " : String) ++ line) ::
    (underline gutter line (labels.filter (·.span.line = number))).map .ofString

/-- The rows of an excerpt of `text`, the text of `file`. A text none of whose lines carries a place
has none. -/
def rows (context : Int) (file : String) (text : Text.Raw) (labels : List Label) : List Text.Raw :=
  let lines := text.lines
  let placed := placed lines.length labels
  match placed.head?, placed.getLast? with
  | some first, some last =>
    let shown := window context lines.length first.span.line last.span.line
    let width := (toString shown.2).length
    let edge : Text.Raw := (" " ++ blanks width ++ " |" : String)
    let body := (lines.zipIdx 1).filter fun (_, number) =>
      shown.1 ≤ (number : Int) ∧ (number : Int) ≤ shown.2
    locator file (focus labels) :: edge ::
      (body.flatMap fun (line, number) => numbered width placed line number) ++ [edge]
  | _, _ => []

end Excerpt

end Guion
