/-!
# Guion.Span — where something stands in a source text

A span names a file, the line and column of its first character (both counted from one) and the
half-open range of character offsets that it covers. Spans also arrive from outside, with any
numbers in them, so the fields are integers and a span without a usable position is legal.
-/

namespace Guion

/-- A place in a source text. The zero span stands for "nowhere". -/
structure Span where
  /-- The file's name; empty when the text has none. -/
  file : String := ""
  /-- The line, counted from one. -/
  line : Int := 0
  /-- The column in characters, counted from one. -/
  column : Int := 0
  /-- The offset of the first character. -/
  start : Int := 0
  /-- The offset after the last character. -/
  stop : Int := 0
  deriving DecidableEq, Inhabited

namespace Span

/-- Line and column, after the file's name where there is one. -/
def toText (s : Span) : String :=
  (if s.file = "" then "" else s.file ++ ":") ++ toString s.line ++ ":" ++ toString s.column

/-- A span is valid when it has a line and a column. -/
def isValid (s : Span) : Bool :=
  decide (0 < s.line) && decide (0 < s.column)

/-- The same place, in `file` if the span names none. -/
def orFile (s : Span) (file : String) : Span :=
  if s.file = "" then { s with file := file } else s

end Span

end Guion
