import Guion.Diagnostic.Excerpt
import Guion.Disk

/-!
# Guion.Diagnostic.Formatter — diagnostics for readers

A formatter writes a diagnostic as a header, an excerpt of each file that its labelled places are
in, and its notes and help. It looks file texts up in its cache first and on the disk after that; a
text read from the disk goes into the cache, so it is read once. A failed attempt leaves the cache
as it was. A text without a name is never looked for on the disk.

Texts of files are bytes. They are cut into lines and written as they are, whether or not all bytes
belong to characters.

* `Formatter.load` — the text of a file;
* `Formatter.format`, `Formatter.formatAll` — diagnostics as text.
-/

namespace Guion

/-- How much a formatter shows. -/
structure FormatOptions where
  /-- How many lines are shown before and after the lines that carry places. -/
  contextLines : Int := 2
  /-- Whether notes and help are shown. -/
  showHelp : Bool := true
  deriving DecidableEq, Inhabited

/-- Why a formatter has no text for a file. -/
inductive SourceError where
  /-- A text without a name can only come from the cache. -/
  | unnamed
  | unreadable (error : FileError)
  deriving DecidableEq, Inhabited

/-- The failure in words. -/
def SourceError.message : SourceError → String
  | unnamed => "file does not exist"
  | unreadable error => error.message

/-- Whether the file is simply not there. -/
def SourceError.isNotFound : SourceError → Bool
  | unnamed => true
  | unreadable error => error.isNotFound

/-- The options and the texts known so far. -/
structure Formatter where
  options : FormatOptions := {}
  /-- The texts by file name, the latest first. -/
  sources : List (String × Text.Raw) := []
  deriving Inhabited

namespace Formatter

/-- A formatter that knows no texts. It shows no context if asked for a negative amount. -/
def ofOptions (options : FormatOptions) : Formatter :=
  { options := { options with contextLines := max 0 options.contextLines } }

/-- Makes `text` the text of `file`. -/
def addSource (f : Formatter) (file : String) (text : Text.Raw) : Formatter :=
  { f with sources := (file, text) :: f.sources }

/-- The text of `file`, from the cache or from the disk, and the formatter that remembers it. -/
def load (disk : Disk Text.Raw) (f : Formatter) (file : String) :
    Except SourceError Text.Raw × Formatter :=
  match f.sources.lookup file with
  | some text => (.ok text, f)
  | none =>
    if file = "" then (.error .unnamed, f)
    else match disk file with
      | .ok text => (.ok text, f.addSource file text)
      | .error e => (.error (.unreadable e), f)

/-- The first row: severity, code and message. -/
def header (d : Diagnostic) : Text.Raw :=
  let code := if d.code = "" then "" else "[" ++ d.code ++ "]"
  (d.severity.orError.name ++ code ++ ": " ++ d.message : String)

/-- The row for the diagnostic's own place. -/
def ownPlace (d : Diagnostic) : Text.Raw :=
  ("  --> " ++ d.span.toText : String)

/-- The labelled places that are shown: those of the diagnostic, or else its own place. -/
def shownLabels (d : Diagnostic) : List Label :=
  if !d.labels.isEmpty then d.labels
  else if d.span.isValid then [⟨d.span, "", .primary⟩]
  else []

/-- The files of labelled places, in the order in which they first appear. -/
def files (labels : List Label) : List String :=
  (labels.map (·.span.file)).eraseDups

/-- The rows for the places of one file: an excerpt, or only the diagnostic's own place if the file
cannot be read. -/
def fileRows (disk : Disk Text.Raw) (f : Formatter) (d : Diagnostic) (file : String) :
    List Text.Raw × Formatter :=
  match f.load disk file with
  | (.ok text, f) =>
    (Excerpt.rows f.options.contextLines file text
      ((shownLabels d).filter (·.span.file = file)), f)
  | (.error _, f) => ([ownPlace d], f)

/-- The rows for the places of several files. -/
def filesRows (disk : Disk Text.Raw) (f : Formatter) (d : Diagnostic) :
    List String → List Text.Raw × Formatter
  | [] => ([], f)
  | file :: rest =>
    let first := fileRows disk f d file
    let others := filesRows disk first.2 d rest
    (first.1 ++ others.1, others.2)

/-- The last rows: notes and help. -/
def helpRows (options : FormatOptions) (d : Diagnostic) : List Text.Raw :=
  let help := if d.help = "" then [] else ["help: " ++ d.help]
  if options.showHelp then (d.notes.map ("  = note: " ++ ·) ++ help).map .ofString else []

/-- The rows of a diagnostic. -/
def rows (disk : Disk Text.Raw) (f : Formatter) (d : Diagnostic) : List Text.Raw × Formatter :=
  let excerpts := filesRows disk f d (files (shownLabels d))
  (header d :: excerpts.1 ++ helpRows f.options d, excerpts.2)

/-- Rows as text, each ending in a line feed. -/
def ofRows (rows : List Text.Raw) : Text.Raw :=
  .join (rows.map (· ++ ("\n" : String)))

/-- A diagnostic as text, and the formatter with the texts it has read. -/
def format (disk : Disk Text.Raw) (f : Formatter) (d : Diagnostic) : Text.Raw × Formatter :=
  let written := f.rows disk d
  (ofRows written.1, written.2)

/-- Diagnostics as text, with an empty line between any two. -/
def formatAll (disk : Disk Text.Raw) (f : Formatter) : List Diagnostic → Text.Raw × Formatter
  | [] => ("", f)
  | [d] => f.format disk d
  | d :: ds =>
    let first := f.format disk d
    let rest := first.2.formatAll disk ds
    (first.1 ++ ("\n" : String) ++ rest.1, rest.2)

end Formatter

end Guion
