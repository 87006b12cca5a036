import Guion.Span

/-!
# Guion.Diagnostic.Basic — what is wrong, and where

A diagnostic describes one fault for a reader: which phase found it, how grave it is, a stable code,
a message, a place, labelled places beside it, notes and a help text. Diagnostics are built by
chaining the `with…` operations, each of which adds at the end.

Stage, severity and label style are closed sets for this library. Diagnostics from outside may name
others, or none at all, so each has the cases `unset` and `other`.
-/

namespace Guion

/-- The phase that found a fault. -/
inductive Stage where
  | unset
  | lexer
  | parser
  | other (name : String)
  deriving DecidableEq, Inhabited

namespace Stage

/-- The name of a stage; empty when none is set. -/
def name : Stage → String
  | unset => ""
  | lexer => "lexer"
  | parser => "parser"
  | other name => name

/-- The stage with the given name. -/
def ofName (name : String) : Stage :=
  if name = "" then unset
  else if name = "lexer" then lexer
  else if name = "parser" then parser
  else other name

end Stage

/-- How grave a fault is. -/
inductive Severity where
  | unset
  | error
  | warning
  | note
  | other (name : String)
  deriving DecidableEq, Inhabited

namespace Severity

/-- The name of a severity; empty when none is set. -/
def name : Severity → String
  | unset => ""
  | error => "error"
  | warning => "warning"
  | note => "note"
  | other name => name

/-- The severity with the given name. -/
def ofName (name : String) : Severity :=
  if name = "" then unset
  else if name = "error" then error
  else if name = "warning" then warning
  else if name = "note" then note
  else other name

/-- A fault without a severity is an error. -/
def orError : Severity → Severity
  | unset => error
  | severity => severity

/-- Whether a fault of this severity is an error. -/
def isError (severity : Severity) : Bool :=
  severity.orError = error

end Severity

/-- How a labelled place is emphasised: a primary one with carets, a secondary one with tildes. -/
inductive LabelStyle where
  | unset
  | primary
  | secondary
  | other (name : String)
  deriving DecidableEq, Inhabited

namespace LabelStyle

/-- The name of a style; empty when none is set. -/
def name : LabelStyle → String
  | unset => ""
  | primary => "primary"
  | secondary => "secondary"
  | other name => name

/-- The style with the given name. -/
def ofName (name : String) : LabelStyle :=
  if name = "" then unset
  else if name = "primary" then primary
  else if name = "secondary" then secondary
  else other name

/-- A label without a style is primary. -/
def orPrimary : LabelStyle → LabelStyle
  | unset => primary
  | style => style

end LabelStyle

/-- A place with a text beside it. -/
structure Label where
  span : Span := {}
  /-- The text shown at the place; may be empty. -/
  text : String := ""
  style : LabelStyle := .unset
  deriving DecidableEq, Inhabited

/-- The description of a fault. -/
structure Diagnostic where
  stage : Stage := .unset
  severity : Severity := .unset
  /-- A stable identifier of the kind of fault; empty when it has none. -/
  code : String := ""
  message : String := ""
  /-- The place of the fault itself. -/
  span : Span := {}
  /-- Labelled places, in the order in which they were added. -/
  labels : List Label := []
  notes : List String := []
  /-- What to do about it; empty when there is nothing to say. -/
  help : String := ""
  deriving DecidableEq, Inhabited

namespace Diagnostic

/-- Adds a labelled place; a label without a style is primary. -/
def withLabel (d : Diagnostic) (span : Span) (text : String) (style : LabelStyle) : Diagnostic :=
  { d with labels := d.labels ++ [⟨span, text, style.orPrimary⟩] }

/-- Adds a place that is emphasised. -/
def withPrimary (d : Diagnostic) (span : Span) (text : String) : Diagnostic :=
  d.withLabel span text .primary

/-- Adds a place that gives context. -/
def withSecondary (d : Diagnostic) (span : Span) (text : String) : Diagnostic :=
  d.withLabel span text .secondary

/-- Adds a note. -/
def withNote (d : Diagnostic) (note : String) : Diagnostic :=
  { d with notes := d.notes ++ [note] }

/-- Sets the help text. -/
def withHelp (d : Diagnostic) (help : String) : Diagnostic :=
  { d with help := help }

/-- The fault in one line: its message, after its place where it has a valid one. -/
def toText (d : Diagnostic) : String :=
  if d.span.isValid then d.span.toText ++ ": " ++ d.message else d.message

end Diagnostic

end Guion
