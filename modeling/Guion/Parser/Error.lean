import Guion.Diagnostic.Basic
import Guion.Text.Quoted
import Guion.Token.Basic

/-!
# Guion.Parser.Error — what the parser objects to

A parse error names the token that was found where it did not fit. It keeps the place, the kind and
the literal of that token, so that the error can be shown without the token stream.

* `ParseError.unexpected`, `ParseError.unclosed`, `ParseError.unfit`, `ParseError.noExpression`,
  `ParseError.badInteger` — the errors that reading a program can record;
* `ParseError.toText` and `ParseError.toDiagnostic` — the two ways in which they are shown.
-/

namespace Guion

/-- The kinds of parse errors. -/
inductive ParseError.Kind where
  /-- Another token was required. -/
  | unexpectedToken
  /-- The token begins no expression. -/
  | noExpression
  /-- The numeral does not fit 64 bits. -/
  | invalidInteger
  /-- A kind of error that this parser does not report. -/
  | other (number : Int)
  deriving DecidableEq, Inhabited

namespace ParseError.Kind

/-- The kind with the given number. -/
def ofNumber (number : Int) : Kind :=
  if number = 0 then unexpectedToken
  else if number = 1 then noExpression
  else if number = 2 then invalidInteger
  else other number

/-- The name of a kind. -/
def name : Kind → String
  | unexpectedToken => "UnexpectedToken"
  | noExpression => "NoPrefixRule"
  | invalidInteger => "InvalidInteger"
  | other number => "ErrorKind(" ++ toString number ++ ")"

/-- The code of the diagnostics of a kind. -/
def code : Kind → String
  | unexpectedToken => "PARSE_UNEXPECTED_TOKEN"
  | noExpression => "PARSE_NO_PREFIX_RULE"
  | invalidInteger => "PARSE_INVALID_INTEGER"
  | other _ => "PARSE_UNKNOWN_ERROR"

end ParseError.Kind

/-- A second place that an error refers to, and what to say about it. -/
structure ParseError.Related where
  span : Span
  label : String
  deriving DecidableEq, Inhabited

/-- An objection of the parser. -/
structure ParseError where
  kind : ParseError.Kind
  message : String
  /-- The place of the token that was found. -/
  span : Span
  /-- The kind of token that was required, where there was only one. -/
  expected : Option TokenKind := none
  /-- The kind of the token that was found. -/
  found : TokenKind
  /-- The literal of the token that was found. -/
  literal : String
  severity : Severity := .error
  /-- A place such as that of the brace that was left open. -/
  related : Option ParseError.Related := none
  deriving DecidableEq, Inhabited

namespace ParseError

/-! ## The errors of reading a program -/

/-- The message that asks for one kind of token where another stands. -/
def missingMessage (expected found : TokenKind) : String :=
  "expected next token to be " ++ expected.name ++ ", got " ++ found.name ++ " instead"

/-- `expected` was required where `found` stands. -/
def unexpected (expected : TokenKind) (found : Token) : ParseError where
  kind := .unexpectedToken
  message := missingMessage expected found.kind
  span := found.span
  expected := if expected.name = "" then none else some expected
  found := found.kind
  literal := found.literal

/-- `expected` was required where `found` stands, to close what `opening` opened. -/
def unclosed (expected : TokenKind) (found opening : Token) : ParseError :=
  { unexpected expected found with
    related := some ⟨opening.span, "`" ++ opening.literal ++ "` opened here"⟩ }

/-- A token stands where any of several kinds would have fitted. -/
def unfit (message : String) (found : Token) : ParseError where
  kind := .unexpectedToken
  message := message
  span := found.span
  found := found.kind
  literal := found.literal

/-- A token stands where an expression was required, and begins none. -/
def noExpression (found : Token) : ParseError where
  kind := .noExpression
  message := "no prefix parse function for " ++ found.kind.name ++ " found"
  span := found.span
  found := found.kind
  literal := found.literal

/-- A numeral is not a 64-bit integer. -/
def badInteger (found : Token) : ParseError where
  kind := .invalidInteger
  message := "could not parse " ++ Text.quote found.literal ++ " as integer"
  span := found.span
  found := found.kind
  literal := found.literal

/-- The same error, in `file` wherever a place of it names no file. -/
def orFile (e : ParseError) (file : String) : ParseError :=
  { e with
    span := e.span.orFile file
    related := e.related.map fun r => { r with span := r.span.orFile file } }

/-! ## Showing an error -/

/-- The place and the message, in one line. -/
def toText (e : ParseError) : String :=
  e.span.toText ++ ": " ++ e.message

/-- The text at the place of the error. -/
def label (e : ParseError) : String :=
  match e.kind with
  | .unexpectedToken => (e.expected.map fun kind => "expected `" ++ kind.name ++ "`").getD ""
  | .noExpression => "not an expression"
  | .invalidInteger => "does not fit in 64 bits"
  | .other _ => ""

/-- What else there is to say about the token that was found. -/
def note? (e : ParseError) : Option String :=
  if e.found = .illegal then some ("illegal character " ++ Text.quote e.literal)
  else if e.found = .eof then some "input ended here"
  else if e.expected = some .ident ∧ e.found.isKeyword then
    some ("`" ++ e.literal ++ "` is a reserved word")
  else none

/-- What would have fitted. -/
def help? (e : ParseError) : Option String :=
  if e.kind = .unexpectedToken then
    e.expected.map fun kind => "expected `" ++ kind.name ++ "` here"
  else none

/-- The error as a diagnostic. -/
def toDiagnostic (e : ParseError) : Diagnostic where
  stage := .parser
  severity := e.severity
  code := e.kind.code
  message := e.message
  span := e.span
  labels := ⟨e.span, e.label, .primary⟩ ::
    (e.related.map fun r => (⟨r.span, r.label, .secondary⟩ : Label)).toList
  notes := e.note?.toList
  help := e.help?.getD ""

end ParseError

end Guion
