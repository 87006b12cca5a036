import Guion.Diagnostic.Formatter
import Guion.Parser.Journal

/-!
# Guion.Settings.Basic — what users can set

The settings say which file name the parser reports, how much a formatter shows, and what is
logged. They are checked as a whole: `Settings.check` finds the first one that cannot be used, and
settings that pass it give a logger (`Settings.logger?`) and a formatter as they are.
-/

namespace Guion

/-- The settings of the parser. -/
structure ParserSettings where
  /-- The file that spans name. -/
  file : Text.Raw := ""
  deriving DecidableEq, Inhabited

/-- The settings of the log. -/
structure LogSettings where
  /-- The name of the least level that is written. -/
  level : Text.Raw := "info"
  /-- The name of the style; `text` when empty. -/
  format : Text.Raw := "text"
  deriving DecidableEq, Inhabited

/-- All settings, each with the value it has when nobody sets it. -/
structure Settings where
  parser : ParserSettings := {}
  diagnostics : FormatOptions := {}
  log : LogSettings := {}
  deriving DecidableEq, Inhabited

namespace Settings

/-- A setting that cannot be used. -/
inductive Fault where
  | negativeContext (lines : Int)
  | unknownLevel (name : Text.Raw)
  | unknownFormat (name : Text.Raw)
  deriving DecidableEq, Inhabited

/-- The fault in words. -/
def Fault.message : Fault → String
  | negativeContext lines =>
    "diagnostics.context_lines must not be negative, got " ++ toString lines
  | unknownLevel name => "log.level: " ++ Log.Level.unknownMessage name
  | unknownFormat name => "log.format must be \"text\" or \"json\", got " ++ name.quote

/-- The first setting that cannot be used, if there is one. -/
def check (s : Settings) : Except Fault Unit :=
  if s.diagnostics.contextLines < 0 then .error (.negativeContext s.diagnostics.contextLines)
  else if (Log.Level.parse? s.log.level.toString).isNone then .error (.unknownLevel s.log.level)
  else if s.log.format.toString ∈ ["", "text", "json"] then .ok ()
  else .error (.unknownFormat s.log.format)

/-- The logger that the settings describe. Only an unknown level stands in its way. -/
def logger? (s : Settings) : Except Fault Log.Logger :=
  match Log.Level.parse? s.log.level.toString with
  | some level => .ok { threshold := some level, style := .ofName s.log.format.toString }
  | none => .error (.unknownLevel s.log.level)

end Settings

/-- One thing that a caller can choose about the parser. -/
inductive Parser.Setting where
  | file (name : Text.Raw)
  | logger (logger : Log.Logger)
  deriving Inhabited

/-- What the settings and a logger, where there is one, choose about the parser. -/
def Settings.parserSettings (s : Settings) (logger : Option Log.Logger) : List Parser.Setting :=
  (if s.parser.file = "" then [] else [.file s.parser.file]) ++ (logger.map .logger).toList

/-! ## Running the parser under settings -/

/-- What reading a text under settings gives. -/
structure Session where
  program : Program
  /-- The parser after the whole text. -/
  parser : Parser
  /-- The lines that were logged. -/
  log : List String

namespace Session

/-- The file that was chosen last; none if no file was chosen. -/
def file (settings : List Parser.Setting) : Text.Raw :=
  settings.foldl (fun file setting => match setting with | .file name => name | _ => file) ""

/-- The logger that was chosen last; one that writes nothing if no logger was chosen. -/
def logger (settings : List Parser.Setting) : Log.Logger :=
  settings.foldl (fun logger setting => match setting with | .logger l => l | _ => logger) .discard

/-- Reads a text as the settings ask. -/
def run (settings : List Parser.Setting) (text : String) : Session :=
  let read := (Parser.ofText text (file settings).toString).program
  let journal := Parser.journal (file settings) read.value read.parser.errors
  ⟨read.value, read.parser, ((logger settings).withAttributes [Parser.component]).lines journal⟩

end Session

end Guion
