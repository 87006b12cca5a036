import Guion.Log.Level

/-!
# Guion.Log.Record — log records and their two written forms

A record is a level, a message and attributes, which are keys with values. It is written on one
line, as text (`level=INFO msg=hola n=1`) or as a JSON object. A logger writes the records that are
at least as important as its threshold, with attributes of its own before theirs.

* `Style.write` — a record as a line;
* `Logger.lines` — the lines that a logger writes for a list of records.
-/

namespace Guion.Log

/-- The value of an attribute. -/
inductive Value where
  | text (s : Text.Raw)
  | int (n : Int)
  | bool (b : Bool)
  | null
  deriving DecidableEq, Inhabited

/-- A key with a value. -/
structure Attribute where
  key : String
  value : Value
  deriving DecidableEq, Inhabited

/-- An attribute without a key and without a value says nothing, and is not written. -/
def Attribute.isEmpty (a : Attribute) : Bool :=
  a.key = "" ∧ a.value = .null

/-- What is logged. -/
structure Record where
  level : Level
  message : String
  attributes : List Attribute := []
  deriving DecidableEq, Inhabited

/-- How records are written. -/
inductive Style where
  | text
  | json
  deriving DecidableEq, Inhabited

/-- The style with the given name; text unless the name is that of JSON. -/
def Style.ofName (name : String) : Style :=
  if name = "json" then json else text

/-! ## Text -/

/-- Whether a character can stand in an unquoted word of a text record. -/
def isPlain (c : Char) : Bool :=
  if c.toNat < 0x80 then c ≠ ' ' ∧ c ≠ '=' ∧ c ≠ '"' ∧ 0x20 ≤ c.toNat
  else c ≠ Text.replacement ∧ Text.isPrintable c

/-- A word of a text record: quoted if it is empty or shows a character that is not plain. -/
def word (s : Text.Raw) : String :=
  if s.items ≠ [] ∧ s.items.all fun item => isPlain item.shown then s.toString else s.quote

/-- A value in a text record. -/
def Value.toWord : Value → String
  | text s => word s
  | int n => toString n
  | bool b => if b then "true" else "false"
  | null => "<nil>"

/-- A record as text. -/
def Record.toText (r : Record) : String :=
  " ".intercalate
    (("level=" ++ r.level.title) :: ("msg=" ++ word r.message) ::
      r.attributes.map fun a => word a.key ++ "=" ++ a.value.toWord)

/-! ## JSON -/

/-- A character between the quotes of a JSON string. -/
def jsonChar (c : Char) : String :=
  if c = '"' then "\\\""
  else if c = '\\' then "\\\\"
  else if c = '\n' then "\\n"
  else if c = '\r' then "\\r"
  else if c = '\t' then "\\t"
  else if c.toNat < 0x20 ∨ c = '\u2028' ∨ c = '\u2029' then "\\u" ++ Text.hex 4 c.toNat
  else c.toString

/-- A text as a JSON string. A stray byte is escaped as the character that stands for it. -/
def jsonString (s : Text.Raw) : String :=
  "\"" ++ String.join (s.items.map fun
    | .char c => jsonChar c
    | .stray _ => "\\u" ++ Text.hex 4 Text.replacement.toNat) ++ "\""

/-- A value in a JSON record. -/
def Value.toJson : Value → String
  | text s => jsonString s
  | int n => toString n
  | bool b => if b then "true" else "false"
  | null => "null"

/-- A record as a JSON object. -/
def Record.toJson (r : Record) : String :=
  "\x7b" ++ ",".intercalate
    (("\"level\":" ++ jsonString r.level.title) :: ("\"msg\":" ++ jsonString r.message) ::
      r.attributes.map fun a => jsonString a.key ++ ":" ++ a.value.toJson) ++ "\x7d"

/-! ## Loggers -/

/-- A record as a line, without the attributes that say nothing. -/
def Style.write (style : Style) (r : Record) : String :=
  let shown := { r with attributes := r.attributes.filter (!·.isEmpty) }
  match style with
  | text => shown.toText
  | json => shown.toJson

/-- What is written, and how. -/
structure Logger where
  /-- The least level that is written; nothing is written without one. -/
  threshold : Option Level := some .info
  style : Style := .text
  /-- Attributes that precede those of every record. -/
  attributes : List Attribute := []
  deriving Inhabited

namespace Logger

/-- The logger that writes nothing. -/
def discard : Logger :=
  { threshold := none }

/-- The logger with further attributes of its own. -/
def withAttributes (logger : Logger) (attributes : List Attribute) : Logger :=
  { logger with attributes := logger.attributes ++ attributes }

/-- Whether records of a level are written. -/
def enabled (logger : Logger) (level : Level) : Bool :=
  logger.threshold.any fun least => least.rank ≤ level.rank

/-- The line for a record, if it is written. -/
def line? (logger : Logger) (r : Record) : Option String :=
  if logger.enabled r.level then
    some (logger.style.write { r with attributes := logger.attributes ++ r.attributes })
  else none

/-- The lines for records, in their order. -/
def lines (logger : Logger) (records : List Record) : List String :=
  records.filterMap logger.line?

end Logger

end Guion.Log
