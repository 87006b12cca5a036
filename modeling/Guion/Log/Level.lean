import Guion.Text.Blank
import Guion.Text.Case
import Guion.Text.Quoted

/-!
# Guion.Log.Level — how important a record is

There are four levels. Users name them in any letter case, with blanks around the name; no name at
all means `info`. A number that stands for no level is kept, and counts as `info` wherever levels
are compared.
-/

namespace Guion.Log

/-- The importance of a record, or the least importance that a logger writes. -/
inductive Level where
  | debug
  | info
  | warn
  | error
  /-- A number that stands for no level. -/
  | other (number : Int)
  deriving DecidableEq, Inhabited

namespace Level

/-- The level that a number stands for. -/
def ofNumber (number : Int) : Level :=
  if number = 0 then debug
  else if number = 1 then info
  else if number = 2 then warn
  else if number = 3 then error
  else other number

/-- The number that stands for a level. -/
def number : Level → Int
  | debug => 0
  | info => 1
  | warn => 2
  | error => 3
  | other number => number

/-- The name of a level in settings. -/
def name : Level → String
  | debug => "debug"
  | info => "info"
  | warn => "warn"
  | error => "error"
  | other number => "LogLevel(" ++ toString number ++ ")"

/-- The name of a level in records. -/
def title : Level → String
  | debug => "DEBUG"
  | warn => "WARN"
  | error => "ERROR"
  | _ => "INFO"

/-- The place of a level in the order of importance. -/
def rank : Level → Nat
  | debug => 0
  | warn => 2
  | error => 3
  | _ => 1

/-- The level that a name means, if it means one. -/
def parse? (name : String) : Option Level :=
  match Text.lower (Text.trim name) with
  | "debug" => some debug
  | "info" | "" => some info
  | "warn" | "warning" => some warn
  | "error" => some error
  | _ => none

/-- The objection to a name that means no level. -/
def unknownMessage (name : Text.Raw) : String :=
  "unknown log level " ++ name.quote

end Level

end Guion.Log
