import Guion.Settings.Basic
import Guion.Toml.Table

/-!
# Guion.Settings.FromToml — settings in a TOML document

Settings stand in the tables `parser`, `diagnostics` and `log`, under names that are compared
without regard to letter case. A value must have the type of its setting. Keys that name no setting
are handed back, in the order of the document.
-/

namespace Guion.Settings

/-- Why a text gives no settings: its form is wrong, or a value in it has the wrong type. -/
inductive DecodeError where
  | malformed
  | mistyped
  deriving DecidableEq, Inhabited

namespace FromToml

open Toml (Entry Table Key)

/-- The one of `names` that `key` means. -/
def named? (names : List String) (key : String) : Option String :=
  names.find? fun name => Text.fold name = Text.fold key

/-- Sets one thing of a table to an entry; nothing comes of an entry of the wrong type. -/
abbrev Setter := Settings → Entry → Option Settings

/-- The settings of each table, by name. -/
def sections : List (String × List (String × Setter)) :=
  [("parser",
    [("filename", fun s e => match e with
      | .text v => some { s with parser.file := v }
      | _ => none)]),
   ("diagnostics",
    [("context_lines", fun s e => match e with
      | .integer v => some { s with diagnostics.contextLines := v }
      | _ => none),
     ("show_help", fun s e => match e with
      | .boolean v => some { s with diagnostics.showHelp := v }
      | _ => none)]),
   ("log",
    [("level", fun s e => match e with
      | .text v => some { s with log.level := v }
      | _ => none),
     ("format", fun s e => match e with
      | .text v => some { s with log.format := v }
      | _ => none)])]

/-- The element of a list of named things that `key` means. -/
def find? {α : Type} (things : List (String × α)) (key : String) : Option α :=
  (named? (things.map (·.1)) key).bind fun name => things.lookup name

/-- The settings after the entries of one table, and the names that were used. -/
def section? (setters : List (String × Setter)) (s : Settings) (table : Table) :
    Option (Settings × List String) :=
  table.foldlM (fun (s, used) (key, entry) =>
    match find? setters key with
    | none => some (s, used)
    | some set => (set s entry).map fun s => (s, used ++ [key])) (s, [])

/-- The settings after the entries of a document, and the keys that were used. -/
def document? (s : Settings) (table : Table) : Option (Settings × List Key) :=
  table.foldlM (fun (s, used) (key, entry) =>
    match find? sections key, entry with
    | none, _ => some (s, used)
    | some setters, .table inner =>
      (section? setters s inner).map fun (s, names) =>
        (s, used ++ [key] :: names.map fun name => [key, name])
    | some _, _ => none) (s, [])

/-- The settings that a TOML document makes of `s`, and the keys of it that name no setting. -/
def decode (text : String) (s : Settings) : Except DecodeError (Settings × List Key) :=
  match Toml.Document.parse? text with
  | none => .error .malformed
  | some doc =>
    match document? s doc.table with
    | none => .error .mistyped
    | some (s, used) => .ok (s, doc.keys.filter fun key => !used.contains key)

end FromToml

end Guion.Settings
