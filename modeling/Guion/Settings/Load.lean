import Guion.Settings.FromToml

/-!
# Guion.Settings.Load — settings from texts and files

Settings are read from a text in a given format, or from a file whose extension names the format.
The text is decoded onto the default settings, a key that names no setting is an error, and the
result is checked. Every error of a file after it was found says which file it is in.

Decoding and files are parameters (`Decoders`, `Disk`): what is said here holds for any of them. The
decoders in use are `Decoders.standard`.
-/

namespace Guion.Settings

/-- The formats of settings. `auto` leaves the format to the extension of a file. -/
inductive Format where
  | toml
  | yaml
  | auto
  | other (number : Int)
  deriving DecidableEq, Inhabited

namespace Format

/-- The format with the given number. -/
def ofNumber (number : Int) : Format :=
  if number = 0 then toml
  else if number = 1 then yaml
  else if number = 2 then auto
  else other number

/-- The name of a format. -/
def name : Format → String
  | toml => "toml"
  | yaml => "yaml"
  | auto => "auto"
  | other _ => "unknown"

/-- The extension of a path: what follows the last dot of its last component, dot included. -/
def extension (path : String) : String :=
  let last := path.toList.reverse.takeWhile (· ≠ '/')
  if last.contains '.' then String.ofList ((last.takeWhile (· ≠ '.')).reverse.cons '.') else ""

/-- The format that the extension of a path names, in any letter case. -/
def ofPath? (path : String) : Option Format :=
  match Text.lower (extension path) with
  | ".yaml" | ".yml" => some yaml
  | ".toml" => some toml
  | _ => none

end Format

/-- Why there are no settings. -/
inductive Cause where
  | emptyPath
  | unsupported
  | unreadable (error : FileError)
  | undecodable (format : Format) (error : DecodeError)
  | unknownKey (key : Toml.Key)
  | invalid (fault : Fault)
  deriving DecidableEq, Inhabited

/-- The title of a format in messages. -/
def Format.title : Format → String
  | yaml => "YAML"
  | _ => "TOML"

/-- The cause in words. -/
def Cause.message : Cause → String
  | emptyPath => "config file path cannot be empty"
  | unsupported => "unsupported config format"
  | unreadable error => "failed to read config file: " ++ error.message
  | undecodable format _ => format.title ++ " parse error"
  | unknownKey key => "TOML parse error: unknown key " ++ Text.quote (Toml.Key.render key)
  | invalid fault => fault.message

/-- What an error is about: a file, a format, or neither in particular. -/
inductive Subject where
  | none
  | file (path : String)
  | format (format : Format)
  deriving DecidableEq, Inhabited

/-- How messages about a subject begin. -/
def Subject.heading : Subject → String
  | none => ""
  | file path => "config file " ++ path ++ ": "
  | format f => "format " ++ f.name ++ ": "

/-- A failed attempt to get settings. -/
structure Error where
  cause : Cause
  subject : Subject := .none
  deriving DecidableEq, Inhabited

/-- The failure in words. -/
def Error.message (e : Error) : String :=
  e.subject.heading ++ e.cause.message

/-- How texts become settings, given the settings they start from. -/
structure Decoders where
  /-- Also gives the keys that name no setting. -/
  toml : String → Settings → Except DecodeError (Settings × List Toml.Key)
  yaml : String → Settings → Except DecodeError Settings

/-- The settings themselves, if all of them can be used. -/
def checked (s : Settings) : Except Error Settings :=
  match s.check with
  | .ok () => .ok s
  | .error fault => .error ⟨.invalid fault, .none⟩

/-- The settings that a text spells in a format. -/
def parse (decoders : Decoders) (text : String) (format : Format) : Except Error Settings :=
  match format with
  | .toml =>
    match decoders.toml text {} with
    | .error e => .error ⟨.undecodable .toml e, .none⟩
    | .ok (_, key :: _) => .error ⟨.unknownKey key, .none⟩
    | .ok (s, []) => s.checked
  | .yaml =>
    match decoders.yaml text {} with
    | .error e => .error ⟨.undecodable .yaml e, .none⟩
    | .ok s => s.checked
  | format => .error ⟨.unsupported, .format format⟩

/-- The settings in the file at `path`. -/
def load (decoders : Decoders) (disk : Disk String) (path : String) : Except Error Settings :=
  if Text.trim path = "" then .error ⟨.emptyPath, .none⟩
  else match Format.ofPath? path with
    | none => .error ⟨.unsupported, .file path⟩
    | some format =>
      match disk path with
      | .error e => .error ⟨.unreadable e, .none⟩
      | .ok text => (parse decoders text format).mapError fun e => { e with subject := .file path }

end Guion.Settings
