import Guion.Settings.Load

/-!
# Guion.Settings.Stepwise — settings read step by step

`Guion.Settings.Load` gives settings or an error. This module says how a machine gets there that
hands both back at once, a record of settings and maybe a failure. Its decoders write into the
record that they are given, and what they wrote stays there when they fail. So every exit has to say
what is in the record.

The decoders, what they say about a failure, and the files are parameters.

* `Decoders`, `Failure`, `Outcome` — what goes in and what comes out;
* `parse`, `load` — a text, and a file.
-/

namespace Guion.Settings.Stepwise

variable {χ ε : Type}

/-- Decoders that write into the settings at hand. -/
structure Decoders (χ ε : Type) where
  /-- Also gives the keys that name no setting. -/
  toml : χ → Settings → Settings × Except ε (List Toml.Key)
  yaml : χ → Settings → Settings × Option ε
  /-- Whether a failure only says that the text has no document. -/
  isEnd : ε → Bool

/-- Why there are no settings. -/
inductive Failure (ε : Type) where
  | emptyPath
  | unsupported
  /-- A decoder or the file system failed. -/
  | outside (error : ε)
  | unknownKey (key : Toml.Key)
  | invalid (fault : Fault)
  | under (heading : String) (failure : Failure ε)
  deriving DecidableEq

/-- The failure in words, given those for what comes from outside. -/
def Failure.text (words : ε → String) : Failure ε → String
  | emptyPath => "config file path cannot be empty"
  | unsupported => "unsupported config format"
  | outside error => words error
  | unknownKey key => "TOML parse error: unknown key " ++ Text.quote (Toml.Key.render key)
  | invalid fault => fault.message
  | under heading failure => heading ++ failure.text words

/-- What is handed back. -/
structure Outcome (ε : Type) where
  settings : Settings
  failure : Option (Failure ε) := none
  deriving DecidableEq

/-- A record that nothing has been written into. -/
def zero : Settings where
  parser := { file := "" }
  diagnostics := { contextLines := 0, showHelp := false }
  log := { level := "", format := "" }

/-- Gives up on the settings. -/
def Outcome.failed (failure : Failure ε) : Outcome ε :=
  ⟨zero, some failure⟩

/-- Hands settings back if all of them can be used. -/
def checked (s : Settings) : Outcome ε :=
  match s.check with
  | .error fault => .failed (.invalid fault)
  | .ok () => { settings := s }

/-- Reads settings from a text, starting from those that hold when nobody sets any. -/
def parse (d : Decoders χ ε) (content : χ) (format : Format) : Outcome ε :=
  match format with
  | .toml =>
    match d.toml content {} with
    | (_, .error e) => .failed (.under "TOML parse error: " (.outside e))
    | (_, .ok (key :: _)) => .failed (.unknownKey key)
    | (s, .ok []) => checked s
  | .yaml =>
    match d.yaml content {} with
    | (s, some e) =>
      if d.isEnd e then checked s else .failed (.under "YAML parse error: " (.outside e))
    | (s, none) => checked s
  | format => .failed (.under ("format " ++ format.name ++ ": ") .unsupported)

/-- Reads settings from the file at `path`. -/
def load (d : Decoders χ ε) (read : String → Except ε χ) (path : String) : Outcome ε :=
  if Text.trim path = "" then .failed .emptyPath
  else match Format.ofPath? path with
    | none => .failed (.under ("config file " ++ path ++ ": ") .unsupported)
    | some format =>
      match read path with
      | .error e => .failed (.under "failed to read config file: " (.outside e))
      | .ok content =>
        match parse d content format with
        | ⟨_, some failure⟩ => .failed (.under ("config file " ++ path ++ ": ") failure)
        | ⟨s, none⟩ => { settings := s }

end Guion.Settings.Stepwise
