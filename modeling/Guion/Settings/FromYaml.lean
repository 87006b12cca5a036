import Guion.Settings.Draft

/-!
# Guion.Settings.FromYaml — settings in a YAML document

Settings stand in the mappings `parser`, `diagnostics` and `log`, under names that must match
exactly. Nothing where a value could be leaves a setting as it is. A mapping can merge others into
itself (the key `<<`); its own entries win over merged ones, and earlier ones over later ones.
-/

namespace Guion.Settings.FromYaml

open Yaml (Meaning)

/-! ## Keys -/

/-- Whether two keys count as the same before they are read. -/
def sameKey : Yaml.Node → Yaml.Node → Bool
  | .scalar _ a, .scalar _ b => a = b
  | .sequence _, .sequence _ => true
  | .mapping _, .mapping _ => true
  | .aliasTo a _ _, .aliasTo b _ _ => a = b
  | _, _ => false

/-- Whether a key occurs twice. -/
def hasRepeats : List (Yaml.Node × Yaml.Node) → Bool
  | [] => false
  | (key, _) :: rest => rest.any (fun (other, _) => sameKey key other) || hasRepeats rest

/-- Whether a key asks for a merge. -/
def isMerge : Yaml.Node → Bool
  | .scalar tag text => tag = "!!merge" && text = "<<"
  | _ => false

/-- Reads a key. It has no name if it is nothing at all, and none if it is a collection, which is a
slip. -/
def name? (c : Context) (d : Draft) (key : Yaml.Node) : Option (Draft × Option Text.Raw) := do
  let (_, d, key) ← enter? c d key
  match key with
  | .scalar tag text =>
    match ← Meaning.ofScalar? tag text with
    | .null => return (d, none)
    | .text value => return (d, some value)
    | _ => return (d, some text)
  | _ => return (d.slip, none)

/-- Reads the keys of a mapping again before others are merged into it. Collections cannot be
compared with names and are grave errors here, but for mappings that cannot be used anyhow. -/
def names? (c : Context) (d : Draft) :
    List (Yaml.Node × Yaml.Node) → Option (Draft × List Text.Raw)
  | [] => some (d, [])
  | (key, _) :: rest => do
    let (_, d, target) ← enter? c d key
    let name ← match target with
      | .scalar tag text => (Meaning.ofScalar? tag text).map fun
        | .text value => some value
        | _ => none
      | .mapping entries => if hasRepeats entries then some none else none
      | _ => none
    let (d, names) ← names? c d rest
    return (d, name.toList ++ names)

/-! ## Records -/

/-- The readers for the names of a record. -/
abbrev Readers := List (String × Reader)

/-- Takes the entries of one mapping into a draft, but for its merge. Names in `merged` are passed
over if the mapping is merged into another, and `done` are the names that it has set itself. -/
def entries? (readers : Readers) (c : Context) (merged : Option (List Text.Raw))
    (done : List Text.Raw) (d : Draft) :
    List (Yaml.Node × Yaml.Node) → Option (Draft × Option (List Text.Raw))
  | [] => some (d, merged)
  | (key, value) :: rest =>
    if isMerge key then entries? readers c merged done d rest
    else do
      let (d, name) ← name? c d key
      match name with
      | none => entries? readers c merged done d rest
      | some name =>
        if merged.any (·.contains name) then entries? readers c merged done d rest
        else
          let merged := merged.map (name :: ·)
          match readers.lookup name.toString with
          | none => entries? readers c merged done d.slip rest
          | some read =>
            if done.contains name then entries? readers c merged done d.slip rest
            else entries? readers c merged (name :: done) (← read c d value) rest

mutual

/-- Takes a mapping and those merged into it into a draft, through at most `left` aliases. `merged`
are the names that win over its own, if it is merged into another itself. -/
def mapping? (readers : Readers) (left : Nat) (c : Context) (merged : Option (List Text.Raw))
    (d : Draft) (entries : List (Yaml.Node × Yaml.Node)) :
    Option (Draft × Option (List Text.Raw)) :=
  if hasRepeats entries then some (d.slip, merged)
  else do
    let (d, merged) ← entries? readers c merged [] d entries
    if !entries.any fun (key, _) => isMerge key then return (d, merged)
    match merged with
    | some names => merges? readers left c names d entries
    | none =>
      let (d, names) ← names? c d entries
      let (d, _) ← merges? readers left c names d entries
      return (d, none)
termination_by (left, sizeOf entries, 1)

/-- Takes what entries merge into a draft. -/
def merges? (readers : Readers) (left : Nat) (c : Context) (merged : List Text.Raw) (d : Draft)
    (entries : List (Yaml.Node × Yaml.Node)) : Option (Draft × Option (List Text.Raw)) :=
  match entries with
  | [] => some (d, some merged)
  | (key, value) :: rest =>
    if !isMerge key then merges? readers left c merged d rest
    else match value with
      | .sequence items => sources? readers left c merged d items
      | value => source? readers left c merged d value
termination_by (left, sizeOf entries, 0)

/-- Takes the mappings of a list into a draft. -/
def sources? (readers : Readers) (left : Nat) (c : Context) (merged : List Text.Raw) (d : Draft)
    (items : List Yaml.Node) : Option (Draft × Option (List Text.Raw)) :=
  match items with
  | [] => some (d, some merged)
  | item :: rest =>
    match source? readers left c merged d item with
    | some (d, some merged) => sources? readers left c merged d rest
    | _ => none
termination_by (left, sizeOf items, 0)

/-- Takes a mapping that is merged into another into a draft; nothing else can be merged. -/
def source? (readers : Readers) (left : Nat) (c : Context) (merged : List Text.Raw) (d : Draft)
    (node : Yaml.Node) : Option (Draft × Option (List Text.Raw)) :=
  match node with
  | .mapping entries => (d.visit? c).bind fun d => mapping? readers left c (some merged) d entries
  | .aliasTo name number target =>
    match left, c.node target with
    | left + 1, .mapping entries =>
      (enter? c d (.aliasTo name number target)).bind fun (c, d, _) =>
        mapping? readers left c (some merged) d entries
    | _, _ => none
  | _ => none
termination_by (left, sizeOf node, 0)

end

/-- The reader for a mapping with the given names. -/
def record (readers : Readers) : Reader := fun c d node => do
  let (c, d, node) ← enter? c d node
  match node with
  | .scalar tag text =>
    let meaning ← Meaning.ofScalar? tag text
    return if meaning = .null then d else d.slip
  | .mapping entries => return (← mapping? readers c.left c none d entries).1
  | _ => return d.slip

/-! ## Values -/

/-- The text of a scalar. Whatever it means, its own text is meant, but for encoded ones. -/
def textOf : Meaning → String → Text.Raw
  | .text value, _ => value
  | _, text => text

/-- The integer that a number is without its fraction. Numbers below the 64-bit integers, and the
one just above them, become the least of these. -/
def integerOf? : Meaning → Option Int
  | .integer n => Text.int64? n
  | .decimal d =>
    if Word.bound < d.truncated then none
    else some ((Text.int64? d.truncated).getD (-Word.bound))
  | .infinity true => some (-Word.bound)
  | _ => none

/-- The truth value of a scalar; several words stand for one too. -/
def booleanOf? : Meaning → Option Bool
  | .boolean b => some b
  | .text value =>
    if value.toString ∈ ["y", "Y", "yes", "Yes", "YES", "on", "On", "ON"] then some true
    else if value.toString ∈ ["n", "N", "no", "No", "NO", "off", "Off", "OFF"] then some false
    else none
  | _ => none

/-! ## Settings -/

/-- The reader for a whole document. -/
def document : Reader :=
  record
    [("parser", record
      [("filename", setting fun s meaning text =>
        some { s with parser.file := textOf meaning text })]),
     ("diagnostics", record
      [("context_lines", setting fun s meaning _ => (integerOf? meaning).map fun n =>
        { s with diagnostics.contextLines := n }),
       ("show_help", setting fun s meaning _ => (booleanOf? meaning).map fun b =>
        { s with diagnostics.showHelp := b })]),
     ("log", record
      [("level", setting fun s meaning text =>
        some { s with log.level := textOf meaning text }),
       ("format", setting fun s meaning text =>
        some { s with log.format := textOf meaning text })])]

/-- The settings that a YAML document makes of `s`. -/
def decode (text : String) (s : Settings) : Except DecodeError Settings :=
  match Yaml.Document.parse? text with
  | none => .error .malformed
  | some none => .ok s
  | some (some content) =>
    match document { document := content } { settings := s } content.root with
    | none => .error .malformed
    | some d => if d.slipped then .error .mistyped else .ok d.settings

end Guion.Settings.FromYaml

namespace Guion.Settings

/-- The decoders for the two formats. -/
def Decoders.standard : Decoders where
  toml := FromToml.decode
  yaml := FromYaml.decode

end Guion.Settings
