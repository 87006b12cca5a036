import Guion.Settings.Load
import Guion.Yaml.Meaning

/-!
# Guion.Settings.Draft — settings in the making

Settings are made by visiting the nodes of a document, one after the other. Visiting goes on after a
value of the wrong type or a name that is no setting, since there are graver errors that may come
later: a scalar that does not fit its tag, an alias inside the node that it stands for, or too many
visits to the same few nodes through aliases. So a `Draft` has the settings so far and whether there
was a slip.

* `enter?` — the visit to a node, or through an alias to the node that it stands for;
* `Reader` — what takes a node into a draft.
-/

namespace Guion.Settings.FromYaml

open Yaml (Meaning)

/-- The settings so far. -/
structure Draft where
  settings : Settings
  /-- Whether a value of the wrong type or an unknown name was met. -/
  slipped : Bool := false
  /-- The number of visits to nodes; the document itself is the first. -/
  visits : Nat := 1
  /-- The number of visits inside of aliases. -/
  aliased : Nat := 0
  deriving DecidableEq, Inhabited

/-- Where a visit takes place. -/
structure Context where
  document : Yaml.Document
  /-- The numbers of the aliases through which the place was reached, the innermost first. -/
  inside : List Nat := []

namespace Draft

/-- Notes a slip. -/
def slip (d : Draft) : Draft :=
  { d with slipped := true }

/-- Whether too many visits are inside of aliases: more than 99 percent of them. Of more than 400000
visits fewer may be, down to 10 percent of 4000000. -/
def overuses (d : Draft) : Bool :=
  let span := 3600000
  let excess := min span (d.visits - 400000)
  100 < d.aliased && 1000 < d.visits
    && d.visits * (99 * span - 89 * excess) < 100 * span * d.aliased

/-- Counts a visit. -/
def visit? (d : Draft) (c : Context) : Option Draft :=
  let d := { d with
    visits := d.visits + 1
    aliased := if c.inside.isEmpty then d.aliased else d.aliased + 1 }
  if d.overuses then none else some d

end Draft

namespace Context

/-- The node with a number. -/
def node (c : Context) (number : Nat) : Yaml.Node :=
  c.document.anchored.getD number .empty

/-- The number of aliases through which no more has gone yet. -/
def left (c : Context) : Nat :=
  c.document.aliases - c.inside.length

/-- Goes through an alias. -/
def through (c : Context) (number : Nat) : Context :=
  { c with inside := number :: c.inside }

end Context

/-- Visits a node: gives the node that is meant, where an alias may stand for it, and its place. -/
def enter? (c : Context) (d : Draft) (node : Yaml.Node) : Option (Context × Draft × Yaml.Node) := do
  let d ← d.visit? c
  match node with
  | .aliasTo _ number target =>
    guard (!c.inside.contains number)
    let d ← d.visit? (c.through number)
    return (c.through number, d, c.node target)
  | node => return (c, d, node)

/-- Takes a node into a draft; nothing comes of a grave error. -/
abbrev Reader := Context → Draft → Yaml.Node → Option Draft

/-- The reader for a setting, which a scalar of the right meaning sets. -/
def setting (set : Settings → Meaning → String → Option Settings) : Reader := fun c d node => do
  let (_, d, node) ← enter? c d node
  match node with
  | .scalar tag text =>
    let meaning ← Meaning.ofScalar? tag text
    if meaning = .null then return d
    match set d.settings meaning text with
    | some settings => return { d with settings }
    | none => return d.slip
  | _ => return d.slip

end Guion.Settings.FromYaml
