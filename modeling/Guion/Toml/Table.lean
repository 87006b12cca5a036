import Guion.Toml.Document

/-!
# Guion.Toml.Table — what the lines of a document mean together

The lines of a document build one table. A header opens a table, and the pairs after it go there.
A table that only came about as the parent of another, or through a dotted key, is *implicit*: it
may be defined once more. Everything else is defined once, except that a key holding an array may
be given again.

The builder also keeps the keys in the order in which the document defines them, for readers that
want to know which of them nobody asked for.

* `Builder.define`, `Builder.enter` — setting a key and opening a table, with their rules;
* `Document.build?` — the table of a document and its keys.
-/

namespace Guion.Toml

/-- A value in a finished table. Readers of settings tell texts, integers and truth values apart
from each other and from the rest. -/
inductive Entry where
  | text (s : String)
  | integer (n : Int)
  | boolean (b : Bool)
  /-- A number with a fraction, a date, or an array. -/
  | other
  | table (entries : List (String × Entry))
  /-- An array of tables built by headers, the latest last. -/
  | tables (elements : List (List (String × Entry)))
  deriving Inhabited

/-- The entries of a table by name, in the order in which they were first set. -/
abbrev Table := List (String × Entry)

namespace Table

/-- Sets an entry, in its old place if the name has one. -/
def put (t : Table) (name : String) (entry : Entry) : Table :=
  if t.any (·.1 = name) then t.map fun e => if e.1 = name then (name, entry) else e
  else t ++ [(name, entry)]

/-- Changes the table at the end of a path. A path leads through tables, and through the latest
element of an array of tables; where it leads nowhere, tables are made if `make` says so. -/
def change? (make : Bool) : Key → (Table → Option Table) → Table → Option Table
  | [], f, t => f t
  | name :: path, f, t =>
    match t.lookup name with
    | some (.table inner) => (change? make path f inner).map fun inner => t.put name (.table inner)
    | some (.tables elements) =>
      elements.getLast?.bind fun last =>
        (change? make path f last).map fun last =>
          t.put name (.tables (elements.dropLast ++ [last]))
    | some _ => none
    | none => if make then (change? make path f []).map fun inner => t.put name (.table inner)
      else none

/-- The table at the end of a path. -/
def follow? : Key → Table → Option Table
  | [], t => some t
  | name :: path, t =>
    match t.lookup name with
    | some (.table inner) => follow? path inner
    | some (.tables elements) => elements.getLast?.bind (follow? path)
    | _ => none

end Table

/-- A document on the way to its table. -/
structure Builder where
  root : Table := []
  /-- The table that pairs go to. -/
  context : Key := []
  /-- The tables that may still be defined. -/
  implicit : List Key := []
  /-- Which keys hold arrays, the latest definition first. -/
  arrays : List (Key × Bool) := []
  /-- The keys that were defined, in order. -/
  ordered : List Key := []
  deriving Inhabited

namespace Builder

/-- Notes that a key may still be defined. -/
def addImplicit (b : Builder) (key : Key) : Builder :=
  { b with implicit := key :: b.implicit }

/-- Notes that a key is defined. -/
def removeImplicit (b : Builder) (key : Key) : Builder :=
  { b with implicit := b.implicit.filter (· ≠ key) }

/-- Notes whether a name in the present context holds an array. The empty name stands for the
context itself. -/
def setArray (b : Builder) (name : String) (isArray : Bool) : Builder :=
  let key := if name = "" then b.context else b.context ++ [name]
  { b with arrays := (if key.isEmpty then [""] else key, isArray) :: b.arrays }

/-- Whether a key holds an array. -/
def holdsArray (b : Builder) (key : Key) : Bool :=
  (b.arrays.lookup key).getD false

/-- Appends a key to those that were defined. -/
def record (b : Builder) (key : Key) : Builder :=
  { b with ordered := b.ordered ++ [key] }

/-- Sets a name in the present context. A name that is already there is overwritten if it holds an
array, and kept if it is implicit; nothing else may be set again. -/
def define (b : Builder) (name : String) (entry : Entry) : Option Builder := do
  let here ← b.root.follow? b.context
  let key := b.context ++ [name]
  if (here.lookup name).isNone || b.holdsArray key then
    let root ← b.root.change? false b.context fun t => some (t.put name entry)
    let b' := { b with root := root }
    return if (here.lookup name).isSome then b'.removeImplicit key else b'
  else if b.implicit.contains key then return b.removeImplicit key
  else none

/-- The parents of a key that lead nowhere yet. -/
def missingParents (b : Builder) (key : Key) : List Key :=
  ((List.range (key.length - 1)).map fun n => key.take (n + 1)).filter fun path =>
    match b.root.follow? path.dropLast with
    | some t => (t.lookup (path.getLastD "")).isNone
    | none => true

/-- Makes the table of a key the context: an element of an array of tables, or a table of its own.
Its parents are made where they are missing, and are implicit then. -/
def enter (b : Builder) (key : Key) (element : Bool) : Option Builder := do
  let parent := key.dropLast
  let name := key.getLastD ""
  let root ← b.root.change? true parent some
  let b := { b with
    root := root, context := parent, implicit := b.missingParents key ++ b.implicit }
  let b ←
    if element then
      let root ← b.root.change? false parent fun t =>
        match t.lookup name with
        | none => some (t.put name (.tables [[]]))
        | some (.tables elements) => some (t.put name (.tables (elements ++ [[]])))
        | some _ => none
      pure { b with root := root }
    else b.define name (.table [])
  return { b with context := key }

/-- Opens the tables that the parts of a dotted key but the last lead through, from the present
context on. -/
def enterDotted (b : Builder) : Key → Option Builder
  | [] => some b
  | name :: path => do
    let key := b.context ++ [name]
    let b ← (b.addImplicit key).enter key false
    b.enterDotted path

mutual

/-- The entry for a value of the key `name`, and the builder after it: the tables inside a value are
tables of the document as well. -/
def entry (b : Builder) (name : String) (inArray : Bool) : Value → Option (Entry × Builder)
  | .text s => some (.text s, b)
  | .integer n => some (.integer n, b)
  | .boolean v => some (.boolean v, b)
  | .float => some (.other, b)
  | .date => some (.other, b)
  | .array elements => do
    let b ← (b.setArray name true).entries name elements
    return (.other, b)
  | .inline pairs => do
    let outer := b.context
    let key := outer ++ [name]
    let b ← (b.addImplicit key).enter key inArray
    let (table, b) ← b.pairs [] pairs
    return (.table table, { b with context := outer })

/-- The builder after the elements of an array of the key `name`. -/
def entries (b : Builder) (name : String) : List Value → Option Builder
  | [] => some b
  | v :: vs => do
    let (_, b) ← b.entry name true v
    b.entries name vs

/-- The pairs of an inline table as a table after those of `own`, and the builder after them, of
which the inline table is the context. Inside of the table, no dotted key leads through an array. -/
def pairs (b : Builder) (own : Table) : List (Key × Value) → Option (Table × Builder)
  | [] => some (own, b)
  | (key, v) :: rest => do
    let outer := b.context
    let name := key.getLastD ""
    let b ← b.enterDotted key.dropLast
    let b := b.record (b.context ++ [name])
    let (e, b) ← b.entry name false v
    let b ← b.define name e
    let b := b.setArray name (v matches .array _)
    let own ← own.change? true key.dropLast fun t => some (t.put name e)
    { b with context := outer }.pairs own rest

end

/-- The builder after a line. -/
def line (b : Builder) : Line → Option Builder
  | .table key => do
    let b ← b.enter key false
    return (b.setArray "" false).record key
  | .element key => do
    let b ← b.enter key true
    return (b.setArray "" false).record key
  | .pair key v => (b.pairs [] [(key, v)]).map (·.2)

end Builder

/-- A document that was read: its table, and its keys in order. -/
structure Document where
  table : Table
  keys : List Key
  deriving Inhabited

/-- The document that a text spells, or nothing if it spells none. -/
def Document.parse? (text : String) : Option Document := do
  let lines ← Document.read? text
  let b ← lines.foldlM Builder.line {}
  return ⟨b.root, b.ordered⟩

end Guion.Toml
